import DebugSymbols.Proofs.Text.Lines

/-!
# Comments

What of a text is outside `/* */`. In a spaced text a slash only begins a comment
to the end of its line, with a blank behind, so none of it is inside `/* */`.
-/

namespace DebugSymbols.Text

inductive Place where
  | code
  | line
  | block

/-- The characters outside `/* */`. A comment to the end of a line is one of them,
and in it no other begins. -/
def outside : Place → List Char → List Char
  | _, [] => []
  | .code, '/' :: '*' :: cs => outside .block cs
  | .code, '/' :: '/' :: cs => '/' :: '/' :: outside .line cs
  | .code, c :: cs => c :: outside .code cs
  | .line, c :: cs => c :: outside (if c = '\n' then .code else .line) cs
  | .block, '*' :: '/' :: cs => outside .code cs
  | .block, _ :: cs => outside .block cs

def uncommented (text : String) : String :=
  String.ofList (outside .code text.toList)

inductive SpacedChars : List Char → Prop
  | nil : SpacedChars []
  | cons {c : Char} {cs : List Char} (hc : c ≠ '/') (h : SpacedChars cs) : SpacedChars (c :: cs)
  | comment {cs : List Char} (h : SpacedChars cs) : SpacedChars ('/' :: '/' :: ' ' :: cs)

def Spaced (text : String) : Prop :=
  SpacedChars text.toList

def Lacks (c : Char) (text : String) : Prop :=
  c ∉ text.toList

instance (c : Char) (text : String) : Decidable (Lacks c text) :=
  inferInstanceAs (Decidable (_ ∉ _))

variable {s t : String}

/-! ## Spaced texts -/

theorem SpacedChars.append {cs ds : List Char} (hc : SpacedChars cs) (hd : SpacedChars ds) : SpacedChars (cs ++ ds) := by
  induction hc with
  | nil => exact hd
  | cons hc _ ih => exact .cons hc ih
  | comment _ ih => exact .comment ih

theorem Spaced.append (hs : Spaced s) (ht : Spaced t) : Spaced (s ++ t) := by
  unfold Spaced
  rw [String.toList_append]
  exact SpacedChars.append hs ht

theorem Lacks.append {c : Char} (hs : Lacks c s) (ht : Lacks c t) : Lacks c (s ++ t) := by
  unfold Lacks
  rw [String.toList_append, List.mem_append]
  exact fun h => h.elim hs ht

theorem Clean.lacks {c : Char} (hc : ¬ IsWord c) (h : Clean s) : Lacks c s :=
  fun hmem => hc (h c hmem)

theorem lacks_toString_int (n : Int) : Lacks '/' (toString n) := by
  have hdigits (m : Nat) : Lacks '/' (toString m) := (clean_toString m).lacks (by decide)
  cases n with
  | ofNat m => exact hdigits m
  | negSucc m => exact Lacks.append (s := "-") (by decide) (hdigits (m + 1))

theorem Lacks.spaced (h : Lacks '/' s) : Spaced s := by
  have hchars : ∀ cs : List Char, '/' ∉ cs → SpacedChars cs := by
    intro cs hcs
    induction cs with
    | nil => exact .nil
    | cons c cs ih =>
      obtain ⟨hc, hcs⟩ := List.ne_and_not_mem_of_not_mem_cons hcs
      exact .cons hc.symm (ih hcs)
  exact hchars _ h

theorem Clean.spaced (h : Clean s) : Spaced s :=
  (h.lacks (by decide)).spaced

theorem spaced_comment (h : Spaced s) : Spaced ("// " ++ s) := by
  unfold Spaced
  rw [String.toList_append]
  exact SpacedChars.comment h

theorem spaced_indent (depth : Nat) : Spaced (indent depth) := by
  refine Lacks.spaced fun hmem => ?_
  rw [indent, String.toList_ofList] at hmem
  exact absurd (List.eq_of_mem_replicate hmem) (by decide)

theorem spaced_join {ss : List String} (h : ∀ s ∈ ss, Spaced s) : Spaced (String.join ss) := by
  induction ss with
  | nil => exact SpacedChars.nil
  | cons s ss ih =>
    obtain ⟨hs, hss⟩ := List.forall_mem_cons.mp h
    rw [String.join_cons]
    exact hs.append (ih hss)

theorem spaced_intercalate {sep : String} (hsep : Spaced sep) {ss : List String} (h : ∀ s ∈ ss, Spaced s) :
    Spaced (sep.intercalate ss) := by
  induction ss with
  | nil => exact SpacedChars.nil
  | cons s ss ih =>
    obtain ⟨hs, hss⟩ := List.forall_mem_cons.mp h
    cases ss with
    | nil => simpa using hs
    | cons t ss =>
      rw [String.intercalate_cons_cons]
      exact (hs.append hsep).append (ih hss)

/-! ## Outside comments -/

theorem outside_eq_of_spacedChars {cs : List Char} (h : SpacedChars cs) {p : Place} (hp : p ≠ .block) :
    outside p cs = cs := by
  induction h generalizing p with
  | nil => cases p <;> rfl
  | cons hc _ ih =>
    cases p with
    | code =>
      rw [outside, ih (by simp)]
      · exact fun _ heq _ => hc heq
      · exact fun _ heq _ => hc heq
    | line =>
      rw [outside, ih]
      split <;> simp
    | block => exact absurd rfl hp
  | comment _ ih =>
    have hblank : (' ' : Char) ≠ '\n' := by decide
    have hslash : ('/' : Char) ≠ '\n' := by decide
    cases p with
    | code => rw [outside, outside, if_neg hblank, ih (by simp)]
    | line => rw [outside, if_neg hslash, outside, if_neg hslash, outside, if_neg hblank, ih (by simp)]
    | block => exact absurd rfl hp

theorem Spaced.uncommented_eq (h : Spaced s) : uncommented s = s := by
  unfold uncommented
  rw [outside_eq_of_spacedChars h (by simp), String.ofList_toList]

theorem outside_block_of_noStar {cs : List Char} (h : '*' ∉ cs) (ds : List Char) :
    outside .block (cs ++ ds) = outside .block ds := by
  induction cs with
  | nil => rfl
  | cons c cs ih =>
    obtain ⟨hc, hcs⟩ := List.ne_and_not_mem_of_not_mem_cons h
    rw [List.cons_append, outside, ih hcs]
    exact fun _ heq _ => hc heq.symm

theorem outside_block_of_noSlash {cs : List Char} (h : '/' ∉ cs) (ds : List Char) :
    outside .block (cs ++ '\n' :: ds) = outside .block ds := by
  induction cs with
  | nil =>
    rw [List.nil_append, outside]
    exact fun _ heq _ => absurd heq (by decide)
  | cons c cs ih =>
    obtain ⟨_, hcs⟩ := List.ne_and_not_mem_of_not_mem_cons h
    rw [List.cons_append, outside, ih hcs]
    intro es _ heq
    cases cs with
    | nil => exact absurd (List.cons.inj heq).1 (by decide)
    | cons d cs => exact (List.ne_and_not_mem_of_not_mem_cons hcs).1 (List.cons.inj heq).1.symm

theorem uncommented_comment {first rest : String} (hfirst : Lacks '*' first) (hrest : Lacks '/' rest) :
    uncommented ("/*\n" ++ (first ++ (rest ++ "\n")) ++ "*/\n\n") = "\n\n" := by
  have hopen : outside .code ("/*\n" ++ (first ++ (rest ++ "\n")) ++ "*/\n\n").toList =
      outside .block (('\n' :: first.toList) ++ (rest.toList ++ '\n' :: ['*', '/', '\n', '\n'])) := by
    simp [outside]
  have hbreak : '*' ∉ '\n' :: first.toList := List.not_mem_cons_of_ne_of_not_mem (by decide) hfirst
  unfold uncommented
  rw [hopen, outside_block_of_noStar hbreak, outside_block_of_noSlash hrest]
  rfl

end DebugSymbols.Text
