import DebugSymbols.Proofs.Text.Words
import Mathlib.Data.List.Flatten

/-!
# Lines

Text that is put further in gets more tabs behind each of its line breaks. Text
on one line stays as it is.
-/

namespace DebugSymbols.Text

/-- The text with `depth` tabs put in behind every line break. -/
def indented (depth : Nat) (text : String) : String :=
  String.ofList (text.toList.flatMap fun c => if c = '\n' then c :: List.replicate depth '\t' else [c])

def OneLine (text : String) : Prop :=
  '\n' ∉ text.toList

instance (text : String) : Decidable (OneLine text) :=
  inferInstanceAs (Decidable (_ ∉ _))

variable {s t : String}

/-! ## One line -/

theorem OneLine.append (hs : OneLine s) (ht : OneLine t) : OneLine (s ++ t) := by
  unfold OneLine
  rw [String.toList_append, List.mem_append]
  exact fun h => h.elim hs ht

theorem Clean.oneLine (h : Clean s) : OneLine s := by
  have hbreak : ¬ IsWord '\n' := by decide
  exact fun hmem => hbreak (h _ hmem)

theorem oneLine_indent (depth : Nat) : OneLine (indent depth) := by
  unfold OneLine indent
  rw [String.toList_ofList]
  exact fun hmem => absurd (List.eq_of_mem_replicate hmem) (by decide)

/-! ## Ends of lines -/

def EndsLine (text : String) : Prop :=
  ∃ line, text = line ++ "\n"

theorem endsLine_break (s : String) : EndsLine (s ++ "\n") :=
  ⟨s, rfl⟩

theorem EndsLine.append (s : String) (h : EndsLine t) : EndsLine (s ++ t) := by
  obtain ⟨line, rfl⟩ := h
  exact ⟨s ++ line, String.append_assoc.symm⟩

theorem EndsLine.append_join (hs : EndsLine s) {ss : List String} (h : ∀ s ∈ ss, EndsLine s) :
    EndsLine (s ++ String.join ss) := by
  induction ss generalizing s with
  | nil => simpa using hs
  | cons t ss ih =>
    obtain ⟨ht, hss⟩ := List.forall_mem_cons.mp h
    rw [String.join_cons, ← String.append_assoc]
    exact ih (ht.append s) hss

/-! ## Further in -/

theorem OneLine.indented_eq (h : OneLine s) (depth : Nat) : indented depth s = s := by
  have hkept : ∀ c ∈ s.toList, (if c = '\n' then c :: List.replicate depth '\t' else [c]) = [c] := by
    intro c hc
    rw [if_neg]
    rintro rfl
    exact h hc
  unfold indented
  rw [List.flatMap_congr hkept, List.flatMap_singleton', String.ofList_toList]

@[simp] theorem indented_append (depth : Nat) (s t : String) :
    indented depth (s ++ t) = indented depth s ++ indented depth t := by
  simp [indented]

theorem indented_break (depth : Nat) : indented depth "\n" = "\n" ++ indent depth := by
  simp [indented, indent]

/-- No text is lost, and none comes from nothing. -/
@[simp] theorem isEmpty_indented (depth : Nat) (s : String) : (indented depth s).isEmpty = s.isEmpty := by
  rw [Bool.eq_iff_iff, String.isEmpty_iff, String.isEmpty_iff, indented, String.ofList_eq_empty_iff,
    List.flatMap_eq_nil_iff, ← String.toList_eq_nil_iff]
  constructor
  · intro hnil
    refine List.eq_nil_iff_forall_not_mem.mpr fun c hc => ?_
    have hc := hnil c hc
    split at hc <;> exact nomatch hc
  · intro hnil
    rw [hnil]
    exact List.forall_mem_nil _

theorem indented_join (depth : Nat) (ss : List String) :
    indented depth (String.join ss) = String.join (ss.map (indented depth)) := by
  induction ss with
  | nil => rfl
  | cons s ss ih => simp [ih]

theorem indented_intercalate {sep : String} (h : OneLine sep) (depth : Nat) (ss : List String) :
    indented depth (sep.intercalate ss) = sep.intercalate (ss.map (indented depth)) := by
  induction ss with
  | nil => simp [indented]
  | cons s ss ih =>
    cases ss with
    | nil => simp
    | cons t ss =>
      rw [String.intercalate_cons_cons, indented_append, indented_append, ih, h.indented_eq]
      simp

end DebugSymbols.Text
