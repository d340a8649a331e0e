import DebugSymbols.Proofs.Print.Blocks
import DebugSymbols.Proofs.Print.Comments

/-!
# Braces

Which lines of a text have the brace of a block and the number of its line. In the
text of a function they are those of its blocks, as nothing else that is printed
from clean names has a slash right before a word.
-/

namespace DebugSymbols

open Text

inductive Brace where
  | opening (line : UInt32)
  | closing (line : UInt32)
  deriving DecidableEq

def Brace.line : Brace → String
  | opening n => "\x7b //line: " ++ toString n
  | closing n => "\x7d //line: " ++ toString n

namespace Text

def unindented (line : List Char) : List Char :=
  line.dropWhile (· == '\t')

def hasBrace (line : List Char) : Bool :=
  "\x7b //line: ".toList.isPrefixOf line || "\x7d //line: ".toList.isPrefixOf line

/-- The lines of a text that have a brace and a line number, without their tabs. -/
def braceLines (text : String) : List String :=
  (((text.toList.splitOn '\n').map unindented).filter hasBrace).map String.ofList

variable {s t : String}

theorem braceLines_append (hs : EndsLine s) (t : String) : braceLines (s ++ t) = braceLines s ++ braceLines t := by
  obtain ⟨line, rfl⟩ := hs
  have hbreak (u : String) : (line ++ "\n" ++ u).toList = line.toList ++ '\n' :: u.toList := by simp
  have hline : braceLines (line ++ "\n") = braceLines line := by
    have hnil := hbreak ""
    rw [String.append_empty] at hnil
    unfold braceLines
    rw [hnil, List.splitOn_append_cons_self, List.map_append, List.filter_append]
    simp [hasBrace, unindented]
  rw [hline]
  unfold braceLines
  rw [hbreak, List.splitOn_append_cons_self, List.map_append, List.filter_append, List.map_append]

theorem oneLine_brace (b : Brace) : OneLine b.line := by
  cases b with
  | opening n => exact OneLine.append (by decide) (clean_toString n.toNat).oneLine
  | closing n => exact OneLine.append (by decide) (clean_toString n.toNat).oneLine

theorem hasBrace_brace (b : Brace) : hasBrace b.line.toList = true := by
  cases b <;> simp [hasBrace, Brace.line]

theorem unindented_brace (depth : Nat) (b : Brace) : unindented (indent depth ++ b.line).toList = b.line.toList := by
  have htabs : ∀ c ∈ List.replicate depth '\t', (c == '\t') = true := fun c hc => by
    rw [List.eq_of_mem_replicate hc]
    rfl
  unfold unindented indent
  rw [String.toList_append, String.toList_ofList, List.dropWhile_append_of_pos htabs]
  cases b <;> simp [Brace.line]

theorem braceLines_brace (depth : Nat) (b : Brace) (t : String) :
    braceLines (indent depth ++ b.line ++ "\n" ++ t) = b.line :: braceLines t := by
  have hone : '\n' ∉ (indent depth ++ b.line).toList := (oneLine_indent depth).append (oneLine_brace b)
  have hbreak : (indent depth ++ b.line ++ "\n" ++ t).toList = (indent depth ++ b.line).toList ++ '\n' :: t.toList := by
    simp
  unfold braceLines
  rw [hbreak, List.splitOn_append_cons_self_of_not_mem hone, List.map_cons, unindented_brace,
    List.filter_cons_of_pos (hasBrace_brace b), List.map_cons, String.ofList_toList]

/-! ## Spaced texts -/

theorem SpacedChars.dropWhile {p : Char → Bool} (hp : p '/' = false) {cs : List Char} (h : SpacedChars cs) :
    SpacedChars (cs.dropWhile p) := by
  induction h with
  | nil => exact .nil
  | @cons c cs hc h ih =>
    rw [List.dropWhile_cons]
    split
    · exact ih
    · exact .cons hc h
  | comment h =>
    rw [List.dropWhile_cons_of_neg (by simp [hp])]
    exact .comment h

theorem not_spacedChars_word {c : Char} {cs : List Char} : ¬ SpacedChars (c :: ' ' :: '/' :: '/' :: 'l' :: cs) := by
  intro h
  cases h with
  | cons _ h =>
    cases h with
    | cons _ h =>
      cases h with
      | cons hc _ => exact hc rfl

theorem hasBrace_of_spacedChars {line : List Char} (h : SpacedChars line) : hasBrace line = false := by
  unfold hasBrace
  rw [Bool.or_eq_false_iff, Bool.eq_false_iff, Bool.eq_false_iff, Ne, Ne, List.isPrefixOf_iff_prefix,
    List.isPrefixOf_iff_prefix]
  constructor
  · rintro ⟨rest, rfl⟩
    exact not_spacedChars_word h
  · rintro ⟨rest, rfl⟩
    exact not_spacedChars_word h

theorem spacedChars_of_mem_splitOn {cs : List Char} (h : SpacedChars cs) :
    ∀ line ∈ cs.splitOn '\n', SpacedChars line := by
  induction h with
  | nil => exact List.forall_mem_singleton.mpr .nil
  | @cons c cs hc h ih =>
    rw [List.splitOn_cons_eq_if_modifyHead]
    split
    · exact List.forall_mem_cons.mpr ⟨.nil, ih⟩
    · cases hlines : cs.splitOn '\n' with
      | nil => exact absurd hlines (List.splitOn_ne_nil _ _)
      | cons line lines =>
        rw [hlines] at ih
        obtain ⟨hline, hlines⟩ := List.forall_mem_cons.mp ih
        exact List.forall_mem_cons.mpr ⟨.cons hc hline, hlines⟩
  | @comment cs h ih =>
    cases hlines : cs.splitOn '\n' with
    | nil => exact absurd hlines (List.splitOn_ne_nil _ _)
    | cons line lines =>
      rw [hlines] at ih
      obtain ⟨hline, hlines'⟩ := List.forall_mem_cons.mp ih
      have hsplit : ('/' :: '/' :: ' ' :: cs).splitOn '\n' = ('/' :: '/' :: ' ' :: line) :: lines := by
        simp [List.splitOn_cons_eq_if_modifyHead, hlines]
      rw [hsplit]
      exact List.forall_mem_cons.mpr ⟨.comment hline, hlines'⟩

theorem braceLines_of_spaced (h : Spaced s) : braceLines s = [] := by
  unfold braceLines
  rw [List.map_eq_nil_iff, List.filter_eq_nil_iff, List.forall_mem_map]
  intro line hline
  have hspaced : SpacedChars (unindented line) := (spacedChars_of_mem_splitOn h line hline).dropWhile (by decide)
  rw [hasBrace_of_spacedChars hspaced]
  simp

end Text

/-! ## Blocks -/

def BlockForest.braces : BlockForest → List Brace
  | nil => []
  | node b inner rest => .opening b.lineStart :: inner.braces ++ .closing b.lineEnd :: rest.braces

def Block.CleanLocals (b : Block) : Prop :=
  ∀ v ∈ b.locals, ∀ n ∈ v.name :: v.type.paramNames, Clean n

variable {a : Arena} (ha : a.CleanNames)
include ha

theorem braceLines_variables {vs : List Variable} (h : ∀ v ∈ vs, ∀ n ∈ v.name :: v.type.paramNames, Clean n)
    (depth : Nat) (t : String) : braceLines (String.join (vs.map (a.variableText depth)) ++ t) = braceLines t := by
  induction vs with
  | nil => simp
  | cons v vs ih =>
    obtain ⟨hv, hvs⟩ := List.forall_mem_cons.mp h
    have hend : EndsLine (a.variableText depth v) := EndsLine.append _ ⟨";", rfl⟩
    rw [List.map_cons, String.join_cons, String.append_assoc, braceLines_append hend,
      braceLines_of_spaced (ha.spaced_variableText hv depth), ih hvs, List.nil_append]

namespace BlockForest

theorem braceLines_text_append {f : BlockForest} (hf : ∀ b ∈ f.preorder, b.CleanLocals) (t : String) :
    braceLines (f.text a ++ t) = f.braces.map Brace.line ++ braceLines t := by
  induction f generalizing t with
  | nil => simp [text, braces]
  | node b inner rest ihInner ihRest =>
    obtain ⟨hb, hnested⟩ := List.forall_mem_cons.mp hf
    obtain ⟨hinner, hrest⟩ := List.forall_mem_append.mp hnested
    have htext : (node b inner rest).text a ++ t =
        indent b.depth ++ (Brace.opening b.lineStart).line ++ "\n" ++
          (String.join (b.locals.map (a.variableText (b.depth + 1))) ++ (inner.text a ++
            (indent b.depth ++ (Brace.closing b.lineEnd).line ++ "\n" ++ (rest.text a ++ t)))) := by
      simp only [text, Brace.line, String.append_assoc]
    rw [htext, braceLines_brace, braceLines_variables ha hb, ihInner hinner, braceLines_brace, ihRest hrest, braces]
    simp

theorem braceLines_text {f : BlockForest} (hf : ∀ b ∈ f.preorder, b.CleanLocals) :
    braceLines (f.text a) = f.braces.map Brace.line := by
  have htext := f.braceLines_text_append ha hf ""
  rwa [String.append_empty, show braceLines "" = [] from rfl, List.append_nil] at htext

end BlockForest

end DebugSymbols
