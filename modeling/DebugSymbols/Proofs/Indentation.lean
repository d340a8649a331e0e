import DebugSymbols.Proofs.Print.Depth

/-!
# Indentation

`printed_indented`: at a greater depth declarations, the lines of fields and the
bodies in place within them are the same text with more tabs on each further
line, so that a body has one content wherever it is written.
-/

namespace DebugSymbols.Arena

open Text

/-- The names are those in the arena, that which is declared and those of the
parameters in its type; none has a line break, as that would get no tabs. -/
theorem printed_indented {a : Arena} (ha : a.OneLineNames) (depth : Nat) :
    (∀ (t : CType) (name : String), (∀ n ∈ name :: t.paramNames, OneLine n) →
      a.declare t name depth = indented depth (a.declare t name)) ∧
    (∀ x : Field, (∀ n ∈ x.names, OneLine n) → a.fieldLine x depth = indented depth (a.fieldLine x 0)) ∧
    ∀ visited m id, (a.spelling visited (m + depth)).composite id =
      indented depth ((a.spelling visited m).composite id) := by
  refine ⟨fun t name h => ?_, fun x h => ?_, fun visited m id => ?_⟩
  · obtain ⟨hname, ht⟩ := List.forall_mem_cons.mp h
    have hdeclared := CType.declare_indented depth (a.spelling [] 0) t ht name
    rw [OneLine.indented_eq hname, ← spelling_indented ha, Nat.zero_add] at hdeclared
    exact hdeclared
  · have hline := Field.line_indented h depth (a.spelling [] 0)
    rw [← spelling_indented ha, Nat.zero_add] at hline
    exact hline
  · rw [spelling_indented ha]
    rfl

def nested : Arena :=
  let field (offset size : UInt32) (name : String) (type : CType) : Field :=
    { offset, size, bitfield := false, name, type }
  { composites := [
      { kind := .struct, tag := .anonymous 1, size := 16, valueUses := true,
        fields := [field 0 8 "args" (.array (.composite .union ⟨1⟩) 2),
          field 8 4 "call" (.pointer
            (.function (.base .int) [⟨0, 4, none, .composite .union ⟨1⟩, "arg"⟩] true)),
          field 12 4 "next" (.pointer (.composite .struct ⟨0⟩))] },
      { kind := .union, tag := .anonymous 2, size := 4, valueUses := true,
        fields := [field 0 4 "n" (.base .int), field 0 4 "p" (.pointer (.base .void))] }] }

theorem printed_indented_nested :
    nested.OneLineNames ∧
    nested.declare (.composite .struct ⟨0⟩) "list" =
      "struct \x7b\n\tunion \x7b\n\t\tint n; // offset: 0x0000\n\t\tvoid *p; // offset: 0x0000\n\t\x7d" ++
      " args[2]; // offset: 0x0000\n" ++
      "\tint (*call)(union \x7b\n\t\tint n; // offset: 0x0000\n\t\tvoid *p; // offset: 0x0000\n\t\x7d" ++
      " arg, ...); // offset: 0x0008\n" ++
      "\tstruct _1fake *next; // offset: 0x000C\n\x7d list" ∧
    nested.declare (.composite .struct ⟨0⟩) "list" 2 =
      indented 2 (nested.declare (.composite .struct ⟨0⟩) "list") ∧
    ∀ x ∈ (nested.composite ⟨0⟩).fields, nested.fieldLine x 2 = indented 2 (nested.fieldLine x 0) := by
  have hnames : nested.OneLineNames := ⟨by decide, by decide, by decide, by decide⟩
  have hunion : (nested.spelling [⟨0⟩] 1).composite ⟨1⟩ =
      "union \x7b\n\t\tint n; // offset: 0x0000\n\t\tvoid *p; // offset: 0x0000\n\t\x7d" := by
    rw [composite_spelling_of_inlined (by decide)]
    decide +kernel
  have hself : (nested.spelling [⟨0⟩] 1).composite ⟨0⟩ = "struct _1fake" := by
    rw [composite_spelling_of_not_inlined (by decide)]
    decide +kernel
  refine ⟨hnames, ?_, (printed_indented hnames 2).1 (.composite .struct ⟨0⟩) "list" (by decide),
    fun x hx => (printed_indented hnames 2).2.1 x (hnames.field hx)⟩
  unfold declare CType.declare
  rw [composite_spelling_of_inlined (by decide), Nat.zero_add]
  generalize nested.spelling [⟨0⟩] 1 = s at hunion hself ⊢
  simp only [nested, composite, List.getD_cons_zero, Composite.body, Composite.fieldLines, List.map_cons, List.map_nil,
    Field.line, CType.declare, declareParams, hunion, hself]
  decide +kernel

end DebugSymbols.Arena
