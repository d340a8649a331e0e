import DebugSymbols.Proofs.Build.Findings
import DebugSymbols.Proofs.Text.Words

/-!
# Tag identity

`tagIdentity`: a tag has the text that it was read from, other texts are read as
other tags, and no history finds one struct, union or enum under names that come
to different identifiers, all but for the zeros before the number in a tag of the
compiler's. Those are lost.
-/

namespace DebugSymbols.Builder

open Overlay (referBase)

/-- One struct, union or enum is found under both names. -/
def Conflates (chunks : List (List Record)) (name name' : String) : Prop :=
  ∃ s ∈ history {} chunks, ∃ s' ∈ history {} chunks, s.before.current = s'.before.current ∧
    ∃ t, s.Finds name t ∧ s'.Finds name' t

theorem Conflates.ofName_eq {chunks : List (List Record)} {name name' : String} (h : Conflates chunks name name') :
    Tag.ofName name = Tag.ofName name' := by
  obtain ⟨s, hs, s', hs', hcurrent, t, hfinds, hfinds'⟩ := h
  have htagged := (path_history chunks).tagged hs hfinds
  rw [hcurrent] at htagged
  exact htagged.unique ((path_history chunks).tagged hs' hfinds')

/-! ## Names of one tag -/

def tagEntry (symbolClass : SymbolClass) (bits : UInt16) (size : UInt32) (name tag : String) : SymbolDef :=
  { symbolClass, word := ⟨bits⟩, size, tag, name }

def tagRecord (value : UInt32) (d : SymbolDef) : Record :=
  { offset := 0, value, body := .definition .second d }

def enumAndUse (name name' : String) : List Record :=
  [tagRecord 0 (tagEntry .enumTag 10 0 name ""), tagRecord 0 (tagEntry .endOfStruct 0 0 ".eos" name),
    tagRecord 0 (tagEntry .external 10 0 "v" name')]

theorem conflates_of_ofName_eq {name name' : String} (h : Tag.ofName name = Tag.ofName name') :
    Conflates [enumAndUse name name'] name name' := by
  let o : Overlay := (default : Overlay).addEnum { tag := .ofName name }
  let head := tagRecord 0 (tagEntry .enumTag 10 0 name "")
  let use := tagRecord 0 (tagEntry .external 10 0 "v" name')
  have hstep : step head (enumAndUse name name').tail {} = ⟨.ok 1, setCurrentOverlay {} o, []⟩ := rfl
  have hsteps : steps {} (enumAndUse name name') =
      ⟨{}, head, (enumAndUse name name').tail⟩ :: steps (setCurrentOverlay {} o) [use] := by
    show steps {} (head :: (enumAndUse name name').tail) = _
    rw [steps, hstep]
    rfl
  have hget : o.enums.groups.get (.ofName name') = [⟨0⟩] := by
    show ((default : Overlay).enums.groups.add (.ofName name) ⟨0⟩).get _ = _
    rw [Groups.get_add, if_pos h.symm]
    rfl
  have hrefers : (referBase (tagEntry .external 10 0 "v" name') o).result = .ok (.enum ⟨0⟩) := by
    show (Overlay.referEnum (ε := Complaint) (.ofName name') o).result = _
    simp only [Overlay.referEnum, Action.bind_run, Action.read, hget]
    rfl
  have hhistory : history {} [enumAndUse name name'] = steps {} (enumAndUse name name') := List.append_nil _
  unfold Conflates
  rw [hhistory, hsteps, steps]
  refine ⟨_, List.mem_cons_self, _, List.mem_cons_of_mem _ List.mem_cons_self, rfl, .enum ⟨0⟩, ?_, ?_⟩
  · have hbody : head.body = .definition .second (tagEntry .enumTag 10 0 name "") := rfl
    exact Step.Finds.openedEnum (d := tagEntry .enumTag 10 0 name "") hbody rfl rfl rfl
  · exact .referred (l := ⟨o, use, tagEntry .external 10 0 "v" name'⟩) List.mem_cons_self hrefers rfl

/-! ## Identity -/

theorem tagIdentity (name name' : String) :
    ((Tag.ofIdentifier name).text = name ↔ ∀ zeros n, name ≠ Tag.numberedText (zeros + 1) n) ∧
    (Tag.ofIdentifier name = Tag.ofIdentifier name' ↔ Tag.Agree name name') ∧
    ((∃ chunks, Conflates chunks name name') ↔ Tag.Agree (Text.identifier name) (Text.identifier name')) := by
  refine ⟨Tag.text_ofIdentifier_iff, Tag.ofIdentifier_eq_iff, ?_⟩
  rw [← Tag.ofIdentifier_eq_iff]
  constructor
  · rintro ⟨chunks, h⟩
    exact h.ofName_eq
  · intro h
    exact ⟨_, conflates_of_ofName_eq h⟩

/-- A struct with a tag of the compiler's, and a variable of another struct. -/
def similarTags : List Record :=
  [tagRecord 0 (tagEntry .structTag 8 4 ".7fake" ""), tagRecord 0 (tagEntry .structMember 4 4 "x" ""),
    tagRecord 4 (tagEntry .endOfStruct 0 4 ".eos" ".7fake"), tagRecord 16 (tagEntry .external 8 4 "v" "_007fake")]

def similarOverlay : Overlay :=
  (afterWalks [similarTags]).currentOverlay

/-- The other struct is taken for the one that the compiler has named. -/
theorem not_tagIdentity_similarTags :
    Text.Clean "_007fake" ∧ Text.identifier ".7fake" = "_7fake" ∧
      (Tag.ofIdentifier "_007fake").text = "_7fake" ∧ Tag.ofIdentifier "_007fake" = Tag.ofIdentifier "_7fake" ∧
      (build similarTags).result = .ok [similarOverlay] ∧
      similarOverlay.arena.composites.map (·.tag) = [Tag.ofName ".7fake"] ∧
      similarOverlay.vars.map (·.type) = [.composite .struct ⟨0⟩] := by
  decide +kernel

end DebugSymbols.Builder
