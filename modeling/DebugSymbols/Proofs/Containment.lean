import DebugSymbols.Proofs.Build.Sizes
import DebugSymbols.Proofs.Merge

/-!
# Containment by value

Merging compares the fields of two definitions by category only, so one struct
may be merged with another that it contains. `wellNested_merge`: that no struct or
union contains itself is kept where none does so up to likeness, and just where
none does so by way of first entries.
-/

namespace DebugSymbols

/-- The struct or union that a type is, under its arrays. -/
def CType.heldComposite? (t : CType) : Option CompositeId :=
  match t.stripArrays with
  | .composite _ id => some id
  | _ => none

theorem CType.heldComposite?_renumber (f : Renumbering) (t : CType) :
    (t.renumber f).heldComposite? = t.heldComposite?.map f.composite := by
  unfold heldComposite?
  rw [stripArrays_renumber]
  cases t.stripArrays <;> rfl

/-- What the fields of a struct or union hold by value. -/
def Composite.held (c : Composite) : List CompositeId :=
  c.fields.filterMap (·.type.heldComposite?)

namespace Overlay

/-- A field of `r` is an `s` or an array of these. -/
def Holds (o : Overlay) (r s : CompositeId) : Prop :=
  s ∈ (o.arena.composite r).held

/-- No struct or union contains itself by value, at any depth. -/
def WellNested (o : Overlay) : Prop :=
  ∀ id, ¬ Relation.TransGen o.Holds id id

/-- `r` holds a struct or union that is like `s`. -/
def HoldsLike (o : Overlay) (r s : CompositeId) : Prop :=
  ∃ h, o.Holds r h ∧ (o.arena.composite h).alike (o.arena.composite s) = true

/-- `r` holds a struct or union of which `s` is the first in its list that is like it. -/
def HoldsFirst (o : Overlay) (r s : CompositeId) : Prop :=
  ∃ kind h, o.Holds r h ∧ h ∈ (o.composites kind).listed ∧
    (o.composites kind).listed.find? (fun e => (o.arena.composite e).alike (o.arena.composite h)) = some s

/-- No struct or union contains itself, also if those that are alike are taken for one. -/
def WellNestedUpToLikeness (o : Overlay) : Prop :=
  ∀ id, ¬ Relation.TransGen o.HoldsLike id id

variable {o : Overlay}

theorem Holds.index_lt {r s : CompositeId} (h : o.Holds r s) : r.index < o.arena.composites.length := by
  by_contra hge
  unfold Holds at h
  rw [Arena.composite_of_le (Nat.le_of_not_lt hge)] at h
  exact nomatch h

theorem lt_of_transGen {step : CompositeId → CompositeId → Prop} (rank : CompositeId → Nat)
    (h : ∀ r s, step r s → rank s < rank r) {r s : CompositeId} (hrs : Relation.TransGen step r s) :
    rank s < rank r := by
  induction hrs with
  | single hstep => exact h _ _ hstep
  | tail _ hstep ih => exact Nat.lt_trans (h _ _ hstep) ih

theorem wellNested_of_rank (rank : CompositeId → Nat) (h : ∀ r s, o.Holds r s → rank s < rank r) :
    o.WellNested :=
  fun _ hcycle => Nat.lt_irrefl _ (lt_of_transGen rank h hcycle)

/-! ## After merging -/

theorem held_merge (ho : o.Indexed) (id : CompositeId) :
    (o.merge.1.arena.composite id).held = (o.arena.composite id).held.map o.canon.composite := by
  unfold Composite.held
  rw [(merge_merged ho).redirected.fields, List.filterMap_map, List.map_filterMap]
  congr 1
  funext x
  exact x.type.heldComposite?_renumber o.canon

theorem Holds.handle {r h : CompositeId} (hold : o.Holds r h) (hl : o.HandlesListed) :
    ∃ kind, h ∈ (o.composites kind).listed := by
  obtain ⟨x, hx, hheld⟩ := List.mem_filterMap.mp hold
  have hmem : ∃ kind, .composite kind h ∈ x.type.handles := by
    rw [← CType.handles_stripArrays]
    unfold CType.heldComposite? at hheld
    split at hheld
    · rename_i kind id heq
      cases hheld
      exact ⟨kind, by rw [heq]; exact List.mem_singleton_self _⟩
    · exact nomatch hheld
  obtain ⟨kind, hmem⟩ := hmem
  exact ⟨kind, hl _ _ (.composite (Arena.composite_mem_of_field hx) (.field hx)) _ hmem⟩

theorem holds_merge_iff (ho : o.Indexed) (hl : o.HandlesListed) (r s : CompositeId) :
    o.merge.1.Holds r s ↔ o.HoldsFirst r s := by
  unfold Holds
  rw [held_merge ho, List.mem_map]
  have hfirst {kind : CompositeKind} {h : CompositeId} (hmem : h ∈ (o.composites kind).listed) :
      (o.composites kind).listed.find? (o.compositesAlike · h) = some (o.canon.composite h) := by
    rw [canon_of_mem ho kind hmem]
    exact find?_of_mem o.compositesAlike_iff hmem
  constructor
  · rintro ⟨h, hold, rfl⟩
    obtain ⟨kind, hmem⟩ := Holds.handle hold hl
    exact ⟨kind, h, hold, hmem, hfirst hmem⟩
  · rintro ⟨kind, h, hold, hmem, hfind⟩
    exact ⟨h, hold, Option.some.inj ((hfirst hmem).symm.trans hfind)⟩

theorem HoldsFirst.holdsLike {r s : CompositeId} (h : o.HoldsFirst r s) : o.HoldsLike r s := by
  obtain ⟨kind, h, hold, _, hfind⟩ := h
  have hlike := List.find?_some hfind
  rw [Composite.alike_iff] at hlike
  exact ⟨h, hold, (Composite.alike_iff _ _).mpr hlike.symm⟩

theorem wellNested_merge {records : List Record} {overlays : List Overlay}
    (hb : (Builder.build records).result = .ok overlays) (ho : o ∈ overlays) :
    (o.WellNestedUpToLikeness → o.merge.1.WellNested) ∧
      (o.merge.1.WellNested ↔ ∀ id, ¬ Relation.TransGen o.HoldsFirst id id) := by
  obtain ⟨hi, hl⟩ := Builder.indexed_of_build hb o ho
  have hholds : o.merge.1.Holds = o.HoldsFirst := by
    funext r s
    exact propext (holds_merge_iff hi hl r s)
  unfold WellNested
  rw [hholds]
  exact ⟨fun h id hcycle => h id (Relation.TransGen.mono (fun _ _ => HoldsFirst.holdsLike) id id hcycle), Iff.rfl⟩

/-- Sizes are compared, so it is enough that whatever a struct or union holds is smaller. -/
theorem wellNestedUpToLikeness_of_smaller
    (h : ∀ r s, o.Holds r s → (o.arena.composite s).size < (o.arena.composite r).size) :
    o.WellNestedUpToLikeness := by
  have hstep : ∀ r s, o.HoldsLike r s → (o.arena.composite s).size.toNat < (o.arena.composite r).size.toNat := by
    rintro r s ⟨t, hrt, hlike⟩
    have hsize : (o.arena.composite t).size = (o.arena.composite s).size :=
      congrArg (·.2.2.1) ((Composite.alike_iff _ _).mp hlike)
    rw [← hsize]
    exact UInt32.lt_iff_toNat_lt.mp (h r t hrt)
  exact fun id hcycle => Nat.lt_irrefl _ (lt_of_transGen (fun id => (o.arena.composite id).size.toNat) hstep hcycle)

/-! ## Wrappers of a wrapper -/

def wrapper (tag : String) (bits : UInt16) (target : String) : List Record :=
  let entry (symbolClass : SymbolClass) (bits : UInt16) (value : UInt32) (name tag : String) : Record :=
    { offset := 0, value,
      body := .definition .second { symbolClass, word := ⟨bits⟩, size := 4, tag, name } }
  [entry .structTag 8 0 tag "", entry .structMember bits 0 "x" target, entry .endOfStruct 0 4 ".eos" tag]

/-- Three nested structs without tags of their own, each the only member of the
one before. -/
def nestedWrappers : List Record :=
  wrapper ".1fake" 8 ".2fake" ++ wrapper ".2fake" 8 ".3fake" ++ wrapper ".3fake" 4 ""

def wrapped : Overlay :=
  (Builder.afterWalks [nestedWrappers]).currentOverlay

theorem build_nestedWrappers : (Builder.build nestedWrappers).result = .ok [wrapped] := by
  decide +kernel

theorem wellNested_wrapped : wrapped.WellNested := by
  -- each holds only those that come later
  have hbelow : ∀ i < wrapped.arena.composites.length, ∀ s ∈ (wrapped.arena.composite ⟨i⟩).held,
      3 - s.index < 3 - i := by
    decide +kernel
  exact wellNested_of_rank (3 - ·.index) fun r s h => hbelow r.index h.index_lt s h

/-- The middle one has the size and the field of the outermost, which therefore
comes to contain itself. -/
theorem not_wellNested_merge_wrapped : ¬ wrapped.merge.1.WellNested := by
  have hself : ⟨0⟩ ∈ (wrapped.merge.1.arena.composite ⟨0⟩).held := by
    decide +kernel
  exact fun h => h ⟨0⟩ (.single hself)

theorem nestedWrappers_containThemselves :
    (Builder.build nestedWrappers).result = .ok [wrapped] ∧ wrapped.WellNested ∧
      ¬ wrapped.merge.1.WellNested :=
  ⟨build_nestedWrappers, wellNested_wrapped, not_wellNested_merge_wrapped⟩

/-! ## A pair of what is defined twice -/

def pairOfStruct : List Record :=
  let entry (symbolClass : SymbolClass) (bits : UInt16) (value size : UInt32) (name tag : String) : Record :=
    { offset := 0, value, body := .definition .second { symbolClass, word := ⟨bits⟩, size, tag, name } }
  wrapper "item" 4 "" ++
    [entry .structTag 8 0 8 "pair" "", entry .structMember 8 0 4 "first" "item",
      entry .structMember 8 4 4 "second" "item", entry .endOfStruct 0 8 8 ".eos" "pair"]

def twoPairs : Overlay :=
  (Builder.afterWalks [pairOfStruct ++ pairOfStruct]).currentOverlay

theorem wellNested_merge_twoPairs :
    (Builder.build (pairOfStruct ++ pairOfStruct)).result = .ok [twoPairs] ∧ twoPairs.Holds ⟨3⟩ ⟨2⟩ ∧
      twoPairs.merge.1.structs.listed = [⟨0⟩, ⟨1⟩] ∧ twoPairs.merge.1.Holds ⟨1⟩ ⟨0⟩ ∧
      twoPairs.WellNestedUpToLikeness ∧ twoPairs.merge.1.WellNested ∧
      ∀ id, ¬ Relation.TransGen twoPairs.HoldsFirst id id := by
  have hb : (Builder.build (pairOfStruct ++ pairOfStruct)).result = .ok [twoPairs] := by decide +kernel
  have hsmaller : ∀ i < twoPairs.arena.composites.length, ∀ s ∈ (twoPairs.arena.composite ⟨i⟩).held,
      (twoPairs.arena.composite s).size < (twoPairs.arena.composite ⟨i⟩).size := by
    decide +kernel
  have hnested := wellNestedUpToLikeness_of_smaller fun r s h => hsmaller r.index h.index_lt s h
  obtain ⟨hkept, hexact⟩ := wellNested_merge hb List.mem_cons_self
  have hmem : ⟨2⟩ ∈ (twoPairs.arena.composite ⟨3⟩).held := by decide +kernel
  have hmerged : ⟨0⟩ ∈ (twoPairs.merge.1.arena.composite ⟨1⟩).held := by decide +kernel
  exact ⟨hb, hmem, by decide +kernel, hmerged, hnested, hkept hnested, hexact.mp (hkept hnested)⟩

end Overlay

end DebugSymbols
