import DebugSymbols.Proofs.Build.Indexed

/-!
# The order of the lists while building

The lists of an overlay name the entries of the arena in the order in which they
came. Every struct and union is in the list of its kind, and of the typedefs
only that of the null base type is in none.
-/

namespace DebugSymbols

namespace Arena

def compositeIds (a : Arena) : List CompositeId :=
  (List.range a.composites.length).map CompositeId.mk

def enumIds (a : Arena) : List EnumId :=
  (List.range a.enums.length).map EnumId.mk

def typedefIds (a : Arena) : List TypedefId :=
  (List.range a.typedefs.length).map TypedefId.mk

variable (a : Arena)

theorem mem_compositeIds (id : CompositeId) : id ∈ a.compositeIds ↔ id.index < a.composites.length := by
  obtain ⟨i⟩ := id
  simp [compositeIds]

theorem mem_typedefIds (id : TypedefId) : id ∈ a.typedefIds ↔ id.index < a.typedefs.length := by
  obtain ⟨i⟩ := id
  simp [typedefIds]

theorem compositeIds_pushComposite (c : Composite) :
    (a.pushComposite c).compositeIds = a.compositeIds ++ [a.nextComposite] := by
  simp [compositeIds, pushComposite, nextComposite, List.range_succ]

theorem enumIds_pushEnum (e : Enumeration) : (a.pushEnum e).enumIds = a.enumIds ++ [a.nextEnum] := by
  simp [enumIds, pushEnum, nextEnum, List.range_succ]

theorem typedefIds_pushTypedef (d : Variable) :
    (a.pushTypedef d).typedefIds = a.typedefIds ++ [a.nextTypedef] := by
  simp [typedefIds, pushTypedef, nextTypedef, List.range_succ]

theorem pairwise_compositeIds : a.compositeIds.Pairwise fun i j => i.index < j.index := by
  unfold compositeIds
  rw [List.pairwise_map]
  exact List.pairwise_lt_range

theorem pairwise_enumIds : a.enumIds.Pairwise fun i j => i.index < j.index := by
  unfold enumIds
  rw [List.pairwise_map]
  exact List.pairwise_lt_range

theorem pairwise_typedefIds : a.typedefIds.Pairwise fun i j => i.index < j.index := by
  unfold typedefIds
  rw [List.pairwise_map]
  exact List.pairwise_lt_range

end Arena

namespace Overlay

variable {o o' : Overlay}

/-- The lists hold the entries of the arena in order, each in the list of its kind. -/
structure Ordered (o : Overlay) : Prop where
  composites : ∀ kind, (o.composites kind).listed =
    o.arena.compositeIds.filter fun id => (o.arena.composite id).kind = kind
  enums : o.enums.listed = o.arena.enumIds
  typedefs : o.typedefs.listed = o.arena.typedefIds.filter fun id => o.nullTypedef ≠ some id

/-! ## The order is kept -/

theorem ordered_new (id addr length : UInt32) : Ordered { id, addr, length } where
  composites kind := by cases kind <;> rfl
  enums := rfl
  typedefs := rfl

theorem Ordered.of_sameHeads (h : o.Ordered) (hs : SameHeads o o') : o'.Ordered where
  composites kind := by
    have hids : o'.arena.compositeIds = o.arena.compositeIds := by
      unfold Arena.compositeIds
      rw [hs.compositeCount]
    rw [hs.composites kind, h.composites kind, hids]
    simp only [hs.kind]
  enums := by
    unfold Arena.enumIds
    rw [hs.enums, h.enums, hs.enumCount]
    rfl
  typedefs := by
    have hids : o'.arena.typedefIds = o.arena.typedefIds := by
      unfold Arena.typedefIds
      rw [hs.typedefCount]
    rw [hs.typedefs, h.typedefs, hids, hs.null]

theorem Ordered.addComposite (h : o.Ordered) (c : Composite) : (o.addComposite c).Ordered where
  composites kind := by
    have hold : ∀ id ∈ o.arena.compositeIds,
        ((o.arena.pushComposite c).composite id).kind = (o.arena.composite id).kind := by
      intro id hid
      rw [Arena.composite_pushComposite, if_neg]
      rintro rfl
      exact Nat.lt_irrefl _ ((Arena.mem_compositeIds _ _).mp hid)
    have hnew : ((o.arena.pushComposite c).composite o.arena.nextComposite).kind = c.kind := by
      rw [Arena.composite_pushComposite, if_pos rfl]
    have hfilter : o.arena.compositeIds.filter (fun id => ((o.arena.pushComposite c).composite id).kind = kind) =
        o.arena.compositeIds.filter fun id => (o.arena.composite id).kind = kind :=
      List.filter_congr fun id hid => by rw [hold id hid]
    rw [arena_addComposite, Arena.compositeIds_pushComposite, List.filter_append, hfilter,
      ← h.composites kind, composites_addComposite]
    by_cases hk : kind = c.kind
    · simp [Catalog.add, hk, hnew]
    · simp [hk, hnew, Ne.symm hk]
  enums := by
    rw [enums_addComposite, arena_addComposite]
    exact h.enums
  typedefs := by
    rw [typedefs_addComposite, arena_addComposite, nullTypedef_addComposite]
    exact h.typedefs

theorem Ordered.addEnum (h : o.Ordered) (e : Enumeration) : (o.addEnum e).Ordered where
  composites kind := by
    rw [composites_addEnum]
    exact h.composites kind
  enums := by
    show o.enums.listed ++ [o.arena.nextEnum] = (o.arena.pushEnum e).enumIds
    rw [Arena.enumIds_pushEnum, h.enums]
  typedefs := h.typedefs

theorem Ordered.addTypedef (h : o.Ordered) (ho : o.Indexed) (v : Variable) : (o.addTypedef v).Ordered where
  composites kind := by
    rw [composites_addTypedef]
    exact h.composites kind
  enums := h.enums
  typedefs := by
    have hnew : o.nullTypedef ≠ some o.arena.nextTypedef := fun hn => Nat.lt_irrefl _ (ho.null_mem _ hn)
    show o.typedefs.listed ++ [o.arena.nextTypedef] =
      (o.arena.pushTypedef v).typedefIds.filter fun id => o.nullTypedef ≠ some id
    rw [Arena.typedefIds_pushTypedef, List.filter_append, ← h.typedefs]
    simp [hnew]

theorem Ordered.withNull (h : o.Ordered) (hn : o.nullTypedef = none) : o.withNull.Ordered where
  composites kind := by
    rw [composites_withNull]
    exact h.composites kind
  enums := h.enums
  typedefs := by
    have hlisted := h.typedefs
    rw [hn] at hlisted
    have hold : o.arena.typedefIds.filter (fun id => some o.arena.nextTypedef ≠ some id) = o.arena.typedefIds := by
      refine List.filter_eq_self.mpr fun id hid => decide_eq_true ?_
      rintro ⟨⟩
      exact Nat.lt_irrefl _ ((Arena.mem_typedefIds _ _).mp hid)
    show o.typedefs.listed =
      (o.arena.pushTypedef boolTypedef).typedefIds.filter fun id => some o.arena.nextTypedef ≠ some id
    rw [Arena.typedefIds_pushTypedef, List.filter_append, hold, hlisted]
    simp

theorem Ordered.mem_group_iff (h : o.Ordered) (ho : o.Indexed) {kind : CompositeKind} {tag : Tag} {id : CompositeId} :
    id ∈ (o.composites kind).groups.get tag ↔ id.index < o.arena.composites.length ∧
      (o.arena.composite id).kind = kind ∧ (o.arena.composite id).tag = tag := by
  rw [(ho.composites kind).groups, Groups.get_ofList, h.composites kind]
  simp only [List.mem_filter, Arena.mem_compositeIds, decide_eq_true_eq, and_assoc]

theorem Edit.ordered (h : o.Edit o') (hi : o.Indexed) (ho : o.Ordered) : o'.Ordered := by
  obtain hs | ⟨c, _, hs⟩ | ⟨e, _, hs⟩ | ⟨hn, hs⟩ | ⟨v, hs⟩ := h.heads_cases
  · exact ho.of_sameHeads hs
  · exact (ho.addComposite c).of_sameHeads hs
  · exact (ho.addEnum e).of_sameHeads hs
  · exact (ho.withNull hn).of_sameHeads hs
  · exact (ho.addTypedef hi v).of_sameHeads hs

end Overlay

end DebugSymbols
