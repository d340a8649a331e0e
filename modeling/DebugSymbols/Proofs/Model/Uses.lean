import DebugSymbols.Proofs.Model.Merging

/-!
# Uses of structs and unions

A type uses a struct or union by a pointer where a pointer is right around its
name, and else by value. The entry of the arena is marked with the ways in which
it is used. Merging marks the entry that is kept with the uses of its copies.
-/

namespace DebugSymbols

/-! ## Uses in types -/

structure Use where
  kind : CompositeKind
  id : CompositeId
  byPointer : Bool
  deriving DecidableEq

mutual

/-- The uses in a type that stands right under a pointer, or not. -/
def CType.usesUnder (pointer : Bool) : CType → List Use
  | .base _ => []
  | .pointer t => t.usesUnder true
  | .array t _ => t.usesUnder false
  | .function r ps _ => r.usesUnder false ++ paramUses ps
  | .composite k i => [⟨k, i, pointer⟩]
  | .enum _ => []
  | .typedef _ => []

def paramUses : List (Decl CType) → List Use
  | [] => []
  | ⟨_, _, _, t, _⟩ :: ps => t.usesUnder false ++ paramUses ps

end

def CType.uses (t : CType) : List Use :=
  t.usesUnder false

def Use.renumber (f : Renumbering) (u : Use) : Use :=
  { u with id := f.composite u.id }

mutual

theorem CType.usesUnder_renumber (f : Renumbering) (pointer : Bool) :
    ∀ t : CType, (t.renumber f).usesUnder pointer = (t.usesUnder pointer).map (Use.renumber f)
  | .base _ => rfl
  | .pointer t => CType.usesUnder_renumber f true t
  | .array t _ => CType.usesUnder_renumber f false t
  | .function r ps _ => by
    simp only [CType.renumber, CType.usesUnder, List.map_append, CType.usesUnder_renumber f false r,
      paramUses_renumber f ps]
  | .composite _ _ => rfl
  | .enum _ => rfl
  | .typedef _ => rfl

theorem paramUses_renumber (f : Renumbering) :
    ∀ ps : List (Decl CType), paramUses (renumberParams f ps) = (paramUses ps).map (Use.renumber f)
  | [] => rfl
  | ⟨_, _, _, t, _⟩ :: ps => by
    simp only [renumberParams, paramUses, List.map_append, CType.usesUnder_renumber f false t,
      paramUses_renumber f ps]

end

theorem CType.uses_renumber (f : Renumbering) (t : CType) :
    (t.renumber f).uses = t.uses.map (Use.renumber f) :=
  t.usesUnder_renumber f false

/-! ## Marks -/

def Composite.marked (c : Composite) (byPointer : Bool) : Bool :=
  if byPointer then c.pointerUses else c.valueUses

namespace Arena

def KeepsMarks (a a' : Arena) : Prop :=
  ∀ id p, (a.composite id).marked p = true → (a'.composite id).marked p = true

/-- What is marked in `a` is marked in `a'` at the entry that `f` puts for it. -/
def MovesMarks (f : CompositeId → CompositeId) (a a' : Arena) : Prop :=
  ∀ id p, (a.composite id).marked p = true → (a'.composite (f id)).marked p = true

variable {f g : CompositeId → CompositeId} {a a' a'' : Arena}

theorem KeepsMarks.trans (h : KeepsMarks a a') (h' : KeepsMarks a' a'') : KeepsMarks a a'' := fun id p hp =>
  h' id p (h id p hp)

theorem MovesMarks.trans (h : MovesMarks f a a') (h' : MovesMarks g a' a'') : MovesMarks (g ∘ f) a a'' :=
  fun id p hp => h' (f id) p (h id p hp)

theorem MovesMarks.keep (h : MovesMarks f a a') (h' : KeepsMarks a' a'') : MovesMarks f a a'' := fun id p hp =>
  h' (f id) p (h id p hp)

theorem keepsMarks_of_eq (h : a'.composites = a.composites) : KeepsMarks a a' := by
  intro id p hp
  unfold composite
  rw [h]
  exact hp

theorem keepsMarks_modifyComposite {k : CompositeId} {h : Composite → Composite}
    (hh : ∀ c : Composite, ∀ p, c.marked p = true → (h c).marked p = true) : KeepsMarks a (a.modifyComposite k h) := by
  intro id p hp
  rw [composite_modifyComposite]
  split
  · exact hh _ p hp
  · exact hp

theorem keepsMarks_pushComposite (c : Composite) : KeepsMarks a (a.pushComposite c) := by
  intro id p hp
  rw [composite_pushComposite]
  split
  · -- there is no entry to be marked yet
    rename_i hid
    rw [hid, composite_next] at hp
    cases p <;> exact nomatch hp
  · exact hp

/-! ## Merging -/

theorem keepsMarks_absorbComposite (a : Arena) (copy kept : CompositeId) :
    KeepsMarks a (a.absorbComposite copy kept) := by
  refine keepsMarks_modifyComposite fun c p hp => ?_
  cases p <;> exact Bool.or_eq_true_iff.mpr (.inl hp)

theorem marked_absorbComposite {copy kept : CompositeId} (hk : kept.index < a.composites.length) {p : Bool}
    (hp : (a.composite copy).marked p = true) : ((a.absorbComposite copy kept).composite kept).marked p = true := by
  unfold absorbComposite
  rw [composite_modifyComposite, if_pos ⟨rfl, hk⟩]
  cases p <;> exact Bool.or_eq_true_iff.mpr (.inr hp)

section
variable (copies : List (CompositeId × CompositeId))

theorem keepsMarks_foldl : ∀ a : Arena, KeepsMarks a (copies.foldl (fun a p => a.absorbComposite p.1 p.2) a) := by
  induction copies with
  | nil => exact fun _ _ _ hp => hp
  | cons c copies ih => exact fun a => (keepsMarks_absorbComposite a c.1 c.2).trans (ih _)

theorem marked_foldl {c : CompositeId × CompositeId} (hc : c ∈ copies) (hk : c.2.index < a.composites.length)
    {p : Bool} (hp : (a.composite c.1).marked p = true) :
    ((copies.foldl (fun a p => a.absorbComposite p.1 p.2) a).composite c.2).marked p = true := by
  induction copies generalizing a with
  | nil => exact nomatch hc
  | cons d copies ih =>
    rw [List.foldl_cons]
    obtain rfl | hc := List.mem_cons.mp hc
    · exact keepsMarks_foldl copies _ c.2 p (marked_absorbComposite hk hp)
    · refine ih hc ?_ (keepsMarks_absorbComposite a d.1 d.2 c.1 p hp)
      unfold absorbComposite
      rwa [length_modifyComposite]

end

theorem keepsMarks_renumber (r : Renumbering) (a : Arena) : KeepsMarks a (a.renumber r) := by
  intro id p hp
  have hmarked : (a.renumber r).composites.map (·.marked p) = a.composites.map (·.marked p) := by
    show (a.composites.map (Composite.renumber r)).map (·.marked p) = _
    rw [List.map_map]
    rfl
  exact (getD_congr_map hmarked rfl id.index).trans hp

end Arena

namespace Overlay

open DebugSymbols.Arena (KeepsMarks MovesMarks)

variable {o : Overlay}

theorem movesMarks_mergeComposites (kind : CompositeKind) {key : CompositeId → Tag}
    (hc : (o.composites kind).Indexes key)
    (hlt : ∀ i ∈ (o.composites kind).listed, i.index < o.arena.composites.length) :
    MovesMarks (firstLike o.compositesAlike (o.composites kind).listed) o.arena (o.mergeComposites kind).1.arena := by
  rw [mergeComposites_eq kind hc]
  split
  · rename_i hnil
    rw [firstLike_eq_id hnil]
    exact fun _ _ hp => hp
  · rw [arena_setComposites]
    refine MovesMarks.keep (fun i p hp => ?_) (Arena.keepsMarks_renumber _ _)
    by_cases hi : firstLike o.compositesAlike (o.composites kind).listed i = i
    · rw [hi]
      exact Arena.keepsMarks_foldl _ _ i p hp
    · have hmem : i ∈ (o.composites kind).listed := by
        by_contra hnot
        exact hi (firstLike_of_notMem hnot)
      have hcopy : (i, firstLike o.compositesAlike (o.composites kind).listed i) ∈
          moved (firstLike o.compositesAlike (o.composites kind).listed) (o.composites kind).listed :=
        List.mem_map.mpr ⟨i, List.mem_filter.mpr ⟨hmem, decide_eq_true hi⟩, rfl⟩
      exact Arena.marked_foldl _ hcopy (hlt _ (firstLike_mem o.compositesAlike_iff hmem)) hp

theorem keepsMarks_mergeEnums (o : Overlay) : KeepsMarks o.arena o.mergeEnums.1.arena := by
  unfold mergeEnums
  dsimp only
  split
  · exact Arena.keepsMarks_of_eq rfl
  · exact (Arena.keepsMarks_of_eq (Arena.composites_foldl_absorbEnum _ _)).trans (Arena.keepsMarks_renumber _ _)

theorem keepsMarks_mergeTypedefs (o : Overlay) : KeepsMarks o.arena o.mergeTypedefs.1.arena := by
  unfold mergeTypedefs
  dsimp only
  split
  · exact Arena.keepsMarks_of_eq rfl
  · exact Arena.keepsMarks_renumber _ _

theorem movesMarks_merge (ho : o.Indexed) : MovesMarks o.canon.composite o.arena o.merge.1.arena := by
  have hmerge : o.merge.1 =
      (((o.mergeComposites .struct).1.mergeComposites .union).1.mergeEnums).1.mergeTypedefs.1 := rfl
  have hstructs := mergeComposites_merged .struct (ho.composites .struct)
  have hmoves := movesMarks_mergeComposites .struct (ho.composites .struct) fun i hi => (ho.composite_mem .struct i hi).1
  rw [hmerge]
  generalize o.mergeComposites .struct = m at hstructs hmoves ⊢
  -- the pass over the unions finds them as they were
  have hunions : m.1.composites .union = o.composites .union := hstructs.composites .union
  have hmoves' := movesMarks_mergeComposites (o := m.1) .union (by rw [hunions]; exact ho.composites .union) (by
    rw [hunions, hstructs.redirected.compositeCount]
    exact fun i hi => (ho.composite_mem .union i hi).1)
  rw [hstructs.redirected.compositesAlike, hunions] at hmoves'
  have hcanon : o.canon.composite =
      firstLike o.compositesAlike (o.composites .union).listed ∘
        firstLike o.compositesAlike (o.composites .struct).listed :=
    funext (canon_composite ho)
  rw [hcanon]
  exact ((hmoves.trans hmoves').keep (keepsMarks_mergeEnums _)).keep (keepsMarks_mergeTypedefs _)

end Overlay

end DebugSymbols
