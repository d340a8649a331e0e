import DebugSymbols.Proofs.Merge
import DebugSymbols.Proofs.Model.Uses

/-!
# Marked uses

`usesMarked_afterWalks`: every use of a struct or union in a stored type is marked
at its entry, after any walks, the failed ones included, and still after merging.
So what is marked as used by reference only is never used by value.
-/

namespace DebugSymbols

/-! ## Derived types -/

theorem CType.usesUnder_derive (base : CType) : ∀ (p : Bool) (mods : List Modifier) (dims : List UInt32),
    (base.derive mods dims).usesUnder p = base.usesUnder ((mods.getLast?.map (· == .pointer)).getD p)
  | _, [], _ => rfl
  | p, m :: ms, dims => by
    have hlast : ((m :: ms).getLast?.map (· == .pointer)).getD p =
        (ms.getLast?.map (· == .pointer)).getD (m == .pointer) := by
      rw [List.getLast?_cons]
      cases ms.getLast? <;> rfl
    rw [hlast, ← CType.usesUnder_derive base _ ms (if m = .array then dims.tail else dims)]
    cases m with
    | pointer => rw [derive_pointer]; rfl
    | function => rw [derive_function]; exact List.append_nil _
    | array => rw [derive_array]; rfl

theorem CType.uses_derive (base : CType) (mods : List Modifier) (dims : List UInt32) :
    (base.derive mods dims).uses = base.usesUnder (reachesByPointer mods) := by
  have hlast : (mods.getLast?.map (· == .pointer)).getD false = reachesByPointer mods := by
    unfold reachesByPointer
    cases mods.getLast? <;> rfl
  rw [← hlast]
  exact base.usesUnder_derive false mods dims

theorem Composite.marked_of_used {c : Composite} {byPointer : Bool} (h : c.used byPointer = c) :
    c.marked byPointer = true := by
  rw [← h]
  cases byPointer <;> rfl

theorem Composite.marked_used {c : Composite} {p : Bool} (h : c.marked p = true) (byPointer : Bool) :
    (c.used byPointer).marked p = true := by
  cases byPointer <;> cases p <;> first | exact h | rfl

namespace Overlay

variable {o o' : Overlay}

/-! ## Building -/

def MarksUses (o : Overlay) (t : CType) : Prop :=
  ∀ u ∈ t.uses, (o.arena.composite u.id).marked u.byPointer = true

theorem Edit.keepsMarks (h : o.Edit o') : o.arena.KeepsMarks o'.arena := by
  cases h with
  | newComposite kind name size =>
    rw [arena_addComposite]
    exact Arena.keepsMarks_pushComposite _
  | use id byPointer => exact Arena.keepsMarks_modifyComposite fun _ _ hp => Composite.marked_used hp byPointer
  | fill hf hs => exact Arena.keepsMarks_modifyComposite fun _ _ hp => hp
  | global h =>
    unfold addGlobal
    split <;> exact Arena.keepsMarks_of_eq rfl
  | @newAlias d v h hnew =>
    generalize aliasTarget v.type = target
    cases target with
    | composite k id =>
      have hkeeps : (o.addTypedef v).arena.KeepsMarks ((o.addTypedef v).arena.modifyComposite id fun c =>
          { c with aliases := c.aliases ++ [o.arena.nextTypedef] }) :=
        Arena.keepsMarks_modifyComposite fun _ _ hp => hp
      exact hkeeps
    | _ => exact Arena.keepsMarks_of_eq rfl
  | field id h => exact Arena.keepsMarks_modifyComposite fun _ _ hp => hp
  | addScoped f opened h => cases opened <;> exact Arena.keepsMarks_of_eq rfl
  | _ => exact Arena.keepsMarks_of_eq rfl

theorem Refers.marksUses {d : SymbolDef} {t : CType} (h : o.Refers d t) (ho : o.Indexed) : o.MarksUses t := by
  obtain ⟨base, hbase, rfl⟩ := h
  unfold MarksUses
  rw [CType.uses_derive]
  cases hbase with
  | @composite kind id size hb hs hid hsize huse =>
    intro u hu
    rw [List.mem_singleton.mp hu]
    have hlt := (ho.composite_mem kind id ((ho.composites kind).mem_listed hid)).1
    exact Composite.marked_of_used (huse hlt)
  | _ => exact fun _ hu => nomatch hu

theorem Fresh.marksUses {t : CType} {z : Option UInt32} (h : o.Fresh t z) (ho : o.Indexed) : o.MarksUses t := by
  cases h with
  | declared h => exact h.refers.marksUses ho
  | field h => exact h.refers.marksUses ho
  | result h ht =>
    intro u hu
    refine h.refers.marksUses ho u ?_
    rw [ht]
    exact List.mem_append_left _ hu
  | null => exact fun _ hu => nomatch hu
  | placeholder => exact fun _ hu => nomatch hu

def UsesMarked (o : Overlay) : Prop :=
  ∀ t z, o.Stores t z → o.MarksUses t

theorem Edit.usesMarked (h : o.Edit o') (ho : o.Indexed) (hm : o.UsesMarked) : o'.UsesMarked := by
  intro t z hs u hu
  refine h.keepsMarks u.id u.byPointer ?_
  obtain hold | hnew := h.stores_cases hs
  · exact hm t z hold u hu
  · exact hnew.marksUses ho u hu

/-! ## Merging -/

theorem usesMarked_merge (ho : o.Indexed) (hm : o.UsesMarked) : o.merge.1.UsesMarked := by
  intro t z hs u hu
  obtain ⟨s, hold, rfl⟩ := (merge_merged ho).redirected.stores hs
  rw [CType.uses_renumber] at hu
  obtain ⟨v, hv, rfl⟩ := List.mem_map.mp hu
  exact movesMarks_merge ho v.id v.byPointer (hm s z hold v hv)

/-! ## All overlays -/

/-- Each use is marked at its entry, and an entry that is marked as used by
reference only is used by pointers alone. -/
structure UsesNoted (o : Overlay) : Prop where
  marked : ∀ t z, o.Stores t z → ∀ u ∈ t.uses, (o.arena.composite u.id).marked u.byPointer = true
  referenceOnly : ∀ id, (o.arena.composite id).referenceOnly = true →
    ∀ t z, o.Stores t z → ∀ u ∈ t.uses, u.id = id → u.byPointer = true

theorem UsesMarked.usesNoted (h : o.UsesMarked) : o.UsesNoted where
  marked := h
  referenceOnly id hid t z hs u hu heq := by
    by_contra hp
    have hmarked := h t z hs u hu
    rw [Bool.eq_false_iff.mpr hp, heq] at hmarked
    have hvalue : (o.arena.composite id).valueUses = true := hmarked
    unfold Composite.referenceOnly at hid
    rw [hvalue, Bool.not_true, Bool.and_false] at hid
    exact nomatch hid

theorem usesMarked_afterWalks (chunks : List (List Record)) :
    ∀ o ∈ (Builder.afterWalks chunks).overlays, o.Indexed ∧ o.UsesMarked := by
  refine Builder.forall_overlays_afterWalks ?_ ?_ chunks
  · exact fun id addr length =>
      ⟨indexed_new id addr length, fun t z hs => absurd hs (not_stores_new id addr length)⟩
  · exact fun o o' h ho => ⟨h.indexed ho.1, h.usesMarked ho.1 ho.2⟩

theorem usesNoted_afterWalks (chunks : List (List Record)) (ho : o ∈ (Builder.afterWalks chunks).overlays) :
    o.UsesNoted ∧ o.merge.1.UsesNoted := by
  obtain ⟨hi, hm⟩ := usesMarked_afterWalks chunks o ho
  exact ⟨hm.usesNoted, (usesMarked_merge hi hm).usesNoted⟩

def pointedCopy : List Record :=
  structCopy ++ structCopy.take 3 ++
    [{ offset := 0, value := 0,
       body := .definition .second
        { symbolClass := .external, word := ⟨24⟩, size := 4, tag := "point", name := "corner" } }]

def pointed : Overlay :=
  (Builder.afterWalks [pointedCopy]).currentOverlay

theorem usesNoted_pointed :
    (pointed.arena.composite ⟨1⟩).referenceOnly = true ∧ pointed.canon.composite ⟨1⟩ = ⟨0⟩ ∧
      (pointed.merge.1.arena.composite ⟨0⟩).referenceOnly = false ∧
      pointed ∈ (Builder.afterWalks [pointedCopy]).overlays ∧ pointed.UsesNoted ∧ pointed.merge.1.UsesNoted :=
  have hmem : pointed ∈ (Builder.afterWalks [pointedCopy]).overlays := by decide +kernel
  ⟨by decide +kernel, by decide +kernel, by decide +kernel, hmem, usesNoted_afterWalks [pointedCopy] hmem⟩

end Overlay

end DebugSymbols
