import DebugSymbols.Proofs.Build.Ordered

/-!
# Aliases while building

An alias of a struct, union or enum is a listed typedef of it or of a pointer to
it, and no two aliases of one type share a name. Only a new typedef becomes an
alias, and only where it is the first of its name.
-/

namespace DebugSymbols.Overlay

/-- The handle that a type is belongs to an entry of the arena, of the kind that
the type says. -/
def InArena (o : Overlay) : CType → Prop
  | .composite k i => i.index < o.arena.composites.length ∧ (o.arena.composite i).kind = k
  | .enum i => i.index < o.arena.enums.length
  | .typedef i => i.index < o.arena.typedefs.length
  | _ => True

def aliasesOf (o : Overlay) (t : CType) : List TypedefId :=
  (o.aliases? t).getD []

structure AliasesSound (o : Overlay) : Prop where
  targets : ∀ t, o.InArena t → ∀ id ∈ o.aliasesOf t,
    id ∈ o.typedefs.listed ∧ aliasTarget (o.arena.typedef id).type = t
  names : ∀ t, o.InArena t → ((o.aliasesOf t).map fun id => (o.arena.typedef id).name).Nodup

variable {o o' : Overlay}

theorem eq_of_aliasTarget {s t : CType} (h : aliasTarget s = t) : s = t ∨ s = .pointer t := by
  cases s with
  | pointer u =>
    have hu : u = t := h
    exact .inr (congrArg CType.pointer hu)
  | _ => exact .inl h

theorem Lists.inArena {t : CType} (h : o.Lists t) (ho : o.Indexed) : o.InArena t := by
  cases t with
  | composite k i => exact ho.composite_mem k i h
  | enum i => exact ho.enum_mem i h
  | typedef i =>
    obtain h | h := h
    · exact (ho.typedef_mem i h).1
    · exact ho.null_mem i h
  | _ => trivial

/-! ## What an edit keeps -/

theorem Edit.typedef_eq (h : o.Edit o') {id : TypedefId} (hid : id.index < o.arena.typedefs.length) :
    o'.arena.typedef id = o.arena.typedef id := by
  have hpush : ∀ d : Variable, (o.arena.pushTypedef d).typedef id = o.arena.typedef id := by
    intro d
    rw [Arena.typedef_pushTypedef, if_neg]
    rintro rfl
    exact Nat.lt_irrefl _ hid
  cases h with
  | newComposite kind name size => rw [arena_addComposite, Arena.typedef_pushComposite]
  | newNull h => exact hpush _
  | global h =>
    unfold addGlobal
    split <;> rfl
  | typedef h => exact hpush _
  | @newAlias d v h hnew =>
    generalize aliasTarget v.type = target
    cases target <;> exact hpush v
  | addScoped f opened h => cases opened <;> rfl
  | _ => rfl

theorem Edit.typedefs_subset (h : o.Edit o') : o.typedefs.listed ⊆ o'.typedefs.listed := by
  obtain hs | ⟨c, _, hs⟩ | ⟨e, _, hs⟩ | ⟨hn, hs⟩ | ⟨v, hs⟩ := h.heads_cases
  · rw [hs.typedefs]
    exact fun _ h => h
  · rw [hs.typedefs, typedefs_addComposite]
    exact fun _ h => h
  · rw [hs.typedefs]
    exact fun _ h => h
  · rw [hs.typedefs]
    exact fun _ h => h
  · rw [hs.typedefs]
    exact fun _ h => List.mem_append_left _ h

theorem Edit.kind_eq (h : o.Edit o') {id : CompositeId} (hid : id.index < o.arena.composites.length) :
    (o'.arena.composite id).kind = (o.arena.composite id).kind := by
  obtain hs | ⟨c, _, hs⟩ | ⟨e, _, hs⟩ | ⟨hn, hs⟩ | ⟨v, hs⟩ := h.heads_cases
  · exact hs.kind id
  · rw [hs.kind, arena_addComposite, Arena.composite_pushComposite, if_neg]
    rintro rfl
    exact Nat.lt_irrefl _ hid
  · exact hs.kind id
  · exact hs.kind id
  · exact hs.kind id

theorem inArena_iff (hs : SameHeads o o') (t : CType) : o'.InArena t ↔ o.InArena t := by
  cases t <;> simp only [InArena, hs.compositeCount, hs.kind, hs.enumCount, hs.typedefCount]

theorem InArena.addTypedef {t : CType} (h : o.InArena t) (v : Variable) : (o.addTypedef v).InArena t := by
  cases t with
  | typedef i =>
    show i.index < (o.arena.typedefs ++ [v]).length
    rw [List.length_append]
    exact Nat.lt_succ_of_lt h
  | _ => exact h

/-! ## Aliases after an edit -/

theorem aliasesOf_congr (hc : ∀ id, (o'.arena.composite id).aliases = (o.arena.composite id).aliases)
    (he : ∀ id, (o'.arena.enumeration id).aliases = (o.arena.enumeration id).aliases) (t : CType) :
    o'.aliasesOf t = o.aliasesOf t := by
  cases t with
  | composite k id => exact hc id
  | enum id => exact he id
  | _ => rfl

theorem aliasesOf_modifyComposite {id : CompositeId} {f : Composite → Composite}
    (hf : ∀ c, (f c).aliases = c.aliases) (t : CType) :
    (o.modifyArena (·.modifyComposite id f)).aliasesOf t = o.aliasesOf t := by
  refine aliasesOf_congr ?_ ?_ t
  · exact Arena.composite_modifyComposite_congr _ Composite.aliases hf id
  · exact fun _ => rfl

theorem aliasesOf_addComposite {c : Composite} (hc : c.aliases = []) (t : CType) :
    (o.addComposite c).aliasesOf t = o.aliasesOf t := by
  refine aliasesOf_congr (fun id => ?_) (fun id => ?_) t
  · rw [arena_addComposite, Arena.composite_pushComposite]
    by_cases h : id = o.arena.nextComposite
    · -- behind the end nothing has an alias either
      rw [if_pos h, hc, h]
      simp [Arena.composite, Arena.nextComposite, default]
    · rw [if_neg h]
  · rw [arena_addComposite, Arena.enumeration_pushComposite]

theorem aliasesOf_addEnum {e : Enumeration} (he : e.aliases = []) (t : CType) :
    (o.addEnum e).aliasesOf t = o.aliasesOf t := by
  refine aliasesOf_congr ?_ (fun id => ?_) t
  · exact fun _ => rfl
  · show ((o.arena.pushEnum e).enumeration id).aliases = _
    rw [Arena.enumeration_pushEnum]
    by_cases h : id = o.arena.nextEnum
    · rw [if_pos h, he, h]
      simp [Arena.enumeration, Arena.nextEnum, default]
    · rw [if_neg h]

def withAlias (o : Overlay) (v : Variable) : Overlay :=
  (o.addTypedef v).addAlias o.arena.nextTypedef (aliasTarget v.type)

theorem Edit.aliases_cases (h : o.Edit o') :
    (∀ t, o'.aliasesOf t = o.aliasesOf t) ∨
      ∃ d v, o.Declared d v ∧ (∀ id ∈ o.siblings v.type, (o.arena.typedef id).name ≠ v.name) ∧
        o' = o.withAlias v := by
  cases h with
  | newComposite kind name size => exact .inl (aliasesOf_addComposite rfl)
  | newEnum name => exact .inl (aliasesOf_addEnum rfl)
  | use id byPointer => exact .inl (aliasesOf_modifyComposite fun c => by cases byPointer <;> rfl)
  | @fill _ size => exact .inl (aliasesOf_modifyComposite (f := fun c => { c with size }) fun _ => rfl)
  | global h =>
    unfold addGlobal
    split <;> exact .inl (aliasesOf_congr (fun _ => rfl) fun _ => rfl)
  | newAlias h hnew => exact .inr ⟨_, _, h, hnew, rfl⟩
  | @field d x id h =>
    exact .inl (aliasesOf_modifyComposite (f := fun c => { c with fields := c.fields ++ [x] }) fun _ => rfl)
  | member id value name =>
    refine .inl (aliasesOf_congr (fun _ => rfl) (Arena.enumeration_modifyEnum_congr _ Enumeration.aliases ?_ id))
    exact fun _ => rfl
  | addScoped f opened h => cases opened <;> exact .inl (aliasesOf_congr (fun _ => rfl) fun _ => rfl)
  | _ => exact .inl (aliasesOf_congr (fun _ => rfl) fun _ => rfl)

theorem inArena_of_aliasesOf {t : CType} {id : TypedefId} (h : o.Edit o') (ht : o'.InArena t)
    (hid : id ∈ o.aliasesOf t) : o.InArena t := by
  cases t with
  | composite k i =>
    have hlt : i.index < o.arena.composites.length := by
      by_contra hge
      have hid : id ∈ (o.arena.composite i).aliases := hid
      rw [Arena.composite_of_le (Nat.le_of_not_lt hge)] at hid
      exact nomatch hid
    exact ⟨hlt, (h.kind_eq hlt).symm.trans ht.2⟩
  | enum i =>
    show i.index < _
    by_contra hge
    have hid : id ∈ (o.arena.enumeration i).aliases := hid
    rw [Arena.enumeration_of_le (Nat.le_of_not_lt hge)] at hid
    exact nomatch hid
  | _ => exact nomatch hid

theorem aliasesOf_addAlias (new : TypedefId) {s t : CType} (hs : o.InArena s) (ht : o.InArena t) :
    (o.addAlias new s).aliasesOf t = o.aliasesOf t ∨
      s = t ∧ (o.addAlias new s).aliasesOf t = o.aliasesOf t ++ [new] := by
  cases s with
  | composite k i =>
    cases t with
    | composite l j =>
      show ((o.arena.modifyComposite i _).composite j).aliases = (o.arena.composite j).aliases ∨
        _ ∧ ((o.arena.modifyComposite i _).composite j).aliases = (o.arena.composite j).aliases ++ [new]
      rw [Arena.composite_modifyComposite]
      by_cases hij : i = j
      · subst hij
        rw [if_pos ⟨rfl, ht.1⟩]
        exact .inr ⟨by rw [← hs.2, ht.2], rfl⟩
      · rw [if_neg fun h => hij h.1]
        exact .inl rfl
    | _ => exact .inl rfl
  | enum i =>
    cases t with
    | enum j =>
      show ((o.arena.modifyEnum i _).enumeration j).aliases = (o.arena.enumeration j).aliases ∨
        _ ∧ ((o.arena.modifyEnum i _).enumeration j).aliases = (o.arena.enumeration j).aliases ++ [new]
      rw [Arena.enumeration_modifyEnum]
      by_cases hij : i = j
      · subst hij
        rw [if_pos ⟨rfl, ht⟩]
        exact .inr ⟨rfl, rfl⟩
      · rw [if_neg fun h => hij h.1]
        exact .inl rfl
    | _ => exact .inl rfl
  | _ => exact .inl rfl

theorem typedef_withAlias (o : Overlay) (v : Variable) :
    (o.withAlias v).arena.typedef o.arena.nextTypedef = v := by
  have hpush : (o.arena.pushTypedef v).typedef o.arena.nextTypedef = v := by
    rw [Arena.typedef_pushTypedef, if_pos rfl]
  unfold withAlias
  generalize aliasTarget v.type = target
  cases target <;> exact hpush

theorem mem_typedefs_withAlias (o : Overlay) (v : Variable) :
    o.arena.nextTypedef ∈ (o.withAlias v).typedefs.listed := by
  have hheads := sameHeads_addAlias (o := o.addTypedef v) o.arena.nextTypedef (aliasTarget v.type)
  unfold withAlias
  rw [hheads.typedefs]
  exact List.mem_append_right _ (List.mem_singleton_self _)

theorem aliasesOf_withAlias {v : Variable} (hv : o.InArena (aliasTarget v.type)) {t : CType}
    (ht : (o.withAlias v).InArena t) :
    (o.withAlias v).aliasesOf t = o.aliasesOf t ∨
      aliasTarget v.type = t ∧ (o.withAlias v).aliasesOf t = o.aliasesOf t ++ [o.arena.nextTypedef] := by
  have hheads := sameHeads_addAlias (o := o.addTypedef v) o.arena.nextTypedef (aliasTarget v.type)
  have hold : (o.addTypedef v).aliasesOf t = o.aliasesOf t := by cases t <;> rfl
  rw [← hold]
  exact aliasesOf_addAlias _ (hv.addTypedef v) ((inArena_iff hheads t).mp ht)

/-! ## Aliases stay sound -/

theorem aliasesSound_new (id addr length : UInt32) : AliasesSound { id, addr, length } := by
  have hnone : ∀ t, aliasesOf { id, addr, length } t = [] := by
    intro t
    cases t <;> rfl
  constructor
  · intro t _ i hi
    rw [hnone] at hi
    exact nomatch hi
  · intro t _
    rw [hnone]
    exact List.nodup_nil

section
variable (h : o.AliasesSound) (he : o.Edit o') (ho : o.Indexed) {t : CType} (ht : o'.InArena t)
include h he ho ht

theorem AliasesSound.kept {id : TypedefId} (hid : id ∈ o.aliasesOf t) :
    id ∈ o'.typedefs.listed ∧ o'.arena.typedef id = o.arena.typedef id ∧
      aliasTarget (o'.arena.typedef id).type = t := by
  obtain ⟨hlisted, htarget⟩ := h.targets t (inArena_of_aliasesOf he ht hid) id hid
  have heq := he.typedef_eq (ho.typedef_mem id hlisted).1
  exact ⟨he.typedefs_subset hlisted, heq, by rw [heq]; exact htarget⟩

theorem AliasesSound.nodup_kept :
    ((o.aliasesOf t).map fun id => (o'.arena.typedef id).name).Nodup := by
  rw [List.map_congr_left fun id hid => by rw [(h.kept he ho ht hid).2.1]]
  cases hall : o.aliasesOf t with
  | nil => exact List.nodup_nil
  | cons id ids =>
    have hmem : id ∈ o.aliasesOf t := hall ▸ List.mem_cons_self
    rw [← hall]
    exact h.names t (inArena_of_aliasesOf he ht hmem)

end

theorem lists_aliasTarget {t : CType} (h : ∀ i ∈ t.handles, o.Lists i) : o.Lists (aliasTarget t) := by
  have hself : ∀ s : CType, (∀ i ∈ s.handles, o.Lists i) → o.Lists s := by
    intro s hs
    cases s with
    | composite k i => exact hs _ (List.mem_singleton_self _)
    | enum i => exact hs _ (List.mem_singleton_self _)
    | typedef i => exact hs _ (List.mem_singleton_self _)
    | _ => trivial
  cases t with
  | pointer s => exact hself s h
  | _ => exact hself _ h

theorem inArena_aliasTarget {d : SymbolDef} {t : CType} (h : o.Refers d t) (ho : o.Indexed) :
    o.InArena (aliasTarget t) :=
  (lists_aliasTarget (h.lists ho)).inArena ho

theorem Edit.aliasesSound (he : o.Edit o') (ho : o.Indexed) (h : o.AliasesSound) : o'.AliasesSound := by
  -- the aliases of `t` are those there were or, if it is the target, these and a new one
  have hcases : ∀ t, o'.InArena t → o'.aliasesOf t = o.aliasesOf t ∨
      ∃ v, (∀ id ∈ o.aliasesOf t, (o.arena.typedef id).name ≠ v.name) ∧ aliasTarget v.type = t ∧
        o' = o.withAlias v ∧ o'.aliasesOf t = o.aliasesOf t ++ [o.arena.nextTypedef] := by
    intro t ht
    obtain hsame | ⟨d, v, hv, hnew, rfl⟩ := he.aliases_cases
    · exact .inl (hsame t)
    · obtain hsame | ⟨htarget, hlast⟩ := aliasesOf_withAlias (inArena_aliasTarget hv.refers ho) ht
      · exact .inl hsame
      · exact .inr ⟨v, htarget ▸ hnew, htarget, rfl, hlast⟩
  constructor
  · intro t ht id hid
    have hkept : id ∈ o.aliasesOf t → _ := h.kept he ho ht
    obtain hsame | ⟨v, _, htarget, rfl, hlast⟩ := hcases t ht
    · rw [hsame] at hid
      exact ⟨(hkept hid).1, (hkept hid).2.2⟩
    · rw [hlast] at hid
      obtain hid | hid := List.mem_append.mp hid
      · exact ⟨(hkept hid).1, (hkept hid).2.2⟩
      · rw [List.mem_singleton.mp hid, typedef_withAlias]
        exact ⟨mem_typedefs_withAlias o v, htarget⟩
  · intro t ht
    have hold := h.nodup_kept he ho ht
    obtain hsame | ⟨v, hnew, _, rfl, hlast⟩ := hcases t ht
    · rw [hsame]
      exact hold
    · rw [hlast, List.map_append, List.nodup_append]
      refine ⟨hold, List.pairwise_singleton _ _, fun n hn m hm => ?_⟩
      obtain ⟨id, hid, rfl⟩ := List.mem_map.mp hn
      rw [List.map_singleton, List.mem_singleton, typedef_withAlias] at hm
      rw [hm, (h.kept he ho ht hid).2.1]
      exact hnew id hid

end DebugSymbols.Overlay
