import DebugSymbols.Proofs.Finished
import DebugSymbols.Proofs.Print.Items

/-!
# Bodies written

The bodies among the types of an overlay: those of listed types only, that of
each listed enum once, and once that of each listed struct or union that is not
written in place.
-/

namespace DebugSymbols.Overlay

variable {o : Overlay}

def typeTasks (o : Overlay) : List Task :=
  let all := o.structs.listed ++ o.unions.listed
  o.enums.listed.map Task.defineEnum ++
    (all.filter (!o.arena.isInlined ·) ++ all.filter o.arena.isInlined).map Task.define

def bodies (o : Overlay) : Progress × List Item :=
  o.arena.items o.typeTasks {}

theorem typeItems_eq (o : Overlay) :
    (o.typeItems {}).2 = (o.nullTypedef.elim [] fun id => typedefItems id {} ++ [Item.blank]) ++ o.bodies.2 ++
      o.typedefs.listed.flatMap (typedefItems · o.bodies.1) := rfl

theorem writes_bodies (o : Overlay) : o.arena.Writes o.typeTasks {} o.bodies.1 o.bodies.2 :=
  Arena.writes_items _ _ _

theorem define_mem_typeTasks {i : CompositeId} {kind : CompositeKind} (hi : i ∈ (o.composites kind).listed) :
    .define i ∈ o.typeTasks := by
  have hall : i ∈ o.structs.listed ++ o.unions.listed := by
    cases kind with
    | struct => exact List.mem_append_left _ hi
    | union => exact List.mem_append_right _ hi
  refine List.mem_append_right _ (List.mem_map.mpr ⟨i, ?_, rfl⟩)
  rw [List.mem_append, List.mem_filter, List.mem_filter]
  cases o.arena.isInlined i <;> simp [hall]

theorem mem_typeTasks {t : Task} (h : t ∈ o.typeTasks) :
    (∃ i, t = .defineEnum i ∧ o.Lists (.enum i)) ∨ ∃ kind i, t = .define i ∧ o.Lists (.composite kind i) := by
  obtain h | h := List.mem_append.mp h
  · obtain ⟨i, hi, rfl⟩ := List.mem_map.mp h
    exact .inl ⟨i, rfl, hi⟩
  · obtain ⟨i, hi, rfl⟩ := List.mem_map.mp h
    have hall : i ∈ o.structs.listed ++ o.unions.listed := by
      obtain hi | hi := List.mem_append.mp hi <;> exact (List.mem_filter.mp hi).1
    obtain hs | hu := List.mem_append.mp hall
    · exact .inr ⟨.struct, i, rfl, hs⟩
    · exact .inr ⟨.union, i, rfl, hu⟩

def ListsTask (o : Overlay) : Task → Prop
  | .define i => ∃ kind, o.Lists (.composite kind i)
  | .passThrough i => ∃ kind, o.Lists (.composite kind i)
  | .close i => ∃ kind, o.Lists (.composite kind i)
  | .defineEnum i => o.Lists (.enum i)

theorem Closed.listsTask_embedded (ho : o.Closed) (i : CompositeId) : ∀ t ∈ o.arena.embedded i, o.ListsTask t := by
  intro t ht
  obtain ⟨x, hx, hcases⟩ := Arena.exists_of_mem_embedded ht
  have hlists : ∀ h ∈ x.type.stripArrays.handles, o.Lists h := by
    rw [CType.handles_stripArrays]
    exact ho.handles _ _ (.composite (Arena.composite_mem_of_field hx) (.field hx))
  obtain ⟨kind, j, hstrip, rfl⟩ | ⟨j, hstrip, rfl⟩ := hcases
  · rw [hstrip] at hlists
    have hj := hlists (.composite kind j) (List.mem_singleton_self _)
    split <;> exact ⟨kind, hj⟩
  · rw [hstrip] at hlists
    exact hlists (.enum j) (List.mem_singleton_self _)

theorem lists_of_mem_bodies (ho : o.Closed) {item : Item} (hi : item ∈ o.bodies.2) :
    (∃ kind i, item = .composite i ∧ o.Lists (.composite kind i)) ∨
      ∃ i, item = .enum i ∧ o.Lists (.enum i) := by
  have htasks : ∀ t ∈ o.typeTasks, o.ListsTask t := by
    intro t ht
    obtain ⟨i, rfl, hi⟩ | ⟨kind, i, rfl, hi⟩ := mem_typeTasks ht
    · exact hi
    · exact ⟨kind, hi⟩
  have hbodies := o.writes_bodies.of_mem (P := o.ListsTask) htasks
    (fun i h => ⟨h, ho.listsTask_embedded i⟩) (fun i _ => ho.listsTask_embedded i) hi
  obtain ⟨i, rfl, kind, hlists⟩ | ⟨i, rfl, hlists⟩ := hbodies
  · exact .inl ⟨kind, i, rfl, hlists⟩
  · exact .inr ⟨i, rfl, hlists⟩

theorem count_bodies_composite {kind : CompositeKind} {i : CompositeId} (hi : o.Lists (.composite kind i))
    (hin : o.arena.isInlined i = false) : o.bodies.2.count (.composite i) = 1 := by
  have hpasses : o.arena.PassesInlined o.typeTasks := by
    intro j hj
    obtain ⟨_, heq, _⟩ | ⟨_, _, heq, _⟩ := mem_typeTasks hj <;> exact nomatch heq
  have hclose : o.typeTasks.count (.close i) = 0 := by
    refine List.count_eq_zero.mpr fun hj => ?_
    obtain ⟨_, heq, _⟩ | ⟨_, _, heq, _⟩ := mem_typeTasks hj <;> exact nomatch heq
  have hvisited : i ∈ o.bodies.1.composites := by
    obtain hhas | ⟨j, heq⟩ := o.writes_bodies.has_of_mem (define_mem_typeTasks hi)
    · exact hhas
    · exact nomatch heq
  have hcount := o.writes_bodies.count_composite hpasses hin
  rw [hclose, if_pos hvisited] at hcount
  exact hcount

theorem count_bodies_enum {i : EnumId} (hi : o.Lists (.enum i)) : o.bodies.2.count (.enum i) = 1 := by
  have hmem : .defineEnum i ∈ o.typeTasks := List.mem_append_left _ (List.mem_map.mpr ⟨i, hi, rfl⟩)
  have hvisited : i ∈ o.bodies.1.enums := by
    obtain hhas | ⟨j, heq⟩ := o.writes_bodies.has_of_mem hmem
    · exact hhas
    · exact nomatch heq
  have hcount := o.writes_bodies.count_enum i
  rw [if_pos hvisited] at hcount
  exact hcount

end DebugSymbols.Overlay
