import DebugSymbols.Proofs.Build.Lookups
import DebugSymbols.Proofs.Build.Runs
import DebugSymbols.Proofs.Model.Grouping

/-!
# What lookups add

A lookup adds an empty struct, union or enum if it finds none of the tag, and
nothing otherwise. So whatever is looked up on the way, the entries there are
stay what they were, and a tag that has an entry gets no other.
-/

namespace DebugSymbols

def Mentions (ls : List Lookup) (kind : CompositeKind) (tag : Tag) (size : UInt32) : Prop :=
  ∃ l ∈ ls, l.RefersTo kind tag ∧ l.d.referencedSize = .ok size

namespace Overlay

open DebugSymbols.Action (Leads)

structure Extends (w : Filling) (ls : List Lookup) (o o' : Overlay) : Prop where
  heads : o.arena.composites.map Composite.head <+: o'.arena.composites.map Composite.head
  tags : o.arena.enums.map Enumeration.tag <+: o'.arena.enums.map Enumeration.tag
  fields : ∀ id, w.composite ≠ some id → (o'.arena.composite id).fields = (o.arena.composite id).fields
  members : ∀ id, w.enum ≠ some id → (o'.arena.enumeration id).members = (o.arena.enumeration id).members
  kept : ∀ kind tag, (o.composites kind).groups.get tag ≠ [] →
    (o'.composites kind).groups.get tag = (o.composites kind).groups.get tag
  added : ∀ kind tag, (o.composites kind).groups.get tag = [] → (o'.composites kind).groups.get tag = [] ∨
    ∃ id size, (o'.composites kind).groups.get tag = [id] ∧ o.arena.composites.length ≤ id.index ∧
      (o'.arena.composites.map Composite.head)[id.index]? = some (kind, tag, size) ∧ Mentions ls kind tag size

variable {w : Filling} {ls ls' : List Lookup} {o o' o'' : Overlay}

theorem Quiet.extends (h : Quiet w o o') : Extends w ls o o' where
  heads := h.heads ▸ List.prefix_rfl
  tags := h.tags ▸ List.prefix_rfl
  fields := h.fields
  members := h.members
  kept kind tag _ := by rw [h.composites]
  added kind tag hg := .inl (by rw [h.composites, hg])

theorem Extends.length_le (h : Extends w ls o o') : o.arena.composites.length ≤ o'.arena.composites.length := by
  simpa using h.heads.length_le

theorem getElem?_heads {id : CompositeId} (hid : id.index < o.arena.composites.length) :
    (o.arena.composites.map Composite.head)[id.index]? = some (o.arena.composite id).head := by
  rw [List.getElem?_map, List.getElem?_eq_getElem hid]
  simp [Arena.composite, List.getElem?_eq_getElem hid]

theorem Extends.head_eq (h : Extends w ls o o') {id : CompositeId} (hid : id.index < o.arena.composites.length) :
    (o'.arena.composite id).head = (o.arena.composite id).head := by
  have hold := getElem?_heads hid
  have hnew := getElem?_heads (Nat.lt_of_lt_of_le hid h.length_le)
  obtain ⟨more, hmore⟩ := h.heads
  rw [← hmore, List.getElem?_append_left (by rwa [List.length_map]), hold] at hnew
  exact (Option.some.inj hnew).symm

theorem getElem?_tags {id : EnumId} (hid : id.index < o.arena.enums.length) :
    (o.arena.enums.map Enumeration.tag)[id.index]? = some (o.arena.enumeration id).tag := by
  rw [List.getElem?_map, List.getElem?_eq_getElem hid]
  simp [Arena.enumeration, List.getElem?_eq_getElem hid]

theorem Extends.enums_length_le (h : Extends w ls o o') : o.arena.enums.length ≤ o'.arena.enums.length := by
  simpa using h.tags.length_le

theorem Extends.tag_eq (h : Extends w ls o o') {id : EnumId} (hid : id.index < o.arena.enums.length) :
    (o'.arena.enumeration id).tag = (o.arena.enumeration id).tag := by
  have hold := getElem?_tags hid
  have hnew := getElem?_tags (Nat.lt_of_lt_of_le hid h.enums_length_le)
  obtain ⟨more, hmore⟩ := h.tags
  rw [← hmore, List.getElem?_append_left (by rwa [List.length_map]), hold] at hnew
  exact (Option.some.inj hnew).symm

theorem Extends.trans (h : Extends w ls o o') (h' : Extends w ls o' o'') : Extends w ls o o'' where
  heads := h.heads.trans h'.heads
  tags := h.tags.trans h'.tags
  fields id hid := (h'.fields id hid).trans (h.fields id hid)
  members id hid := (h'.members id hid).trans (h.members id hid)
  kept kind tag hg := by
    have hfirst := h.kept kind tag hg
    rw [h'.kept kind tag (hfirst ▸ hg), hfirst]
  added kind tag hg := by
    obtain hnone | ⟨id, size, hid, hle, hhead, hmention⟩ := h.added kind tag hg
    · obtain hnone | ⟨id, size, hid, hle, hhead, hmention⟩ := h'.added kind tag hnone
      · exact .inl hnone
      · exact .inr ⟨id, size, hid, Nat.le_trans h.length_le hle, hhead, hmention⟩
    · refine .inr ⟨id, size, ?_, hle, ?_, hmention⟩
      · rw [h'.kept kind tag (by rw [hid]; exact List.cons_ne_nil _ _), hid]
      · obtain ⟨hlt, _⟩ := List.getElem?_eq_some_iff.mp hhead
        obtain ⟨more, hmore⟩ := h'.heads
        rw [← hmore, List.getElem?_append_left hlt]
        exact hhead

theorem Extends.of_steps (h : Relation.ReflTransGen (Extends w ls) o o') : Extends w ls o o' := by
  induction h with
  | refl => exact (Quiet.refl o).extends
  | tail _ h ih => exact ih.trans h

theorem Extends.mono (h : Extends w ls o o') (hls : ls ⊆ ls') : Extends w ls' o o' where
  heads := h.heads
  tags := h.tags
  fields := h.fields
  members := h.members
  kept := h.kept
  added kind tag hg := by
    obtain hnone | ⟨id, size, hid, hle, hhead, l, hl, hrefers⟩ := h.added kind tag hg
    · exact .inl hnone
    · exact .inr ⟨id, size, hid, hle, hhead, l, hls hl, hrefers⟩

/-! ## New entries -/

theorem extends_addComposite {kind : CompositeKind} {tag : Tag} {size : UInt32}
    (hg : (o.composites kind).groups.get tag = []) (h : Mentions ls kind tag size) :
    Extends w ls o (o.addComposite { kind, tag, size }) := by
  have hheads : (o.addComposite { kind, tag, size }).arena.composites.map Composite.head =
      o.arena.composites.map Composite.head ++ [(kind, tag, size)] := by
    rw [arena_addComposite]
    exact List.map_append
  have hget : ∀ k t, ((o.addComposite { kind, tag, size }).composites k).groups.get t =
      if k = kind ∧ t = tag then [o.arena.nextComposite] else (o.composites k).groups.get t := by
    intro k t
    rw [composites_addComposite]
    by_cases hk : k = kind
    · subst hk
      rw [if_pos rfl]
      show ((o.composites k).groups.add tag _).get t = _
      rw [Groups.get_add, hg]
      by_cases ht : t = tag <;> simp [ht]
    · simp [hk]
  constructor
  · rw [hheads]
    exact List.prefix_append _ _
  · rw [arena_addComposite]
    exact List.prefix_rfl
  · intro id _
    rw [arena_addComposite, Arena.composite_pushComposite]
    split
    · rename_i hid
      rw [hid, Arena.composite_next]
      rfl
    · rfl
  · intro id _
    rw [arena_addComposite]
    rfl
  · intro k t hne
    rw [hget, if_neg]
    rintro ⟨rfl, rfl⟩
    exact hne hg
  · intro k t hnil
    rw [hget]
    by_cases hkt : k = kind ∧ t = tag
    · obtain ⟨rfl, rfl⟩ := hkt
      rw [if_pos ⟨rfl, rfl⟩, hheads]
      refine .inr ⟨o.arena.nextComposite, size, rfl, Nat.le_refl _, ?_, h⟩
      show _[o.arena.composites.length]? = _
      rw [List.getElem?_append_right (Nat.le_of_eq (List.length_map _)), List.length_map, Nat.sub_self]
      rfl
    · rw [if_neg hkt]
      exact .inl hnil

theorem extends_addEnum (tag : Tag) : Extends w ls o (o.addEnum { tag }) where
  heads := List.prefix_rfl
  tags := by
    show _ <+: (o.arena.enums ++ [_]).map Enumeration.tag
    rw [List.map_append]
    exact List.prefix_append _ _
  fields _ _ := rfl
  members id _ := by
    show ((o.arena.pushEnum { tag }).enumeration id).members = _
    rw [Arena.enumeration_pushEnum]
    split
    · rename_i hid
      rw [hid, Arena.enumeration_next]
      rfl
    · rfl
  kept kind tag _ := by rw [composites_addEnum]
  added kind tag hg := .inl (by rw [composites_addEnum, hg])

/-! ## Lookups -/

theorem leads_extends_findComposite {kind : CompositeKind} {tag : Tag} {size : UInt32}
    (h : Mentions ls kind tag size) :
    Leads (Extends w ls) (fun _ => True) (findComposite kind tag size) fun _ _ => True := by
  refine .read_bind fun o _ => ?_
  split
  · rename_i hg
    refine .bind .report fun _ => .read_bind fun o' ho' =>
      .bind (Q := fun _ _ => True) (.modify_step ?_ fun _ _ => trivial) fun _ => .pure fun _ _ => trivial
    rintro _ rfl
    exact extends_addComposite (ho' ▸ hg) h
  · split
    · exact .pure fun _ _ => trivial
    · exact .fail

theorem leads_extends_refer {r : Record} {d : SymbolDef} (hd : ⟨o, r, d⟩ ∈ ls) :
    Leads (Extends w ls) (fun _ => True) (refer d) fun _ _ => True := by
  have hcomposite : ∀ kind, d.word.base = kind.baseCode →
      Leads (Extends w ls) (fun _ => True) (referComposite kind d) fun _ _ => True := by
    intro kind hbase
    refine .bind .ofExcept fun size => .of_fact fun hs => .bind (leads_extends_findComposite ⟨_, hd, ⟨hbase, rfl⟩, hs⟩)
      fun id => .bind (Q := fun _ _ => True) (.modify_step (fun o _ => ?_) fun _ _ => trivial) fun _ =>
        .pure fun _ _ => trivial
    refine (quiet_modifyComposite (fun c => ?_) (.inr fun c => ?_)).extends <;>
      cases reachesByPointer d.word.modifiers <;> rfl
  refine .bind (Q := fun _ _ => True) ?_ fun _ => .pure fun _ _ => trivial
  unfold referBase
  split
  · refine .read_bind fun o _ => ?_
    split
    · exact .pure fun _ _ => trivial
    · refine .bind (Q := fun _ _ => True) (.modify_step (fun o' _ => ?_) fun _ _ => trivial) fun _ =>
        .pure fun _ _ => trivial
      have hquiet : Quiet w o' { o' with
          arena := o'.arena.pushTypedef boolTypedef, nullTypedef := some o.arena.nextTypedef } :=
        quiet_of_eq rfl rfl rfl rfl rfl
      exact hquiet.extends
  · rename_i h; exact hcomposite .struct h
  · rename_i h; exact hcomposite .union h
  · refine .read_bind fun o _ => ?_
    split
    · exact .pure fun _ _ => trivial
    · refine .bind .report fun _ => .bind (Q := fun _ _ => True) ?_ fun _ => .pure fun _ _ => trivial
      refine .read_bind fun o _ =>
        .bind (Q := fun _ _ => True) (.modify_step (fun o _ => ?_) fun _ _ => trivial) fun _ => .pure fun _ _ => trivial
      exact extends_addEnum _
  · split
    · exact .pure fun _ _ => trivial
    · exact .fail

theorem extends_lookup (l : Lookup) : Extends w [l] l.overlay l.after :=
  .of_steps (leads_extends_refer (List.mem_singleton.mpr rfl) l.overlay trivial).1

theorem Trace.extends (h : Trace w o ls o') : Extends w ls o o' := by
  induction h with
  | quiet h => exact h.extends
  | @look o o' l ls h _ ih =>
    have hlookup : Extends w (l :: ls) l.overlay l.after :=
      (extends_lookup l).mono (List.cons_subset_cons l (List.nil_subset ls))
    exact h.extends.trans (hlookup.trans (ih.mono (List.subset_cons_self l ls)))

theorem Trace.around (h : Trace w o ls o') {l : Lookup} (hl : l ∈ ls) :
    Extends w ls o l.after ∧ Extends w ls l.after o' := by
  obtain ⟨front, back, rfl, hfront, hback⟩ := h.split hl
  have hlookup : Extends w (front ++ l :: back) l.overlay l.after :=
    (extends_lookup l).mono fun q hq => List.mem_singleton.mp hq ▸ hl
  refine ⟨(hfront.extends.mono (List.subset_append_left front _)).trans hlookup, hback.extends.mono ?_⟩
  exact List.Subset.trans (List.subset_cons_self l back) (List.subset_append_right front _)

end Overlay

end DebugSymbols
