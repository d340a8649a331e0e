import DebugSymbols.Proofs.Build.Aliases
import DebugSymbols.Proofs.Build.Names
import DebugSymbols.Proofs.Build.Walks

/-!
# Well-formed builders

`wellFormed_afterWalks`: after any walks, the failed ones included, the lists
and groups of every overlay agree with its arena, its handles and aliases name
what they should, and names that must differ do.
-/

namespace DebugSymbols

namespace Overlay

structure WellFormed (o : Overlay) : Prop where
  ordered : o.Ordered
  compositeTags : ∀ kind, (o.composites kind).groups.Partition (o.composites kind).listed CompositeId.index
    fun tag id => (o.arena.composite id).tag = tag
  enumTags : o.enums.groups.Partition o.enums.listed EnumId.index fun tag id => (o.arena.enumeration id).tag = tag
  typedefNames : o.typedefs.groups.Partition o.typedefs.listed TypedefId.index
    fun name id => (o.arena.typedef id).name = name
  varNames : o.varNames.Partition (List.range o.vars.length) (fun i => i) fun name i => (o.var i).name = name
  funcNames : o.funcNames.Partition (List.range o.funcs.length) (fun i => i) fun name i => (o.func i).NamedFrom name
  handles : ∀ t z, o.Stores t z → ∀ h ∈ t.handles, o.InArena h
  aliases : ∀ t, o.InArena t → ∀ id ∈ o.aliasesOf t,
    id ∈ o.typedefs.listed ∧ ((o.arena.typedef id).type = t ∨ (o.arena.typedef id).type = .pointer t)
  aliasesApart : ∀ s t, o.InArena s → o.InArena t → ∀ id ∈ o.aliasesOf s, id ∈ o.aliasesOf t → s = t
  aliasNames : ∀ t, o.InArena t → ((o.aliasesOf t).map fun id => (o.arena.typedef id).name).Nodup
  params : ∀ f ∈ o.funcs, (f.signature.params.map (·.name)).Nodup
  locals : ∀ f ∈ o.funcs, ∀ b ∈ f.blocks, (b.locals.map (·.name)).Nodup

variable {o o' : Overlay}

/-- What every edit keeps and from which an overlay is well-formed. -/
structure Sound (o : Overlay) : Prop where
  indexed : o.Indexed
  listed : o.HandlesListed
  ordered : o.Ordered
  names : o.NamesGrouped
  tags : o.TagsPlain
  aliases : o.AliasesSound

theorem sound_new (id addr length : UInt32) : Sound { id, addr, length } where
  indexed := indexed_new id addr length
  listed _ _ hs := absurd hs (not_stores_new id addr length)
  ordered := ordered_new id addr length
  names := namesGrouped_new id addr length
  tags := tagsPlain_new id addr length
  aliases := aliasesSound_new id addr length

theorem Edit.sound (h : o.Edit o') (ho : o.Sound) : o'.Sound where
  indexed := h.indexed ho.indexed
  listed := h.handlesListed ho.indexed ho.listed
  ordered := h.ordered ho.indexed ho.ordered
  names := h.namesGrouped ho.names
  tags := h.tagsPlain ho.tags
  aliases := h.aliasesSound ho.indexed ho.aliases

/-! ## The groups of a sound overlay -/

theorem partition_of_indexes {κ ι : Type} [DecidableEq κ] {c : Catalog κ ι} {key : ι → κ} {index : ι → Nat}
    (h : c.Indexes key) (hlt : c.listed.Pairwise fun i j => index i < index j) :
    c.groups.Partition c.listed index fun k i => key i = k := by
  rw [h.groups]
  exact Groups.partition_ofList hlt fun _ _ => rfl

theorem Ordered.pairwise_composites (h : o.Ordered) (kind : CompositeKind) :
    (o.composites kind).listed.Pairwise fun i j => i.index < j.index := by
  rw [h.composites kind]
  exact o.arena.pairwise_compositeIds.filter _

theorem Ordered.pairwise_enums (h : o.Ordered) : o.enums.listed.Pairwise fun i j => i.index < j.index := by
  rw [h.enums]
  exact o.arena.pairwise_enumIds

theorem Ordered.pairwise_typedefs (h : o.Ordered) : o.typedefs.listed.Pairwise fun i j => i.index < j.index := by
  rw [h.typedefs]
  exact o.arena.pairwise_typedefIds.filter _

theorem Sound.wellFormed (h : o.Sound) : o.WellFormed where
  ordered := h.ordered
  compositeTags kind := partition_of_indexes (h.indexed.composites kind) (h.ordered.pairwise_composites kind)
  enumTags := partition_of_indexes h.indexed.enums h.ordered.pairwise_enums
  typedefNames := partition_of_indexes h.indexed.typedefs h.ordered.pairwise_typedefs
  varNames := by
    rw [h.names.vars]
    exact Groups.partition_ofList List.pairwise_lt_range fun _ _ => rfl
  funcNames := by
    obtain ⟨key, hkey, hnamed⟩ := h.names.funcs
    rw [hkey.groups]
    exact Groups.partition_ofList List.pairwise_lt_range fun i hi => hnamed i (List.mem_range.mp hi)
  handles t z hs i hi := (h.listed t z hs i hi).inArena h.indexed
  aliases t ht id hid := by
    obtain ⟨hlisted, htarget⟩ := h.aliases.targets t ht id hid
    exact ⟨hlisted, eq_of_aliasTarget htarget⟩
  aliasesApart s t hs ht id his hit := by
    rw [← (h.aliases.targets s hs id his).2, (h.aliases.targets t ht id hit).2]
  aliasNames := h.aliases.names
  params f hf := (h.names.distinct f hf).params
  locals f hf := (h.names.distinct f hf).locals

theorem Edit.id_eq (h : o.Edit o') : o'.id = o.id := by
  cases h with
  | newComposite kind name size => cases kind <;> rfl
  | global h =>
    unfold addGlobal
    split <;> rfl
  | @newAlias d v h hnew =>
    generalize aliasTarget v.type = target
    cases target <;> rfl
  | addScoped f opened h => cases opened <;> rfl
  | _ => rfl

end Overlay

namespace Builder

/-! ## Builders -/

structure WellFormed (b : Builder) : Prop where
  current : b.current < b.overlays.length
  /-- The map holds the position of each overlay under its number, and nothing else. -/
  ids : b.ids = (b.overlays.map (·.id)).zipIdx
  positions : ∀ i o, b.overlays[i]? = some o → b.position? o.id = some i
  overlays : ∀ o ∈ b.overlays, o.WellFormed

/-- The map holds the number of each overlay with its position, and no two have one number. -/
structure Numbered (b : Builder) : Prop where
  ids : b.ids = (b.overlays.map (·.id)).zipIdx
  distinct : (b.overlays.map (·.id)).Nodup

theorem numbered_new : ({} : Builder).Numbered where
  ids := rfl
  distinct := List.pairwise_singleton _ _

theorem ids_setCurrentOverlay {b : Builder} (hrange : b.InRange) {o : Overlay} (h : b.currentOverlay.Edit o) :
    (b.setCurrentOverlay o).overlays.map (·.id) = b.overlays.map (·.id) := by
  have hid : (b.overlays.map (·.id))[b.current]? = some o.id := by
    have hget : b.overlays[b.current]? = some b.currentOverlay := by
      simp [currentOverlay, List.getElem?_eq_getElem hrange.current]
    rw [List.getElem?_map, hget, h.id_eq]
    rfl
  unfold setCurrentOverlay
  rw [List.map_set]
  obtain ⟨hlt, heq⟩ := List.getElem?_eq_some_iff.mp hid
  rw [← heq]
  exact List.set_getElem_self hlt

theorem Numbered.keys {b : Builder} (h : b.Numbered) : b.ids.map (·.1) = b.overlays.map (·.id) := by
  rw [h.ids, List.zipIdx_map_fst]

theorem Numbered.appendOverlay {b : Builder} (hb : b.Numbered) {o : Overlay} (h : b.position? o.id = none) :
    (b.appendOverlay o).Numbered where
  ids := by
    show b.ids ++ [(o.id, b.overlays.length)] = ((b.overlays ++ [o]).map (·.id)).zipIdx
    rw [List.map_append, List.zipIdx_append, List.length_map, ← hb.ids, Nat.zero_add]
    rfl
  distinct := by
    show ((b.overlays ++ [o]).map (·.id)).Nodup
    have hfree : o.id ∉ b.overlays.map (·.id) := by
      rw [← hb.keys]
      intro hmem
      obtain ⟨e, he, heq⟩ := List.mem_map.mp hmem
      simpa [heq] using List.lookup_eq_none_iff.mp h e he
    rw [List.map_append]
    exact hb.distinct.append (List.nodup_singleton _) (List.disjoint_singleton.mpr hfree)

theorem Edit.numbered {b b' : Builder} (h : Edit b b') (hrange : b.InRange) (hb : b.Numbered) : b'.Numbered := by
  cases h with
  | overlay h =>
    have hids := ids_setCurrentOverlay hrange h
    exact ⟨hids ▸ hb.ids, hids ▸ hb.distinct⟩
  | source s => exact ⟨hb.ids, hb.distinct⟩
  | newOverlay addr length h => exact hb.appendOverlay h
  | switch h => exact ⟨hb.ids, hb.distinct⟩

theorem numbered_of_edits {b b' : Builder} (h : Relation.ReflTransGen Edit b b') (hrange : b.InRange)
    (hb : b.Numbered) : b'.Numbered := by
  induction h with
  | refl => exact hb
  | tail hedits h ih => exact h.numbered (inRange_of_edits hedits hrange) ih

theorem Numbered.position? {b : Builder} (hb : b.Numbered) {i : Nat} {o : Overlay} (hi : b.overlays[i]? = some o) :
    b.position? o.id = some i := by
  refine Groups.lookup_of_mem (hb.keys ▸ hb.distinct) ?_
  rw [hb.ids, List.mk_mem_zipIdx_iff_getElem?, List.getElem?_map, hi]
  rfl

theorem numbered_afterWalks (chunks : List (List Record)) : (afterWalks chunks).Numbered :=
  numbered_of_edits (edits_afterWalks chunks) inRange_new numbered_new

theorem wellFormed_afterWalks (chunks : List (List Record)) : (afterWalks chunks).WellFormed where
  current := (inRange_of_edits (edits_afterWalks chunks) inRange_new).current
  ids := (numbered_afterWalks chunks).ids
  positions _ _ hi := (numbered_afterWalks chunks).position? hi
  overlays o ho :=
    (forall_overlays_afterWalks Overlay.sound_new (fun _ _ h => h.sound) chunks o ho).wellFormed

end Builder

end DebugSymbols
