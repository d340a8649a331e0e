import DebugSymbols.Proofs.Build.Visits

/-!
# Findings

What the steps of a history find under a name: the struct, union or enum that a
definition refers to by it, and that which a tag of this name opens.
`Path.tagged` says that it keeps the tag of the name.
-/

namespace DebugSymbols

def CType.isTagged : CType → Bool
  | .composite _ _ | .enum _ => true
  | _ => false

namespace Overlay

open Relation (ReflTransGen)

variable {o o' o'' : Overlay} {tag tag' : Tag} {t : CType}

inductive Tagged (o : Overlay) (tag : Tag) : CType → Prop
  | composite {kind : CompositeKind} {id : CompositeId} (hid : id.index < o.arena.composites.length)
      (htag : (o.arena.composite id).tag = tag) : Tagged o tag (.composite kind id)
  | enum {id : EnumId} (hid : id.index < o.arena.enums.length) (htag : (o.arena.enumeration id).tag = tag) :
      Tagged o tag (.enum id)

theorem Tagged.unique (h : o.Tagged tag t) (h' : o.Tagged tag' t) : tag = tag' := by
  cases h with
  | composite hid htag =>
    cases h' with
    | composite hid' htag' => exact htag.symm.trans htag'
  | enum hid htag =>
    cases h' with
    | enum hid' htag' => exact htag.symm.trans htag'

/-! ## Tags are kept -/

structure KeepsTags (o o' : Overlay) : Prop where
  composites : ∀ id, id.index < o.arena.composites.length →
    id.index < o'.arena.composites.length ∧ (o'.arena.composite id).tag = (o.arena.composite id).tag
  enums : ∀ id, id.index < o.arena.enums.length →
    id.index < o'.arena.enums.length ∧ (o'.arena.enumeration id).tag = (o.arena.enumeration id).tag

theorem Tagged.mono (h : o.Tagged tag t) (hk : KeepsTags o o') : o'.Tagged tag t := by
  cases h with
  | composite hid htag =>
    obtain ⟨hid', hsame⟩ := hk.composites _ hid
    exact .composite hid' (hsame.trans htag)
  | enum hid htag =>
    obtain ⟨hid', hsame⟩ := hk.enums _ hid
    exact .enum hid' (hsame.trans htag)

theorem KeepsTags.trans (h : KeepsTags o o') (h' : KeepsTags o' o'') : KeepsTags o o'' where
  composites id hid :=
    have ⟨hid', hsame⟩ := h.composites id hid
    ⟨(h'.composites id hid').1, (h'.composites id hid').2.trans hsame⟩
  enums id hid :=
    have ⟨hid', hsame⟩ := h.enums id hid
    ⟨(h'.enums id hid').1, (h'.enums id hid').2.trans hsame⟩

theorem KeepsTags.of_arena_eq (h : o'.arena = o.arena) : KeepsTags o o' where
  composites id hid := by
    rw [h]
    exact ⟨hid, rfl⟩
  enums id hid := by
    rw [h]
    exact ⟨hid, rfl⟩

theorem Extends.keepsTags {w : Filling} {ls : List Lookup} (h : Extends w ls o o') : KeepsTags o o' where
  composites _ hid := ⟨Nat.lt_of_lt_of_le hid h.length_le, congrArg (·.2.1) (h.head_eq hid)⟩
  enums _ hid := ⟨Nat.lt_of_lt_of_le hid h.enums_length_le, h.tag_eq hid⟩

theorem SameHeads.keepsTags (h : SameHeads o o') : KeepsTags o o' where
  composites id hid := ⟨h.compositeCount.symm ▸ hid, h.tag id⟩
  enums id hid := ⟨h.enumCount.symm ▸ hid, h.enumTag id⟩

theorem keepsTags_addComposite (c : Composite) : KeepsTags o (o.addComposite c) where
  composites id hid := by
    rw [arena_addComposite, Arena.composite_pushComposite, if_neg]
    · exact ⟨Nat.lt_of_lt_of_le hid (List.length_append ▸ Nat.le_add_right _ _), rfl⟩
    · rintro rfl
      exact Nat.lt_irrefl _ hid
  enums id hid := by
    rw [arena_addComposite]
    exact ⟨hid, rfl⟩

theorem keepsTags_addEnum (e : Enumeration) : KeepsTags o (o.addEnum e) where
  composites _ hid := ⟨hid, rfl⟩
  enums id hid := by
    show _ < (o.arena.enums ++ [e]).length ∧ ((o.arena.pushEnum e).enumeration id).tag = _
    rw [Arena.enumeration_pushEnum, if_neg]
    · exact ⟨Nat.lt_of_lt_of_le hid (List.length_append ▸ Nat.le_add_right _ _), rfl⟩
    · rintro rfl
      exact Nat.lt_irrefl _ hid

theorem Edit.keepsTags (h : o.Edit o') : KeepsTags o o' := by
  obtain hs | ⟨c, _, hs⟩ | ⟨e, _, hs⟩ | ⟨_, hs⟩ | ⟨v, hs⟩ := h.heads_cases
  · exact hs.keepsTags
  · exact (keepsTags_addComposite c).trans hs.keepsTags
  · exact (keepsTags_addEnum e).trans hs.keepsTags
  · exact ⟨hs.keepsTags.composites, hs.keepsTags.enums⟩
  · exact ⟨hs.keepsTags.composites, hs.keepsTags.enums⟩

theorem KeepsTags.of_edits (h : ReflTransGen Edit o o') : KeepsTags o o' := by
  induction h with
  | refl => exact ⟨fun _ hid => ⟨hid, rfl⟩, fun _ hid => ⟨hid, rfl⟩⟩
  | tail _ h ih => exact ih.trans h.keepsTags

/-! ## Groups hold entries of their tags -/

structure Keyed (o : Overlay) : Prop where
  composites : ∀ kind tag, ∀ id ∈ (o.composites kind).groups.get tag, o.Tagged tag (.composite kind id)
  enums : ∀ tag, ∀ id ∈ o.enums.groups.get tag, o.Tagged tag (.enum id)

theorem Indexed.keyed (h : o.Indexed) : o.Keyed where
  composites kind _ _ hid :=
    .composite (h.composite_mem kind _ ((h.composites kind).mem_listed hid)).1 ((h.composites kind).key_of_mem hid)
  enums _ _ hid := .enum (h.enum_mem _ (h.enums.mem_listed hid)) (h.enums.key_of_mem hid)

theorem Keyed.of_groups (h : o.Keyed) (hk : KeepsTags o o') (hc : ∀ kind, o'.composites kind = o.composites kind)
    (he : o'.enums = o.enums) : o'.Keyed where
  composites kind tag id hid := (h.composites kind tag id (hc kind ▸ hid)).mono hk
  enums tag id hid := (h.enums tag id (he ▸ hid)).mono hk

theorem Keyed.addComposite (h : o.Keyed) (c : Composite) : (o.addComposite c).Keyed where
  composites kind tag id hid := by
    have hold := fun hid => (h.composites kind tag id hid).mono (keepsTags_addComposite c)
    rw [composites_addComposite] at hid
    split at hid
    · obtain hid | ⟨rfl, rfl⟩ := Groups.mem_get_add.mp hid
      · exact hold hid
      · refine .composite ?_ ?_
        · rw [arena_addComposite]
          exact List.length_append ▸ Nat.lt_succ_self _
        · rw [arena_addComposite, Arena.composite_pushComposite, if_pos rfl]
    · exact hold hid
  enums tag id hid := by
    rw [enums_addComposite] at hid
    exact (h.enums tag id hid).mono (keepsTags_addComposite c)

theorem Keyed.addEnum (h : o.Keyed) (e : Enumeration) : (o.addEnum e).Keyed where
  composites kind tag id hid := by
    rw [composites_addEnum] at hid
    exact (h.composites kind tag id hid).mono (keepsTags_addEnum e)
  enums tag id hid := by
    obtain hid | ⟨rfl, rfl⟩ := Groups.mem_get_add.mp hid
    · exact (h.enums tag id hid).mono (keepsTags_addEnum e)
    · refine .enum ?_ ?_
      · show _ < (o.arena.enums ++ [e]).length
        exact List.length_append ▸ Nat.lt_succ_self _
      · show ((o.arena.pushEnum e).enumeration _).tag = _
        rw [Arena.enumeration_pushEnum, if_pos rfl]

theorem Edit.keyed (h : o.Edit o') (ho : o.Keyed) : o'.Keyed := by
  obtain hs | ⟨c, _, hs⟩ | ⟨e, _, hs⟩ | ⟨_, hs⟩ | ⟨v, hs⟩ := h.heads_cases
  · exact ho.of_groups hs.keepsTags hs.composites hs.enums
  · exact (ho.addComposite c).of_groups hs.keepsTags hs.composites hs.enums
  · exact (ho.addEnum e).of_groups hs.keepsTags hs.composites hs.enums
  · refine ho.of_groups h.keepsTags (fun kind => ?_) hs.enums
    rw [hs.composites, composites_withNull]
  · refine ho.of_groups h.keepsTags (fun kind => ?_) hs.enums
    rw [hs.composites, composites_addTypedef]

theorem Keyed.of_edits (h : ReflTransGen Edit o o') (ho : o.Keyed) : o'.Keyed := by
  induction h with
  | refl => exact ho
  | tail _ h ih => exact h.keyed ih

/-! ## Lookups -/

theorem RefersBase.tagged {d : SymbolDef} (h : o.RefersBase d t) (ht : t.isTagged = true) (ho : o.Keyed) :
    o.Tagged (.ofName d.tag) t := by
  cases h with
  | scalar => exact nomatch ht
  | null => exact nomatch ht
  | enum _ hid => exact ho.enums _ _ hid
  | composite _ _ hid => exact ho.composites _ _ _ hid

theorem keyed_lookup (l : Lookup) (h : l.overlay.Keyed) : l.after.Keyed :=
  .of_edits (edits_of_types (leads_refer l.d) l.overlay (P := fun _ => True) trivial).1 h

theorem Trace.keyed {w : Filling} {ls : List Lookup} (h : Trace w o ls o') (ho : o.Keyed) {l : Lookup} (hl : l ∈ ls) :
    l.overlay.Keyed := by
  induction h with
  | quiet h => exact nomatch hl
  | @look o o' q ls h ht ih =>
    -- up to the lookup no group changes, and the lookup itself is a run of edits
    have hquiet : Extends w [] _ q.overlay := h.extends
    have hq : q.overlay.Keyed := ho.of_groups hquiet.keepsTags h.composites h.enums
    obtain rfl | hl := List.mem_cons.mp hl
    · exact hq
    · exact ih (keyed_lookup q hq) hl

theorem Trace.tagged {w : Filling} {ls : List Lookup} (h : Trace w o ls o') (ho : o.Keyed) {l : Lookup} (hl : l ∈ ls)
    (ht : (referBase l.d l.overlay).result = .ok t) (htagged : t.isTagged = true) :
    o'.Tagged (.ofName l.d.tag) t := by
  have hafter : l.after = (referBase l.d l.overlay).state := by
    show ((referBase l.d >>= _) l.overlay).state = _
    rw [Action.bind_run_of_ok ht]
    rfl
  have hrefers : l.after.RefersBase l.d t := by
    rw [hafter]
    exact (leads_referBase (P := fun _ => True) l.d l.overlay trivial).2 t ht
  exact (hrefers.tagged htagged (keyed_lookup l (h.keyed ho hl))).mono (h.around hl).2.keepsTags

/-! ## Steps -/

section
variable {head : Record} {form : Form} {d : SymbolDef}

theorem keepsTags_contentStep (head : Record) (rest : List Record) (o : Overlay) :
    KeepsTags o (contentStep head rest o).state :=
  .of_edits (leads_contentStep head rest o trivial).1

theorem exists_trace (head : Record) (rest : List Record) (ho : o.Indexed) :
    ∃ w opened, opened.Keyed ∧ Trace w opened (lookups head rest o) (contentStep head rest o).state := by
  cases (contentStep_changes head rest ho).1 with
  | looks h => exact ⟨{}, o, ho.keyed, h⟩
  | @composite kind form d id opened hbody hclass hopens hfills =>
    refine ⟨_, opened, ?_, hfills.trace⟩
    cases hopens with
    | found hid hf hs => exact (Edit.fill hf hs).keyed ho.keyed
    | new => exact (Edit.newComposite kind d.name d.size).keyed ho.keyed
  | @enum form d id opened hbody hclass hopens hfills =>
    have hnone : lookups head rest o = [] := by rw [(contentStep_enum rest hbody hclass).2]
    refine ⟨_, opened, ?_, hnone ▸ hfills.trace⟩
    cases hopens with
    | found => exact ho.keyed
    | new => exact (Edit.newEnum d.name).keyed ho.keyed

theorem tagged_of_opened {kind : CompositeKind} {id : CompositeId} (hbody : head.body = .definition form d)
    (hclass : d.symbolClass = kind.tagClass) (hbase : d.word.base = kind.baseCode)
    (hid : (openComposite (ε := Inconsistency) kind (.ofName d.name) d.size o).result = .ok id) (rest : List Record)
    (ho : o.Indexed) : (contentStep head rest o).state.Tagged (.ofName d.name) (.composite kind id) := by
  obtain ⟨j, opened, hopen, hopens⟩ := openComposite_opens (ε := Inconsistency) kind (.ofName d.name) d.size o
  obtain rfl : j = id := Except.ok.inj ((congrArg Outcome.result hopen).symm.trans hid)
  obtain ⟨hlt, hhead, _⟩ := hopens.opened ho
  have hopened : opened.Tagged (.ofName d.name) (.composite kind j) := .composite hlt (congrArg (·.2.1) hhead)
  have hmembers := leads_members (P := fun _ => True) head (.composite kind) (.ofName d.name)
    (leads_compositeMember kind (.ofName d.name) j) rest opened trivial
  rw [(contentStep_composite rest hbody hclass).1, compositeRun_of_opened hbase head rest hopen]
  exact hopened.mono (.of_edits (ReflTransGen.mono (fun _ _ h => h.edit) _ _ hmembers.1))

theorem tagged_of_openedEnum {id : EnumId} (hbody : head.body = .definition form d)
    (hclass : d.symbolClass = .enumTag) (hbase : d.word.base = .enum)
    (hid : (openEnum (ε := Inconsistency) (.ofName d.name) o).result = .ok id) (rest : List Record) (ho : o.Indexed) :
    (contentStep head rest o).state.Tagged (.ofName d.name) (.enum id) := by
  obtain ⟨j, opened, hopen, hopens⟩ := openEnum_opens (ε := Inconsistency) (.ofName d.name) o
  obtain rfl : j = id := Except.ok.inj ((congrArg Outcome.result hopen).symm.trans hid)
  obtain ⟨hlt, htag, _⟩ := hopens.opened ho
  have hmembers := leads_members (P := fun _ => True) head .enum (.ofName d.name) (leads_enumMember (.ofName d.name) j)
    rest opened trivial
  rw [(contentStep_enum rest hbody hclass).1, enumRun_of_opened hbase head rest hopen]
  exact Tagged.mono (.enum hlt htag) (.of_edits (ReflTransGen.mono (fun _ _ h => h.edit) _ _ hmembers.1))

end

end Overlay

/-! ## Histories -/

namespace Builder

open Overlay (openComposite openEnum referBase Tagged)

/-- The step looks for a struct, union or enum under `name` and comes to `t`,
which may be new. -/
inductive Step.Finds (s : Step) : String → CType → Prop
  | referred {l : Lookup} {t : CType} (hl : l ∈ s.lookups) (ht : (referBase l.d l.overlay).result = .ok t)
      (htagged : t.isTagged = true) : Finds s l.d.tag t
  | opened {form : Form} {d : SymbolDef} {kind : CompositeKind} {id : CompositeId}
      (hbody : s.head.body = .definition form d) (hclass : d.symbolClass = kind.tagClass)
      (hbase : d.word.base = kind.baseCode)
      (hid : (openComposite (ε := Inconsistency) kind (.ofName d.name) d.size s.before.currentOverlay).result = .ok id) :
      Finds s d.name (.composite kind id)
  | openedEnum {form : Form} {d : SymbolDef} {id : EnumId} (hbody : s.head.body = .definition form d)
      (hclass : d.symbolClass = .enumTag) (hbase : d.word.base = .enum)
      (hid : (openEnum (ε := Inconsistency) (.ofName d.name) s.before.currentOverlay).result = .ok id) :
      Finds s d.name (.enum id)

variable {c : Builder} {ss : List Step} {s : Step} {name : String} {t : CType}

theorem Step.Finds.tagged (h : s.Finds name t) (hs : Relation.ReflTransGen Edit {} s.before) :
    (s.after.overlayAt s.before.current).Tagged (.ofName name) t := by
  have hindexed := indexed_of_edits hs s.before.current
  rw [← currentOverlay_eq] at hindexed
  have hdefinition : ∀ {form d}, s.head.body = .definition form d → s.head.isContent = true := by
    intro form d hbody
    unfold Record.isContent
    rw [hbody]
  cases h with
  | referred hl ht htagged =>
    obtain ⟨w, opened, hkeyed, htrace⟩ := Overlay.exists_trace s.head s.rest hindexed
    rw [(Step.visit hs (Step.isContent_of_lookup hl)).1]
    exact htrace.tagged hkeyed hl ht htagged
  | opened hbody hclass hbase hid =>
    rw [(Step.visit hs (hdefinition hbody)).1]
    exact Overlay.tagged_of_opened hbody hclass hbase hid s.rest hindexed
  | openedEnum hbody hclass hbase hid =>
    rw [(Step.visit hs (hdefinition hbody)).1]
    exact Overlay.tagged_of_openedEnum hbody hclass hbase hid s.rest hindexed

theorem Path.tagged (h : Path {} ss c) (hs : s ∈ ss) (hf : s.Finds name t) :
    (c.overlayAt s.before.current).Tagged (.ofName name) t := by
  have hreached := ((h.edits inRange_new).2 s hs).1
  obtain ⟨front, back, rfl⟩ := List.append_of_mem hs
  refine Path.keeps (I := fun o => o.Tagged (.ofName name) t) (fun hplace ht => ?_) h.split.2 (Step.reached hreached)
    (fun u _ _ _ ht => ?_) (hf.tagged hreached)
  · exact ht.mono (.of_arena_eq (arena_eq_of_unplaced hplace))
  · exact ht.mono (Overlay.keepsTags_contentStep u.head u.rest u.before.currentOverlay)

end Builder

end DebugSymbols
