import DebugSymbols.Proofs.Merge
import DebugSymbols.Proofs.Model.Pooling
import DebugSymbols.Proofs.UniqueNames

/-!
# Aliases after merging

`merge_poolsAliases`: the aliases of a struct, union or enum that is kept are the
typedefs that stand for its own aliases and those of its copies, each once.
-/

namespace DebugSymbols.Overlay

variable {o : Overlay}

/-! ## Before merging -/

def AliasesApart (o : Overlay) : Prop :=
  ∀ t, (o.aliasesOf t).Pairwise fun i j => o.arena.aliasKey i ≠ o.arena.aliasKey j

theorem exists_inArena {t : CType} {id : TypedefId} (h : id ∈ o.aliasesOf t) :
    ∃ s, o.InArena s ∧ o.aliasesOf s = o.aliasesOf t := by
  cases t with
  | composite k i =>
    refine ⟨.composite (o.arena.composite i).kind i, ⟨?_, rfl⟩, rfl⟩
    by_contra hge
    have hid : id ∈ (o.arena.composite i).aliases := h
    rw [Arena.composite_of_le (Nat.le_of_not_lt hge)] at hid
    exact nomatch hid
  | enum i =>
    refine ⟨.enum i, ?_, rfl⟩
    show i.index < _
    by_contra hge
    have hid : id ∈ (o.arena.enumeration i).aliases := h
    rw [Arena.enumeration_of_le (Nat.le_of_not_lt hge)] at hid
    exact nomatch hid
  | _ => exact nomatch h

theorem AliasesSound.mem_listed (h : o.AliasesSound) {t : CType} {id : TypedefId} (hid : id ∈ o.aliasesOf t) :
    id ∈ o.typedefs.listed := by
  obtain ⟨s, hs, heq⟩ := exists_inArena hid
  rw [← heq] at hid
  exact (h.targets s hs id hid).1

theorem AliasesSound.apart (h : o.AliasesSound) : o.AliasesApart := by
  intro t
  cases hall : o.aliasesOf t with
  | nil => exact .nil
  | cons id ids =>
    obtain ⟨s, hs, heq⟩ := exists_inArena (hall ▸ List.mem_cons_self : id ∈ o.aliasesOf t)
    rw [← hall, ← heq]
    have hnames := List.pairwise_map.mp (h.names s hs)
    refine hnames.imp fun hne hkey => hne ?_
    exact congrArg (·.2.2.2.1) hkey

/-! ## After the passes over structs, unions and enums -/

theorem Redirected.aliasKey {f : Renumbering} {o' : Overlay} (h : Redirected f o o') :
    o'.arena.aliasKey = o.arena.aliasKey :=
  funext h.typedefLikeness

theorem pools_structs_unions (ho : o.Indexed) (ha : o.AliasesApart) {i : CompositeId} (hi : o.canon.composite i = i) :
    Pools o.arena.aliasKey (fun t => ∃ s, o.canon.composite s = i ∧ t ∈ (o.arena.composite s).aliases)
      (((o.mergeComposites .struct).1.mergeComposites .union).1.arena.composite i).aliases := by
  have hstructs := mergeComposites_merged .struct (ho.composites .struct)
  have hpools := fun {s} hs => pools_mergeComposites (i := s) .struct (ho.composites .struct)
    (fun i hi => (ho.composite_mem .struct i hi).1) hs (ha (.composite .struct s))
  generalize o.mergeComposites .struct = m at hstructs hpools ⊢
  have hlist : m.1.composites .union = o.composites .union := hstructs.composites .union
  have hkey := hstructs.redirected.aliasKey
  have hcanon := canon_composite ho
  -- a union that comes to `i`, and `i` itself, are not moved as structs
  have hstay : ∀ s, firstLike o.compositesAlike o.unions.listed s = i →
      firstLike o.compositesAlike o.structs.listed s = s := by
    intro s hs
    by_contra hmoves
    have hmem : s ∈ o.structs.listed := by
      by_contra hnot
      exact hmoves (firstLike_of_notMem hnot)
    rw [firstLike_of_notMem (ho.notMem_unions hmem)] at hs
    rw [← hs, hcanon] at hi
    rw [firstLike_of_notMem (ho.notMem_unions (firstLike_mem o.compositesAlike_iff hmem))] at hi
    exact hmoves hi
  have hfixed : firstLike o.compositesAlike o.unions.listed i = i := by
    rw [← hi, hcanon]
    exact firstLike_firstLike o.compositesAlike_iff
  have hunion := pools_mergeComposites (o := m.1) (i := i) .union (by rw [hlist]; exact ho.composites .union)
    (by
      rw [hlist, hstructs.redirected.compositeCount]
      exact fun i hi => (ho.composite_mem .union i hi).1)
    (by
      rw [hstructs.redirected.compositesAlike, hlist]
      exact hfixed)
    (by
      rw [hkey]
      exact (hpools (hstay i hfixed)).apart)
  rw [hkey, hstructs.redirected.compositesAlike, hlist] at hunion
  refine (hunion.trans fun s hs => hpools (hstay s hs)).congr fun t => ?_
  constructor
  · rintro ⟨s, hs, r, hr, ht⟩
    exact ⟨r, by rw [hcanon, ← hs, ← hr]; rfl, ht⟩
  · rintro ⟨r, hr, ht⟩
    exact ⟨_, by rw [← hr, hcanon]; rfl, r, rfl, ht⟩

structure AliasesPooled (o o' : Overlay) : Prop where
  redirected : ∃ f, Redirected f o o'
  typedefs : o'.typedefs = o.typedefs
  composites : ∀ i, o.canon.composite i = i →
    Pools o.arena.aliasKey (fun t => ∃ s, o.canon.composite s = i ∧ t ∈ (o.arena.composite s).aliases)
      (o'.arena.composite i).aliases
  enums : ∀ i, o.canon.enum i = i →
    Pools o.arena.aliasKey (fun t => ∃ s, o.canon.enum s = i ∧ t ∈ (o.arena.enumeration s).aliases)
      (o'.arena.enumeration i).aliases

theorem aliasesPooled (ho : o.Indexed) (ha : o.AliasesApart) :
    AliasesPooled o ((o.mergeComposites .struct).1.mergeComposites .union).1.mergeEnums.1 := by
  have hnodup : ∀ s, (o.arena.enumeration s).aliases.Nodup := fun s => (Pools.of_apart (ha (.enum s))).nodup
  have hpools := fun {i} hi => pools_structs_unions (i := i) ho ha hi
  have hstructs := mergeComposites_merged .struct (ho.composites .struct)
  have hkept := fun s => enumAliases_mergeComposites .struct (ho.composites .struct) (hnodup s)
  generalize o.mergeComposites .struct = m at hstructs hpools hkept ⊢
  have hunion : (m.1.composites .union).Indexes fun id => (o.arena.composite id).tag := by
    rw [hstructs.composites .union]
    exact ho.composites .union
  have hunions := mergeComposites_merged .union hunion
  have hkept' := fun s => enumAliases_mergeComposites .union hunion (i := s) (by rw [hkept]; exact hnodup s)
  generalize m.1.mergeComposites .union = n at hunions hpools hkept' ⊢
  have hred := hstructs.redirected.trans hunions.redirected
  have hlist : n.1.enums = o.enums := hunions.enums.trans hstructs.enums
  have henum : n.1.enums.Indexes fun id => (o.arena.enumeration id).tag := by
    rw [hlist]
    exact ho.enums
  have henums := mergeEnums_merged henum
  refine ⟨⟨_, hred.trans henums.redirected⟩, ?_, fun i hi => ?_, fun i hi => ?_⟩
  · exact henums.typedefs.trans (hunions.typedefs.trans hstructs.typedefs)
  · rw [aliases_mergeEnums henum (hpools hi).nodup]
    exact hpools hi
  · have haliases : ∀ s, (n.1.arena.enumeration s).aliases = (o.arena.enumeration s).aliases := fun s =>
      (hkept' s).trans (hkept s)
    have hfirst : firstLike n.1.enumsAlike n.1.enums.listed = o.canon.enum := by
      rw [hred.enumsAlike, hlist]
      rfl
    have hin : ∀ i ∈ n.1.enums.listed, i.index < n.1.arena.enums.length := by
      rw [hlist, hred.enumCount]
      exact ho.enum_mem
    have hapart := ha (.enum i)
    have hpool := pools_mergeEnums henum hin (i := i)
    rw [hred.aliasKey, hfirst] at hpool
    simp only [haliases] at hpool
    exact hpool hi hapart

/-! ## After the pass over typedefs -/

theorem arena_mergeTypedefs (ho : o.typedefs.Indexes fun id => (o.arena.typedef id).name) :
    (o.mergeTypedefs.1.arena = o.arena ∧ ∀ i, firstLike o.typedefsAlike o.typedefs.listed i = i) ∨
      o.mergeTypedefs.1.arena = o.arena.renumber { typedef := firstLike o.typedefsAlike o.typedefs.listed } := by
  rw [mergeTypedefs_eq ho]
  split
  · rename_i hnil
    refine .inl ⟨rfl, fun i => ?_⟩
    by_cases hi : i ∈ o.typedefs.listed
    · exact moved_eq_nil.mp hnil i ((perm_typedefGroups ho).mem_iff.mpr hi)
    · exact firstLike_of_notMem hi
  · exact .inr rfl

theorem aliasesOf_mergeTypedefs (ho : o.typedefs.Indexes fun id => (o.arena.typedef id).name) {t : CType}
    (ht : (o.aliasesOf t).Nodup) :
    o.mergeTypedefs.1.aliasesOf t =
      withoutRepeats ((o.aliasesOf t).map (firstLike o.typedefsAlike o.typedefs.listed)) := by
  obtain ⟨harena, hid⟩ | harena := arena_mergeTypedefs ho
  · have hsame : o.mergeTypedefs.1.aliasesOf t = o.aliasesOf t := by
      unfold aliasesOf aliases?
      rw [harena]
    rw [hsame, funext hid, List.map_id', withoutRepeats_of_nodup ht]
  · unfold aliasesOf aliases?
    rw [harena]
    cases t with
    | composite k i => exact Arena.aliases_renumber_composite _ _ i
    | enum i => exact Arena.aliases_renumber_enum _ _ i
    | _ => rfl

/-! ## Aliases after merging -/

theorem lists_of_renumber (ho : o.Indexed) {s t : CType} (ht : o.merge.1.Lists t) (hs : s.renumber o.canon = t)
    {a : TypedefId} (ha : a ∈ o.aliasesOf s) : o.Lists s := by
  cases s with
  | composite k i =>
    subst hs
    have hkept : o.canon.composite i ∈ (o.merge.1.composites k).listed := ht
    rw [composites_merge ho] at hkept
    have hkept := (List.mem_filter.mp hkept).1
    show i ∈ (o.composites k).listed
    by_cases hlisted : ∃ k', i ∈ (o.composites k').listed
    · obtain ⟨k', hi⟩ := hlisted
      have hfirst := firstLike_mem o.compositesAlike_iff hi
      rw [← canon_of_mem ho k' hi] at hfirst
      have hkind := (ho.composite_mem k' _ hfirst).2
      rw [(ho.composite_mem k _ hkept).2] at hkind
      rw [hkind]
      exact hi
    · rw [canon_composite_of_notMem fun k' hi => hlisted ⟨k', hi⟩] at hkept
      exact hkept
  | enum i =>
    subst hs
    have hkept : o.canon.enum i ∈ o.merge.1.enums.listed := ht
    rw [(merge_merged ho).enums] at hkept
    have hkept := (List.mem_filter.mp hkept).1
    show i ∈ o.enums.listed
    by_contra hi
    have hfix : o.canon.enum i = i := firstLike_of_notMem hi
    rw [hfix] at hkept
    exact hi hkept
  | _ => exact nomatch ha

theorem AliasesPooled.pools {o' : Overlay} (h : AliasesPooled o o') (ho : o.Indexed) {t : CType}
    (ht : o.merge.1.Lists t) :
    Pools o.arena.aliasKey (fun a => ∃ s, o.Lists s ∧ s.renumber o.canon = t ∧ a ∈ o.aliasesOf s) (o'.aliasesOf t) := by
  cases t with
  | composite k i =>
    have hfix : o.canon.composite i = i := by
      have hkept : i ∈ (o.merge.1.composites k).listed := ht
      rw [composites_merge ho] at hkept
      exact of_decide_eq_true (List.mem_filter.mp hkept).2
    refine (h.composites i hfix).congr fun a => ⟨?_, ?_⟩
    · rintro ⟨s, hs, ha⟩
      have hren : (CType.composite k s).renumber o.canon = .composite k i := congrArg (CType.composite k) hs
      exact ⟨.composite k s, lists_of_renumber ho ht hren ha, hren, ha⟩
    · rintro ⟨s, _, hs, ha⟩
      cases s with
      | composite k' s => exact ⟨s, (CType.composite.inj hs).2, ha⟩
      | enum s => exact CType.noConfusion hs
      | _ => exact nomatch ha
  | enum i =>
    have hfix : o.canon.enum i = i := by
      have hkept : i ∈ o.merge.1.enums.listed := ht
      rw [(merge_merged ho).enums] at hkept
      exact of_decide_eq_true (List.mem_filter.mp hkept).2
    refine (h.enums i hfix).congr fun a => ⟨?_, ?_⟩
    · rintro ⟨s, hs, ha⟩
      have hren : (CType.enum s).renumber o.canon = .enum i := congrArg CType.enum hs
      exact ⟨.enum s, lists_of_renumber ho ht hren ha, hren, ha⟩
    · rintro ⟨s, _, hs, ha⟩
      cases s with
      | enum s => exact ⟨s, CType.enum.inj hs, ha⟩
      | composite k s => exact CType.noConfusion hs
      | _ => exact nomatch ha
  | _ =>
    -- a type of another form has no aliases, and no struct, union or enum comes to it
    constructor
    · exact fun _ hid => nomatch hid
    · rintro a ⟨s, _, hs, ha⟩
      cases s with
      | composite k s => exact CType.noConfusion hs
      | enum s => exact CType.noConfusion hs
      | _ => exact nomatch ha
    · exact List.Pairwise.nil

theorem aliasesOf_merge (ho : o.Indexed) (ha : o.AliasesSound) {t : CType} (ht : o.merge.1.Lists t) :
    ∃ ids, Pools o.arena.aliasKey (fun a => ∃ s, o.Lists s ∧ s.renumber o.canon = t ∧ a ∈ o.aliasesOf s) ids ∧
      o.merge.1.aliasesOf t = ids.map o.canon.typedef := by
  have hpooled := aliasesPooled ho ha.apart
  have hmerge : o.merge.1 =
      ((o.mergeComposites .struct).1.mergeComposites .union).1.mergeEnums.1.mergeTypedefs.1 := rfl
  rw [hmerge]
  generalize ((o.mergeComposites .struct).1.mergeComposites .union).1.mergeEnums.1 = o' at hpooled ⊢
  have hpools := hpooled.pools ho ht
  obtain ⟨f, hred⟩ := hpooled.redirected
  have hnamed : o'.typedefs.Indexes fun id => (o'.arena.typedef id).name := by
    rw [hpooled.typedefs]
    refine ho.typedefs.congr fun id _ => ?_
    rw [hred.typedef id]
    rfl
  have hfirst : firstLike o'.typedefsAlike o'.typedefs.listed = o.canon.typedef := by
    rw [hred.typedefsAlike, hpooled.typedefs]
    rfl
  have hapart := hpools.apart_firsts o.typedefsAlike_iff (fun i ⟨s, _, _, hi⟩ => ha.mem_listed hi)
  have hnodup : ((o'.aliasesOf t).map o.canon.typedef).Nodup := hapart.imp fun {i j} hij heq => by
    rw [heq, (o.typedefsAlike_iff j j).mpr rfl] at hij
    exact nomatch hij
  refine ⟨_, hpools, ?_⟩
  rw [aliasesOf_mergeTypedefs hnamed hpools.nodup, hfirst, withoutRepeats_of_nodup hnodup]

def firstTypedef? (o : Overlay) (id : TypedefId) : Option TypedefId :=
  (o.typedefs.groups.get (o.arena.typedef id).name).find? (o.typedefsAlike · id)

theorem firstTypedef?_of_mem (ho : o.Indexed) {id : TypedefId} (hid : id ∈ o.typedefs.listed) :
    o.firstTypedef? id = some (o.canon.typedef id) := by
  have hgroup : o.typedefs.groups.get (o.arena.typedef id).name =
      o.typedefs.listed.filter fun i => (o.arena.typedef i).name = (o.arena.typedef id).name := by
    rw [ho.typedefs.groups, Groups.get_ofList]
  have hmem : id ∈ o.typedefs.listed.filter fun i => (o.arena.typedef i).name = (o.arena.typedef id).name :=
    List.mem_filter.mpr ⟨hid, decide_eq_true rfl⟩
  have hfirst := firstLike_filter (fun i j hij => by
    have hname := congrArg (·.2.2.2.1) ((o.typedefsAlike_iff i j).mp hij)
    have hname : (o.arena.typedef i).name = (o.arena.typedef j).name := hname
    rw [hname]) hmem
  unfold firstTypedef?
  rw [hgroup, find?_of_mem o.typedefsAlike_iff hmem, hfirst]
  rfl

/-- The aliases of `t` in `o'` are the typedefs that stand for the aliases in `o` of all that `t` stands for. -/
structure PoolsAliases (o o' : Overlay) (t : CType) : Prop where
  mem_iff : ∀ id, id ∈ o'.aliasesOf t ↔
    ∃ s, o.Lists s ∧ s.renumber o.canon = t ∧ ∃ a ∈ o.aliasesOf s, o.firstTypedef? a = some id
  nodup : (o'.aliasesOf t).Nodup
  apart : (o'.aliasesOf t).Pairwise fun i j => o'.typedefsAlike i j = false
  listed : ∀ id ∈ o'.aliasesOf t, id ∈ o'.typedefs.listed

theorem merge_poolsAliases {records : List Record} {overlays : List Overlay}
    (hb : (Builder.build records).result = .ok overlays) (ho : o ∈ overlays) {t : CType} (ht : o.merge.1.Lists t) :
    PoolsAliases o o.merge.1 t := by
  have hsound := sound_of_build hb o ho
  have hi := hsound.indexed
  have hmerged := merge_merged hi
  obtain ⟨ids, hpools, hids⟩ := aliasesOf_merge hi hsound.aliases ht
  have hsource : ∀ a, (∃ s, o.Lists s ∧ s.renumber o.canon = t ∧ a ∈ o.aliasesOf s) → a ∈ o.typedefs.listed :=
    fun a ⟨s, _, _, ha⟩ => hsound.aliases.mem_listed ha
  have hapart := hpools.apart_firsts o.typedefsAlike_iff hsource
  have hmem := hpools.mem_firsts o.typedefsAlike_iff hsource
  constructor
  · intro id
    rw [hids]
    refine (hmem id).trans ⟨?_, ?_⟩
    · rintro ⟨a, ⟨s, hs, hst, ha⟩, hfirst⟩
      have ha' := firstTypedef?_of_mem hi (hsound.aliases.mem_listed ha)
      exact ⟨s, hs, hst, a, ha, ha'.trans (congrArg some hfirst)⟩
    · rintro ⟨s, hs, hst, a, ha, hfirst⟩
      rw [firstTypedef?_of_mem hi (hsound.aliases.mem_listed ha)] at hfirst
      exact ⟨a, ⟨s, hs, hst, ha⟩, Option.some.inj hfirst⟩
  · rw [hids]
    exact hapart.imp fun {i j} hij heq => by
      rw [heq, (o.typedefsAlike_iff j j).mpr rfl] at hij
      exact nomatch hij
  · rw [hids, hmerged.redirected.typedefsAlike]
    exact hapart
  · intro id hid
    rw [hids] at hid
    obtain ⟨a, ha, rfl⟩ := List.mem_map.mp hid
    have hlisted := hsource a (hpools.sound a ha)
    rw [hmerged.typedefs]
    exact List.mem_filter.mpr
      ⟨firstLike_mem o.typedefsAlike_iff hlisted, decide_eq_true (firstLike_firstLike o.typedefsAlike_iff)⟩

def aliasedStruct (aliases : List String) : List Record :=
  let entry (symbolClass : SymbolClass) (bits : UInt16) (name tag : String) : Record :=
    { offset := 0, value := 0,
      body := .definition .second { symbolClass, word := ⟨bits⟩, size := 4, tag, name } }
  [entry .structTag 8 "point" "", entry .structMember 4 "x" "", entry .endOfStruct 0 "eos" "point"] ++
    aliases.map fun name => entry .typedef 8 name "point"

/-- Two units that know the struct by other names but for one. -/
def commonAlias : List Record :=
  aliasedStruct ["Point", "Pair"] ++ aliasedStruct ["Vector", "Point"]

def commonOverlay : Overlay :=
  (Builder.afterWalks [commonAlias]).currentOverlay

theorem build_commonAlias : (Builder.build commonAlias).result = .ok [commonOverlay] := by
  decide +kernel

theorem merge_poolsAliases_common :
    commonOverlay.aliasesOf (.composite .struct ⟨1⟩) = [⟨2⟩, ⟨3⟩] ∧
      commonOverlay.merge.1.aliasesOf (.composite .struct ⟨0⟩) = [⟨0⟩, ⟨1⟩, ⟨2⟩] ∧
      PoolsAliases commonOverlay commonOverlay.merge.1 (.composite .struct ⟨0⟩) :=
  ⟨by decide +kernel, by decide +kernel, merge_poolsAliases build_commonAlias List.mem_cons_self (by decide +kernel)⟩

end DebugSymbols.Overlay
