import DebugSymbols.Proofs.Model.Passes
import DebugSymbols.Proofs.Model.Renaming

/-!
# Unique names

Renaming makes the names of variables and the tags unique, if the groups are
those of names and tags and if no two tags have the same text. Where names are
unique, renaming changes none.
-/

namespace DebugSymbols

/-! ## Name spaces -/

def Entity.space : Entity → NameSpace
  | .var _ => .vars
  | .func _ => .funcs
  | .composite _ => .tags
  | .enum _ => .tags

namespace Overlay

def RenameCounts.count (c : RenameCounts) : NameSpace → Nat
  | .vars => c.vars
  | .funcs => c.functions
  | .tags => c.tags

/-- What has its name in a name space; of structs, unions and enums, those listed. -/
def InSpace (o : Overlay) : NameSpace → Entity → Prop
  | .vars, .var i => i < o.vars.length
  | .funcs, .func i => i < o.funcs.length
  | .tags, .composite id => ∃ kind, id ∈ (o.composites kind).listed
  | .tags, .enum id => id ∈ o.enums.listed
  | _, _ => False

/-- Those that must not share a name or tag: variables that are defined, functions, and
what is in one list of structs, unions or enums. -/
inductive Rivals (o : Overlay) : NameSpace → Entity → Entity → Prop
  | vars {i j : Nat} (hi : i < o.vars.length ∧ o.definesVar i) (hj : j < o.vars.length ∧ o.definesVar j) :
      Rivals o .vars (.var i) (.var j)
  | funcs {i j : Nat} (hi : i < o.funcs.length) (hj : j < o.funcs.length) : Rivals o .funcs (.func i) (.func j)
  | composites {kind : CompositeKind} {i j : CompositeId} (hi : i ∈ (o.composites kind).listed)
      (hj : j ∈ (o.composites kind).listed) : Rivals o .tags (.composite i) (.composite j)
  | enums {i j : EnumId} (hi : i ∈ o.enums.listed) (hj : j ∈ o.enums.listed) : Rivals o .tags (.enum i) (.enum j)

def Unique (space : NameSpace) (o : Overlay) : Prop :=
  ∀ x y, o.Rivals space x y → (o.label x).text = (o.label y).text → x = y

variable {o o' : Overlay} {space : NameSpace}

theorem space_of_inSpace {x : Entity} (h : o.InSpace space x) : x.space = space := by
  cases space <;> cases x <;> first | rfl | exact nomatch h

theorem Rivals.inSpace {x y : Entity} (h : o.Rivals space x y) : o.InSpace space x ∧ o.InSpace space y := by
  cases h with
  | vars hi hj => exact ⟨hi.1, hj.1⟩
  | funcs hi hj => exact ⟨hi, hj⟩
  | composites hi hj => exact ⟨⟨_, hi⟩, _, hj⟩
  | enums hi hj => exact ⟨hi, hj⟩

namespace Renamed

variable (h : Renamed o o')
include h

theorem varCount : o'.vars.length = o.vars.length := by
  simpa using congrArg List.length h.vars

theorem funcCount : o'.funcs.length = o.funcs.length := by
  simpa using congrArg List.length h.funcs

theorem compositeCount : o'.arena.composites.length = o.arena.composites.length := by
  simpa using congrArg List.length h.composites

theorem enumCount : o'.arena.enums.length = o.arena.enums.length := by
  simpa using congrArg List.length h.enums

theorem definesVar (i : Nat) : o'.definesVar i = o.definesVar i := by
  have hentry := Arena.getD_congr_map h.vars (d := default) rfl i
  have hstorage := congrArg Decl.storage hentry
  exact congrArg (· != some .external) hstorage

theorem rivals {x y : Entity} (hxy : o'.Rivals space x y) : o.Rivals space x y := by
  cases hxy with
  | vars hi hj =>
    rw [h.varCount, h.definesVar] at hi hj
    exact .vars hi hj
  | funcs hi hj =>
    rw [h.funcCount] at hi hj
    exact .funcs hi hj
  | composites hi hj =>
    rw [h.listed] at hi hj
    exact .composites hi hj
  | enums hi hj =>
    rw [h.enumsListed] at hi hj
    exact .enums hi hj

theorem rivals_iff {x y : Entity} : o'.Rivals space x y ↔ o.Rivals space x y :=
  ⟨h.rivals, h.symm.rivals⟩

end Renamed

/-! ## What collides -/

theorem VarsGrouped.mem_iff (h : o.VarsGrouped) {i : Nat} :
    i ∈ o.collidingVars ↔ ∃ y, y ≠ .var i ∧ o.Rivals .vars (.var i) y ∧ o.label y = o.label (.var i) := by
  unfold collidingVars
  rw [(h.retain o.definesVar).mem_colliding_iff (List.nodup_range.filter _)]
  simp only [List.mem_filter, List.mem_range]
  constructor
  · rintro ⟨hi, j, hj, hne, hname⟩
    exact ⟨.var j, fun heq => hne (Entity.var.inj heq), .vars hi hj, congrArg Tag.named hname⟩
  · rintro ⟨y, hne, hrivals, hlabel⟩
    cases hrivals with
    | vars hi hj => exact ⟨hi, _, hj, fun heq => hne (congrArg Entity.var heq), Tag.named.inj hlabel⟩

theorem mem_collidingFuncs {key : Nat → String} (h : o.funcNames.Cut (List.range o.funcs.length) key) {i : Nat} :
    i ∈ o.collidingFuncs ↔ (o.func i).name = key i ∧ i < o.funcs.length ∧
      ∃ j < o.funcs.length, j ≠ i ∧ key j = key i := by
  have hgroup := h.mem_colliding_iff List.nodup_range (i := i)
  simp only [List.mem_range] at hgroup
  rw [← hgroup]
  unfold collidingFuncs
  constructor
  · intro hi
    obtain ⟨c, hc, rfl⟩ := List.mem_map.mp hi
    obtain ⟨hc, hown⟩ := List.mem_filter.mp hc
    rw [(h.of_mem_colliding hc).2]
    exact ⟨of_decide_eq_true hown, List.mem_map.mpr ⟨c, hc, rfl⟩⟩
  · rintro ⟨hown, hi⟩
    obtain ⟨c, hc, rfl⟩ := List.mem_map.mp hi
    rw [(h.of_mem_colliding hc).2] at hown
    exact List.mem_map.mpr ⟨c, List.mem_filter.mpr ⟨hc, decide_eq_true hown⟩, rfl⟩

theorem TagsGrouped.mem_iff (h : o.TagsGrouped) {x : Entity} :
    x ∈ o.collidingTags ↔ ∃ y, y ≠ x ∧ o.Rivals .tags x y ∧ o.label y = o.label x := by
  constructor
  · intro hx
    have hcomposite : ∀ kind, x ∈ o.collidingComposites kind →
        ∃ y, y ≠ x ∧ o.Rivals .tags x y ∧ o.label y = o.label x := by
      intro kind hx
      obtain ⟨i, _, rfl⟩ := List.mem_map.mp hx
      obtain ⟨hi, j, hj, hne, htag⟩ := h.mem_collidingComposites.mp hx
      exact ⟨.composite j, fun heq => hne (Entity.composite.inj heq), .composites hi hj, htag⟩
    obtain hx | hx := List.mem_append.mp hx
    · obtain hx | hx := List.mem_append.mp hx
      · exact hcomposite .struct hx
      · exact hcomposite .union hx
    · obtain ⟨i, _, rfl⟩ := List.mem_map.mp hx
      obtain ⟨hi, j, hj, hne, htag⟩ := h.mem_collidingEnums.mp hx
      exact ⟨.enum j, fun heq => hne (Entity.enum.inj heq), .enums hi hj, htag⟩
  · rintro ⟨y, hne, hrivals, hlabel⟩
    cases hrivals with
    | @composites kind i j hi hj =>
      have hmem := h.mem_collidingComposites.mpr ⟨hi, j, hj, fun heq => hne (congrArg Entity.composite heq), hlabel⟩
      refine List.mem_append_left _ ?_
      cases kind with
      | struct => exact List.mem_append_left _ hmem
      | union => exact List.mem_append_right _ hmem
    | enums hi hj =>
      exact List.mem_append_right _
        (h.mem_collidingEnums.mpr ⟨hi, _, hj, fun heq => hne (congrArg Entity.enum heq), hlabel⟩)

/-! ## One pass -/

structure Passed (space : NameSpace) (o : Overlay) (xs : List Entity) : Prop where
  inSpace : ∀ x ∈ xs, o.InSpace space x
  kept : ∀ x, x.space = space → x ∉ xs → o.rename.1.label x = o.label x
  fresh : ∀ x ∈ xs, ∀ y, o.InSpace space y → (o.rename.1.label x).text ≠ (o.label y).text
  apart : ∀ x ∈ xs, ∀ y ∈ xs, (o.rename.1.label x).text = (o.rename.1.label y).text → x = y
  anonymous : ∀ x, x.space = space → (o.rename.1.label x).isAnonymous = (o.label x).isAnonymous
  count : o.rename.2.count space = xs.length

theorem passed_of_gives {xs : List Entity} {r r' : Renaming} (h : Gives xs r r')
    (hin : ∀ x ∈ xs, o.InSpace space x) (hold : ∀ x, x.space = space → r.overlay.label x = o.label x)
    (hnew : ∀ x, x.space = space → o.rename.1.label x = r'.overlay.label x)
    (htaken : ∀ x, o.InSpace space x → (o.label x).text ∈ r.taken) (hzero : r.count = 0)
    (hcount : o.rename.2.count space = r'.count) : Passed space o xs where
  inSpace := hin
  kept x hx hmem := by rw [hnew x hx, h.others x hmem, hold x hx]
  fresh x hmem y hy heq := by
    rw [hnew x (space_of_inSpace (hin x hmem))] at heq
    exact h.fresh x hmem (heq ▸ htaken y hy)
  apart x hmx y hmy heq := by
    rw [hnew x (space_of_inSpace (hin x hmx)), hnew y (space_of_inSpace (hin y hmy))] at heq
    exact h.apart x hmx y hmy heq
  anonymous x hx := by rw [hnew x hx, h.anonymous, hold x hx]
  count := by rw [hcount, h.count, hzero, Nat.zero_add]

theorem passed_vars (h : o.VarsGrouped) : Passed .vars o (o.collidingVars.map .var) := by
  obtain ⟨fs, hfs⟩ := exists_funcs_of_renames (renames_renameFuncs o.renameVars.overlay)
  obtain ⟨a, ha⟩ := exists_arena_of_renames (renames_renameTags o.renameVars.overlay.renameFuncs.overlay)
  refine passed_of_gives (gives_renameVars h) (fun x hx => ?_) (fun _ _ => rfl) (fun x hx => ?_)
    (fun x hx => ?_) rfl rfl
  · obtain ⟨i, hi, rfl⟩ := List.mem_map.mp hx
    obtain ⟨_, _, hrivals, _⟩ := h.mem_iff.mp hi
    exact hrivals.inSpace.1
  · refine (label_regroup _ x).trans ?_
    rw [ha, hfs]
    cases x with
    | var i => rfl
    | _ => exact nomatch hx
  · cases x with
    | var i => exact h.covers i (List.mem_range.mpr hx)
    | _ => exact nomatch hx

theorem passed_funcs {key : Nat → String} (h : o.funcNames.Cut (List.range o.funcs.length) key) :
    Passed .funcs o (o.collidingFuncs.map .func) := by
  obtain ⟨vs, hvs⟩ := exists_vars_of_renames (renames_renameVars o)
  obtain ⟨a, ha⟩ := exists_arena_of_renames (renames_renameTags o.renameVars.overlay.renameFuncs.overlay)
  have hgives : Gives (o.collidingFuncs.map .func)
      { overlay := { o with vars := vs }, taken := o.funcNames.keys ++ o.funcs.map (·.name) }
      { o with vars := vs }.renameFuncs := gives_renameFuncs (o := { o with vars := vs }) h
  refine passed_of_gives hgives (fun x hx => ?_) (fun x hx => ?_) (fun x hx => ?_) (fun x hx => ?_) rfl ?_
  · obtain ⟨i, hi, rfl⟩ := List.mem_map.mp hx
    exact ((mem_collidingFuncs h).mp hi).2.1
  · cases x with
    | func i => rfl
    | _ => exact nomatch hx
  · refine (label_regroup _ x).trans ?_
    rw [ha, hvs]
    cases x with
    | func i => rfl
    | _ => exact nomatch hx
  · cases x with
    | func i => exact List.mem_append_right _ (List.mem_map.mpr ⟨_, o.func_mem hx, rfl⟩)
    | _ => exact nomatch hx
  · rw [← hvs]
    rfl

theorem TagsGrouped.text_mem (h : o.TagsGrouped) {x : Entity} (hx : o.InSpace .tags x) :
    (o.label x).text ∈ o.tagTexts := by
  have hkey : ∀ tag, tag ∈ o.structs.groups.keys ∨ tag ∈ o.unions.groups.keys ∨ tag ∈ o.enums.groups.keys →
      tag.text ∈ o.tagTexts := fun tag htag =>
    List.mem_map_of_mem (by simpa [List.mem_append, or_assoc] using htag)
  cases x with
  | composite id =>
    obtain ⟨kind, hid⟩ := hx
    have hcovers := (h.composites kind).covers id hid
    cases kind with
    | struct => exact hkey _ (.inl hcovers)
    | union => exact hkey _ (.inr (.inl hcovers))
  | enum id => exact hkey _ (.inr (.inr (h.enums.covers id hx)))
  | _ => exact nomatch hx

theorem passed_tags (h : o.TagsGrouped) : Passed .tags o o.collidingTags := by
  obtain ⟨vs, hvs⟩ := exists_vars_of_renames (renames_renameVars o)
  obtain ⟨fs, hfs⟩ := exists_funcs_of_renames (renames_renameFuncs o.renameVars.overlay)
  rw [hvs] at hfs
  have hgrouped : { o with vars := vs, funcs := fs }.TagsGrouped :=
    h.congr (fun kind => by cases kind <;> rfl) rfl rfl
  have hgives : Gives o.collidingTags { overlay := { o with vars := vs, funcs := fs }, taken := o.tagTexts }
      { o with vars := vs, funcs := fs }.renameTags := gives_renameTags hgrouped
  refine passed_of_gives hgives (fun x hx => ?_) (fun x hx => ?_) (fun x _ => ?_) (fun _ hx => h.text_mem hx) rfl ?_
  · obtain ⟨_, _, hrivals, _⟩ := h.mem_iff.mp hx
    exact hrivals.inSpace.1
  · cases x <;> first | rfl | exact nomatch hx
  · rw [← hfs, ← hvs]
    exact label_regroup _ x
  · rw [← hfs, ← hvs]
    rfl

namespace Passed

variable {xs : List Entity} (h : Passed space o xs) {x y : Entity}
include h

theorem renamed_iff (hx : x.space = space) : o.rename.1.label x ≠ o.label x ↔ x ∈ xs := by
  constructor
  · intro hne
    by_contra hmem
    exact hne (h.kept x hx hmem)
  · exact fun hmem heq => h.fresh x hmem x (h.inSpace x hmem) (congrArg Tag.text heq)

theorem eq_or_kept (hx : o.InSpace space x) (hy : o.InSpace space y)
    (heq : (o.rename.1.label x).text = (o.rename.1.label y).text) :
    x = y ∨ x ∉ xs ∧ y ∉ xs ∧ (o.label x).text = (o.label y).text := by
  have hkept := fun {z} (hz : o.InSpace space z) => h.kept z (space_of_inSpace hz)
  by_cases hmx : x ∈ xs
  · by_cases hmy : y ∈ xs
    · exact .inl (h.apart x hmx y hmy heq)
    · rw [hkept hy hmy] at heq
      exact absurd heq (h.fresh x hmx y hy)
  · by_cases hmy : y ∈ xs
    · rw [hkept hx hmx] at heq
      exact absurd heq.symm (h.fresh y hmy x hx)
    · rw [hkept hx hmx, hkept hy hmy] at heq
      exact .inr ⟨hmx, hmy, heq⟩

theorem kept_of_nil (hxs : xs = []) :
    o.rename.2.count space = 0 ∧ ∀ x, x.space = space → o.rename.1.label x = o.label x := by
  subst hxs
  exact ⟨h.count, fun x hx => h.kept x hx List.not_mem_nil⟩

end Passed

/-! ## Made unique -/

/-- The names of a name space are unique after renaming. What shared its name has
a new one then, which nothing had and nothing else has got; the rest is left alone. -/
structure Uniquified (space : NameSpace) (o : Overlay) : Prop where
  unique : o.rename.1.Unique space
  renamed_iff : ∀ x, x.space = space →
    (o.rename.1.label x ≠ o.label x ↔ ∃ y, y ≠ x ∧ o.Rivals space x y ∧ o.label y = o.label x)
  fresh : ∀ x y, x.space = space → o.InSpace space y → o.rename.1.label x ≠ o.label x →
    (o.rename.1.label x).text ≠ (o.label y).text
  apart : ∀ x y, x.space = space → y.space = space → o.rename.1.label x ≠ o.label x →
    o.rename.1.label y ≠ o.label y → (o.rename.1.label x).text = (o.rename.1.label y).text → x = y
  anonymous : ∀ x, x.space = space → (o.rename.1.label x).isAnonymous = (o.label x).isAnonymous

theorem Passed.uniquified {xs : List Entity} (h : Passed space o xs)
    (hmem : ∀ x, x.space = space → (x ∈ xs ↔ ∃ y, y ≠ x ∧ o.Rivals space x y ∧ o.label y = o.label x))
    (htell : ∀ x y, o.Rivals space x y → (o.label x).text = (o.label y).text → o.label x = o.label y) :
    Uniquified space o where
  unique x y hxy heq := by
    have hold := (renamed_rename o).rivals_iff.mp hxy
    obtain ⟨hx, hy⟩ := hold.inSpace
    obtain heq | ⟨hmx, _, heq⟩ := h.eq_or_kept hx hy heq
    · exact heq
    · by_contra hne
      exact hmx ((hmem x (space_of_inSpace hx)).mpr ⟨y, Ne.symm hne, hold, (htell x y hold heq).symm⟩)
  renamed_iff x hx := (h.renamed_iff hx).trans (hmem x hx)
  fresh x y hx hy hne := h.fresh x ((h.renamed_iff hx).mp hne) y hy
  apart x y hx hy hnx hny := h.apart x ((h.renamed_iff hx).mp hnx) y ((h.renamed_iff hy).mp hny)
  anonymous := h.anonymous

theorem uniquified_vars (h : o.VarsGrouped) : Uniquified .vars o := by
  refine (passed_vars h).uniquified (fun x hx => ?_) fun x y hxy heq => ?_
  · cases x with
    | var i =>
      rw [List.mem_map_of_injective fun _ _ => Entity.var.inj]
      exact h.mem_iff
    | _ => exact nomatch hx
  · cases hxy with
    | vars hi hj => exact congrArg Tag.named heq

structure TagsPlain (o : Overlay) : Prop where
  composites : ∀ id, (o.arena.composite id).tag.Plain
  enums : ∀ id, (o.arena.enumeration id).tag.Plain

theorem uniquified_tags (h : o.TagsGrouped) (hp : o.TagsPlain) : Uniquified .tags o := by
  refine (passed_tags h).uniquified (fun x _ => h.mem_iff) fun x y hxy heq => ?_
  cases hxy with
  | composites hi hj => exact (hp.composites _).eq_of_text (hp.composites _) heq
  | enums hi hj => exact (hp.enums _).eq_of_text (hp.enums _) heq

/-! ## Renaming again -/

theorem varsGrouped_rename (o : Overlay) : o.rename.1.VarsGrouped :=
  Groups.cut_ofList _ _

theorem TagsGrouped.rename (h : o.TagsGrouped) : o.rename.1.TagsGrouped where
  composites kind := by cases kind <;> exact Groups.cut_ofList _ _
  compositesNodup kind := by
    rw [(renamed_rename o).listed]
    exact h.compositesNodup kind
  composite_mem kind id hid := by
    rw [(renamed_rename o).listed] at hid
    rw [(renamed_rename o).sameLists.kind, (renamed_rename o).compositeCount]
    exact h.composite_mem kind id hid
  enums := Groups.cut_ofList _ _
  enumsNodup := by
    rw [(renamed_rename o).enumsListed]
    exact h.enumsNodup
  enum_mem id hid := by
    rw [(renamed_rename o).enumsListed] at hid
    rw [(renamed_rename o).enumCount]
    exact h.enum_mem id hid

theorem vars_of_unique (h : o.VarsGrouped) (hu : o.Unique .vars) :
    o.rename.2.vars = 0 ∧ ∀ x, x.space = .vars → o.rename.1.label x = o.label x := by
  have hnone : o.collidingVars = [] := by
    rw [List.eq_nil_iff_forall_not_mem]
    intro i hi
    obtain ⟨y, hne, hrivals, hlabel⟩ := h.mem_iff.mp hi
    exact hne (hu _ _ hrivals (congrArg Tag.text hlabel).symm).symm
  exact (passed_vars h).kept_of_nil (congrArg (List.map Entity.var) hnone)

theorem tags_of_unique (h : o.TagsGrouped) (hu : o.Unique .tags) :
    o.rename.2.tags = 0 ∧ ∀ x, x.space = .tags → o.rename.1.label x = o.label x := by
  have hnone : o.collidingTags = [] := by
    rw [List.eq_nil_iff_forall_not_mem]
    intro x hx
    obtain ⟨y, hne, hrivals, hlabel⟩ := h.mem_iff.mp hx
    exact hne (hu _ _ hrivals (congrArg Tag.text hlabel).symm).symm
  exact (passed_tags h).kept_of_nil hnone

end Overlay

end DebugSymbols
