import DebugSymbols.Proofs.Model.Merging
import DebugSymbols.Proofs.WellFormed
import Mathlib.Tactic.TFAE

/-!
# Unique names

`uniquified_rename`: in what is built, merged or not, renaming makes the names
of variables and the tags unique. `funcs_unique_iff`: it makes the names of
functions unique just where none that was renamed as it was added has the name
of a function that stands alone.
-/

namespace DebugSymbols

structure SearchesEnd : Prop where
  names : ∀ taken base addr, ∃ n, EndsAt taken id (addressName base addr) n ∧
    freshName taken base addr = addressName base addr n
  tags : ∀ taken tag letter index, ∃ n, EndsAt taken Tag.text (tag.duplicated letter index) n ∧
    freshTag taken tag letter index = tag.duplicated letter index n

theorem searchesEnd : SearchesEnd where
  names taken base addr := by
    obtain ⟨n, _, hn⟩ := exists_endsAt_freshName taken base addr
    exact ⟨n, hn⟩
  tags taken tag letter index := by
    obtain ⟨n, _, hn⟩ := exists_endsAt_freshTag taken tag letter index
    exact ⟨n, hn⟩

namespace Overlay

variable {o o₁ : Overlay}

/-! ## Overlays to rename -/

structure Renamable (o : Overlay) : Prop where
  vars : o.VarsGrouped
  funcs : ∃ key, o.FuncsKeyed key
  tags : o.TagsGrouped
  plain : o.TagsPlain

theorem Sound.renamable (h : o.Sound) : o.Renamable where
  vars := by
    unfold VarsGrouped
    rw [h.names.vars]
    exact Groups.cut_ofList _ _
  funcs := by
    obtain ⟨key, hkey, _⟩ := h.names.funcs
    exact ⟨key, hkey⟩
  tags :=
    { composites := fun kind => by
        rw [(h.indexed.composites kind).groups]
        exact Groups.cut_ofList _ _
      compositesNodup := fun kind => (h.indexed.composites kind).nodup
      composite_mem := h.indexed.composite_mem
      enums := by
        rw [h.indexed.enums.groups]
        exact Groups.cut_ofList _ _
      enumsNodup := h.indexed.enums.nodup
      enum_mem := h.indexed.enum_mem }
  plain := h.tags

theorem TagsGrouped.merge (h : o.TagsGrouped) (ho : o.Indexed) : o.merge.1.TagsGrouped := by
  have hmerged := merge_merged ho
  have hred := hmerged.redirected
  have hcomposites := composites_merge ho
  have henums : o.merge.1.enums = o.enums.retain _ := hmerged.enums
  constructor
  · intro kind
    rw [hcomposites]
    exact ((h.composites kind).congr fun id _ => (hred.tag id).symm).retain _
  · intro kind
    rw [hcomposites]
    exact (h.compositesNodup kind).filter _
  · intro kind id hid
    rw [hcomposites] at hid
    rw [hred.compositeCount, hred.kind]
    exact h.composite_mem kind id (List.mem_filter.mp hid).1
  · rw [henums]
    exact (h.enums.congr fun id _ => (hred.enumTag id).symm).retain _
  · rw [henums]
    exact h.enumsNodup.filter _
  · intro id hid
    rw [henums] at hid
    rw [hred.enumCount]
    exact h.enum_mem id (List.mem_filter.mp hid).1

theorem Renamable.merge (h : o.Renamable) (ho : o.Indexed) : o.merge.1.Renamable where
  vars := by
    have hred := (merge_merged ho).redirected
    unfold VarsGrouped
    rw [hred.varNames, hred.varCount]
    exact h.vars.congr fun i _ => (hred.varName i).symm
  funcs := by
    have hred := (merge_merged ho).redirected
    obtain ⟨key, hkey⟩ := h.funcs
    exact ⟨key, hkey.congr hred.funcNames hred.funcCount hred.funcName⟩
  tags := h.tags.merge ho
  plain := by
    have hred := (merge_merged ho).redirected
    constructor
    · intro id
      rw [hred.tag]
      exact h.plain.composites id
    · intro id
      rw [hred.enumTag]
      exact h.plain.enums id

theorem sound_of_build {records : List Record} {overlays : List Overlay}
    (hb : (Builder.build records).result = .ok overlays) : ∀ o ∈ overlays, o.Sound := by
  rw [Builder.overlays_of_build hb]
  exact Builder.forall_overlays_afterWalks sound_new (fun _ _ h => h.sound) [records]

theorem renamable_of_build {records : List Record} {overlays : List Overlay}
    (hb : (Builder.build records).result = .ok overlays) (ho : o ∈ overlays) (h₁ : o₁ = o ∨ o₁ = o.merge.1) :
    o₁.Renamable := by
  have hsound := sound_of_build hb o ho
  obtain rfl | rfl := h₁
  · exact hsound.renamable
  · exact hsound.renamable.merge hsound.indexed

/-! ## Variables and tags -/

structure TagsAlone (o : Overlay) : Prop where
  composites : ∀ kind, (o.composites kind).groups.Singletons
  enums : o.enums.groups.Singletons

theorem tagsAlone_of_unique (h : o.TagsGrouped) (hu : o.rename.1.Unique .tags) : o.rename.1.TagsAlone where
  composites kind := by
    have hnd := h.rename.compositesNodup kind
    have hgroups : (o.rename.1.composites kind).groups =
        .ofList (fun id => (o.rename.1.arena.composite id).tag) (o.rename.1.composites kind).listed := by
      cases kind <;> rfl
    rw [hgroups, Groups.singletons_ofList_iff hnd]
    exact fun i hi j hj heq => Entity.composite.inj (hu _ _ (.composites hi hj) (congrArg Tag.text heq))
  enums := by
    have hgroups : o.rename.1.enums.groups =
        .ofList (fun id => (o.rename.1.arena.enumeration id).tag) o.rename.1.enums.listed := rfl
    rw [hgroups, Groups.singletons_ofList_iff h.rename.enumsNodup]
    exact fun i hi j hj heq => Entity.enum.inj (hu _ _ (.enums hi hj) (congrArg Tag.text heq))

structure RenamesOnce (o : Overlay) : Prop where
  vars : o.rename.2.vars = 0
  tags : o.rename.2.tags = 0
  labels : ∀ x, x.space ≠ .funcs → o.rename.1.label x = o.label x

theorem uniquified_rename {records : List Record} {overlays : List Overlay}
    (hb : (Builder.build records).result = .ok overlays) (ho : o ∈ overlays) (h₁ : o₁ = o ∨ o₁ = o.merge.1) :
    SearchesEnd ∧ Uniquified .vars o₁ ∧ Uniquified .tags o₁ ∧ o₁.rename.1.TagsAlone ∧ o₁.rename.1.RenamesOnce := by
  have h := renamable_of_build hb ho h₁
  have hvars := uniquified_vars h.vars
  have htags := uniquified_tags h.tags h.plain
  obtain ⟨hcountVars, hkeptVars⟩ := vars_of_unique (varsGrouped_rename o₁) hvars.unique
  obtain ⟨hcountTags, hkeptTags⟩ := tags_of_unique h.tags.rename htags.unique
  refine ⟨searchesEnd, hvars, htags, tagsAlone_of_unique h.tags htags.unique, hcountVars, hcountTags, ?_⟩
  intro x hx
  cases hspace : x.space with
  | vars => exact hkeptVars x hspace
  | funcs => exact absurd hspace hx
  | tags => exact hkeptTags x hspace

/-- Two variables of one name and two structs of one tag, all different. -/
def namesakes : List Record :=
  let entry (symbolClass : SymbolClass) (value : UInt32) (bits : UInt16) (name tag : String) : Record :=
    { offset := 0, value
      body := .definition .second { symbolClass, word := ⟨bits⟩, size := 4, tag, name } }
  let struct (member : String) : List Record :=
    [entry .structTag 0 8 "pair" "", entry .structMember 0 4 member "", entry .endOfStruct 4 0 "eos" "pair"]
  [entry .static 16 4 "count" "", entry .static 32 4 "count" ""] ++ struct "left" ++ struct "right"

def namesakesOverlay : Overlay :=
  (Builder.afterWalks [namesakes]).currentOverlay

theorem build_namesakes : (Builder.build namesakes).result = .ok [namesakesOverlay] := by
  decide +kernel

theorem uniquified_namesakes :
    namesakesOverlay.merge.1.rename.1.vars.map (·.name) = ["count_addr_00000010", "count_addr_00000020"] ∧
      namesakesOverlay.merge.1.rename.1.arena.composites.map (·.tag.text) = ["pair_duplicate_s0", "pair_duplicate_s1"] ∧
      Uniquified .vars namesakesOverlay.merge.1 ∧ Uniquified .tags namesakesOverlay.merge.1 := by
  obtain ⟨_, hvars, htags, _⟩ := uniquified_rename build_namesakes List.mem_cons_self (.inr rfl)
  exact ⟨by decide +kernel, by decide +kernel, hvars, htags⟩

/-! ## Functions -/

theorem funcs_unique_iff {records : List Record} {overlays : List Overlay}
    (hb : (Builder.build records).result = .ok overlays) (ho : o ∈ overlays) (h₁ : o₁ = o ∨ o₁ = o.merge.1) :
    List.TFAE [o₁.FuncsSettled,
      o₁.rename.1.Unique .funcs,
      o₁.rename.1.funcNames.Singletons,
      o₁.rename.1.rename.2.functions = 0,
      ∀ i, (o₁.rename.1.rename.1.func i).name = (o₁.rename.1.func i).name] ∧
    ∀ i, o₁.funcNames.get (o₁.func i).name = [i] → (o₁.rename.1.func i).name = (o₁.func i).name := by
  obtain ⟨key, hkey⟩ := (renamable_of_build hb ho h₁).funcs
  have hcut := cut_funcs_rename o₁
  have halone : o₁.rename.1.funcNames.Singletons ↔ o₁.rename.1.Unique .funcs := by
    have hgroups : o₁.rename.1.funcNames =
        .ofList (fun i => (o₁.rename.1.func i).name) (List.range o₁.rename.1.funcs.length) := rfl
    rw [hgroups, Groups.singletons_ofList_iff List.nodup_range, unique_funcs_iff]
    simp only [List.mem_range]
  refine ⟨?_, fun i hget => hkey.kept_of_get hget⟩
  tfae_have 1 → 2 := hkey.unique_of_settled
  tfae_have 2 → 1 := hkey.settled_of_unique
  tfae_have 3 ↔ 2 := halone
  tfae_have 4 ↔ 2 := count_funcs_iff hcut
  tfae_have 5 ↔ 2 := kept_funcs_iff hcut
  tfae_finish

/-- A function with its prototype at one address and its body at another. -/
def movedBody : List Record :=
  [{ offset := 0, value := 1,
     body := .definition .first { symbolClass := .external, word := ⟨36⟩, size := 0, name := "foo" } },
    { offset := 0, value := 2,
      body := .functionStart
        { frameRegister := 0, frameSize := 0, returnRegister := 0, mask := 0, maskOffset := 0, line := 0
          path := "a.c", name := "foo" } },
    { offset := 0, value := 3, body := .functionEnd 1 }]

def movedOverlay : Overlay :=
  (Builder.afterWalks [movedBody]).currentOverlay

theorem build_movedBody : (Builder.build movedBody).result = .ok [movedOverlay] := by
  decide +kernel

theorem funcs_unique_movedBody :
    movedOverlay.funcs.map (·.name) = ["foo", "foo_addr_00000002"] ∧ movedOverlay.rename.1.Unique .funcs := by
  have hsettled : movedOverlay.FuncsSettled := by
    unfold FuncsSettled
    decide +kernel
  obtain ⟨htfae, _⟩ := funcs_unique_iff build_movedBody List.mem_cons_self (.inl rfl)
  exact ⟨by decide +kernel, (htfae.out 0 1).mp hsettled⟩

/-- A function comes later that has the very name which the body was given. -/
def nameTakenLater : List Record :=
  movedBody ++
    [{ offset := 0, value := 9,
       body := .definition .first
        { symbolClass := .external, word := ⟨36⟩, size := 0, name := "foo_addr_00000002" } }]

def takenOverlay : Overlay :=
  (Builder.afterWalks [nameTakenLater]).currentOverlay

/-- Renaming leaves both alone, and finds them to collide when it is done again. -/
theorem not_unique_nameTakenLater :
    (Builder.build nameTakenLater).result = .ok [takenOverlay] ∧
      takenOverlay.rename.1.funcs.map (·.name) = ["foo_addr_00000001", "foo_addr_00000002", "foo_addr_00000002"] ∧
      ¬ takenOverlay.rename.1.Unique .funcs ∧ ¬ takenOverlay.rename.1.funcNames.Singletons ∧
      takenOverlay.rename.1.rename.2.functions = 2 := by
  refine ⟨by decide +kernel, by decide +kernel, fun hu => ?_, fun hs => ?_, by decide +kernel⟩
  · rw [unique_funcs_iff] at hu
    exact absurd (hu 1 (by decide +kernel) 2 (by decide +kernel) (by decide +kernel)) (by decide)
  · obtain ⟨i, hi⟩ := hs ("foo_addr_00000002", [1, 2]) (by decide +kernel)
    exact nomatch hi

end Overlay

end DebugSymbols
