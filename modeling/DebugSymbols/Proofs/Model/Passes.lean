import DebugSymbols.Proofs.Model.Naming

/-!
# The passes of renaming

Each pass of renaming gives names to what collides in the groups that it goes
through, if they are the lists cut by names and tags.
-/

namespace DebugSymbols

namespace Overlay

theorem label_regroup (o : Overlay) (x : Entity) : o.regroupNames.regroupTags.label x = o.label x := by
  cases x <;> rfl

end Overlay

/-! ## Single names -/

section
variable (r : Renaming)

theorem gives_var {i : Nat} (hi : r.overlay.Has (.var i)) : Gives [.var i] r (r.var i) := by
  have hhas : ∀ y, (r.var i).overlay.Has y ↔ r.overlay.Has y := by
    intro y
    cases y <;> simp [Renaming.var, Overlay.Has, Overlay.modifyVar]
  have hlabel := r.overlay.label_modifyVar hi (freshName r.taken (r.overlay.var i).name (r.overlay.var i).addr)
  exact .single hhas hlabel (freshName_notMem _ _ _) rfl rfl rfl

theorem gives_func {i : Nat} (hi : r.overlay.Has (.func i)) {key : String} (hkey : (r.overlay.func i).name = key) :
    Gives [.func i] r (r.func key i) := by
  have hfunc : r.func key i =
      { overlay := r.overlay.modifyFunc i fun f => { f with name := freshName r.taken key (r.overlay.func i).addr }
        taken := freshName r.taken key (r.overlay.func i).addr :: r.taken
        count := r.count + 1 } := if_pos hkey
  have hhas : ∀ y, (r.func key i).overlay.Has y ↔ r.overlay.Has y := by
    intro y
    rw [hfunc]
    cases y <;> simp [Overlay.Has, Overlay.modifyFunc]
  have hlabel := r.overlay.label_modifyFunc hi (freshName r.taken key (r.overlay.func i).addr)
  rw [hfunc] at hhas ⊢
  exact .single hhas hlabel (freshName_notMem _ _ _) rfl rfl rfl

theorem gives_composite (letter : Char) {entry : CompositeId × Nat} (hi : r.overlay.Has (.composite entry.1))
    {tag : Tag} (htag : r.overlay.label (.composite entry.1) = tag) :
    Gives [.composite entry.1] r (r.composite letter tag entry) := by
  have hhas : ∀ y, (r.composite letter tag entry).overlay.Has y ↔ r.overlay.Has y := by
    intro y
    cases y <;> simp [Renaming.composite, Overlay.Has, Overlay.modifyArena, Arena.modifyComposite]
  have hlabel := r.overlay.label_modifyComposite hi (freshTag r.taken tag letter entry.2)
  refine .single hhas hlabel (text_freshTag_notMem _ _ _ _) rfl rfl ?_
  rw [isAnonymous_freshTag, htag]

theorem gives_enum {entry : EnumId × Nat} (hi : r.overlay.Has (.enum entry.1)) {tag : Tag}
    (htag : r.overlay.label (.enum entry.1) = tag) : Gives [.enum entry.1] r (r.enum tag entry) := by
  have hhas : ∀ y, (r.enum tag entry).overlay.Has y ↔ r.overlay.Has y := by
    intro y
    cases y <;> simp [Renaming.enum, Overlay.Has, Overlay.modifyArena, Arena.modifyEnum]
  have hlabel := r.overlay.label_modifyEnum hi (freshTag r.taken tag 'e' entry.2)
  refine .single hhas hlabel (text_freshTag_notMem _ _ _ _) rfl rfl ?_
  rw [isAnonymous_freshTag, htag]

end

/-! ## Runs through groups -/

theorem collisions_eq {κ ι : Type} (rename : κ → Renaming → ι × Nat → Renaming) (groups : Groups κ ι) (r : Renaming) :
    Renaming.collisions rename groups r = groups.colliding.foldl (fun r c => rename c.1 r c.2) r := by
  unfold Renaming.collisions Groups.colliding
  rw [List.foldl_flatMap]
  congr 1
  funext r e
  split
  · rfl
  · rw [List.foldl_map]

theorem gives_collisions {ι : Type} {rename : Tag → Renaming → ι × Nat → Renaming} {entity : ι → Entity}
    (hentity : Function.Injective entity) {groups : Groups Tag ι} {is : List ι} {r : Renaming}
    (hc : groups.Cut is fun i => r.overlay.label (entity i)) (hnd : is.Nodup)
    (hhas : ∀ i ∈ is, r.overlay.Has (entity i))
    (hgives : ∀ (r' : Renaming) (entry : ι × Nat), r'.overlay.Has (entity entry.1) →
      Gives [entity entry.1] r' (rename (r'.overlay.label (entity entry.1)) r' entry)) :
    Gives ((groups.colliding.map (·.2.1)).map entity) r (Renaming.collisions rename groups r) := by
  have hnodup := (hc.nodup_colliding hnd).map hentity
  rw [List.map_map] at hnodup ⊢
  have hrun := Gives.foldl groups.colliding (fun r c => rename c.1 r c.2) (fun c => entity c.2.1) (fun _ => true) r hnodup
    fun c hmem r' hhas' hlabel => by
      obtain ⟨hi, hkey⟩ := hc.of_mem_colliding hmem
      have hlabel : r'.overlay.label (entity c.2.1) = c.1 := hlabel.trans hkey
      have hstep := hgives r' c.2 (hhas'.mpr (hhas _ hi))
      rw [hlabel] at hstep
      exact hstep
  rw [List.filter_eq_self.mpr fun _ _ => rfl] at hrun
  rw [collisions_eq]
  exact hrun

namespace Overlay

variable {o : Overlay}

/-! ## Variables -/

def definesVar (o : Overlay) (i : Nat) : Bool :=
  (o.var i).storage != some .external

def collidingVars (o : Overlay) : List Nat :=
  (o.varNames.retain o.definesVar).colliding.map (·.2.1)

theorem renameVars_eq (o : Overlay) :
    o.renameVars = o.collidingVars.foldl Renaming.var { overlay := o, taken := o.varNames.keys } := by
  unfold renameVars collidingVars
  rw [Groups.map_colliding, Groups.flatMap_retain fun _ => rfl, List.foldl_flatMap]
  congr 1
  funext r e
  show (if (e.2.filter o.definesVar).length < 2 then r else (e.2.filter o.definesVar).foldl Renaming.var r) = _
  split <;> rfl

def VarsGrouped (o : Overlay) : Prop :=
  o.varNames.Cut (List.range o.vars.length) fun i => (o.var i).name

theorem gives_renameVars (h : o.VarsGrouped) :
    Gives (o.collidingVars.map .var) { overlay := o, taken := o.varNames.keys } o.renameVars := by
  have hcut := h.retain o.definesVar
  have hnd := hcut.nodup_colliding (List.nodup_range.filter _)
  have hmem : ∀ i ∈ o.collidingVars, i < o.vars.length := fun i hi =>
    List.mem_range.mp (List.mem_filter.mp ((hcut.mem_colliding_iff (List.nodup_range.filter _)).mp hi).1).1
  have hrun := Gives.foldl o.collidingVars Renaming.var .var (fun _ => true)
    { overlay := o, taken := o.varNames.keys } (hnd.map fun _ _ => Entity.var.inj) fun i hi r' hhas _ =>
      gives_var r' (hhas.mpr (hmem i hi))
  rw [List.filter_eq_self.mpr fun _ _ => rfl] at hrun
  rw [renameVars_eq]
  exact hrun

/-! ## Functions -/

def collidingFuncs (o : Overlay) : List Nat :=
  (o.funcNames.colliding.filter fun c => (o.func c.2.1).name = c.1).map (·.2.1)

theorem gives_renameFuncs {key : Nat → String} (h : o.funcNames.Cut (List.range o.funcs.length) key) :
    Gives (o.collidingFuncs.map .func) { overlay := o, taken := o.funcNames.keys ++ o.funcs.map (·.name) }
      o.renameFuncs := by
  have hnodup := (h.nodup_colliding List.nodup_range).map fun _ _ => Entity.func.inj
  rw [List.map_map] at hnodup
  unfold renameFuncs collidingFuncs
  rw [collisions_eq, List.map_map]
  refine Gives.foldl o.funcNames.colliding (fun r c => r.func c.1 c.2.1) (fun c => .func c.2.1)
    (fun c => (o.func c.2.1).name = c.1) _ hnodup fun c hc r' hhas hlabel => ?_
  have hlt := List.mem_range.mp (h.of_mem_colliding hc).1
  have hname : (r'.overlay.func c.2.1).name = (o.func c.2.1).name := Tag.named.inj hlabel
  by_cases hown : (o.func c.2.1).name = c.1
  · rw [if_pos (decide_eq_true hown)]
    exact gives_func r' (hhas.mpr hlt) (hname.trans hown)
  · rw [if_neg (by simpa using hown)]
    exact if_neg fun heq => hown (hname.symm.trans heq)

/-! ## Tags -/

structure TagsGrouped (o : Overlay) : Prop where
  composites : ∀ kind, (o.composites kind).groups.Cut (o.composites kind).listed fun id => (o.arena.composite id).tag
  compositesNodup : ∀ kind, (o.composites kind).listed.Nodup
  composite_mem : ∀ kind, ∀ id ∈ (o.composites kind).listed,
    id.index < o.arena.composites.length ∧ (o.arena.composite id).kind = kind
  enums : o.enums.groups.Cut o.enums.listed fun id => (o.arena.enumeration id).tag
  enumsNodup : o.enums.listed.Nodup
  enum_mem : ∀ id ∈ o.enums.listed, id.index < o.arena.enums.length

theorem TagsGrouped.congr {o' : Overlay} (h : o.TagsGrouped) (hc : ∀ kind, o'.composites kind = o.composites kind)
    (he : o'.enums = o.enums) (ha : o'.arena = o.arena) : o'.TagsGrouped := by
  obtain ⟨composites, nodup, mem, enums, enumsNodup, enumMem⟩ := h
  constructor <;> simpa only [hc, he, ha]

def collidingComposites (o : Overlay) (kind : CompositeKind) : List Entity :=
  ((o.composites kind).groups.colliding.map (·.2.1)).map .composite

def collidingEnums (o : Overlay) : List Entity :=
  (o.enums.groups.colliding.map (·.2.1)).map .enum

theorem TagsGrouped.mem_collidingComposites (h : o.TagsGrouped) {kind : CompositeKind} {id : CompositeId} :
    .composite id ∈ o.collidingComposites kind ↔ id ∈ (o.composites kind).listed ∧
      ∃ j ∈ (o.composites kind).listed, j ≠ id ∧ (o.arena.composite j).tag = (o.arena.composite id).tag := by
  unfold collidingComposites
  rw [List.mem_map_of_injective fun _ _ => Entity.composite.inj]
  exact (h.composites kind).mem_colliding_iff (h.compositesNodup kind)

theorem TagsGrouped.mem_collidingEnums (h : o.TagsGrouped) {id : EnumId} :
    .enum id ∈ o.collidingEnums ↔ id ∈ o.enums.listed ∧
      ∃ j ∈ o.enums.listed, j ≠ id ∧ (o.arena.enumeration j).tag = (o.arena.enumeration id).tag := by
  unfold collidingEnums
  rw [List.mem_map_of_injective fun _ _ => Entity.enum.inj]
  exact h.enums.mem_colliding_iff h.enumsNodup

theorem TagsGrouped.notMem_unions (h : o.TagsGrouped) {id : CompositeId} (hid : id ∈ (o.composites .struct).listed) :
    id ∉ (o.composites .union).listed := by
  intro hid'
  have hkind := (h.composite_mem .struct id hid).2
  rw [(h.composite_mem .union id hid').2] at hkind
  exact nomatch hkind

def collidingTags (o : Overlay) : List Entity :=
  (o.collidingComposites .struct ++ o.collidingComposites .union) ++ o.collidingEnums

theorem gives_renameTags (h : o.TagsGrouped) :
    Gives o.collidingTags { overlay := o, taken := o.tagTexts } o.renameTags := by
  have hcomposites : ∀ (kind : CompositeKind) (r : Renaming),
      (∀ id ∈ (o.composites kind).listed, r.overlay.label (.composite id) = o.label (.composite id)) →
      (∀ x, r.overlay.Has x ↔ o.Has x) → Gives (o.collidingComposites kind) r
        (Renaming.collisions (Renaming.composite kind.letter) (o.composites kind).groups r) := by
    intro kind r hlabel hhas
    refine gives_collisions (fun _ _ => Entity.composite.inj)
      ((h.composites kind).congr fun id hid => (hlabel id hid).symm) (h.compositesNodup kind)
      (fun id hid => (hhas _).mpr (h.composite_mem kind id hid).1) fun r' entry hi => ?_
    exact gives_composite r' kind.letter hi rfl
  have hstructs := hcomposites .struct { overlay := o, taken := o.tagTexts } (fun _ _ => rfl) fun _ => Iff.rfl
  have hlisted : ∀ kind, ∀ id, .composite id ∈ o.collidingComposites kind → id ∈ (o.composites kind).listed :=
    fun kind id hid => (h.mem_collidingComposites.mp hid).1
  -- the unions have their tags still when it is their turn, and then the enums
  have hunions := hcomposites .union _
    (fun id hid => hstructs.others _ fun hmem => h.notMem_unions (hlisted .struct id hmem) hid) hstructs.has
  have hboth := hstructs.trans hunions fun x hx hx' => by
    obtain ⟨id, _, rfl⟩ := List.mem_map.mp hx
    exact h.notMem_unions (hlisted .struct id hx) (hlisted .union id hx')
  have hkept : ∀ id, .enum id ∉ o.collidingComposites .struct ++ o.collidingComposites .union := by
    intro id hmem
    obtain hmem | hmem := List.mem_append.mp hmem <;>
    · obtain ⟨_, _, heq⟩ := List.mem_map.mp hmem
      exact nomatch heq
  have henums := gives_collisions (fun _ _ => Entity.enum.inj)
    (h.enums.congr fun id _ => (hboth.others _ (hkept id)).symm) h.enumsNodup
    (fun id hid => (hboth.has _).mpr (h.enum_mem id hid)) fun r' entry hi => gives_enum r' hi rfl
  refine hboth.trans henums fun x hx hx' => ?_
  obtain ⟨id, _, rfl⟩ := List.mem_map.mp hx'
  exact hkept id hx

end Overlay

end DebugSymbols
