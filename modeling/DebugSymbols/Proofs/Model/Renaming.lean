import DebugSymbols.Model.Rename
import DebugSymbols.Proofs.Model.Stored
import Mathlib.Logic.Relation

/-!
# Renaming

Renaming gives names and tags, one after another, and leaves all else as it was.
-/

namespace DebugSymbols

inductive NameSpace where
  | vars
  | funcs
  | tags
  deriving DecidableEq

namespace Overlay

/-- `o'` is `o` but for names and tags and for the groups that go by them. -/
structure Renamed (o o' : Overlay) : Prop where
  id : o'.id = o.id
  addr : o'.addr = o.addr
  length : o'.length = o.length
  composites : o'.arena.composites.map (fun c => { c with tag := .named "" }) =
    o.arena.composites.map fun c => { c with tag := .named "" }
  enums : o'.arena.enums.map (fun e => { e with tag := .named "" }) =
    o.arena.enums.map fun e => { e with tag := .named "" }
  typedefs : o'.arena.typedefs = o.arena.typedefs
  listed : ∀ kind, (o'.composites kind).listed = (o.composites kind).listed
  enumsListed : o'.enums.listed = o.enums.listed
  typedefCatalog : o'.typedefs = o.typedefs
  nullTypedef : o'.nullTypedef = o.nullTypedef
  vars : o'.vars.map (fun v => { v with name := "" }) = o.vars.map fun v => { v with name := "" }
  funcs : o'.funcs.map (fun f => { f with name := "" }) = o.funcs.map fun f => { f with name := "" }
  symbols : o'.symbols = o.symbols
  lines : o'.lines = o.lines

variable {o o' o'' : Overlay}

theorem renamed_refl (o : Overlay) : Renamed o o :=
  ⟨rfl, rfl, rfl, rfl, rfl, rfl, fun _ => rfl, rfl, rfl, rfl, rfl, rfl, rfl, rfl⟩

theorem Renamed.symm (h : Renamed o o') : Renamed o' o :=
  ⟨h.id.symm, h.addr.symm, h.length.symm, h.composites.symm, h.enums.symm, h.typedefs.symm,
    fun kind => (h.listed kind).symm, h.enumsListed.symm, h.typedefCatalog.symm, h.nullTypedef.symm, h.vars.symm,
    h.funcs.symm, h.symbols.symm, h.lines.symm⟩

theorem Renamed.trans (h : Renamed o o') (h' : Renamed o' o'') : Renamed o o'' where
  id := h'.id.trans h.id
  addr := h'.addr.trans h.addr
  length := h'.length.trans h.length
  composites := h'.composites.trans h.composites
  enums := h'.enums.trans h.enums
  typedefs := h'.typedefs.trans h.typedefs
  listed kind := (h'.listed kind).trans (h.listed kind)
  enumsListed := h'.enumsListed.trans h.enumsListed
  typedefCatalog := h'.typedefCatalog.trans h.typedefCatalog
  nullTypedef := h'.nullTypedef.trans h.nullTypedef
  vars := h'.vars.trans h.vars
  funcs := h'.funcs.trans h.funcs
  symbols := h'.symbols.trans h.symbols
  lines := h'.lines.trans h.lines

theorem Renamed.composite (h : Renamed o o') (id : CompositeId) :
    o'.arena.composite id = { o.arena.composite id with tag := (o'.arena.composite id).tag } := by
  have hentry := Arena.getD_congr_map h.composites (d := default) rfl id.index
  have htag := congrArg (fun c : Composite => { c with tag := (o'.arena.composite id).tag }) hentry
  exact htag

theorem Renamed.enumeration (h : Renamed o o') (id : EnumId) :
    o'.arena.enumeration id = { o.arena.enumeration id with tag := (o'.arena.enumeration id).tag } := by
  have hentry := Arena.getD_congr_map h.enums (d := default) rfl id.index
  have htag := congrArg (fun e : Enumeration => { e with tag := (o'.arena.enumeration id).tag }) hentry
  exact htag

/-! ## Single names -/

inductive RenameStep : NameSpace → Overlay → Overlay → Prop
  | var {o : Overlay} (i : Nat) (name : String) : RenameStep .vars o (o.modifyVar i fun v => { v with name })
  | func {o : Overlay} (i : Nat) (name : String) : RenameStep .funcs o (o.modifyFunc i fun f => { f with name })
  | composite {o : Overlay} (id : CompositeId) (tag : Tag) :
      RenameStep .tags o (o.modifyArena (·.modifyComposite id fun c => { c with tag }))
  | enum {o : Overlay} (id : EnumId) (tag : Tag) :
      RenameStep .tags o (o.modifyArena (·.modifyEnum id fun e => { e with tag }))

theorem RenameStep.renamed {space : NameSpace} (h : RenameStep space o o') : Renamed o o' := by
  cases h with
  | var i name =>
    exact { renamed_refl o with
      listed := fun kind => by cases kind <;> rfl
      vars := Arena.map_modify_of_same fun _ => rfl }
  | func i name =>
    exact { renamed_refl o with
      listed := fun kind => by cases kind <;> rfl
      funcs := Arena.map_modify_of_same fun _ => rfl }
  | composite id tag =>
    exact { renamed_refl o with
      listed := fun kind => by cases kind <;> rfl
      composites := Arena.map_modify_of_same fun _ => rfl }
  | enum id tag =>
    exact { renamed_refl o with
      listed := fun kind => by cases kind <;> rfl
      enums := Arena.map_modify_of_same fun _ => rfl }

/-! ## Runs of names -/

open Relation (ReflTransGen)

section
variable {space : NameSpace}

theorem renames_foldl {ι : Type} {rename : Renaming → ι → Renaming}
    (h : ∀ r i, ReflTransGen (RenameStep space) r.overlay (rename r i).overlay) (is : List ι) :
    ∀ r, ReflTransGen (RenameStep space) r.overlay (is.foldl rename r).overlay := by
  induction is with
  | nil => exact fun r => .refl
  | cons i is ih => exact fun r => (h r i).trans (ih _)

theorem renames_collisions {κ ι : Type} {rename : κ → Renaming → ι × Nat → Renaming}
    (h : ∀ k r i, ReflTransGen (RenameStep space) r.overlay (rename k r i).overlay) (groups : Groups κ ι)
    (r : Renaming) :
    ReflTransGen (RenameStep space) r.overlay (Renaming.collisions rename groups r).overlay := by
  refine renames_foldl (fun r e => ?_) groups.entries r
  by_cases hlength : e.2.length < 2
  · rw [if_pos hlength]
  · rw [if_neg hlength]
    exact renames_foldl (h e.1) e.2.zipIdx r

theorem renamed_of_renames (h : ReflTransGen (RenameStep space) o o') : Renamed o o' := by
  induction h with
  | refl => exact renamed_refl o
  | tail _ hstep ih => exact ih.trans hstep.renamed

end

theorem renames_renameVars (o : Overlay) : ReflTransGen (RenameStep .vars) o o.renameVars.overlay := by
  refine renames_foldl (fun r e => ?_) o.varNames.entries { overlay := o, taken := o.varNames.keys }
  dsimp only
  split
  · exact .refl
  · exact renames_foldl (fun r i => .single (.var i _)) _ r

theorem renames_renameFuncs (o : Overlay) : ReflTransGen (RenameStep .funcs) o o.renameFuncs.overlay := by
  refine renames_collisions (fun key r e => ?_) o.funcNames
    { overlay := o, taken := o.funcNames.keys ++ o.funcs.map (·.name) }
  unfold Renaming.func
  dsimp only
  split
  · exact .single (.func e.1 _)
  · exact .refl

theorem renames_renameTags (o : Overlay) : ReflTransGen (RenameStep .tags) o o.renameTags.overlay := by
  have hcomposites : ∀ (kind : CompositeKind) (r : Renaming), ReflTransGen (RenameStep .tags) r.overlay
      (Renaming.collisions (Renaming.composite kind.letter) (o.composites kind).groups r).overlay := fun kind =>
    renames_collisions (fun _ r e => .single (.composite e.1 _)) (o.composites kind).groups
  refine .trans ?_ (renames_collisions (fun _ r e => .single (.enum e.1 _)) _ _)
  exact .trans (hcomposites .struct { overlay := o, taken := o.tagTexts }) (hcomposites .union _)

/-! ## What one pass leaves to the others -/

theorem exists_vars_of_renames (h : ReflTransGen (RenameStep .vars) o o') : ∃ vs, o' = { o with vars := vs } := by
  induction h with
  | refl => exact ⟨o.vars, rfl⟩
  | tail _ hstep ih =>
    obtain ⟨vs, rfl⟩ := ih
    cases hstep with
    | var i name => exact ⟨_, rfl⟩

theorem exists_funcs_of_renames (h : ReflTransGen (RenameStep .funcs) o o') : ∃ fs, o' = { o with funcs := fs } := by
  induction h with
  | refl => exact ⟨o.funcs, rfl⟩
  | tail _ hstep ih =>
    obtain ⟨fs, rfl⟩ := ih
    cases hstep with
    | func i name => exact ⟨_, rfl⟩

theorem exists_arena_of_renames (h : ReflTransGen (RenameStep .tags) o o') : ∃ a, o' = { o with arena := a } := by
  induction h with
  | refl => exact ⟨o.arena, rfl⟩
  | tail _ hstep ih =>
    obtain ⟨a, rfl⟩ := ih
    cases hstep with
    | composite id tag => exact ⟨_, rfl⟩
    | enum id tag => exact ⟨_, rfl⟩

/-! ## What is kept -/

theorem renamed_regroup (o : Overlay) : Renamed o o.regroupNames.regroupTags where
  id := rfl
  addr := rfl
  length := rfl
  composites := rfl
  enums := rfl
  typedefs := rfl
  listed kind := by cases kind <;> rfl
  enumsListed := rfl
  typedefCatalog := rfl
  nullTypedef := rfl
  vars := rfl
  funcs := rfl
  symbols := rfl
  lines := rfl

theorem renamed_rename (o : Overlay) : Renamed o o.rename.1 :=
  have hvars := renamed_of_renames (renames_renameVars o)
  have hfuncs := renamed_of_renames (renames_renameFuncs o.renameVars.overlay)
  have htags := renamed_of_renames (renames_renameTags o.renameVars.overlay.renameFuncs.overlay)
  ((hvars.trans hfuncs).trans htags).trans (renamed_regroup _)

structure SameTypes (o o' : Overlay) : Prop where
  vars : o'.vars.map (fun v => (v.type, v.size)) = o.vars.map fun v => (v.type, v.size)
  funcs : o'.funcs.map (fun f => (f.signature, f.blocks)) = o.funcs.map fun f => (f.signature, f.blocks)
  composites : o'.arena.composites.map (fun c => (c.size, c.fields)) =
    o.arena.composites.map fun c => (c.size, c.fields)
  typedefs : o'.arena.typedefs = o.arena.typedefs
  nullTypedef : o'.nullTypedef = o.nullTypedef

theorem SameTypes.stores (h : SameTypes o o') {t : CType} {z : Option UInt32} (hs : o'.Stores t z) :
    o.Stores t z := by
  cases hs with
  | @var v hv =>
    have hmem : (v.type, v.size) ∈ o'.vars.map fun v => (v.type, v.size) := List.mem_map.mpr ⟨v, hv, rfl⟩
    rw [h.vars] at hmem
    obtain ⟨w, hw, heq⟩ := List.mem_map.mp hmem
    rw [Prod.mk.injEq] at heq
    rw [← heq.1, ← heq.2]
    exact .var hw
  | typedef hd =>
    rw [h.typedefs] at hd
    exact .typedef hd
  | @func f _ _ hf hs =>
    have hmem : (f.signature, f.blocks) ∈ o'.funcs.map fun f => (f.signature, f.blocks) :=
      List.mem_map.mpr ⟨f, hf, rfl⟩
    rw [h.funcs] at hmem
    obtain ⟨g, hg, heq⟩ := List.mem_map.mp hmem
    rw [Prod.mk.injEq] at heq
    refine .func hg ?_
    cases hs with
    | result =>
      rw [← heq.1]
      exact .result
    | param hp =>
      rw [← heq.1] at hp
      exact .param hp
    | blockLocal hb hv =>
      rw [← heq.2] at hb
      exact .blockLocal hb hv
  | @composite c _ _ hc hs =>
    have hmem : (c.size, c.fields) ∈ o'.arena.composites.map fun c => (c.size, c.fields) :=
      List.mem_map.mpr ⟨c, hc, rfl⟩
    rw [h.composites] at hmem
    obtain ⟨d, hd, heq⟩ := List.mem_map.mp hmem
    rw [Prod.mk.injEq] at heq
    cases hs with
    | field hx =>
      rw [← heq.2] at hx
      exact .composite hd (.field hx)

theorem SameTypes.size (h : SameTypes o o') (id : CompositeId) :
    (o'.arena.composite id).size = (o.arena.composite id).size := by
  have hentry := Arena.getD_congr_map h.composites (d := default) rfl id.index
  exact congrArg Prod.fst hentry

structure SameLists (o o' : Overlay) : Prop where
  composites : ∀ kind, (o'.composites kind).listed = (o.composites kind).listed
  kind : ∀ id, (o'.arena.composite id).kind = (o.arena.composite id).kind
  enums : o'.enums.listed = o.enums.listed
  typedefs : o'.typedefs.listed = o.typedefs.listed

theorem Renamed.sameTypes (h : Renamed o o') : SameTypes o o' where
  vars := by simpa [Function.comp_def] using congrArg (List.map fun v => (v.type, v.size)) h.vars
  funcs := by simpa [Function.comp_def] using congrArg (List.map fun f => (f.signature, f.blocks)) h.funcs
  composites := by simpa [Function.comp_def] using congrArg (List.map fun c => (c.size, c.fields)) h.composites
  typedefs := h.typedefs
  nullTypedef := h.nullTypedef

theorem Renamed.sameLists (h : Renamed o o') : SameLists o o' where
  composites := h.listed
  kind id := by rw [h.composite id]
  enums := h.enumsListed
  typedefs := congrArg Catalog.listed h.typedefCatalog

theorem sameTypes_rename (o : Overlay) : SameTypes o o.rename.1 :=
  (renamed_rename o).sameTypes

theorem sameLists_rename (o : Overlay) : SameLists o o.rename.1 :=
  (renamed_rename o).sameLists

end Overlay

end DebugSymbols
