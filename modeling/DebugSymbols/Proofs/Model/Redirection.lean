import DebugSymbols.Proofs.Model.Likeness
import DebugSymbols.Proofs.Model.Renumbering
import DebugSymbols.Proofs.Model.Stored

/-!
# Redirection

`Redirected f o o'`: the definitions and declarations of `o'` are those of `o`
with the handles in their types renumbered by `f`. Only what is gathered from
the uses of a struct, union or enum, its aliases and how it is reached, is left
open.
-/

namespace DebugSymbols

/-! ## Definitions -/

/-- A struct or union without what is gathered from its uses. -/
def Composite.definition (c : Composite) : Composite :=
  { c with aliases := [], valueUses := false, pointerUses := false }

def Enumeration.definition (e : Enumeration) : Enumeration :=
  { e with aliases := [] }

theorem Composite.definition_renumber (f : Renumbering) (c : Composite) :
    (c.definition.renumber f).definition = (c.renumber f).definition := rfl

theorem Composite.definition_renumber_id (c : Composite) : (c.renumber {}).definition = c.definition := by
  simp [Composite.renumber, Composite.definition, Field.renumber_id]

theorem Composite.definition_renumber_trans (f g : Renumbering) (c : Composite) :
    ((c.renumber f).renumber g).definition = (c.renumber (f.trans g)).definition := by
  simp [Composite.renumber, Composite.definition, Field.renumber_comp]

structure Arena.SameDefinitions (a a' : Arena) : Prop where
  composites : a'.composites.map (·.definition) = a.composites.map (·.definition)
  enums : a'.enums.map (·.definition) = a.enums.map (·.definition)
  typedefs : a'.typedefs = a.typedefs

namespace Arena

variable {a a' a'' : Arena}

theorem SameDefinitions.trans (h : a.SameDefinitions a') (h' : a'.SameDefinitions a'') :
    a.SameDefinitions a'' :=
  ⟨h'.composites.trans h.composites, h'.enums.trans h.enums, h'.typedefs.trans h.typedefs⟩

theorem sameDefinitions_absorbComposite (a : Arena) (copy kept : CompositeId) :
    a.SameDefinitions (a.absorbComposite copy kept) :=
  ⟨Arena.map_modify_of_same fun _ => rfl, rfl, rfl⟩

theorem sameDefinitions_absorbEnum (a : Arena) (copy kept : EnumId) :
    a.SameDefinitions (a.absorbEnum copy kept) :=
  ⟨rfl, Arena.map_modify_of_same fun _ => rfl, rfl⟩

theorem enums_foldl_absorbComposite (copies : List (CompositeId × CompositeId)) (a : Arena) :
    (copies.foldl (fun a c => a.absorbComposite c.1 c.2) a).enums = a.enums := by
  induction copies generalizing a with
  | nil => rfl
  | cons c copies ih => exact ih (a.absorbComposite c.1 c.2)

theorem composites_foldl_absorbEnum (copies : List (EnumId × EnumId)) (a : Arena) :
    (copies.foldl (fun a c => a.absorbEnum c.1 c.2) a).composites = a.composites := by
  induction copies generalizing a with
  | nil => rfl
  | cons c copies ih => exact ih (a.absorbEnum c.1 c.2)

theorem sameDefinitions_foldl {ι : Type} {absorb : Arena → ι → Arena}
    (h : ∀ (a : Arena) (i : ι), a.SameDefinitions (absorb a i)) (is : List ι) :
    ∀ a : Arena, a.SameDefinitions (is.foldl absorb a) := by
  induction is with
  | nil => exact fun a => ⟨rfl, rfl, rfl⟩
  | cons i is ih => exact fun a => (h a i).trans (ih _)

end Arena

theorem Function.Stores.of_renumber {f : Renumbering} {fn : Function} {t : CType} {z : Option UInt32}
    (h : (fn.renumber f).Stores t z) : ∃ s, fn.Stores s z ∧ t = s.renumber f := by
  cases h with
  | result => exact ⟨_, .result, rfl⟩
  | param hp =>
    obtain ⟨p, hmem, rfl⟩ := List.mem_map.mp hp
    exact ⟨p.type, .param hmem, rfl⟩
  | blockLocal hb hv =>
    obtain ⟨b, hblock, rfl⟩ := List.mem_map.mp hb
    obtain ⟨v, hmem, rfl⟩ := List.mem_map.mp hv
    exact ⟨v.type, .blockLocal hblock hmem, rfl⟩

/-! ## The relation -/

namespace Overlay

structure Redirected (f : Renumbering) (o o' : Overlay) : Prop where
  id : o'.id = o.id
  addr : o'.addr = o.addr
  length : o'.length = o.length
  composites : o'.arena.composites.map (·.definition) = o.arena.composites.map fun c => (c.renumber f).definition
  enums : o'.arena.enums.map (·.definition) = o.arena.enums.map (·.definition)
  typedefs : o'.arena.typedefs = o.arena.typedefs.map (Decl.renumber f)
  nullTypedef : o'.nullTypedef = o.nullTypedef
  vars : o'.vars = o.vars.map (Decl.renumber f)
  funcs : o'.funcs = o.funcs.map (Function.renumber f)
  varNames : o'.varNames = o.varNames
  funcNames : o'.funcNames = o.funcNames
  symbols : o'.symbols = o.symbols
  lines : o'.lines = o.lines

variable {f g : Renumbering} {o o' o'' : Overlay}

theorem redirected_renumber (f : Renumbering) {h : Arena → Arena} (hd : o.arena.SameDefinitions (h o.arena)) :
    Redirected f o ((o.modifyArena h).renumber f) where
  id := rfl
  addr := rfl
  length := rfl
  composites := by
    show ((h o.arena).composites.map (Composite.renumber f)).map Composite.definition = _
    have hdef := congrArg (List.map fun c => (Composite.renumber f c).definition) hd.composites
    simpa only [List.map_map, Function.comp_def, Composite.definition_renumber] using hdef
  enums := by
    show ((h o.arena).enums.map (Enumeration.renumber f)).map Enumeration.definition = _
    rw [← hd.enums, List.map_map]
    rfl
  typedefs := by
    show (h o.arena).typedefs.map (Decl.renumber f) = _
    rw [hd.typedefs]
  nullTypedef := rfl
  vars := rfl
  funcs := rfl
  varNames := rfl
  funcNames := rfl
  symbols := rfl
  lines := rfl

theorem redirected_refl (o : Overlay) : Redirected {} o o where
  id := rfl
  addr := rfl
  length := rfl
  composites := List.map_congr_left fun c _ => (Composite.definition_renumber_id c).symm
  enums := rfl
  typedefs := by rw [Decl.renumber_id, List.map_id]
  nullTypedef := rfl
  vars := by rw [Decl.renumber_id, List.map_id]
  funcs := by rw [Function.renumber_id, List.map_id]
  varNames := rfl
  funcNames := rfl
  symbols := rfl
  lines := rfl

theorem Redirected.trans (h : Redirected f o o') (h' : Redirected g o' o'') : Redirected (f.trans g) o o'' where
  id := h'.id.trans h.id
  addr := h'.addr.trans h.addr
  length := h'.length.trans h.length
  composites := by
    have hdef := congrArg (List.map fun c => (Composite.renumber g c).definition) h.composites
    simp only [List.map_map, Function.comp_def, Composite.definition_renumber] at hdef
    rw [h'.composites, hdef]
    exact List.map_congr_left fun c _ => Composite.definition_renumber_trans f g c
  enums := h'.enums.trans h.enums
  typedefs := by rw [h'.typedefs, h.typedefs, List.map_map, Decl.renumber_comp]
  nullTypedef := h'.nullTypedef.trans h.nullTypedef
  vars := by rw [h'.vars, h.vars, List.map_map, Decl.renumber_comp]
  funcs := by rw [h'.funcs, h.funcs, List.map_map, Function.renumber_comp]
  varNames := h'.varNames.trans h.varNames
  funcNames := h'.funcNames.trans h.funcNames
  symbols := h'.symbols.trans h.symbols
  lines := h'.lines.trans h.lines

/-! ## Entries -/

namespace Redirected

variable (h : Redirected f o o')
include h

theorem composite (id : CompositeId) :
    (o'.arena.composite id).definition = ((o.arena.composite id).renumber f).definition :=
  Arena.getD_congr_map h.composites rfl id.index

theorem kind (id : CompositeId) : (o'.arena.composite id).kind = (o.arena.composite id).kind := by
  have hdef := congrArg Composite.kind (h.composite id)
  exact hdef

theorem tag (id : CompositeId) : (o'.arena.composite id).tag = (o.arena.composite id).tag := by
  have hdef := congrArg Composite.tag (h.composite id)
  exact hdef

theorem fields (id : CompositeId) :
    (o'.arena.composite id).fields = (o.arena.composite id).fields.map (Field.renumber f) := by
  have hdef := congrArg Composite.fields (h.composite id)
  exact hdef

theorem enumeration (id : EnumId) :
    (o'.arena.enumeration id).definition = (o.arena.enumeration id).definition :=
  Arena.getD_congr_map h.enums rfl id.index

theorem enumTag (id : EnumId) : (o'.arena.enumeration id).tag = (o.arena.enumeration id).tag := by
  have hdef := congrArg Enumeration.tag (h.enumeration id)
  exact hdef

theorem varName (i : Nat) : (o'.var i).name = (o.var i).name := by
  have hnames : o'.vars.map (·.name) = o.vars.map (·.name) := by
    rw [h.vars, List.map_map]
    rfl
  exact Arena.getD_congr_map hnames rfl i

theorem funcName (i : Nat) : (o'.func i).name = (o.func i).name := by
  have hnames : o'.funcs.map (·.name) = o.funcs.map (·.name) := by
    rw [h.funcs, List.map_map]
    rfl
  exact Arena.getD_congr_map hnames rfl i

theorem typedef (id : TypedefId) : o'.arena.typedef id = (o.arena.typedef id).renumber f := by
  have hmap : o'.arena.typedefs.map (fun d => d) = o.arena.typedefs.map (Decl.renumber f) := by
    rw [List.map_id', h.typedefs]
  exact Arena.getD_congr_map hmap rfl id.index

theorem compositeCount : o'.arena.composites.length = o.arena.composites.length := by
  simpa using congrArg List.length h.composites

theorem enumCount : o'.arena.enums.length = o.arena.enums.length := by
  simpa using congrArg List.length h.enums

theorem varCount : o'.vars.length = o.vars.length := by
  simpa using congrArg List.length h.vars

theorem funcCount : o'.funcs.length = o.funcs.length := by
  simpa using congrArg List.length h.funcs

theorem typedefCount : o'.arena.typedefs.length = o.arena.typedefs.length := by
  simpa using congrArg List.length h.typedefs

/-! ## Likeness -/

theorem compositeLikeness (id : CompositeId) :
    (o'.arena.composite id).likeness = (o.arena.composite id).likeness := by
  have hdef := congrArg Composite.likeness (h.composite id)
  have hfields : ∀ xs : List Field, (xs.map (Field.renumber f)).map Field.likeness = xs.map Field.likeness := by
    intro xs
    rw [List.map_map]
    refine List.map_congr_left fun x _ => ?_
    simp only [Function.comp, Field.likeness, Field.renumber, CType.category_renumber]
  have hren : ((o.arena.composite id).renumber f).definition.likeness = (o.arena.composite id).likeness := by
    simp only [Composite.likeness, Composite.definition, Composite.renumber, hfields]
  exact hdef.trans hren

theorem enumLikeness (id : EnumId) :
    (o'.arena.enumeration id).likeness = (o.arena.enumeration id).likeness := by
  have hdef := congrArg Enumeration.likeness (h.enumeration id)
  exact hdef

theorem typedefLikeness (id : TypedefId) : (o'.arena.typedef id).likeness = (o.arena.typedef id).likeness := by
  rw [h.typedef id]
  simp only [Decl.likeness, Decl.renumber, CType.category_renumber]

end Redirected

/-! ## Stored types -/

theorem Redirected.stores (h : Redirected f o o') {t : CType} {z : Option UInt32} (hs : o'.Stores t z) :
    ∃ s, o.Stores s z ∧ t = s.renumber f := by
  cases hs with
  | var hv =>
    rw [h.vars] at hv
    obtain ⟨v, hmem, rfl⟩ := List.mem_map.mp hv
    exact ⟨v.type, .var hmem, rfl⟩
  | typedef hd =>
    rw [h.typedefs] at hd
    obtain ⟨d, hmem, rfl⟩ := List.mem_map.mp hd
    exact ⟨d.type, .typedef hmem, rfl⟩
  | func hf hs =>
    rw [h.funcs] at hf
    obtain ⟨fn, hmem, rfl⟩ := List.mem_map.mp hf
    obtain ⟨s, hs, ht⟩ := hs.of_renumber
    exact ⟨s, .func hmem hs, ht⟩
  | @composite c _ _ hc hs =>
    have hdef : c.definition ∈ o'.arena.composites.map (·.definition) := List.mem_map.mpr ⟨c, hc, rfl⟩
    rw [h.composites] at hdef
    obtain ⟨d, hd, heq⟩ := List.mem_map.mp hdef
    have hfields : d.fields.map (Field.renumber f) = c.fields := congrArg Composite.fields heq
    cases hs with
    | field hx =>
      rw [← hfields] at hx
      obtain ⟨x, hmem, rfl⟩ := List.mem_map.mp hx
      exact ⟨x.type, .composite hd (.field hmem), rfl⟩

end Overlay

end DebugSymbols
