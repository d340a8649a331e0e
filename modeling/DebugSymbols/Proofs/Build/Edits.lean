import DebugSymbols.Build.TopLevel
import Mathlib.Logic.Relation

/-!
# Edits

The single changes that building makes to an overlay, each with what had been
checked before it. Every action is a sequence of them, so what each edit keeps
holds of every overlay that is ever built.
-/

namespace DebugSymbols.Overlay

/-! ## What a definition refers to -/

inductive RefersBase (o : Overlay) (d : SymbolDef) : CType → Prop
  | scalar {b} (hb : d.word.base.scalar? = some b) : RefersBase o d (.base b)
  | null {id} (hb : d.word.base = .null) (hid : o.nullTypedef = some id) : RefersBase o d (.typedef id)
  | enum {id} (hb : d.word.base = .enum) (hid : id ∈ o.enums.groups.get (.ofName d.tag)) :
      RefersBase o d (.enum id)
  | composite {kind id size} (hb : d.word.base = kind.baseCode) (hs : d.referencedSize = .ok size)
      (hid : id ∈ (o.composites kind).groups.get (.ofName d.tag))
      (hsize : size = 0 ∨ (o.arena.composite id).size = size)
      (huse : id.index < o.arena.composites.length →
        (o.arena.composite id).used (reachesByPointer d.word.modifiers) = o.arena.composite id) :
      RefersBase o d (.composite kind id)

def Refers (o : Overlay) (d : SymbolDef) (t : CType) : Prop :=
  ∃ base, o.RefersBase d base ∧ t = base.derive d.word.modifiers d.dims

/-- The size that follows from the type, if one does, is the recorded one. -/
def SizeChecked (o : Overlay) (t : CType) (size : UInt32) : Prop :=
  ∀ c, o.arena.size? t = some c → size = 0 ∨ size = c

structure Declared (o : Overlay) (d : SymbolDef) (v : Variable) : Prop where
  refers : o.Refers d v.type
  size : v.size = v.type.recordedSize d.size
  checked : o.SizeChecked v.type v.size
  name : v.name = Text.identifier d.name

structure DeclaredField (o : Overlay) (d : SymbolDef) (x : Field) : Prop where
  refers : o.Refers d x.type
  size : x.bitfield = false → x.size = x.type.recordedSize d.size
  checked : x.bitfield = false → o.SizeChecked x.type x.size
  name : x.name = Text.identifier d.name

/-- The aliases that a typedef of `t` may not contradict. -/
def siblings (o : Overlay) (t : CType) : List TypedefId :=
  (o.aliases? (aliasTarget t)).getD []

def withNull (o : Overlay) : Overlay :=
  { o with arena := o.arena.pushTypedef boolTypedef, nullTypedef := some o.arena.nextTypedef }

def withField (o : Overlay) (id : CompositeId) (x : Field) : Overlay :=
  o.modifyArena (·.modifyComposite id fun c => { c with fields := c.fields ++ [x] })

def withMember (o : Overlay) (id : EnumId) (m : Member) : Overlay :=
  o.modifyArena (·.modifyEnum id fun e => { e with members := e.members ++ [m] })

/-! ## The edits -/

inductive Edit : Overlay → Overlay → Prop
  | newComposite {o} (kind : CompositeKind) (name : String) (size : UInt32) :
      Edit o (o.addComposite { kind, tag := .ofName name, size })
  | newEnum {o} (name : String) : Edit o (o.addEnum { tag := .ofName name })
  | newNull {o} (h : o.nullTypedef = none) : Edit o o.withNull
  | use {o} (id : CompositeId) (byPointer : Bool) :
      Edit o (o.modifyArena (·.modifyComposite id (·.used byPointer)))
  | fill {o} {id : CompositeId} {size : UInt32} (hf : (o.arena.composite id).fields = [])
      (hs : (o.arena.composite id).size = size ∨ (o.arena.composite id).size = 0) :
      Edit o (o.modifyArena (·.modifyComposite id fun c => { c with size }))
  | global {o d v} (h : o.Declared d v) : Edit o (o.addGlobal v)
  | typedef {o d v} (h : o.Declared d v)
      (hsame : ∃ id ∈ o.siblings v.type, (o.arena.typedef id).name = v.name)
      (hlike : ∀ id ∈ o.siblings v.type, (o.arena.typedef id).name = v.name →
        (o.arena.typedef id).alike v) :
      Edit o (o.addTypedef v)
  | newAlias {o d v} (h : o.Declared d v)
      (hnew : ∀ id ∈ o.siblings v.type, (o.arena.typedef id).name ≠ v.name) :
      Edit o ((o.addTypedef v).addAlias o.arena.nextTypedef (aliasTarget v.type))
  | field {o d x} (id : CompositeId) (h : o.DeclaredField d x) : Edit o (o.withField id x)
  | member {o} (id : EnumId) (value : Int32) (name : String) :
      Edit o (o.withMember id { value, name := Text.identifier name })
  | placeholder {o} (name : String) (addr : UInt32) :
      Edit o (o.addPlaceholder (Text.identifier name) addr)
  | startBody {o} (f : Nat) (start : FunctionStart) (addr : UInt32) : Edit o (startBody f start addr o)
  | openBlock {o} (f : Nat) (start : FunctionStart) (depth : Nat) (addr line : UInt32) :
      Edit o (openBlock f start depth addr line o)
  | closeBlock {o} (f : Nat) (start : FunctionStart) (block : Nat) (addr line : UInt32) :
      Edit o (closeBlock f start block addr line o)
  | addScoped {o d v} (f : Nat) (opened : List Nat) (h : o.Declared d v) : Edit o (addScoped f opened v o)
  | endBody {o} (f : Nat) (line : UInt32) : Edit o (endBody f line o)
  | symbol {o} (s : Symbol) : Edit o (o.addSymbol s)
  | line {o} (l : Line) : Edit o (o.addLine l)

/-! ## Edits of types -/

structure SameCode (o o' : Overlay) : Prop where
  funcs : o'.funcs = o.funcs
  funcNames : o'.funcNames = o.funcNames
  lines : o'.lines = o.lines

structure TypeEdit (o o' : Overlay) : Prop where
  edit : o.Edit o'
  sameCode : o.SameCode o'

variable {o o' : Overlay}

theorem Edit.ofTypes (h : o.Edit o') (hfuncs : o'.funcs = o.funcs) (hnames : o'.funcNames = o.funcNames)
    (hlines : o'.lines = o.lines) : o.TypeEdit o' :=
  ⟨h, hfuncs, hnames, hlines⟩

theorem SameCode.of_edits (h : Relation.ReflTransGen TypeEdit o o') : o.SameCode o' := by
  induction h with
  | refl => exact ⟨rfl, rfl, rfl⟩
  | tail _ h ih =>
    have hs := h.sameCode
    exact ⟨hs.funcs.trans ih.funcs, hs.funcNames.trans ih.funcNames, hs.lines.trans ih.lines⟩

end DebugSymbols.Overlay
