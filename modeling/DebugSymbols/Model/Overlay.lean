import DebugSymbols.Model.Arena
import DebugSymbols.Model.Groups

/-!
# Overlays

An overlay is the resident program (number 0) or a region that shares its
addresses with others. Each has types and names of its own.
-/

namespace DebugSymbols

/-! ## Functions -/

/-- A lexical block in a function body; lines count from the function. -/
structure Block where
  lineStart : UInt32
  lineEnd : UInt32 := 0
  locals : List Variable := []
  /-- Zero for an outermost block. -/
  depth : Nat
  closed : Bool := false
  deriving DecidableEq

instance : Inhabited Block := ⟨{ lineStart := 0, depth := 0 }⟩

/-- With one more local, unless there is one of that name. -/
def Block.addLocal (b : Block) (v : Variable) : Block :=
  if b.locals.any (·.name == v.name) then b else { b with locals := b.locals ++ [v] }

structure Function where
  /-- The source file of the definition, empty for a prototype. -/
  path : String := ""
  addr : UInt32
  size : UInt32
  lineStart : UInt32 := 0
  lineEnd : UInt32 := 0
  name : String
  signature : Signature
  /-- In order of appearance, nested as their depths say. -/
  blocks : List Block := []
  deriving DecidableEq

instance : Inhabited Function :=
  ⟨{ addr := 0, size := 0, name := "", signature := { result := .base .void } }⟩

def Function.hasBody (f : Function) : Bool :=
  f.lineStart != 0 || f.path != ""

def Function.addParam (f : Function) (p : Variable) : Function :=
  { f with signature := f.signature.addParam p }

def Function.modifyBlock (f : Function) (i : Nat) (g : Block → Block) : Function :=
  { f with blocks := f.blocks.modify i g }

/-! ## Overlays -/

structure Symbol where
  addr : UInt32
  name : String
  deriving DecidableEq, Repr

structure Line where
  addr : UInt32
  path : String
  line : UInt32
  deriving DecidableEq, Repr

structure TypeCounts where
  structs : Nat
  unions : Nat
  enums : Nat
  typedefs : Nat
  deriving DecidableEq, Repr

def TypeCounts.text (c : TypeCounts) : String :=
  s!"{c.structs} structs, {c.unions} unions, {c.enums} enums, {c.typedefs} typedefs"

structure Overlay where
  id : UInt32
  addr : UInt32
  length : UInt32
  arena : Arena := {}
  structs : Catalog Tag CompositeId := {}
  unions : Catalog Tag CompositeId := {}
  enums : Catalog Tag EnumId := {}
  typedefs : Catalog String TypedefId := {}
  /-- The `typedef int bool;` that stands for the null base type. -/
  nullTypedef : Option TypedefId := none
  vars : List Variable := []
  funcs : List Function := []
  varNames : Groups String Nat := {}
  funcNames : Groups String Nat := {}
  symbols : List Symbol := []
  lines : List Line := []
  deriving DecidableEq

namespace Overlay

instance : Inhabited Overlay := ⟨{ id := 0, addr := 0, length := 0 }⟩

def composites (o : Overlay) : CompositeKind → Catalog Tag CompositeId
  | .struct => o.structs
  | .union => o.unions

def setComposites (o : Overlay) (kind : CompositeKind) (c : Catalog Tag CompositeId) : Overlay :=
  match kind with
  | .struct => { o with structs := c }
  | .union => { o with unions := c }

/-! ## Adding -/

/-- The new struct or union has the handle `o.arena.nextComposite`. -/
def addComposite (o : Overlay) (c : Composite) : Overlay :=
  { o with arena := o.arena.pushComposite c }.setComposites c.kind
    ((o.composites c.kind).add c.tag o.arena.nextComposite)

def addEnum (o : Overlay) (e : Enumeration) : Overlay :=
  { o with arena := o.arena.pushEnum e, enums := o.enums.add e.tag o.arena.nextEnum }

def addTypedef (o : Overlay) (d : Variable) : Overlay :=
  { o with
    arena := o.arena.pushTypedef d
    typedefs := o.typedefs.add d.name o.arena.nextTypedef }

def addVar (o : Overlay) (v : Variable) : Overlay :=
  { o with vars := o.vars ++ [v], varNames := o.varNames.add v.name o.vars.length }

/-- Adds a function under a name that may differ from its own, for one that is
renamed as it is made. -/
def addFuncAs (o : Overlay) (name : String) (f : Function) : Overlay :=
  { o with funcs := o.funcs ++ [f], funcNames := o.funcNames.add name o.funcs.length }

def addFunc (o : Overlay) (f : Function) : Overlay :=
  o.addFuncAs f.name f

def addSymbol (o : Overlay) (s : Symbol) : Overlay :=
  { o with symbols := o.symbols ++ [s] }

def addLine (o : Overlay) (l : Line) : Overlay :=
  { o with lines := o.lines ++ [l] }

/-! ## Counting -/

def typeCounts (o : Overlay) : TypeCounts :=
  { structs := o.structs.listed.length
    unions := o.unions.listed.length
    enums := o.enums.listed.length
    typedefs := o.typedefs.listed.length }

/-! ## Changing -/

def modifyArena (o : Overlay) (f : Arena → Arena) : Overlay :=
  { o with arena := f o.arena }

def modifyVar (o : Overlay) (i : Nat) (f : Variable → Variable) : Overlay :=
  { o with vars := o.vars.modify i f }

def modifyFunc (o : Overlay) (i : Nat) (f : Function → Function) : Overlay :=
  { o with funcs := o.funcs.modify i f }

def var (o : Overlay) (i : Nat) : Variable :=
  o.vars.getD i default

def func (o : Overlay) (i : Nat) : Function :=
  o.funcs.getD i default

def regroupTags (o : Overlay) : Overlay :=
  { o with
    structs := o.structs.regroup fun id => (o.arena.composite id).tag
    unions := o.unions.regroup fun id => (o.arena.composite id).tag
    enums := o.enums.regroup fun id => (o.arena.enumeration id).tag }

def regroupNames (o : Overlay) : Overlay :=
  { o with
    varNames := .ofList (fun i => (o.var i).name) (List.range o.vars.length)
    funcNames := .ofList (fun i => (o.func i).name) (List.range o.funcs.length) }

end Overlay

end DebugSymbols
