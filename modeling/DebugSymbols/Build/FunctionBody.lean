import DebugSymbols.Build.Declaration
import DebugSymbols.Model.FreshName

/-!
# Function bodies

A function start opens a span, which ends with the first function end after it.
In between are parameters, blocks and their locals. The start and each end of a
block also say where their addresses are in the source.
-/

namespace DebugSymbols

def Record.functionEnd? (r : Record) : Option UInt32 :=
  match r.body with
  | .functionEnd line => some line
  | _ => none

/-- The storage class of a local definition, none for a parameter or label; not
every class can be local. -/
def SymbolClass.local? : SymbolClass → Option (Option StorageClass)
  | auto => some (some .auto)
  | static => some (some .static)
  | register | registerParam => some (some .register)
  | typedef => some (some .typedef)
  | argument | label => some none
  | _ => none

/-- A line that counts from the function's, which is its line 1. It stays within
32 bits at either end. -/
def FunctionStart.blockLine (start : FunctionStart) (line : UInt32) : UInt32 :=
  UInt32.ofNat (min (start.line.toNat + line.toNat) (UInt32.size - 1) - 1)

namespace Overlay

variable {ε : Type}

/-! ## Finding the function -/

def functionNames (o : Overlay) : List String :=
  o.funcNames.keys ++ o.funcs.map (·.name)

/-- A function without a prototype, under the name in the stream so that its
next span finds it. -/
def addPlaceholder (o : Overlay) (name : String) (addr : UInt32) : Overlay :=
  let ownName :=
    if o.funcNames.get name = [] then name else freshName o.functionNames name addr
  o.addFuncAs name
    { addr, size := 0, name := ownName, signature := { result := .base .void } }

/-- The function of that name at an address, made if there is none. -/
def locateFunction (name : String) (addr : UInt32) : Action ε Overlay Nat := do
  let o ← Action.read
  match (o.funcNames.get name).find? fun i => (o.func i).addr == addr with
  | some i => return i
  | none =>
    Action.report (.missingFunction name)
    Action.modify (·.addPlaceholder name addr)
    return o.funcs.length

/-! ## Its body -/

def openBlock (f : Nat) (start : FunctionStart) (depth : Nat) (addr line : UInt32)
    (o : Overlay) : Overlay :=
  (o.modifyFunc f fun fn => { fn with blocks := fn.blocks ++ [{ lineStart := line, depth }] }).addLine
    { addr, path := start.path, line := start.blockLine line }

def closeBlock (f : Nat) (start : FunctionStart) (block : Nat) (addr line : UInt32)
    (o : Overlay) : Overlay :=
  (o.modifyFunc f (·.modifyBlock block fun b => { b with lineEnd := line, closed := true })).addLine
    { addr, path := start.path, line := start.blockLine line }

/-- A local belongs to the innermost open block, and to the parameters when
there is none. -/
def addScoped (f : Nat) (opened : List Nat) (v : Variable) (o : Overlay) : Overlay :=
  match opened with
  | block :: _ => o.modifyFunc f (·.modifyBlock block (·.addLocal v))
  | [] => o.modifyFunc f (·.addParam v)

def localDecl (addr : UInt32) (d : SymbolDef) : Action Complaint Overlay Variable :=
  match d.symbolClass.local? with
  | some storage => declare addr storage d
  | none =>
    Action.fail { name := Text.identifier d.name, cause := .classInFunction d.symbolClass }

/-- A record inside the span of function `f`. The open blocks are passed along,
innermost first. -/
def bodyRecord (f : Nat) (start : FunctionStart) (opened : List Nat) (r : Record) :
    Action Complaint Overlay (List Nat) :=
  match r.body with
  | .blockStart line => do
    let o ← Action.read
    Action.modify (openBlock f start opened.length r.value line)
    return (o.func f).blocks.length :: opened
  | .blockEnd line =>
    match opened with
    | [] => Action.fail { name := start.name, cause := .unopenedBlock }
    | block :: outer => do
      Action.modify (closeBlock f start block r.value line)
      return outer
  | .definition _ d => do
    let v ← localDecl r.value d
    Action.modify (addScoped f opened v)
    return opened
  | _ => Action.fail { name := start.name, cause := .unexpectedRecord r.kind .function }

def startBody (f : Nat) (start : FunctionStart) (addr : UInt32) (o : Overlay) : Overlay :=
  (o.modifyFunc f fun fn => { fn with path := start.path, lineStart := start.line }).addLine
    { addr, path := start.path, line := start.line }

def endBody (f : Nat) (line : UInt32) (o : Overlay) : Overlay :=
  o.modifyFunc f fun fn => { fn with lineEnd := line }

/-- Records the body in `inner`, which ends at `line` if it ends at all. -/
def recordBody (f : Nat) (start : FunctionStart) (addr : UInt32) (inner : List Record)
    (line : Option UInt32) : Action Inconsistency Overlay Unit := do
  Action.modify (startBody f start addr)
  let _ ← Action.overRecords (bodyRecord f start) 1 [] inner
  if let some line := line then Action.modify (endBody f line)

/-- Takes the span after a function start and gives the number of records that
followed it. A function that has a body already keeps it. -/
def functionSpan (head : Record) (start : FunctionStart) (rest : List Record) :
    Action Inconsistency Overlay Nat := do
  let f ← locateFunction (Text.identifier start.name) head.value
  let o ← Action.read
  let inner := rest.takeWhile (!·.endsFunction)
  let line := rest.findSome? Record.functionEnd?
  if (o.func f).hasBody then Action.report (.repeatedBody (o.func f).name head.value)
  else recordBody f start head.value inner line
  if line.isSome then return inner.length + 1
  else (Action.fail { name := start.name, cause := .unterminated .function }).locate head 0

end Overlay

end DebugSymbols
