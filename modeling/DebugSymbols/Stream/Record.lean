import DebugSymbols.Stream.Kind
import DebugSymbols.Stream.SymbolClass
import DebugSymbols.Stream.TypeWord

/-!
# Records

A symbol file is a header and a stream of records. Each record has an address
or value and a body; its offset is where it stands in the file.
-/

namespace DebugSymbols

/-- Two record kinds share a body and differ in their code only (names), or in
whether dimensions and a tag come with it (definitions). -/
inductive Form where
  | first | second
  deriving DecidableEq, Repr

/-- What a line record does to the current source line. -/
inductive LineOp where
  | increment
  | incrementByte (amount : UInt8)
  | incrementWord (amount : UInt16)
  | set (line : UInt32)
  | setWithPath (line : UInt32) (path : String)
  | finish
  deriving DecidableEq, Repr

structure FunctionStart where
  frameRegister : UInt16
  frameSize : UInt32
  returnRegister : UInt16
  mask : UInt32
  maskOffset : Int32
  line : UInt32
  path : String
  name : String
  deriving DecidableEq

/-- A symbol definition: its storage class, its type, and the size it was
recorded with. -/
structure SymbolDef where
  symbolClass : SymbolClass
  word : TypeWord
  size : UInt32
  dims : List UInt32 := []
  tag : String := ""
  name : String
  deriving DecidableEq

inductive Body where
  | symbol (form : Form) (name : String)
  | line (op : LineOp)
  | functionStart (start : FunctionStart)
  | functionEnd (line : UInt32)
  | blockStart (line : UInt32)
  | blockEnd (line : UInt32)
  | definition (form : Form) (d : SymbolDef)
  | overlay (length id : UInt32)
  | setOverlay
  deriving DecidableEq

structure Record where
  offset : Nat
  value : UInt32
  body : Body
  deriving DecidableEq

structure Header where
  version : UInt8
  targetUnit : UInt32
  deriving DecidableEq, Repr

structure SymbolFile where
  header : Header
  records : List Record
  deriving DecidableEq

def LineOp.kind : LineOp → Kind
  | increment => .incLine
  | incrementByte _ => .incLineByte
  | incrementWord _ => .incLineWord
  | set _ => .setLine
  | setWithPath _ _ => .setLineWithPath
  | finish => .endLine

def Body.kind : Body → Kind
  | symbol .first _ => .name1
  | symbol .second _ => .name2
  | line op => op.kind
  | functionStart _ => .funcStart
  | functionEnd _ => .funcEnd
  | blockStart _ => .blockStart
  | blockEnd _ => .blockEnd
  | definition .first _ => .def1
  | definition .second _ => .def2
  | overlay _ _ => .overlay
  | setOverlay => .setOverlay

namespace Record

def kind (r : Record) : Kind :=
  r.body.kind

def isLine (r : Record) : Bool :=
  match r.body with
  | .line _ => true
  | _ => false

def endsLines (r : Record) : Bool :=
  match r.body with
  | .line .finish => true
  | _ => false

def endsMembers (r : Record) : Bool :=
  match r.body with
  | .definition _ d => d.symbolClass == .endOfStruct
  | _ => false

def endsFunction (r : Record) : Bool :=
  match r.body with
  | .functionEnd _ => true
  | _ => false

end Record

end DebugSymbols
