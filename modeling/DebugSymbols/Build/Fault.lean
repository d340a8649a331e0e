import DebugSymbols.Model.CType
import DebugSymbols.Stream.Record
import DebugSymbols.Text.Digits

/-!
# Inconsistencies

Records that can be read but describe something impossible. A `Complaint` says
what is wrong and with which name; an `Inconsistency` says also at which record.
-/

namespace DebugSymbols

/-- What a run of records belongs to. -/
inductive Enclosing where
  | composite (kind : CompositeKind)
  | enum
  | function
  deriving DecidableEq, Repr

def Enclosing.text : Enclosing → String
  | composite kind => kind.keyword
  | enum => "enum"
  | function => "function"

inductive Cause where
  | functionRecordOutside
  | overlayTwice (id : UInt32)
  | unknownOverlay (id : UInt32)
  | localOutside (c : SymbolClass)
  | classAtTopLevel (c : SymbolClass)
  | classInFunction (c : SymbolClass)
  | typedefRedefined
  | tagBase (enclosing : Enclosing) (base : BaseCode)
  | unexpectedRecord (kind : Kind) (enclosing : Enclosing)
  | memberClass (c : SymbolClass) (kind : CompositeKind)
  | unterminated (enclosing : Enclosing)
  | unopenedBlock
  | unreferable (base : BaseCode)
  | invalidDims (dims : List UInt32)
  | unevenArray (size count : UInt32)
  | noSuchSize (kind : CompositeKind) (size : UInt32)
  | sizeMismatch (recorded computed : UInt32)
  | lineWithoutPath
  deriving DecidableEq, Repr

open Text in
def Cause.detail : Cause → String
  | functionRecordOutside => "function body record outside a function"
  | overlayTwice id => s!"overlay {id} defined twice"
  | unknownOverlay id => s!"unable to locate overlay with id {lowerHex 1 id.toNat}"
  | localOutside c => s!"local storage class {c.text} outside a function"
  | classAtTopLevel c => s!"unexpected storage class {c.text} at top level"
  | classInFunction c => s!"unexpected storage class {c.text} inside a function"
  | typedefRedefined => "typedef redefined with a different type"
  | tagBase enclosing base => s!"{enclosing.text} tag with base type {base.mnemonic}"
  | unexpectedRecord kind enclosing => s!"unexpected {kind.label} record inside {enclosing.text}"
  | memberClass c kind => s!"unexpected member class {c.text} inside {kind.keyword}"
  | unterminated .function => "function body not terminated"
  | unterminated enclosing => s!"{enclosing.text} definition not terminated"
  | unopenedBlock => "block end without block start"
  | unreferable base => s!"base type {base.mnemonic} cannot be referenced"
  | invalidDims dims =>
    "invalid array dimensions [" ++ ", ".intercalate (dims.map toString) ++ "]"
  | unevenArray size count => s!"array size {size} is not a multiple of {count} elements"
  | noSuchSize kind size => s!"no {kind.keyword} of size {size} with this tag"
  | sizeMismatch recorded computed =>
    s!"recorded size {recorded} does not match type size {computed}"
  | lineWithoutPath => "line number record without a preceding source path"

structure Complaint where
  /-- The declaration, tag or function that it is about, if any. -/
  name : String := ""
  cause : Cause
  deriving DecidableEq, Repr

structure Inconsistency where
  offset : Nat
  index : Nat
  complaint : Complaint
  deriving DecidableEq, Repr

namespace Inconsistency

open Text in
def message (e : Inconsistency) : String :=
  s!"inconsistent symbols at offset 0x{lowerHex 1 e.offset} (record {e.index}, " ++
  s!"'{e.complaint.name}'): {e.complaint.cause.detail}"

/-- The same, in a list where the records stand `n` places later. -/
def shift (n : Nat) (e : Inconsistency) : Inconsistency :=
  { e with index := n + e.index }

end Inconsistency

def Complaint.located (c : Complaint) (r : Record) (index : Nat) : Inconsistency :=
  { offset := r.offset, index, complaint := c }

end DebugSymbols
