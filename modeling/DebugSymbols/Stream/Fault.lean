import DebugSymbols.Text.Digits
import DebugSymbols.Text.Quoted

/-!
# Format errors

Bytes that do not follow the record layout, with the place of the record (or
header) that was being read.
-/

namespace DebugSymbols

inductive FormatCause where
  | shortHeader (got : Nat)
  | badSignature (text : String)
  | unexpectedEnd (what : String)
  | unknownKind (code : UInt8)
  deriving DecidableEq, Repr

def Header.length : Nat := 8

open Text in
def FormatCause.detail : FormatCause → String
  | shortHeader got => s!"header needs {Header.length} bytes, got {got}"
  | badSignature text => s!"bad signature {Quoted.encode text}, expected \"MND\""
  | unexpectedEnd what => s!"unexpected end of input while reading {what}"
  | unknownKind code => s!"unknown record kind 0x{upperHex 2 code.toNat}"

/-- `offset` and `index` are those of the record being read. -/
structure FormatError where
  offset : Nat
  index : Nat
  cause : FormatCause
  deriving DecidableEq, Repr

open Text in
def FormatError.message (e : FormatError) : String :=
  s!"format error at offset 0x{lowerHex 1 e.offset} (record {e.index}): {e.cause.detail}"

end DebugSymbols
