import DebugSymbols.Stream.Record
import DebugSymbols.Text.Digits

/-!
# Listing

The record stream as text, a record at a time. The listing shows the running
source line, which is unknown before the first record that sets it and after
each record that ends the line information.
-/

namespace DebugSymbols.Listing

open Text

def running (line : Option UInt32) : LineOp → Option UInt32
  | .increment => line.map (· + 1)
  | .incrementByte n => line.map (· + n.toUInt32)
  | .incrementWord n => line.map (· + n.toUInt32)
  | .set n => some n
  | .setWithPath n _ => some n
  | .finish => none

def runningAfter (line : Option UInt32) (r : Record) : Option UInt32 :=
  match r.body with
  | .line op => running line op
  | _ => line

def target : Option UInt32 → String
  | some line => s!" (to {line})"
  | none => ""

/-- `line` is the running line after the record. -/
def lineOpText (line : Option UInt32) : LineOp → String
  | .increment =>
    match line with
    | some _ => "Inc SLD linenum" ++ target line
    | none => "Inc SLD linenum (+1)"
  | .incrementByte n => s!"Inc SLD linenum by {n}" ++ target line
  | .incrementWord n => s!"Inc SLD linenum by {n}" ++ target line
  | .set n => s!"Set SLD linenum to {n}"
  | .setWithPath n path => s!"Set SLD linenum to {n} (file {path})"
  | .finish => "End SLD info"

def functionStartText (f : FunctionStart) : String :=
  s!"Function start :\n\tfp = {f.frameRegister}\n\tfsize = {f.frameSize}\n\t" ++
  s!"retreg = {f.returnRegister}\n\tmask = ${lowerHex 8 f.mask.toNat}\n\t" ++
  s!"maskoffs = {f.maskOffset.toInt}\n\tline = {f.line}\n\tfile = {f.path}\n\tname = {f.name}"

def symbolDefText (label : String) (d : SymbolDef) : String :=
  s!"{label} class {d.symbolClass.text} type {d.word.text} size {d.size}"

def dimsText (dims : List UInt32) : String :=
  s!" dims {dims.length}" ++ String.join (dims.map fun n => s!" {n}")

def bodyText (line : Option UInt32) : Body → String
  | .symbol _ name => name
  | .line op => lineOpText line op
  | .functionStart f => functionStartText f
  | .functionEnd n => s!"Function end   line {n}"
  | .blockStart n => s!"Block start  line = {n}"
  | .blockEnd n => s!"Block end  line = {n}"
  | .definition .first d => symbolDefText "Def" d ++ s!" name {d.name}"
  | .definition .second d =>
    symbolDefText "Def2" d ++ dimsText d.dims ++ s!" tag {d.tag} name {d.name}"
  | .overlay length id => s!"overlay length ${lowerHex 8 length.toNat} id ${lowerHex 1 id.toNat}"
  | .setOverlay => "set overlay"

def recordText (line : Option UInt32) (r : Record) : String :=
  s!"{lowerHex 6 r.offset}: ${lowerHex 8 r.value.toNat} {lowerHex 1 r.kind.code.toNat} " ++
  bodyText line r.body ++ "\n"

def recordsText (line : Option UInt32) : List Record → String
  | [] => ""
  | r :: rs => recordText (runningAfter line r) r ++ recordsText (runningAfter line r) rs

end Listing

def SymbolFile.listing (f : SymbolFile) : String :=
  s!"Header : MND version {f.header.version}\nTarget unit {f.header.targetUnit}\n" ++
  Listing.recordsText none f.records

end DebugSymbols
