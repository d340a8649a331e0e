import DebugSymbols.Model.Overlay
import DebugSymbols.Print.Declarator

/-!
# Declarations

Variables and functions as C, each after comments that say where it is. The
blocks of a body are written as nested braces with the lines they span.
-/

namespace DebugSymbols

open Text

/-! ## Variables -/

def registerNames : List String :=
  ["$zero", "$at", "$v0", "$v1", "$a0", "$a1", "$a2", "$a3", "$t0", "$t1", "$t2", "$t3", "$t4",
    "$t5", "$t6", "$t7", "$s0", "$s1", "$s2", "$s3", "$s4", "$s5", "$s6", "$s7", "$t8", "$t9",
    "$k0", "$k1", "$gp", "$sp", "$fp", "$ra"]

def registerName (n : UInt32) : String :=
  registerNames.getD n.toNat s!"${n}"

/-- Where a variable is: a register, nowhere for address zero, an address of
main memory, or else a frame offset. -/
def placeComment (v : Variable) : Option String :=
  if v.storage = some .register then some s!"register: {registerName v.addr}"
  else if v.addr = 0 then none
  else if 0x80000001 ≤ v.addr ∧ v.addr < 0x90000000 then
    some s!"address: 0x{upperHex 8 v.addr.toNat}"
  else some s!"address: {v.addr.toInt32.toInt}"

def sizeComment (size : UInt32) : Option String :=
  if size = 0 then none else some s!"size: 0x{upperHex 1 size.toNat}"

def commentLines (pad : String) (comments : List String) : String :=
  String.join (comments.map fun c => pad ++ "// " ++ c ++ "\n")

namespace Arena

def variableText (a : Arena) (depth : Nat) (v : Variable) : String :=
  let pad := indent depth
  commentLines pad ((placeComment v).toList ++ (sizeComment v.size).toList) ++
    pad ++ (v.storage.elim "" fun c => c.keyword ++ " ") ++ a.declare v.type v.name depth ++ ";\n"

end Arena

/-! ## Blocks -/

inductive BodyPart where
  | opening (b : Block)
  | locals (b : Block)
  | closing (b : Block)
  deriving DecidableEq

/-- The parts of the blocks, given those still open, innermost first. A block
ends the open ones that are not outside it. -/
def bodyParts (opened : List Block) : List Block → List BodyPart
  | [] => opened.map .closing
  | b :: bs =>
    let inside := opened.takeWhile fun o => decide (b.depth ≤ o.depth)
    let outside := opened.dropWhile fun o => decide (b.depth ≤ o.depth)
    inside.map .closing ++ [.opening b, .locals b] ++ bodyParts (b :: outside) bs

def BodyPart.text (a : Arena) : BodyPart → String
  | opening b => indent b.depth ++ s!"\x7b //line: {b.lineStart}\n"
  | locals b => String.join (b.locals.map (a.variableText (b.depth + 1)))
  | closing b => indent b.depth ++ s!"\x7d //line: {b.lineEnd}\n"

/-! ## Functions -/

namespace Arena

/-- A prototype, or a definition if the function has blocks. -/
def functionText (a : Arena) (f : Function) : String :=
  let head := a.declareFunction f.signature f.name
  let address := if f.addr = 0 then none else some s!"address: 0x{upperHex 8 f.addr.toNat}"
  let comments := [s!"path: {f.path}"] ++ address.toList ++ (sizeComment f.size).toList ++
    [s!"line start: {f.lineStart}", s!"line end:   {f.lineEnd}"]
  commentLines "" comments ++
    if f.blocks.isEmpty then head ++ ";\n"
    else head ++ "\n" ++ String.join ((bodyParts [] f.blocks).map (BodyPart.text a))

end Arena

namespace Overlay

def declarations (o : Overlay) : String :=
  String.join (o.vars.map fun v => o.arena.variableText 0 v ++ "\n") ++
  String.join (o.funcs.map fun f => o.arena.functionText f ++ "\n")

end Overlay

end DebugSymbols
