/-!
# UTF-8

Reading bytes as UTF-8. Each longest start of a character that the next byte
cannot continue, and each byte that cannot start one, reads as U+FFFD.
-/

namespace DebugSymbols.Text.Utf8

/-- The start of a character: its bits so far, the bytes still owed, and the
range of the next one. -/
structure Partial where
  bits : Nat
  owed : Nat
  low : UInt8 := 0x80
  high : UInt8 := 0xBF
  deriving DecidableEq, Repr

/-- What a first byte begins. The ranges leave out overlong forms, surrogates
and numbers above U+10FFFF. -/
def lead (b : UInt8) : Option Partial :=
  let n := b.toNat
  if 0xC2 ≤ n ∧ n ≤ 0xDF then some { bits := n - 0xC0, owed := 1 }
  else if n = 0xE0 then some { bits := 0, owed := 2, low := 0xA0 }
  else if n = 0xED then some { bits := 0xD, owed := 2, high := 0x9F }
  else if 0xE1 ≤ n ∧ n ≤ 0xEF then some { bits := n - 0xE0, owed := 2 }
  else if n = 0xF0 then some { bits := 0, owed := 3, low := 0x90 }
  else if 0xF1 ≤ n ∧ n ≤ 0xF3 then some { bits := n - 0xF0, owed := 3 }
  else if n = 0xF4 then some { bits := 4, owed := 3, high := 0x8F }
  else none

def replacement : Char := '\uFFFD'

/-- The characters read from a byte between characters, and what it leaves
unfinished. -/
def start (b : UInt8) : List Char × Option Partial :=
  if b < 0x80 then ([Char.ofNat b.toNat], none)
  else match lead b with
    | some p => ([], some p)
    | none => ([replacement], none)

/-- The characters read from one more byte. -/
def next : Option Partial → UInt8 → List Char × Option Partial
  | none, b => start b
  | some p, b =>
    if p.low ≤ b ∧ b ≤ p.high then
      let bits := p.bits * 64 + (b.toNat - 0x80)
      if p.owed ≤ 1 then ([Char.ofNat bits], none)
      else ([], some { bits, owed := p.owed - 1 })
    else
      let (cs, p') := start b
      (replacement :: cs, p')

def decodeFrom : Option Partial → List UInt8 → List Char
  | none, [] => []
  | some _, [] => [replacement]
  | p, b :: bs =>
    let (cs, p') := next p b
    cs ++ decodeFrom p' bs

def decode (bytes : List UInt8) : String :=
  String.ofList (decodeFrom none bytes)

end DebugSymbols.Text.Utf8
