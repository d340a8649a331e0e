/-!
# Digits

Hexadecimal numbers with a least number of places, as the listing and the
comments of printed C write them, and decimal digits as names have them.
-/

namespace DebugSymbols.Text

/-- The digits, with zeros before them up to `width` places. -/
def zeroFilled (width : Nat) (digits : List Char) : List Char :=
  List.replicate (width - digits.length) '0' ++ digits

def lowerHex (width n : Nat) : String :=
  String.ofList (zeroFilled width (Nat.toDigits 16 n))

def upperHex (width n : Nat) : String :=
  String.ofList (zeroFilled width ((Nat.toDigits 16 n).map Char.toUpper))

def decimal (digits : List Char) : Nat :=
  digits.foldl (fun n c => 10 * n + (c.toNat - '0'.toNat)) 0

/-- `text` with blanks after it up to `width` characters. -/
def padded (width : Nat) (text : String) : String :=
  text ++ String.ofList (List.replicate (width - text.length) ' ')

def indent (depth : Nat) : String :=
  String.ofList (List.replicate depth '\t')

end DebugSymbols.Text
