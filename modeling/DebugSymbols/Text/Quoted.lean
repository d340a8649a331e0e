import DebugSymbols.Text.Digits
import DebugSymbols.Text.Printable

/-!
# Quoted text

Text between double quotes on one line, as messages show the bytes of a file
that is none of ours.
-/

namespace DebugSymbols.Text.Quoted

def escaped (c : Char) : String :=
  match c with
  | '\x00' => "\\0"
  | '\t' => "\\t"
  | '\r' => "\\r"
  | '\n' => "\\n"
  | '\\' => "\\\\"
  | '"' => "\\\""
  | _ => if isPrintable c then c.toString else "\\u\x7b" ++ lowerHex 0 c.toNat ++ "\x7d"

/-- The text between quotes, with escapes for what would not show. -/
def encode (text : String) : String :=
  "\"" ++ String.join (text.toList.map escaped) ++ "\""

end DebugSymbols.Text.Quoted
