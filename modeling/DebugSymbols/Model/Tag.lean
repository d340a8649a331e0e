import DebugSymbols.Text.Digits

/-!
# Tags

The tag of a struct, union or enum. The compiler makes up `.<n>fake` tags,
sanitized to `_<n>fake`, for those without one; they are kept apart from tags
that a person wrote.
-/

namespace DebugSymbols

inductive Tag where
  | named (name : String)
  | anonymous (number : UInt32)
  /-- The `index`-th of several with one tag, in the category of `letter`. -/
  | duplicate (base : Tag) (letter : Char) (index : Nat)
  deriving DecidableEq, Repr

namespace Tag

/-- The number in a tag of the compiler's, given the characters after the
underscore: digits of a 32 bit number, then `fake`. -/
def fakeNumber? (rest : List Char) : Option UInt32 :=
  let digits := rest.takeWhile Char.isDigit
  let n := Text.decimal digits
  if digits ≠ [] ∧ rest.dropWhile Char.isDigit = ['f', 'a', 'k', 'e'] ∧ n < UInt32.size then
    some (UInt32.ofNat n)
  else none

def ofIdentifier (name : String) : Tag :=
  match name.toList with
  | '_' :: rest => (fakeNumber? rest).elim (.named name) .anonymous
  | _ => .named name

def isAnonymous : Tag → Bool
  | named _ => false
  | anonymous _ => true
  | duplicate base _ _ => base.isAnonymous

def text : Tag → String
  | named name => name
  | anonymous n => s!"_{n}fake"
  | duplicate base letter index => base.text ++ s!"_duplicate_{letter}{index}"

end Tag

end DebugSymbols
