import DebugSymbols.Model.Tag

/-!
# Fresh names

Names and tags made up for what collides: the first of a sequence of candidates
that is not taken. The candidates differ from each other, so one more of them
than there are taken names is enough to look at.
-/

namespace DebugSymbols

def firstFree {α : Type} (taken : List String) (text : α → String) (candidate : Nat → α) : α :=
  candidate <|
    ((List.range taken.length).find? fun n => !taken.contains (text (candidate n))).getD taken.length

def addressName (base : String) (addr : UInt32) (n : Nat) : String :=
  base ++ "_addr_" ++ Text.upperHex 8 addr.toNat ++ if n = 0 then "" else s!"_{n}"

def freshName (taken : List String) (base : String) (addr : UInt32) : String :=
  firstFree taken id (addressName base addr)

/-- The tag wrapped as a duplicate `n` more times than once. -/
def Tag.duplicated (tag : Tag) (letter : Char) (index : Nat) : Nat → Tag
  | 0 => tag.duplicate letter index
  | n + 1 => (tag.duplicated letter index n).duplicate letter index

def freshTag (taken : List String) (tag : Tag) (letter : Char) (index : Nat) : Tag :=
  firstFree taken Tag.text (tag.duplicated letter index)

end DebugSymbols
