import DebugSymbols.Model.Arena

/-!
# Likeness of types

When two structs, unions, enums or typedefs count as the same definition seen
twice. Types inside them are compared by category only, so two pointer fields
are alike whatever they point at, and an `int` is never like an `unsigned int`.
-/

namespace DebugSymbols

/-- Equal tags, or both made up by the compiler. -/
def Tag.alike (s t : Tag) : Bool :=
  s == t || (s.isAnonymous && t.isAnonymous)

def Field.alike (x y : Field) : Bool :=
  x.name == y.name && x.offset == y.offset && x.size == y.size && x.bitfield == y.bitfield &&
    x.type.category == y.type.category

def fieldsAlike : List Field → List Field → Bool
  | [], [] => true
  | x :: xs, y :: ys => x.alike y && fieldsAlike xs ys
  | _, _ => false

/-- Aliases and uses are not compared. -/
def Composite.alike (c d : Composite) : Bool :=
  c.kind == d.kind && c.tag.alike d.tag && c.size == d.size && fieldsAlike c.fields d.fields

def Enumeration.alike (d e : Enumeration) : Bool :=
  d.tag.alike e.tag && d.members == e.members

def Decl.alike (a b : Variable) : Bool :=
  a.addr == b.addr && a.size == b.size && a.storage == b.storage && a.name == b.name &&
    a.type.category == b.type.category

end DebugSymbols
