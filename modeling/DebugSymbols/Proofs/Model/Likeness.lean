import DebugSymbols.Model.Likeness

/-!
# Likeness as equality

Two definitions are alike if what is compared of them is equal.
-/

namespace DebugSymbols

/-- Tags made up by the compiler are not told apart. -/
def Tag.likeness (t : Tag) : Option Tag :=
  if t.isAnonymous then none else some t

def Field.likeness (x : Field) : String × UInt32 × UInt32 × Bool × Category :=
  (x.name, x.offset, x.size, x.bitfield, x.type.category)

def Composite.likeness (c : Composite) :
    CompositeKind × Option Tag × UInt32 × List (String × UInt32 × UInt32 × Bool × Category) :=
  (c.kind, c.tag.likeness, c.size, c.fields.map Field.likeness)

def Enumeration.likeness (e : Enumeration) : Option Tag × List Member :=
  (e.tag.likeness, e.members)

def Decl.likeness (d : Variable) : UInt32 × UInt32 × Option StorageClass × String × Category :=
  (d.addr, d.size, d.storage, d.name, d.type.category)

theorem Tag.alike_iff (s t : Tag) : s.alike t = true ↔ s.likeness = t.likeness := by
  unfold Tag.alike Tag.likeness
  by_cases hs : s.isAnonymous = true
  · by_cases ht : t.isAnonymous = true
    · simp [hs, ht]
    · have hne : s ≠ t := by
        intro heq
        rw [heq] at hs
        exact ht hs
      simp [hs, ht, hne]
  · by_cases ht : t.isAnonymous = true
    · have hne : s ≠ t := by
        intro heq
        rw [heq] at hs
        exact hs ht
      simp [hs, ht, hne]
    · simp [hs, ht]

theorem Field.alike_iff (x y : Field) : x.alike y = true ↔ x.likeness = y.likeness := by
  simp [Field.alike, Field.likeness, and_assoc]

theorem fieldsAlike_iff : ∀ xs ys : List Field,
    fieldsAlike xs ys = true ↔ xs.map Field.likeness = ys.map Field.likeness
  | [], [] => by simp [fieldsAlike]
  | [], y :: ys => by simp [fieldsAlike]
  | x :: xs, [] => by simp [fieldsAlike]
  | x :: xs, y :: ys => by simp [fieldsAlike, x.alike_iff y, fieldsAlike_iff xs ys]

theorem Composite.alike_iff (c d : Composite) : c.alike d = true ↔ c.likeness = d.likeness := by
  simp [Composite.alike, Composite.likeness, Tag.alike_iff, fieldsAlike_iff, and_assoc]

theorem Enumeration.alike_iff (d e : Enumeration) : d.alike e = true ↔ d.likeness = e.likeness := by
  simp [Enumeration.alike, Enumeration.likeness, Tag.alike_iff]

theorem Decl.alike_iff (a b : Variable) : a.alike b = true ↔ a.likeness = b.likeness := by
  simp [Decl.alike, Decl.likeness, and_assoc]

end DebugSymbols
