import DebugSymbols.Model.Arena
import DebugSymbols.Text.Digits

/-!
# Declarators

A C declaration is built from the inside out: the name is in the middle, stars
go to its left, brackets and parameter lists to its right, and the specifier
comes first. A pointer to an array or a function needs parentheses.

A struct or union that has only a tag of the compiler's is written out where it
is used, except inside its own body.
-/

namespace DebugSymbols

open Text

/-! ## Names of types -/

namespace Arena

/-- Whether a struct or union is written out in place wherever it is used: one
with a tag of the compiler's, no typedef, and a use by value. -/
def isInlined (a : Arena) (id : CompositeId) : Bool :=
  let c := a.composite id
  c.tag.isAnonymous && c.aliases.isEmpty && !c.referenceOnly

def compositeName (a : Arena) (id : CompositeId) : String :=
  match a.valueAlias id with
  | some d => d.name
  | none =>
    let c := a.composite id
    c.kind.keyword ++ " " ++ c.tag.text

def enumName (a : Arena) (id : EnumId) : String :=
  match a.enumValueAlias id with
  | some d => d.name
  | none => "enum " ++ (a.enumeration id).tag.text

end Arena

/-! ## Declarators around a name -/

def specified (specifier declarator : String) : String :=
  if declarator.isEmpty then specifier else specifier ++ " " ++ declarator

def starred (target : CType) (declarator : String) : String :=
  match target with
  | .function .. | .array .. => "(*" ++ declarator ++ ")"
  | _ => "*" ++ declarator

def bracketed (length : UInt32) (declarator : String) : String :=
  declarator ++ if length = 0 then "[]" else "[" ++ toString length ++ "]"

def parameterList (params : List String) (variadic : Bool) : String :=
  "(" ++ ", ".intercalate (if variadic then params ++ ["..."] else params) ++ ")"

structure Spelling where
  composite : CompositeId → String
  enum : EnumId → String
  typedef : TypedefId → String

mutual

def CType.declare (s : Spelling) (t : CType) (declarator : String) : String :=
  match t with
  | .base b => specified b.spelling declarator
  | .pointer t => t.declare s (starred t declarator)
  | .array t n => t.declare s (bracketed n declarator)
  | .function r ps v => r.declare s (declarator ++ parameterList (declareParams s ps) v)
  | .composite _ id => specified (s.composite id) declarator
  | .enum id => specified (s.enum id) declarator
  | .typedef id => specified (s.typedef id) declarator

def declareParams (s : Spelling) : List (Decl CType) → List String
  | [] => []
  | ⟨_, _, _, t, name⟩ :: ps => t.declare s name :: declareParams s ps

end

/-! ## Bodies in place -/

def Field.line (s : Spelling) (x : Field) : String :=
  x.type.declare s x.name ++ (if x.bitfield then ":" ++ toString x.size else "") ++
    "; // offset: 0x" ++ upperHex 4 x.offset.toNat

namespace Arena

def unvisited (a : Arena) (visited : List CompositeId) : Nat :=
  ((List.range a.composites.length).filter fun i => !visited.contains ⟨i⟩).length

theorem isInlined_index_lt {a : Arena} {id : CompositeId} (h : a.isInlined id = true) :
    id.index < a.composites.length := by
  refine Nat.lt_of_not_le fun hle => ?_
  have : a.composite id = default := by
    simp [composite, List.getD_eq_getElem?_getD, List.getElem?_eq_none hle]
  simp [isInlined, this, default, Tag.isAnonymous] at h

theorem unvisited_cons_lt {a : Arena} {visited : List CompositeId} {id : CompositeId}
    (hlt : id.index < a.composites.length) (hid : visited.contains id = false) :
    a.unvisited (id :: visited) < a.unvisited visited := by
  have hsplit : ((List.range a.composites.length).filter fun i => !(id :: visited).contains ⟨i⟩) =
      ((List.range a.composites.length).filter fun i => !visited.contains ⟨i⟩).filter
        fun i => i != id.index := by
    rw [List.filter_filter]
    refine List.filter_congr fun i _ => ?_
    by_cases h : i = id.index <;> simp [CompositeId.ext_iff, h]
  unfold unvisited
  rw [hsplit, List.length_filter_lt_length_iff_exists]
  exact ⟨id.index, List.mem_filter.mpr ⟨List.mem_range.mpr hlt, by simpa using hid⟩, by simp⟩

/-- How types are spelled inside the bodies of `visited`, at nesting `depth`. A
struct or union written in place has its body here, one tab further in. -/
def spelling (a : Arena) (visited : List CompositeId) (depth : Nat) : Spelling :=
  { composite := fun id =>
      if _ : a.isInlined id = true ∧ visited.contains id = false then
        let c := a.composite id
        let inner := a.spelling (id :: visited) (depth + 1)
        let lines := c.fields.map fun x => indent (depth + 1) ++ x.line inner ++ "\n"
        c.kind.keyword ++ " \x7b\n" ++ String.join lines ++ indent depth ++ "\x7d"
      else a.compositeName id
    enum := a.enumName
    typedef := fun id => (a.typedef id).name }
termination_by a.unvisited visited
decreasing_by
  rename_i h
  exact unvisited_cons_lt (isInlined_index_lt h.1) h.2

/-! ## Declarations -/

/-- The declaration of a name at nesting `depth`. Without a name it is the type
as a cast has it. -/
def declare (a : Arena) (t : CType) (name : String) (depth : Nat := 0) : String :=
  t.declare (a.spelling [] depth) name

def declareFunction (a : Arena) (s : Signature) (name : String) : String :=
  s.result.declare (a.spelling [] 0)
    (name ++ parameterList (declareParams (a.spelling [] 0) s.params) s.variadic)

def fieldLine (a : Arena) (x : Field) (depth : Nat) : String :=
  x.line (a.spelling [] depth)

end Arena

end DebugSymbols
