/-!
# C types

Scalar and derived types are plain values. Structs, unions, enums and typedefs
are shared between many uses, so a type names them by a handle into the arena
of its overlay.
-/

namespace DebugSymbols

/-! ## Scalars -/

inductive BaseType where
  | void | char | short | int | long | float | double | uchar | ushort | uint | ulong
  deriving DecidableEq, Repr

namespace BaseType

def spelling : BaseType → String
  | void => "void"
  | char => "char"
  | short => "short"
  | int => "int"
  | long => "long"
  | float => "float"
  | double => "double"
  | uchar => "unsigned char"
  | ushort => "unsigned short"
  | uint => "unsigned int"
  | ulong => "unsigned long"

/-- The size in bytes on the R3000; `void` has none. -/
def size? : BaseType → Option UInt32
  | void => none
  | char | uchar => some 1
  | short | ushort => some 2
  | int | long | float | uint | ulong => some 4
  | double => some 8

end BaseType

def pointerSize : UInt32 := 4

/-! ## Handles -/

@[ext] structure CompositeId where
  index : Nat
  deriving DecidableEq, Repr

structure EnumId where
  index : Nat
  deriving DecidableEq, Repr

structure TypedefId where
  index : Nat
  deriving DecidableEq, Repr

/-- Structs and unions differ in their keyword and in how members lie. -/
inductive CompositeKind where
  | struct | union
  deriving DecidableEq, Repr

namespace CompositeKind

def keyword : CompositeKind → String
  | struct => "struct"
  | union => "union"

def letter : CompositeKind → Char
  | struct => 's'
  | union => 'u'

end CompositeKind

/-! ## Declarations and types -/

inductive StorageClass where
  | auto | external | static | register | typedef
  deriving DecidableEq, Repr

def StorageClass.keyword : StorageClass → String
  | auto => "auto"
  | external => "extern"
  | static => "static"
  | register => "register"
  | typedef => "typedef"

/-- A variable, parameter, local or typedef. The address is a frame offset or
register number where the storage class says so. -/
structure Decl (τ : Type) where
  addr : UInt32
  size : UInt32
  /-- None for arguments and labels. -/
  storage : Option StorageClass
  type : τ
  name : String
  deriving DecidableEq

inductive CType where
  | base (b : BaseType)
  | pointer (target : CType)
  /-- An array of length zero is one without a length, `name[]`. -/
  | array (elem : CType) (length : UInt32)
  | function (result : CType) (params : List (Decl CType)) (variadic : Bool)
  | composite (kind : CompositeKind) (id : CompositeId)
  | enum (id : EnumId)
  | typedef (id : TypedefId)

/-- The outermost form of a type, with scalars kept apart. -/
inductive Category where
  | base (b : BaseType)
  | pointer | array | function
  | composite (kind : CompositeKind)
  | enum | typedef
  deriving DecidableEq, Repr

abbrev Variable := Decl CType

structure Signature where
  result : CType
  params : List Variable := []
  variadic : Bool := false

namespace CType

instance : Inhabited CType := ⟨.base .void⟩

def category : CType → Category
  | base b => .base b
  | pointer _ => .pointer
  | array _ _ => .array
  | function _ _ _ => .function
  | composite kind _ => .composite kind
  | enum _ => .enum
  | typedef _ => .typedef

def isPointer : CType → Bool
  | pointer _ => true
  | _ => false

def stripArrays : CType → CType
  | array elem _ => elem.stripArrays
  | t => t

end CType

namespace Signature

def type (s : Signature) : CType :=
  .function s.result s.params s.variadic

/-- With one more parameter, unless there is one of that name. -/
def addParam (s : Signature) (p : Variable) : Signature :=
  if s.params.any (·.name == p.name) then s else { s with params := s.params ++ [p] }

end Signature

/-! ## Equality -/

mutual

def CType.same : CType → CType → Bool
  | .base b, .base c => b == c
  | .pointer s, .pointer t => s.same t
  | .array s m, .array t n => s.same t && m == n
  | .function r ps u, .function s qs v => r.same s && sameParams ps qs && u == v
  | .composite k i, .composite l j => k == l && i == j
  | .enum i, .enum j => i == j
  | .typedef i, .typedef j => i == j
  | _, _ => false

def sameParams : List (Decl CType) → List (Decl CType) → Bool
  | [], [] => true
  | ⟨a, s, c, t, n⟩ :: ps, ⟨b, r, d, u, m⟩ :: qs =>
    a == b && s == r && c == d && t.same u && n == m && sameParams ps qs
  | _, _ => false

end

mutual

theorem CType.same_iff : ∀ s t : CType, s.same t = true ↔ s = t
  | .base b, t => by cases t <;> simp [CType.same]
  | .pointer s, t => by cases t <;> simp [CType.same, s.same_iff]
  | .array s n, t => by cases t <;> simp [CType.same, s.same_iff]
  | .function r ps v, t => by
    cases t <;> simp [CType.same, r.same_iff, sameParams_iff ps, and_assoc]
  | .composite k i, t => by cases t <;> simp [CType.same]
  | .enum i, t => by cases t <;> simp [CType.same]
  | .typedef i, t => by cases t <;> simp [CType.same]

theorem sameParams_iff : ∀ ps qs : List (Decl CType), sameParams ps qs = true ↔ ps = qs
  | [], qs => by cases qs <;> simp [sameParams]
  | ⟨a, s, c, t, n⟩ :: ps, qs => by
    cases qs with
    | nil => simp [sameParams]
    | cons q qs => cases q; simp [sameParams, t.same_iff, sameParams_iff ps, and_assoc]

end

instance : DecidableEq CType := fun s t => decidable_of_iff _ (s.same_iff t)

deriving instance DecidableEq for Signature

/-! ## Nested slots -/

mutual

/-- The categories of a type and of every type inside it, outermost first; the
result of a function comes before its parameters. -/
def CType.categories : CType → List Category
  | .pointer t => .pointer :: t.categories
  | .array t _ => .array :: t.categories
  | .function r ps _ => .function :: (r.categories ++ paramCategories ps)
  | t => [t.category]

def paramCategories : List (Decl CType) → List Category
  | [] => []
  | ⟨_, _, _, t, _⟩ :: ps => t.categories ++ paramCategories ps

end

/-- One rule of replacement, `old` by `new`. -/
structure Replacement where
  old : CType
  new : CType

mutual

/-- The type with `old` replaced by `new` wherever it occurs, from the outside
in; what came in is not searched again. -/
def Replacement.apply (r : Replacement) (t : CType) : CType :=
  if t = r.old then r.new else
  match t with
  | .pointer s => .pointer (r.apply s)
  | .array s n => .array (r.apply s) n
  | .function s ps v => .function (r.apply s) (r.applyParams ps) v
  | s => s

def Replacement.applyParams (r : Replacement) : List (Decl CType) → List (Decl CType)
  | [] => []
  | ⟨a, s, c, t, n⟩ :: ps => ⟨a, s, c, r.apply t, n⟩ :: r.applyParams ps

end

mutual

/-- The categories met on the way, each as it was before the replacement; of
what came in, those of the types inside it. -/
def Replacement.met (r : Replacement) (t : CType) : List Category :=
  if t = r.old then t.category :: r.new.categories.tail else
  match t with
  | .pointer s => .pointer :: r.met s
  | .array s _ => .array :: r.met s
  | .function s ps _ => .function :: (r.met s ++ r.metParams ps)
  | s => [s.category]

def Replacement.metParams (r : Replacement) : List (Decl CType) → List Category
  | [] => []
  | ⟨_, _, _, t, _⟩ :: ps => r.met t ++ r.metParams ps

end

structure Renumbering where
  composite : CompositeId → CompositeId := id
  enum : EnumId → EnumId := id
  typedef : TypedefId → TypedefId := id

mutual

def CType.renumber (f : Renumbering) : CType → CType
  | .base b => .base b
  | .pointer t => .pointer (t.renumber f)
  | .array t n => .array (t.renumber f) n
  | .function r ps v => .function (r.renumber f) (renumberParams f ps) v
  | .composite k i => .composite k (f.composite i)
  | .enum i => .enum (f.enum i)
  | .typedef i => .typedef (f.typedef i)

def renumberParams (f : Renumbering) : List (Decl CType) → List (Decl CType)
  | [] => []
  | ⟨a, s, c, t, n⟩ :: ps => ⟨a, s, c, t.renumber f, n⟩ :: renumberParams f ps

end

def Decl.renumber (f : Renumbering) (d : Variable) : Variable :=
  { d with type := d.type.renumber f }

def Signature.renumber (f : Renumbering) (s : Signature) : Signature :=
  { s with result := s.result.renumber f, params := s.params.map (Decl.renumber f) }

end DebugSymbols
