import DebugSymbols.Model.CType
import DebugSymbols.Model.Tag

/-!
# The arena

The structs, unions, enums and typedefs of one overlay, by handle. Entries are
added and changed but never removed, so a handle stays good.
-/

namespace DebugSymbols

/-- A member of a struct or union. For a bit field, offset and size count bits. -/
structure Field where
  offset : UInt32
  size : UInt32
  bitfield : Bool
  name : String
  type : CType
  deriving DecidableEq

structure Composite where
  kind : CompositeKind
  tag : Tag
  /-- Zero until the definition has been seen. -/
  size : UInt32
  fields : List Field := []
  /-- The typedefs that name it or a pointer to it. -/
  aliases : List TypedefId := []
  valueUses : Bool := false
  pointerUses : Bool := false
  deriving DecidableEq

instance : Inhabited Composite := ⟨{ kind := .struct, tag := .named "", size := 0 }⟩

namespace Composite

/-- Only ever reached through pointers. -/
def referenceOnly (c : Composite) : Bool :=
  c.pointerUses && !c.valueUses

end Composite

structure Member where
  value : Int32
  name : String
  deriving DecidableEq, Repr

structure Enumeration where
  tag : Tag
  members : List Member := []
  aliases : List TypedefId := []
  deriving DecidableEq

instance : Inhabited Enumeration := ⟨{ tag := .named "" }⟩

instance : Inhabited Variable := ⟨⟨0, 0, none, .base .void, ""⟩⟩

/-- By value, and by name where the values are equal. -/
def Member.before (m n : Member) : Bool :=
  m.value < n.value || (m.value == n.value && m.name ≤ n.name)

namespace Enumeration

def sortedMembers (e : Enumeration) : List Member :=
  e.members.mergeSort Member.before

end Enumeration

structure Arena where
  composites : List Composite := []
  enums : List Enumeration := []
  typedefs : List Variable := []
  deriving DecidableEq

namespace Arena

instance : Inhabited Arena := ⟨{}⟩

/-! ## Entries -/

def composite (a : Arena) (id : CompositeId) : Composite :=
  a.composites.getD id.index default

def enumeration (a : Arena) (id : EnumId) : Enumeration :=
  a.enums.getD id.index default

def typedef (a : Arena) (id : TypedefId) : Variable :=
  a.typedefs.getD id.index default

def modifyComposite (a : Arena) (id : CompositeId) (f : Composite → Composite) : Arena :=
  { a with composites := a.composites.modify id.index f }

def modifyEnum (a : Arena) (id : EnumId) (f : Enumeration → Enumeration) : Arena :=
  { a with enums := a.enums.modify id.index f }

def modifyTypedef (a : Arena) (id : TypedefId) (f : Variable → Variable) : Arena :=
  { a with typedefs := a.typedefs.modify id.index f }

def nextComposite (a : Arena) : CompositeId := ⟨a.composites.length⟩

def nextEnum (a : Arena) : EnumId := ⟨a.enums.length⟩

def nextTypedef (a : Arena) : TypedefId := ⟨a.typedefs.length⟩

def pushComposite (a : Arena) (c : Composite) : Arena :=
  { a with composites := a.composites ++ [c] }

def pushEnum (a : Arena) (e : Enumeration) : Arena :=
  { a with enums := a.enums ++ [e] }

def pushTypedef (a : Arena) (d : Variable) : Arena :=
  { a with typedefs := a.typedefs ++ [d] }

/-! ## Aliases -/

def soleAlias (a : Arena) : List TypedefId → Option Variable
  | [id] => some (a.typedef id)
  | _ => none

/-- The one typedef of a struct or union, if it names the type itself. -/
def valueAlias (a : Arena) (id : CompositeId) : Option Variable :=
  (a.soleAlias (a.composite id).aliases).filter fun d =>
    match d.type with
    | .composite _ target => target == id
    | _ => false

def enumValueAlias (a : Arena) (id : EnumId) : Option Variable :=
  (a.soleAlias (a.enumeration id).aliases).filter (·.type == .enum id)

/-! ## Sizes -/

end Arena

def checkedMul (m n : UInt32) : Option UInt32 :=
  if m.toNat * n.toNat < UInt32.size then some (m * n) else none

/-- The size of a type, given those of named ones. Functions, `void`, enums
and arrays without a length have none. -/
def CType.sizeWith (composite : CompositeId → Option UInt32) (typedef : TypedefId → Option UInt32) :
    CType → Option UInt32
  | .base b => b.size?
  | .pointer _ => some pointerSize
  | .array elem n =>
    if n = 0 then none else (elem.sizeWith composite typedef).bind (checkedMul · n)
  | .function _ _ _ => none
  | .composite _ id => composite id
  | .enum _ => none
  | .typedef id => typedef id

namespace Arena

def compositeSize? (a : Arena) (id : CompositeId) : Option UInt32 :=
  let size := (a.composite id).size
  if size = 0 then none else some size

/-- The size of what a typedef stands for, through at most `hops` typedefs. -/
def typedefSize? (a : Arena) : Nat → TypedefId → Option UInt32
  | 0, _ => none
  | hops + 1, id => (a.typedef id).type.sizeWith a.compositeSize? (a.typedefSize? hops)

/-- The size of a type, where it follows from the type alone. A chain longer
than the arena has typedefs comes back to one of them and never to a size. -/
def size? (a : Arena) (t : CType) : Option UInt32 :=
  t.sizeWith a.compositeSize? (a.typedefSize? a.typedefs.length)

end Arena

end DebugSymbols
