import DebugSymbols.Build.Action
import DebugSymbols.Text.Identifier

/-!
# References to types

The C type of a symbol definition. Structs and unions are found by tag and size
in the current overlay, enums by tag. A reference to one not defined yet makes
an empty one, which its definition fills in later.
-/

namespace DebugSymbols

def Tag.ofName (name : String) : Tag :=
  ofIdentifier (Text.identifier name)

/-! ## Type words -/

/-- The scalar of a base code; tagged bases and the null base are none. -/
def BaseCode.scalar? : BaseCode → Option BaseType
  | void => some .void
  | char => some .char
  | short => some .short
  | int => some .int
  | long => some .long
  | float => some .float
  | double => some .double
  | uchar => some .uchar
  | ushort => some .ushort
  | uint => some .uint
  | ulong => some .ulong
  | null | struct | union | enum | enumMember => none

/-- The lengths of the arrays among modifiers, outermost first. Each array takes
the next dimension, or has no length when they have run out. -/
def arrayLengths (mods : List Modifier) (dims : List UInt32) : List UInt32 :=
  next (mods.filter (· == .array)) dims
where
  next : List Modifier → List UInt32 → List UInt32
    | [], _ => []
    | _ :: ms, dims => dims.headD 0 :: next ms dims.tail

namespace CType

/-- The modifier around a type. An array takes the first of the lengths that are left. -/
def wrap : CType × List UInt32 → Modifier → CType × List UInt32
  | (t, lengths), .pointer => (.pointer t, lengths)
  | (t, lengths), .function => (.function t [] false, lengths)
  | (t, lengths), .array => (.array t (lengths.headD 0), lengths.tail)

/-- The type that modifiers, outermost first, derive from a base. It is built
from the base outwards, and the innermost array is the first to take a length. -/
def derive (base : CType) (mods : List Modifier) (dims : List UInt32) : CType :=
  (mods.reverse.foldl wrap (base, (arrayLengths mods dims).reverse)).1

section
variable (base : CType) (ms : List Modifier) (dims : List UInt32)

theorem arrayLengths_array :
    arrayLengths (.array :: ms) dims = dims.headD 0 :: arrayLengths ms dims.tail := rfl

theorem arrayLengths_of_ne {m : Modifier} (hm : m ≠ .array) :
    arrayLengths (m :: ms) dims = arrayLengths ms dims := by
  cases m with
  | array => exact absurd rfl hm
  | _ => rfl

theorem foldl_wrap (rest : List UInt32) :
    ms.reverse.foldl wrap (base, (arrayLengths ms dims).reverse ++ rest) = (base.derive ms dims, rest) := by
  induction ms generalizing dims rest with
  | nil => rfl
  | cons m ms ih =>
    have hown : ms.reverse.foldl wrap (base, (arrayLengths ms dims).reverse) = (base.derive ms dims, []) := by
      rw [← List.append_nil (arrayLengths ms dims).reverse, ih]
    unfold derive
    rw [List.reverse_cons, List.foldl_append, List.foldl_append]
    cases m with
    | array =>
      rw [arrayLengths_array, List.reverse_cons, List.append_assoc, ih, ih]
      rfl
    | _ =>
      rw [arrayLengths_of_ne _ _ (by simp), ih, hown]
      rfl

/-! From the outside in, each modifier is around what those after it derive. -/

@[simp] theorem derive_nil : base.derive [] dims = base := rfl

@[simp] theorem derive_pointer : base.derive (.pointer :: ms) dims = .pointer (base.derive ms dims) := by
  rw [derive, List.reverse_cons, List.foldl_append, arrayLengths_of_ne _ _ (by simp),
    ← List.append_nil (arrayLengths ms dims).reverse, foldl_wrap]
  rfl

@[simp] theorem derive_function :
    base.derive (.function :: ms) dims = .function (base.derive ms dims) [] false := by
  rw [derive, List.reverse_cons, List.foldl_append, arrayLengths_of_ne _ _ (by simp),
    ← List.append_nil (arrayLengths ms dims).reverse, foldl_wrap]
  rfl

@[simp] theorem derive_array :
    base.derive (.array :: ms) dims = .array (base.derive ms dims.tail) (dims.headD 0) := by
  rw [derive, List.reverse_cons, List.foldl_append, arrayLengths_array, List.reverse_cons, foldl_wrap]
  rfl

end

end CType

def reachesByPointer (mods : List Modifier) : Bool :=
  mods.getLast? == some .pointer

/-! ## Sizes -/

/-- The number of elements in an array of these dimensions, if it is positive
and fits in 32 bits. -/
def elementCount? (dims : List UInt32) : Option UInt32 :=
  let n := dims.foldl (fun n d => n * d.toNat) 1
  if 0 < n ∧ n < UInt32.size then some (UInt32.ofNat n) else none

/-- The size of the struct or union that a definition refers to. Zero stands for
whichever was defined last. -/
def SymbolDef.referencedSize (d : SymbolDef) : Except Complaint UInt32 :=
  let mods := d.word.modifiers
  let pointerArray := 1 < mods.length ∧ mods.head? = some .array ∧ mods.getLast? = some .pointer
  if pointerArray ∨ .function ∈ mods then .ok 0
  else if d.size = 0 ∨ d.dims = [] then .ok d.size
  else match elementCount? d.dims with
    | none => .error { name := d.tag, cause := .invalidDims d.dims }
    | some count =>
      if d.size % count = 0 then .ok (d.size / count)
      else .error { name := d.tag, cause := .unevenArray d.size count }

namespace Composite

def used (c : Composite) (byPointer : Bool) : Composite :=
  if byPointer then { c with pointerUses := true } else { c with valueUses := true }

end Composite

namespace Overlay

variable {ε : Type}

/-! ## Finding types -/

/-- The last struct or union of the tag with a size, or of any if that is zero. -/
def sized? (o : Overlay) (kind : CompositeKind) (tag : Tag) (size : UInt32) : Option CompositeId :=
  ((o.composites kind).groups.get tag).reverse.find? fun id =>
    size == 0 || (o.arena.composite id).size == size

def newComposite (c : Composite) : Action ε Overlay CompositeId := do
  let o ← Action.read
  Action.modify (·.addComposite c)
  return o.arena.nextComposite

def newEnum (e : Enumeration) : Action ε Overlay EnumId := do
  let o ← Action.read
  Action.modify (·.addEnum e)
  return o.arena.nextEnum

/-- The struct or union of a tag, made empty if there is none. A size that none
of them has is a fault. -/
def findComposite (kind : CompositeKind) (tag : Tag) (size : UInt32) :
    Action Complaint Overlay CompositeId := do
  let o ← Action.read
  if (o.composites kind).groups.get tag = [] then
    Action.report (.missingComposite kind tag size)
    newComposite { kind, tag, size }
  else match o.sized? kind tag size with
    | some id => return id
    | none => Action.fail { name := tag.text, cause := .noSuchSize kind size }

def referComposite (kind : CompositeKind) (d : SymbolDef) : Action Complaint Overlay CType := do
  let size ← Action.ofExcept d.referencedSize
  let id ← findComposite kind (.ofName d.tag) size
  let byPointer := reachesByPointer d.word.modifiers
  Action.modify (·.modifyArena (·.modifyComposite id (·.used byPointer)))
  return .composite kind id

def referEnum (tag : Tag) : Action ε Overlay CType := do
  let o ← Action.read
  match (o.enums.groups.get tag).getLast? with
  | some id => return .enum id
  | none =>
    Action.report (.missingEnum tag)
    return .enum (← newEnum { tag })

def boolTypedef : Variable :=
  { addr := 0, size := 0, storage := some .typedef, type := .base .int, name := "bool" }

/-- The typedef for the null base type, made at its first use. It is in no list
and has no group. -/
def referNull : Action ε Overlay CType := do
  let o ← Action.read
  match o.nullTypedef with
  | some id => return .typedef id
  | none =>
    let id := o.arena.nextTypedef
    Action.modify fun o => { o with arena := o.arena.pushTypedef boolTypedef, nullTypedef := some id }
    return .typedef id

def referBase (d : SymbolDef) : Action Complaint Overlay CType :=
  match d.word.base with
  | .null => referNull
  | .struct => referComposite .struct d
  | .union => referComposite .union d
  | .enum => referEnum (.ofName d.tag)
  | base =>
    match base.scalar? with
    | some b => return .base b
    | none => Action.fail { name := d.tag, cause := .unreferable base }

def refer (d : SymbolDef) : Action Complaint Overlay CType := do
  return (← referBase d).derive d.word.modifiers d.dims

/-! ## Filling in -/

/-- The struct or union that a definition of this tag and size fills in: the
last one without fields and with that size or none yet, or a new one. -/
def openComposite (kind : CompositeKind) (tag : Tag) (size : UInt32) :
    Action ε Overlay CompositeId := do
  let o ← Action.read
  let empty := ((o.composites kind).groups.get tag).reverse.find? fun id =>
    let c := o.arena.composite id
    c.fields.isEmpty && (c.size == size || c.size == 0)
  match empty with
  | some id =>
    Action.modify (·.modifyArena (·.modifyComposite id fun c => { c with size }))
    return id
  | none => newComposite { kind, tag, size }

def openEnum (tag : Tag) : Action ε Overlay EnumId := do
  let o ← Action.read
  let empty := (o.enums.groups.get tag).reverse.find? fun id =>
    (o.arena.enumeration id).members.isEmpty
  match empty with
  | some id => return id
  | none => newEnum { tag }

end Overlay

end DebugSymbols
