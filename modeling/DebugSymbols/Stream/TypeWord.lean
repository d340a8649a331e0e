/-!
# Type words

Sixteen bits that spell a type: the base in the low four, above it up to six
modifiers of two bits each, outermost first, ended by an empty one.
-/

namespace DebugSymbols

inductive BaseCode where
  | null | void | char | short | int | long | float | double
  | struct | union | enum | enumMember
  | uchar | ushort | uint | ulong
  deriving DecidableEq, Repr

namespace BaseCode

def all : List BaseCode :=
  [null, void, char, short, int, long, float, double, struct, union, enum, enumMember,
    uchar, ushort, uint, ulong]

def mnemonic : BaseCode → String
  | null => "NULL"
  | void => "VOID"
  | char => "CHAR"
  | short => "SHORT"
  | int => "INT"
  | long => "LONG"
  | float => "FLOAT"
  | double => "DOUBLE"
  | struct => "STRUCT"
  | union => "UNION"
  | enum => "ENUM"
  | enumMember => "MOE"
  | uchar => "UCHAR"
  | ushort => "USHORT"
  | uint => "UINT"
  | ulong => "ULONG"

end BaseCode

inductive Modifier where
  | pointer | function | array
  deriving DecidableEq, Repr

namespace Modifier

/-- The modifier's two bits; zero stands for none. -/
def bits : Modifier → UInt16
  | pointer => 1
  | function => 2
  | array => 3

def ofBits? (bits : UInt16) : Option Modifier :=
  [pointer, function, array].find? (·.bits == bits)

def mnemonic : Modifier → String
  | pointer => "PTR"
  | function => "FCN"
  | array => "ARY"

end Modifier

structure TypeWord where
  bits : UInt16
  deriving DecidableEq, Repr

namespace TypeWord

def slots : Nat := 6

def base (w : TypeWord) : BaseCode :=
  BaseCode.all.getD (w.bits.toNat % 16) .ulong

/-- The modifiers in the low bits, up to the first empty slot. -/
def modifiersFrom : Nat → UInt16 → List Modifier
  | 0, _ => []
  | n + 1, bits =>
    match Modifier.ofBits? (bits &&& 3) with
    | some m => m :: modifiersFrom n (bits >>> 2)
    | none => []

/-- The modifiers, outermost first. -/
def modifiers (w : TypeWord) : List Modifier :=
  modifiersFrom slots (w.bits >>> 4)

/-- The bits of modifiers, the first in the lowest place. -/
def packed : List Modifier → UInt16
  | [] => 0
  | m :: ms => m.bits ||| packed ms <<< (2 : UInt16)

/-- The word of a base number and modifiers, as many as there is room for. -/
def compose (base : UInt16) (mods : List Modifier) : TypeWord :=
  ⟨(base &&& 15) ||| packed (mods.take slots) <<< (4 : UInt16)⟩

def text (w : TypeWord) : String :=
  String.join (w.modifiers.map (·.mnemonic ++ " ")) ++ w.base.mnemonic

end TypeWord

end DebugSymbols
