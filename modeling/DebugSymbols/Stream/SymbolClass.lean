/-!
# Symbol classes

The storage class of a symbol definition, as COFF numbers them. A number
without a name of its own is kept as it is.
-/

namespace DebugSymbols

inductive SymbolClass where
  | null | auto | external | static | register | externalDef | label | undefinedLabel
  | structMember | argument | structTag | unionMember | unionTag | typedef | undefinedStatic
  | enumTag | enumMember | registerParam | bitfield
  | block | function | endOfStruct | file | line | aliasName | hidden
  | other (code : UInt16)
  deriving DecidableEq, Repr

namespace SymbolClass

def code : SymbolClass → UInt16
  | null => 0
  | auto => 1
  | external => 2
  | static => 3
  | register => 4
  | externalDef => 5
  | label => 6
  | undefinedLabel => 7
  | structMember => 8
  | argument => 9
  | structTag => 10
  | unionMember => 11
  | unionTag => 12
  | typedef => 13
  | undefinedStatic => 14
  | enumTag => 15
  | enumMember => 16
  | registerParam => 17
  | bitfield => 18
  | block => 100
  | function => 101
  | endOfStruct => 102
  | file => 103
  | line => 104
  | aliasName => 105
  | hidden => 106
  | other code => code

def ofCode : UInt16 → SymbolClass
  | 0 => null
  | 1 => auto
  | 2 => external
  | 3 => static
  | 4 => register
  | 5 => externalDef
  | 6 => label
  | 7 => undefinedLabel
  | 8 => structMember
  | 9 => argument
  | 10 => structTag
  | 11 => unionMember
  | 12 => unionTag
  | 13 => typedef
  | 14 => undefinedStatic
  | 15 => enumTag
  | 16 => enumMember
  | 17 => registerParam
  | 18 => bitfield
  | 100 => block
  | 101 => function
  | 102 => endOfStruct
  | 103 => file
  | 104 => line
  | 105 => aliasName
  | 106 => hidden
  | code => other code

def mnemonic : SymbolClass → String
  | null => "NULL"
  | auto => "AUTO"
  | external => "EXT"
  | static => "STAT"
  | register => "REG"
  | externalDef => "EXTDEF"
  | label => "LABEL"
  | undefinedLabel => "ULABEL"
  | structMember => "MOS"
  | argument => "ARG"
  | structTag => "STRTAG"
  | unionMember => "MOU"
  | unionTag => "UNTAG"
  | typedef => "TPDEF"
  | undefinedStatic => "USTATIC"
  | enumTag => "ENTAG"
  | enumMember => "MOE"
  | registerParam => "REGPARM"
  | bitfield => "FIELD"
  | block => "BLOCK"
  | function => "FCN"
  | endOfStruct => "EOS"
  | file => "FILE"
  | line => "LINE"
  | aliasName => "ALIAS"
  | hidden => "HIDDEN"
  | other _ => "?"

def text : SymbolClass → String
  | other code => s!"?{code}"
  | c => c.mnemonic

theorem code_ofCode (c : UInt16) : (ofCode c).code = c := by
  unfold ofCode
  split <;> rfl

end SymbolClass

end DebugSymbols
