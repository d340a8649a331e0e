/-!
# Record kinds

The byte that says what kind of record follows.
-/

namespace DebugSymbols

inductive Kind where
  | name1 | name2
  | incLine | incLineByte | incLineWord | setLine | setLineWithPath | endLine
  | funcStart | funcEnd | blockStart | blockEnd
  | def1 | def2
  | overlay | setOverlay
  deriving DecidableEq, Repr

namespace Kind

def code : Kind → UInt8
  | name1 => 0x01
  | name2 => 0x02
  | incLine => 0x80
  | incLineByte => 0x82
  | incLineWord => 0x84
  | setLine => 0x86
  | setLineWithPath => 0x88
  | endLine => 0x8A
  | funcStart => 0x8C
  | funcEnd => 0x8E
  | blockStart => 0x90
  | blockEnd => 0x92
  | def1 => 0x94
  | def2 => 0x96
  | overlay => 0x98
  | setOverlay => 0x9A

def ofCode? : UInt8 → Option Kind
  | 0x01 => some name1
  | 0x02 => some name2
  | 0x80 => some incLine
  | 0x82 => some incLineByte
  | 0x84 => some incLineWord
  | 0x86 => some setLine
  | 0x88 => some setLineWithPath
  | 0x8A => some endLine
  | 0x8C => some funcStart
  | 0x8E => some funcEnd
  | 0x90 => some blockStart
  | 0x92 => some blockEnd
  | 0x94 => some def1
  | 0x96 => some def2
  | 0x98 => some overlay
  | 0x9A => some setOverlay
  | _ => none

def label : Kind → String
  | name1 => "Name1"
  | name2 => "Name2"
  | incLine => "IncLine"
  | incLineByte => "IncLineByte"
  | incLineWord => "IncLineWord"
  | setLine => "SetLine"
  | setLineWithPath => "SetLineWithPath"
  | endLine => "EndLine"
  | funcStart => "FuncStart"
  | funcEnd => "FuncEnd"
  | blockStart => "BlockStart"
  | blockEnd => "BlockEnd"
  | def1 => "Def"
  | def2 => "Def2"
  | overlay => "Overlay"
  | setOverlay => "SetOverlay"

theorem ofCode?_code (k : Kind) : ofCode? k.code = some k := by
  cases k <;> rfl

theorem code_of_ofCode? {c : UInt8} {k : Kind} (h : ofCode? c = some k) : k.code = c := by
  unfold ofCode? at h
  split at h <;> cases h <;> rfl

end Kind

end DebugSymbols
