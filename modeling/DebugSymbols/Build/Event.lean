import DebugSymbols.Model.Overlay
import DebugSymbols.Text.Digits

/-!
# Events

What is reported while a file is read. Narration is for readers who ask for it
and says nothing about the symbols being odd.
-/

namespace DebugSymbols

inductive Level where
  | warn | info | debug
  deriving DecidableEq, Repr

def Level.label : Level → String
  | warn => "WARN"
  | info => "INFO"
  | debug => "DEBUG"

inductive Event where
  | reading (version : UInt8) (targetUnit : UInt32) (records : Nat)
  | walking (records : Nat)
  | sourceFile (name : String)
  | built (overlay : UInt32) (functions vars : Nat) (types : TypeCounts)
  | merged (overlay : UInt32) (types : TypeCounts)
  | switched (overlay : UInt32)
  | removed (overlay : UInt32) (types : TypeCounts)
  | renamed (overlay : UInt32) (vars functions tags : Nat)
  | missingComposite (kind : CompositeKind) (tag : Tag) (size : UInt32)
  | missingEnum (tag : Tag)
  | missingFunction (name : String)
  | repeatedBody (name : String) (addr : UInt32)
  deriving DecidableEq

namespace Event

def level : Event → Level
  | reading .. | walking _ | sourceFile _ | built .. | merged .. => .info
  | switched _ | removed .. | renamed .. => .debug
  | missingComposite .. | missingEnum _ | missingFunction _ | repeatedBody .. => .warn

/-- Whether only those who asked for narration see it. -/
def isNarration (e : Event) : Bool :=
  e.level == .info

def message : Event → String
  | reading version unit records =>
    s!"MND version {version}, target unit {unit}, {records} records"
  | walking records => s!"parsing {records} symbol records"
  | sourceFile name => name
  | built overlay functions vars types =>
    s!"overlay {overlay}: {functions} functions, {vars} variables, {types.text}"
  | merged overlay types => s!"overlay {overlay}: merged {types.text}"
  | switched overlay => s!"switched to overlay {overlay}"
  | removed overlay types => s!"overlay {overlay}: removed {types.text}"
  | renamed overlay vars functions tags =>
    s!"overlay {overlay}: renamed {vars} variables, {functions} functions, {tags} tags"
  | missingComposite kind tag size =>
    s!"unable to locate {kind.keyword} {tag.text} size {size}, created empty"
  | missingEnum tag => s!"unable to locate enum {tag.text}, created empty"
  | missingFunction name => s!"unable to locate function {name}, created void"
  | repeatedBody name addr =>
    s!"function {name} at 0x{Text.upperHex 8 addr.toNat} already has a body, skipping duplicate"

end Event

def shownEvents (verbose : Bool) (events : List Event) : List Event :=
  events.filter fun e => verbose || !e.isNarration

end DebugSymbols
