import DebugSymbols.Stream.Record

/-!
# Source lines

The place in the source that line records count from, and the runs in which
they come.
-/

namespace DebugSymbols

structure SourceLine where
  path : String
  line : UInt32
  deriving DecidableEq, Repr

namespace SourceLine

def advance (s : SourceLine) (n : UInt32) : SourceLine :=
  { s with line := s.line + n }

/-- The place after a line record, none if there is nothing to count from. Only
a record with a path needs nothing. -/
def after (source : Option SourceLine) : LineOp → Option SourceLine
  | .increment => source.map (·.advance 1)
  | .incrementByte n => source.map (·.advance n.toUInt32)
  | .incrementWord n => source.map (·.advance n.toUInt32)
  | .set line => source.map fun s => { s with line }
  | .setWithPath line path => some { path, line }
  | .finish => none

end SourceLine

/-- The line records in front, up to the first that ends the line information. -/
def lineRun : List Record → List Record
  | [] => []
  | r :: rs => if r.endsLines then [r] else if r.isLine then r :: lineRun rs else []

end DebugSymbols
