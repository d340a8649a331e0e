import DebugSymbols.Build.Builder
import DebugSymbols.Model.Merge
import DebugSymbols.Model.Rename
import DebugSymbols.Stream.Reader

/-!
# Symbol tables

From the bytes of a symbol file to its finished model: read, build, merge and
rename.
-/

namespace DebugSymbols

inductive SymbolError where
  | format (e : FormatError)
  | inconsistency (e : Inconsistency)
  deriving DecidableEq

def SymbolError.message : SymbolError → String
  | format e => e.message
  | inconsistency e => e.message

structure SymbolTable where
  header : Header
  /-- Overlay 0 first, then in the order of their records. -/
  overlays : List Overlay
  deriving DecidableEq

/-- A result, and what was reported on the way to it. -/
structure Reported (α : Type) where
  value : α
  events : List Event

namespace SymbolTable

def overlay? (t : SymbolTable) (id : UInt32) : Option Overlay :=
  t.overlays.find? (·.id == id)

def finish (o : Overlay) : Reported Overlay :=
  let (merged, removed) := o.merge
  let (renamed, counts) := merged.rename
  { value := renamed
    events :=
      [.removed o.id removed, .merged o.id removed,
        .renamed o.id counts.vars counts.functions counts.tags] }

def ofFile (f : SymbolFile) : Reported (Except Inconsistency SymbolTable) :=
  let reading := Event.reading f.header.version f.header.targetUnit f.records.length
  let built := Builder.build f.records
  match built.result with
  | .error e => { value := .error e, events := reading :: built.events }
  | .ok overlays =>
    let finished := overlays.map finish
    { value := .ok { header := f.header, overlays := finished.map (·.value) }
      events := reading :: built.events ++ finished.flatMap (·.events) }

def ofBytes (bytes : List UInt8) : Reported (Except SymbolError SymbolTable) :=
  match SymbolFile.decode bytes with
  | .error e => { value := .error (.format e), events := [] }
  | .ok f =>
    let r := ofFile f
    { r with value := r.value.mapError .inconsistency }

end SymbolTable

end DebugSymbols
