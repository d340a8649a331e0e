import DebugSymbols.Build.SourceLine
import DebugSymbols.Build.TopLevel

/-!
# The builder

A walk over the record stream that builds the overlays. A record that opens a
run (members, a function body, line records) is taken together with the run.
-/

namespace DebugSymbols

structure Builder where
  /-- Overlay 0 first, then in the order of their records. -/
  overlays : List Overlay := [{ id := 0, addr := 0, length := 0 }]
  /-- The number of each overlay, with its position. -/
  ids : List (UInt32 × Nat) := [(0, 0)]
  /-- The position of the overlay that records belong to. -/
  current : Nat := 0
  /-- The source line that line records count from, until one ends it. -/
  source : Option SourceLine := none
  deriving DecidableEq

namespace Builder

variable {ε α : Type}

def currentOverlay (b : Builder) : Overlay :=
  b.overlays.getD b.current default

def setCurrentOverlay (b : Builder) (o : Overlay) : Builder :=
  { b with overlays := b.overlays.set b.current o }

def onCurrent (m : Action ε Overlay α) : Action ε Builder α :=
  m.onPart currentOverlay fun o b => b.setCurrentOverlay o

def position? (b : Builder) (id : UInt32) : Option Nat :=
  b.ids.lookup id

/-- Puts a new overlay at the end, and its position under its number. -/
def appendOverlay (o : Overlay) (b : Builder) : Builder :=
  { b with overlays := b.overlays ++ [o], ids := b.ids ++ [(o.id, b.overlays.length)] }

/-! ## Line records -/

/-- Maps the record's address to the source line that it leads to. -/
def mapLine (addr : UInt32) (s : SourceLine) (b : Builder) : Builder :=
  { b.setCurrentOverlay (b.currentOverlay.addLine { addr, path := s.path, line := s.line }) with
    source := some s }

def lineRecord (r : Record) : Action Complaint Builder Unit :=
  match r.body with
  | .line .finish => Action.modify fun b => { b with source := none }
  | .line op => do
    let b ← Action.read
    match SourceLine.after b.source op with
    | some s => Action.modify (mapLine r.value s)
    | none => Action.fail { cause := .lineWithoutPath }
  | _ => return ()

def lines (head : Record) (rest : List Record) : Action Inconsistency Builder Nat := do
  let run := lineRun (head :: rest)
  Action.overRecords (fun _ => lineRecord) 0 () run
  return run.length - 1

/-! ## Overlays -/

def addOverlay (addr length id : UInt32) : Action Complaint Builder Unit := do
  let b ← Action.read
  match b.position? id with
  | some _ => Action.fail { cause := .overlayTwice id }
  | none => Action.modify (appendOverlay { id, addr, length })

def switchOverlay (id : UInt32) : Action Complaint Builder Unit := do
  let b ← Action.read
  match b.position? id with
  | some position =>
    Action.modify fun b => { b with current := position }
    Action.report (.switched id)
  | none => Action.fail { cause := .unknownOverlay id }

/-! ## The walk -/

/-- Takes a record and the run that it opens, and gives the number of records
that followed it. Faults count from the record. -/
def step (head : Record) (rest : List Record) : Action Inconsistency Builder Nat :=
  match head.body with
  | .symbol _ name => do
    onCurrent (Action.modify (·.addSymbol { addr := head.value, name }))
    return 0
  | .line _ => lines head rest
  | .functionStart start => onCurrent (Overlay.functionSpan head start rest)
  | .functionEnd _ | .blockStart _ | .blockEnd _ =>
    (Action.fail { cause := .functionRecordOutside }).locate head 0
  | .definition _ d => onCurrent (Overlay.definition head d rest)
  | .overlay length id => do
    (addOverlay head.value length id).locate head 0
    return 0
  | .setOverlay => do
    (switchOverlay head.value).locate head 0
    return 0

/-- Takes the records, the first of which is number `index`. -/
def walkFrom (index : Nat) : List Record → Action Inconsistency Builder Unit
  | [] => return ()
  | r :: rs => do
    let followers ← (step r rs).mapError (·.shift index)
    walkFrom (index + 1 + followers) (rs.drop followers)
termination_by rs => rs.length

def walk (records : List Record) : Action Inconsistency Builder Unit := do
  Action.report (.walking records.length)
  walkFrom 0 records

def summary (b : Builder) : List Event :=
  b.overlays.map fun o =>
    .built o.id o.funcs.length o.vars.length o.typeCounts

def build (records : List Record) : Outcome Inconsistency Builder (List Overlay) :=
  let finish : Action Inconsistency Builder (List Overlay) := do
    walk records
    let b ← Action.read
    b.summary.forM Action.report
    return b.overlays
  finish {}

end Builder

end DebugSymbols
