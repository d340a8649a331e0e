import DebugSymbols.Build.Declaration

/-!
# Members

A struct, union or enum tag opens a run of member definitions, which ends with
the first end-of-struct definition after it.
-/

namespace DebugSymbols

/-- Whether a class is one for members of a struct or union, and if so whether
for bit fields. -/
def CompositeKind.bitfield? : CompositeKind → SymbolClass → Option Bool
  | .struct, .structMember => some false
  | .struct, .bitfield => some true
  | .union, .unionMember => some false
  | _, _ => none

def CompositeKind.baseCode : CompositeKind → BaseCode
  | .struct => .struct
  | .union => .union

namespace Overlay

/-- Adds a field. The size of a bit field counts bits and is not checked. -/
def addField (id : CompositeId) (offset : UInt32) (bitfield : Bool) (d : SymbolDef) :
    Action Complaint Overlay Unit := do
  let name := Text.identifier d.name
  let type ← refer d
  let size := if bitfield then d.size else type.recordedSize d.size
  if !bitfield then checkSize type size name
  Action.modify (·.modifyArena (·.modifyComposite id fun c =>
    { c with fields := c.fields ++ [{ offset, size, bitfield, name, type }] }))

def compositeMember (kind : CompositeKind) (tag : Tag) (id : CompositeId) (r : Record) :
    Action Complaint Overlay Unit :=
  match r.body with
  | .definition _ d =>
    match kind.bitfield? d.symbolClass with
    | some bitfield => addField id r.value bitfield d
    | none => Action.fail { name := tag.text, cause := .memberClass d.symbolClass kind }
  | _ => Action.fail { name := tag.text, cause := .unexpectedRecord r.kind (.composite kind) }

def enumMember (tag : Tag) (id : EnumId) (r : Record) : Action Complaint Overlay Unit :=
  let unexpected : Complaint := { name := tag.text, cause := .unexpectedRecord r.kind .enum }
  match r.body with
  | .definition _ d =>
    if d.symbolClass = .enumMember then
      Action.modify (·.modifyArena (·.modifyEnum id fun e =>
        { e with members := e.members ++ [{ value := r.value.toInt32, name := Text.identifier d.name }] }))
    else Action.fail unexpected
  | _ => Action.fail unexpected

/-- Takes the members after a tag record and gives the number of records that
followed it. -/
def members (head : Record) (enclosing : Enclosing) (tag : Tag)
    (member : Record → Action Complaint Overlay Unit) (rest : List Record) :
    Action Inconsistency Overlay Nat := do
  let inner := rest.takeWhile (!·.endsMembers)
  Action.overRecords (fun _ => member) 1 () inner
  if inner.length < rest.length then return inner.length + 1
  else (Action.fail { name := tag.text, cause := .unterminated enclosing }).locate head 0

def checkTagBase (d : SymbolDef) (enclosing : Enclosing) (base : BaseCode) :
    Action Complaint Overlay Unit :=
  if d.word.base = base then return ()
  else Action.fail { name := Text.identifier d.name, cause := .tagBase enclosing d.word.base }

def compositeRun (kind : CompositeKind) (head : Record) (d : SymbolDef) (rest : List Record) :
    Action Inconsistency Overlay Nat := do
  (checkTagBase d (.composite kind) kind.baseCode).locate head 0
  let tag := Tag.ofName d.name
  let id ← openComposite kind tag d.size
  members head (.composite kind) tag (compositeMember kind tag id) rest

def enumRun (head : Record) (d : SymbolDef) (rest : List Record) :
    Action Inconsistency Overlay Nat := do
  (checkTagBase d .enum .enum).locate head 0
  let tag := Tag.ofName d.name
  let id ← openEnum tag
  members head .enum tag (enumMember tag id) rest

end Overlay

end DebugSymbols
