import DebugSymbols.Build.Reference
import DebugSymbols.Model.Likeness

/-!
# Declarations

What single definitions declare: variables, functions and typedefs. A recorded
size is checked against the size that follows from the type, where one does.
-/

namespace DebugSymbols

/-- The size to record for a definition; pointers always have their own. -/
def CType.recordedSize (t : CType) (size : UInt32) : UInt32 :=
  if t.isPointer then pointerSize else size

namespace Overlay

def checkSize (type : CType) (size : UInt32) (name : String) : Action Complaint Overlay Unit := do
  let o ← Action.read
  match o.arena.size? type with
  | some computed =>
    if size = 0 ∨ size = computed then return ()
    else Action.fail { name, cause := .sizeMismatch size computed }
  | none => return ()

def declare (addr : UInt32) (storage : Option StorageClass) (d : SymbolDef) :
    Action Complaint Overlay Variable := do
  let name := Text.identifier d.name
  let type ← refer d
  let size := type.recordedSize d.size
  checkSize type size name
  return { addr, size, storage, type, name }

/-- A function, if the type is one, and else a variable. -/
def addGlobal (o : Overlay) (v : Variable) : Overlay :=
  match v.type with
  | .function result params variadic =>
    o.addFunc { addr := v.addr, size := v.size, name := v.name,
                signature := { result, params, variadic } }
  | _ => o.addVar v

def global (addr : UInt32) (storage : StorageClass) (d : SymbolDef) :
    Action Complaint Overlay Unit := do
  let v ← declare addr (some storage) d
  Action.modify (·.addGlobal v)

/-! ## Typedefs -/

/-- The type that a typedef of `t` is an alias of: `t` or, for a pointer, what
it points at. -/
def aliasTarget : CType → CType
  | .pointer t => t
  | t => t

def aliases? (o : Overlay) : CType → Option (List TypedefId)
  | .composite _ id => some (o.arena.composite id).aliases
  | .enum id => some (o.arena.enumeration id).aliases
  | _ => none

def addAlias (o : Overlay) (new : TypedefId) : CType → Overlay
  | .composite _ id =>
    o.modifyArena (·.modifyComposite id fun c => { c with aliases := c.aliases ++ [new] })
  | .enum id =>
    o.modifyArena (·.modifyEnum id fun e => { e with aliases := e.aliases ++ [new] })
  | _ => o

/-- Adds a typedef and makes it an alias of its target, unless that has an alias
of the same name. Two of one name must be alike. -/
def typedef (addr : UInt32) (d : SymbolDef) : Action Complaint Overlay Unit := do
  let v ← declare addr (some .typedef) d
  let o ← Action.read
  let target := aliasTarget v.type
  let namesakes := ((o.aliases? target).getD []).filter fun id => (o.arena.typedef id).name == v.name
  if namesakes.all fun id => (o.arena.typedef id).alike v then
    Action.modify fun o =>
      let added := o.addTypedef v
      if namesakes.isEmpty then added.addAlias o.arena.nextTypedef target else added
  else Action.fail { name := v.name, cause := .typedefRedefined }

end Overlay

end DebugSymbols
