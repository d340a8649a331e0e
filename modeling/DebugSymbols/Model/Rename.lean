import DebugSymbols.Model.FreshName
import DebugSymbols.Model.Overlay

/-!
# Renaming

Names and tags that are still shared after merging belong to different things.
Variables and functions get their address behind the name, tags their place
among the duplicates.
-/

namespace DebugSymbols

/-- What renaming has come to: the overlay, the names in use, and how many
names it has given. -/
structure Renaming where
  overlay : Overlay
  taken : List String
  count : Nat := 0

namespace Renaming

def var (r : Renaming) (i : Nat) : Renaming :=
  let v := r.overlay.var i
  let name := freshName r.taken v.name v.addr
  { overlay := r.overlay.modifyVar i fun v => { v with name }
    taken := name :: r.taken
    count := r.count + 1 }

/-- Gives a function of the group `key` a fresh name. One with a name of its own
has got it from its address already. -/
def func (key : String) (r : Renaming) (i : Nat) : Renaming :=
  let f := r.overlay.func i
  if f.name = key then
    let name := freshName r.taken key f.addr
    { overlay := r.overlay.modifyFunc i fun f => { f with name }
      taken := name :: r.taken
      count := r.count + 1 }
  else r

def composite (letter : Char) (tag : Tag) (r : Renaming) (entry : CompositeId × Nat) : Renaming :=
  let fresh := freshTag r.taken tag letter entry.2
  { overlay := r.overlay.modifyArena (·.modifyComposite entry.1 fun c => { c with tag := fresh })
    taken := fresh.text :: r.taken
    count := r.count + 1 }

def enum (tag : Tag) (r : Renaming) (entry : EnumId × Nat) : Renaming :=
  let fresh := freshTag r.taken tag 'e' entry.2
  { overlay := r.overlay.modifyArena (·.modifyEnum entry.1 fun e => { e with tag := fresh })
    taken := fresh.text :: r.taken
    count := r.count + 1 }

def collisions {κ ι : Type} (rename : κ → Renaming → ι × Nat → Renaming) (groups : Groups κ ι)
    (r : Renaming) : Renaming :=
  groups.entries.foldl (fun r e => if e.2.length < 2 then r else e.2.zipIdx.foldl (rename e.1) r) r

end Renaming

namespace Overlay

/-- Renames the variables of each name that more than one definition has;
`extern` declarations do not define. -/
def renameVars (o : Overlay) : Renaming :=
  o.varNames.entries.foldl
    (fun r e =>
      let defined := e.2.filter fun i => (o.var i).storage != some .external
      if defined.length < 2 then r else defined.foldl Renaming.var r)
    { overlay := o, taken := o.varNames.keys }

def renameFuncs (o : Overlay) : Renaming :=
  Renaming.collisions (fun key r e => r.func key e.1) o.funcNames
    { overlay := o, taken := o.funcNames.keys ++ o.funcs.map (·.name) }

def tagTexts (o : Overlay) : List String :=
  (o.structs.groups.keys ++ o.unions.groups.keys ++ o.enums.groups.keys).map Tag.text

def renameTags (o : Overlay) : Renaming :=
  let composites (kind : CompositeKind) :=
    Renaming.collisions (Renaming.composite kind.letter) (o.composites kind).groups
  Renaming.collisions Renaming.enum o.enums.groups
    (composites .union (composites .struct { overlay := o, taken := o.tagTexts }))

structure RenameCounts where
  vars : Nat
  functions : Nat
  tags : Nat
  deriving DecidableEq, Repr

/-- Makes the names of variables and functions and the tags unique, and groups
them anew. -/
def rename (o : Overlay) : Overlay × RenameCounts :=
  let vars := o.renameVars
  let funcs := vars.overlay.renameFuncs
  let tags := funcs.overlay.renameTags
  (tags.overlay.regroupNames.regroupTags,
    { vars := vars.count, functions := funcs.count, tags := tags.count })

end Overlay

end DebugSymbols
