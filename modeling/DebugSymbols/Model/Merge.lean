import DebugSymbols.Model.Likeness
import DebugSymbols.Model.Overlay

/-!
# Merging

The same header seen by many units yields a copy of each definition per unit.
Of definitions that are alike the first is kept. References to the others are
redirected to it, and the others leave the lists and groups.
-/

namespace DebugSymbols

/-! ## What to keep -/

/-- A list gone through: the entries kept, and each other one with the kept entry
that it is like. -/
structure Sifted (ι : Type) where
  kept : List ι := []
  copies : List (ι × ι) := []

namespace Sifted

variable {ι : Type}

/-- One more entry: a copy of the first kept entry that it is like, or kept. -/
def place (alike : ι → ι → Bool) (s : Sifted ι) (i : ι) : Sifted ι :=
  match s.kept.find? (alike · i) with
  | some k => { s with copies := s.copies ++ [(i, k)] }
  | none => { s with kept := s.kept ++ [i] }

def ofList (alike : ι → ι → Bool) (is : List ι) : Sifted ι :=
  is.foldl (place alike) {}

end Sifted

/-- The entry that stands for `i` once copies are merged. -/
def survivor {ι : Type} [DecidableEq ι] (copies : List (ι × ι)) (i : ι) : ι :=
  (copies.lookup i).getD i

def survives {ι : Type} [DecidableEq ι] (copies : List (ι × ι)) (i : ι) : Bool :=
  (copies.lookup i).isNone

/-! ## Redirecting references -/

def withoutRepeats {ι : Type} [DecidableEq ι] (is : List ι) : List ι :=
  is.foldl (fun seen i => if i ∈ seen then seen else seen ++ [i]) []

def Renumbering.aliases (f : Renumbering) (ids : List TypedefId) : List TypedefId :=
  withoutRepeats (ids.map f.typedef)

def Field.renumber (f : Renumbering) (x : Field) : Field :=
  { x with type := x.type.renumber f }

def Composite.renumber (f : Renumbering) (c : Composite) : Composite :=
  { c with fields := c.fields.map (Field.renumber f), aliases := f.aliases c.aliases }

def Enumeration.renumber (f : Renumbering) (e : Enumeration) : Enumeration :=
  { e with aliases := f.aliases e.aliases }

def Arena.renumber (f : Renumbering) (a : Arena) : Arena :=
  { composites := a.composites.map (Composite.renumber f)
    enums := a.enums.map (Enumeration.renumber f)
    typedefs := a.typedefs.map (Decl.renumber f) }

def Block.renumber (f : Renumbering) (b : Block) : Block :=
  { b with locals := b.locals.map (Decl.renumber f) }

def Function.renumber (f : Renumbering) (fn : Function) : Function :=
  { fn with signature := fn.signature.renumber f, blocks := fn.blocks.map (Block.renumber f) }

def Overlay.renumber (f : Renumbering) (o : Overlay) : Overlay :=
  { o with
    arena := o.arena.renumber f
    vars := o.vars.map (Decl.renumber f)
    funcs := o.funcs.map (Function.renumber f) }

/-! ## Merging aliases -/

namespace Arena

/-- The aliases of a copy that are like none of those kept so far. -/
def mergeAliases (a : Arena) (kept : List TypedefId) : List TypedefId → List TypedefId
  | [] => kept
  | id :: ids =>
    if kept.any fun k => (a.typedef k).alike (a.typedef id) then a.mergeAliases kept ids
    else a.mergeAliases (kept ++ [id]) ids

def absorbComposite (a : Arena) (copy kept : CompositeId) : Arena :=
  let c := a.composite copy
  a.modifyComposite kept fun k =>
    { k with
      aliases := a.mergeAliases k.aliases c.aliases
      valueUses := k.valueUses || c.valueUses
      pointerUses := k.pointerUses || c.pointerUses }

def absorbEnum (a : Arena) (copy kept : EnumId) : Arena :=
  a.modifyEnum kept fun k =>
    { k with aliases := a.mergeAliases k.aliases (a.enumeration copy).aliases }

end Arena

/-! ## Merging lists -/

namespace Overlay

def mergeComposites (kind : CompositeKind) (o : Overlay) : Overlay × Nat :=
  let alike i j := (o.arena.composite i).alike (o.arena.composite j)
  let copies := (Sifted.ofList alike (o.composites kind).listed).copies
  if copies.isEmpty then (o, 0)
  else
    let absorbed := o.modifyArena fun a => copies.foldl (fun a p => a.absorbComposite p.1 p.2) a
    let merged := absorbed.renumber { composite := survivor copies }
    (merged.setComposites kind ((merged.composites kind).retain (survives copies)), copies.length)

def mergeEnums (o : Overlay) : Overlay × Nat :=
  let alike i j := (o.arena.enumeration i).alike (o.arena.enumeration j)
  let copies := (Sifted.ofList alike o.enums.listed).copies
  if copies.isEmpty then (o, 0)
  else
    let absorbed := o.modifyArena fun a => copies.foldl (fun a p => a.absorbEnum p.1 p.2) a
    let merged := absorbed.renumber { enum := survivor copies }
    ({ merged with enums := merged.enums.retain (survives copies) }, copies.length)

/-- Typedefs, which are compared only within the group of a name. -/
def mergeTypedefs (o : Overlay) : Overlay × Nat :=
  let alike i j := (o.arena.typedef i).alike (o.arena.typedef j)
  let copies := o.typedefs.groups.entries.flatMap fun e => (Sifted.ofList alike e.2).copies
  if copies.isEmpty then (o, 0)
  else
    let merged := o.renumber { typedef := survivor copies }
    ({ merged with typedefs := merged.typedefs.retain (survives copies) }, copies.length)

/-- Merges structs, unions, enums and typedefs, in this order, and counts what
went. -/
def merge (o : Overlay) : Overlay × TypeCounts :=
  let (o, structs) := o.mergeComposites .struct
  let (o, unions) := o.mergeComposites .union
  let (o, enums) := o.mergeEnums
  let (o, typedefs) := o.mergeTypedefs
  (o, { structs, unions, enums, typedefs })

end Overlay

end DebugSymbols
