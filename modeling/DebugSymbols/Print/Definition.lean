import DebugSymbols.Model.Overlay
import DebugSymbols.Print.Declarator

/-!
# Definitions

The types of an overlay as C definitions. A body that another embeds by value
comes before it, each body comes once, and a typedef that closes a body is not
written again. What is written is decided as a list of items and then put into
text.
-/

namespace DebugSymbols

open Text

inductive Item where
  | composite (id : CompositeId)
  | enum (id : EnumId)
  | typedef (id : TypedefId)
  | blank
  deriving DecidableEq, Repr

structure Progress where
  /-- The structs and unions that have been written or passed through. -/
  composites : List CompositeId := []
  enums : List EnumId := []
  /-- The typedefs that closed a body. -/
  closing : List TypedefId := []
  deriving DecidableEq, Repr

inductive Task where
  /-- Write a struct or union after the bodies that it embeds. -/
  | define (id : CompositeId)
  /-- Write only the bodies that it embeds, as it is itself written in place. -/
  | passThrough (id : CompositeId)
  /-- Write the body, now that those it embeds are there. -/
  | close (id : CompositeId)
  | defineEnum (id : EnumId)
  deriving DecidableEq, Repr

/-- Defining comes down to closing, and so weighs more. -/
def Task.weight : Task → Nat
  | define _ => 2
  | _ => 1

def Task.totalWeight (ts : List Task) : Nat :=
  ts.foldr (fun t n => t.weight + n) 0

namespace Arena

/-- The body that a field needs before its own, if any. -/
def embedded? (a : Arena) (x : Field) : Option Task :=
  match x.type.stripArrays with
  | .composite _ id => some (if a.isInlined id then .passThrough id else .define id)
  | .enum id => some (.defineEnum id)
  | _ => none

def embedded (a : Arena) (id : CompositeId) : List Task :=
  (a.composite id).fields.filterMap a.embedded?

theorem embedded_eq_nil {a : Arena} {id : CompositeId} (h : a.composites.length ≤ id.index) :
    a.embedded id = [] := by
  have : a.composite id = default := by
    simp [composite, List.getD_eq_getElem?_getD, List.getElem?_eq_none h]
  simp [embedded, this, default]

/-- The typedef that closes a body: the alias of a type that has exactly one. -/
def closing : List TypedefId → List TypedefId
  | [id] => [id]
  | _ => []

theorem unvisited_cons_of_le {a : Arena} {visited : List CompositeId} {id : CompositeId}
    (h : a.composites.length ≤ id.index) : a.unvisited (id :: visited) = a.unvisited visited := by
  unfold unvisited
  congr 1
  refine List.filter_congr fun i hi => ?_
  have : i ≠ id.index := by have := List.mem_range.mp hi; omega
  simp [CompositeId.ext_iff, this]

theorem visit_lt {a : Arena} {visited : List CompositeId} {id : CompositeId}
    (hid : ¬visited.contains id = true) {w' w : Nat}
    (hw : a.embedded id = [] → w' < w) :
    Prod.Lex (· < ·) (· < ·) (a.unvisited (id :: visited), w') (a.unvisited visited, w) := by
  by_cases h : id.index < a.composites.length
  · exact .left _ _ (unvisited_cons_lt h (by simpa using hid))
  · rw [unvisited_cons_of_le (Nat.le_of_not_lt h)]
    exact .right _ (hw (embedded_eq_nil (Nat.le_of_not_lt h)))

def items (a : Arena) : List Task → Progress → Progress × List Item
  | [], p => (p, [])
  | .define id :: ts, p =>
    if p.composites.contains id then a.items ts p
    else a.items (a.embedded id ++ .close id :: ts) { p with composites := id :: p.composites }
  | .passThrough id :: ts, p =>
    if p.composites.contains id then a.items ts p
    else a.items (a.embedded id ++ ts) { p with composites := id :: p.composites }
  | .close id :: ts, p =>
    let (q, is) := a.items ts { p with closing := closing (a.composite id).aliases ++ p.closing }
    (q, .composite id :: is)
  | .defineEnum id :: ts, p =>
    if p.enums.contains id then a.items ts p
    else
      let (q, is) := a.items ts
        { p with
          enums := id :: p.enums
          closing := closing (a.enumeration id).aliases ++ p.closing }
      (q, .enum id :: is)
termination_by ts p => (a.unvisited p.composites, Task.totalWeight ts)
decreasing_by
  · exact .right _ (by simp [Task.totalWeight, Task.weight])
  · exact visit_lt ‹_› (fun h => by simp [h, Task.totalWeight, Task.weight])
  · exact .right _ (by simp [Task.totalWeight, Task.weight])
  · exact visit_lt ‹_› (fun h => by simp [h, Task.totalWeight, Task.weight])
  · exact .right _ (by simp [Task.totalWeight, Task.weight])
  · exact .right _ (by simp [Task.totalWeight, Task.weight])
  · exact .right _ (by simp [Task.totalWeight, Task.weight])

end Arena

namespace Overlay

/-! ## Which items -/

def typedefItems (id : TypedefId) (p : Progress) : List Item :=
  if p.closing.contains id then [] else [.typedef id]

/-- Every type of the overlay: the typedef for the null base with a blank line,
enums, structs and unions, and the typedefs that closed no body. Of structs and
unions those written in place come last, so that only those that no other
embeds show up on their own. -/
def typeItems (o : Overlay) (p : Progress) : Progress × List Item :=
  let null := o.nullTypedef.elim [] fun id => typedefItems id p ++ [.blank]
  let all := o.structs.listed ++ o.unions.listed
  let tasks := o.enums.listed.map Task.defineEnum ++
    (all.filter (!o.arena.isInlined ·) ++ all.filter o.arena.isInlined).map Task.define
  let (q, bodies) := o.arena.items tasks p
  (q, null ++ bodies ++ o.typedefs.listed.flatMap (typedefItems · q))

/-! ## Their text -/

/-- The first line of a body: its keyword and tag, after `typedef` if a typedef
closes it. A tag of the compiler's is left out if that names the type itself. -/
def bodyHead (keyword : String) (tag : Tag) (alias? : Option Variable) : String :=
  match alias? with
  | none => keyword ++ " " ++ tag.text ++ " \x7b\n"
  | some d =>
    if tag.isAnonymous && !d.type.isPointer then "typedef " ++ keyword ++ " \x7b\n"
    else "typedef " ++ keyword ++ " " ++ tag.text ++ " \x7b\n"

def bodyClose : Option Variable → String
  | none => "\x7d;\n"
  | some d => "\x7d " ++ (if d.type.isPointer then "*" else "") ++ d.name ++ ";\n"

/-- A struct or union; one without fields is commented out. -/
def compositeText (a : Arena) (id : CompositeId) : String :=
  let c := a.composite id
  let alias? := a.soleAlias c.aliases
  let body :=
    "// size: 0x" ++ upperHex 1 c.size.toNat ++ "\n" ++
    bodyHead c.kind.keyword c.tag alias? ++
    String.join (c.fields.map fun x => indent 1 ++ a.fieldLine x 1 ++ "\n") ++
    bodyClose alias?
  if c.fields.isEmpty then "/*\n" ++ body ++ "*/\n\n" else body ++ "\n"

/-- The width of the names: the length in bytes of the longest. -/
def nameWidth (ms : List Member) : Nat :=
  ms.foldl (fun w m => max w m.name.utf8ByteSize) 0

def memberText (width : Nat) (m : Member) : String :=
  indent 1 ++ padded width m.name ++ " = " ++ toString m.value.toInt ++ ",\n"

def enumText (a : Arena) (id : EnumId) : String :=
  let e := a.enumeration id
  let alias? := a.soleAlias e.aliases
  let ms := e.sortedMembers
  bodyHead "enum" e.tag alias? ++ String.join (ms.map (memberText (nameWidth ms))) ++
    bodyClose alias? ++ "\n"

def typedefText (a : Arena) (id : TypedefId) : String :=
  let d := a.typedef id
  "typedef " ++ a.declare d.type d.name 0 ++ ";\n"

def itemText (a : Arena) : Item → String
  | .composite id => compositeText a id
  | .enum id => enumText a id
  | .typedef id => typedefText a id
  | .blank => "\n"

def itemsText (o : Overlay) (written : Progress × List Item) : Progress × String :=
  (written.1, String.join (written.2.map (itemText o.arena)))

def types (o : Overlay) : String :=
  (o.itemsText (o.typeItems {})).2

end Overlay

end DebugSymbols
