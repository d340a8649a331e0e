import DebugSymbols.Proofs.Print.Bodies
import DebugSymbols.Proofs.Print.Nesting

/-!
# Printing

`printingEnds`: whatever the types of an overlay refer to, printing any of its
declarations, definitions and lists of them ends, and no struct or union is
written in place within a body of its own.
-/

namespace DebugSymbols

open Text
open Arena (Plain)

/-! ## What the printed texts are made of -/

/-- A struct or union without fields has nothing to declare. -/
def itemPieces (a : Arena) : Item → List Piece
  | .composite id =>
    let c := a.composite id
    if c.fields.isEmpty then [.text (Overlay.compositeText a id)]
    else
      .text ("// size: 0x" ++ upperHex 1 c.size.toNat ++ "\n" ++
          Overlay.bodyHead c.kind.keyword c.tag (a.soleAlias c.aliases)) ::
        (fieldLines 1 c.fields ++ [.text (Overlay.bodyClose (a.soleAlias c.aliases) ++ "\n")])
  | .enum id => [.text (Overlay.enumText a id)]
  | .typedef id => [.text "typedef ", .named 0 (a.typedef id).type (a.typedef id).name, .text ";\n"]
  | .blank => [.text "\n"]

def variablePieces (depth : Nat) (v : Variable) : List Piece :=
  [.text (commentLines (indent depth) ((placeComment v).toList ++ (sizeComment v.size).toList) ++
      indent depth ++ v.storage.elim "" fun c => c.keyword ++ " "),
    .named depth v.type v.name, .text ";\n"]

def BodyPart.pieces (a : Arena) : BodyPart → List Piece
  | locals b => b.locals.flatMap (variablePieces (b.depth + 1))
  | part => [.text (part.text a)]

def functionPieces (a : Arena) (f : Function) : List Piece :=
  let address := if f.addr = 0 then none else some s!"address: 0x{upperHex 8 f.addr.toNat}"
  let comments := [s!"path: {f.path}"] ++ address.toList ++ (sizeComment f.size).toList ++
    [s!"line start: {f.lineStart}", s!"line end:   {f.lineEnd}"]
  .text (commentLines "" comments) :: .named 0 f.signature.type f.name ::
    if f.blocks.isEmpty then [.text ";\n"]
    else .text "\n" :: (bodyParts [] f.blocks).flatMap (BodyPart.pieces a)

def Overlay.declarationPieces (o : Overlay) : List Piece :=
  (o.vars.flatMap fun v => variablePieces 0 v ++ [Piece.text "\n"]) ++
    o.funcs.flatMap fun f => functionPieces o.arena f ++ [Piece.text "\n"]

section
variable (a : Arena)

@[simp] theorem plain_itemPieces (i : Item) : Plain (itemPieces a i) := by
  cases i with
  | composite id =>
    unfold itemPieces
    dsimp only
    split <;> simp
  | _ => simp [itemPieces]

@[simp] theorem plain_variablePieces (depth : Nat) (v : Variable) : Plain (variablePieces depth v) := by
  simp [variablePieces]

@[simp] theorem plain_bodyPart (part : BodyPart) : Plain (part.pieces a) := by
  cases part <;> simp [BodyPart.pieces]

@[simp] theorem plain_functionPieces (f : Function) : Plain (functionPieces a f) := by
  unfold functionPieces
  dsimp only
  rw [Arena.plain_text, Arena.plain_named]
  split <;> simp

theorem piecesText_item (i : Item) : a.piecesText [] (itemPieces a i) = Overlay.itemText a i := by
  cases i with
  | composite id =>
    simp only [itemPieces, Overlay.itemText]
    by_cases hempty : (a.composite id).fields.isEmpty = true
    · simp [hempty]
    · unfold Overlay.compositeText
      simp only [if_neg hempty, Arena.piecesText_cons, Arena.piecesText_append, Arena.piecesText_fieldLines,
        Arena.pieceText_text, Arena.piecesText_nil, Arena.fieldLine, String.append_empty, String.append_assoc]
  | enum id => simp [itemPieces, Overlay.itemText]
  | typedef id => simp [itemPieces, Overlay.itemText, Overlay.typedefText, Arena.declare, String.append_assoc]
  | blank => simp [itemPieces, Overlay.itemText]

theorem piecesText_variable (depth : Nat) (v : Variable) :
    a.piecesText [] (variablePieces depth v) = a.variableText depth v := by
  simp [variablePieces, Arena.variableText, Arena.declare, String.append_assoc]

theorem piecesText_bodyPart (part : BodyPart) : a.piecesText [] (part.pieces a) = part.text a := by
  cases part with
  | locals b =>
    unfold BodyPart.pieces BodyPart.text
    rw [Arena.piecesText_flatMap]
    simp only [piecesText_variable]
  | _ => simp [BodyPart.pieces]

theorem declareFunction_eq (s : Signature) (name : String) : a.declareFunction s name = a.declare s.type name 0 := rfl

theorem piecesText_function (f : Function) : a.piecesText [] (functionPieces a f) = a.functionText f := by
  unfold functionPieces Arena.functionText
  by_cases hempty : f.blocks.isEmpty = true
  · simp [hempty, declareFunction_eq, Arena.declare]
  · simp [hempty, declareFunction_eq, Arena.declare, Arena.piecesText_flatMap, piecesText_bodyPart, String.append_assoc]

end

theorem piecesText_declarations (o : Overlay) : o.arena.piecesText [] o.declarationPieces = o.declarations := by
  unfold Overlay.declarationPieces Overlay.declarations
  rw [Arena.piecesText_append, Arena.piecesText_flatMap, Arena.piecesText_flatMap]
  simp [piecesText_variable, piecesText_function]

theorem piecesText_items (o : Overlay) (written : Progress × List Item) :
    o.arena.piecesText [] (written.2.flatMap (itemPieces o.arena)) = (o.itemsText written).2 := by
  unfold Overlay.itemsText
  rw [Arena.piecesText_flatMap]
  simp only [piecesText_item]

/-! ## That printing ends -/

def Arena.PrintsAs (a : Arena) (ps : List Piece) (text : String) : Prop :=
  ∃ out, (∀ out', a.Prints [] ps out' ↔ out' = out) ∧ out.plain = text ∧ out.NestsOnce

theorem Arena.PrintsAs.of_plain {a : Arena} {ps : List Piece} {text : String} (hps : Plain ps)
    (htext : a.piecesText [] ps = text) : a.PrintsAs ps text := by
  obtain ⟨out, hout⟩ := a.exists_prints [] ps
  refine ⟨out, fun out' => ⟨hout.unique, ?_⟩, ?_, ?_⟩
  · rintro rfl
    exact hout
  · rw [hout.plain, htext]
  · exact (hout.fresh (hps.fresh [])).nests

/-- What printing comes to, by rules that count nothing. The texts are those of declarations at any depth, of
single definitions and of all types, from whatever has been written, and of all variables and functions. -/
structure Overlay.PrintingEnds (o : Overlay) : Prop where
  declare : ∀ t name depth, o.arena.PrintsAs [.named depth t name] (o.arena.declare t name depth)
  function : ∀ s name, o.arena.PrintsAs [.named 0 s.type name] (o.arena.declareFunction s name)
  field : ∀ x depth, o.arena.PrintsAs (x.pieces depth) (o.arena.fieldLine x depth)
  writes : ∀ ts p q is, o.arena.Writes ts p q is ↔ o.arena.items ts p = (q, is)
  record : ∀ id p, o.arena.PrintsAs ((o.arena.items [.define id] p).2.flatMap (itemPieces o.arena))
    (o.itemsText (o.arena.items [.define id] p)).2
  types : ∀ p, o.arena.PrintsAs ((o.typeItems p).2.flatMap (itemPieces o.arena)) (o.itemsText (o.typeItems p)).2
  declarations : o.arena.PrintsAs o.declarationPieces o.declarations

theorem Overlay.printingEnds (o : Overlay) : o.PrintingEnds where
  declare t name depth := .of_plain (by simp) (by simp [Arena.declare])
  function s name := .of_plain (by simp) (by simp [declareFunction_eq, Arena.declare])
  field x depth := .of_plain (by simp) (Arena.piecesText_field depth x)
  writes _ _ _ _ := Arena.writes_iff
  record id p := .of_plain (by simp) (piecesText_items o _)
  types p := .of_plain (by simp) (piecesText_items o _)
  declarations := .of_plain (by simp [declarationPieces]) (piecesText_declarations o)

end DebugSymbols
