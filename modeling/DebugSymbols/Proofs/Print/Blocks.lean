import DebugSymbols.Print.Declaration

/-!
# Blocks as a forest

Whatever depths blocks have, they are a forest in pre-order: the blocks behind
one that are deeper, up to the first that is not, are inside it. They are printed
as that forest, each between an opening and a closing brace of its own.
-/

namespace DebugSymbols

open Text

/-- A first block with those inside it, and the blocks behind them. -/
inductive BlockForest where
  | nil
  | node (block : Block) (inner rest : BlockForest)

namespace BlockForest

def preorder : BlockForest → List Block
  | nil => []
  | node b inner rest => b :: inner.preorder ++ rest.preorder

def parts : BlockForest → List BodyPart
  | nil => []
  | node b inner rest => .opening b :: .locals b :: inner.parts ++ .closing b :: rest.parts

/-- Each block is between lines with its braces, further in the deeper it is; first
come its locals and then the blocks inside it. -/
def text (a : Arena) : BlockForest → String
  | nil => ""
  | node b inner rest =>
    indent b.depth ++ "\x7b //line: " ++ toString b.lineStart ++ "\n" ++
      String.join (b.locals.map (a.variableText (b.depth + 1))) ++ inner.text a ++
    indent b.depth ++ "\x7d //line: " ++ toString b.lineEnd ++ "\n" ++ rest.text a

def ofBlocks : List Block → BlockForest
  | [] => nil
  | b :: bs =>
    node b (ofBlocks (bs.takeWhile (b.depth < ·.depth))) (ofBlocks (bs.dropWhile (b.depth < ·.depth)))
termination_by bs => bs.length
decreasing_by
  · exact Nat.lt_succ_of_le (List.takeWhile_prefix _).length_le
  · exact Nat.lt_succ_of_le (List.dropWhile_suffix _).length_le

theorem preorder_ofBlocks (bs : List Block) : (ofBlocks bs).preorder = bs := by
  fun_induction ofBlocks bs with
  | case1 => rfl
  | case2 b bs ihInner ihRest =>
    rw [preorder, ihInner, ihRest, List.cons_append, List.takeWhile_append_dropWhile]

/-! ## Printing -/

section
variable {o b : Block}

theorem takeWhile_open_of_lt (up outer : List Block) (h : o.depth < b.depth) :
    (up ++ o :: outer).takeWhile (fun x => decide (b.depth ≤ x.depth)) =
        up.takeWhile (fun x => decide (b.depth ≤ x.depth)) ∧
      (up ++ o :: outer).dropWhile (fun x => decide (b.depth ≤ x.depth)) =
        up.dropWhile (fun x => decide (b.depth ≤ x.depth)) ++ o :: outer := by
  have ho : ¬ b.depth ≤ o.depth := Nat.not_le.mpr h
  induction up with
  | nil => simp [ho]
  | cons u up ih =>
    by_cases hu : b.depth ≤ u.depth
    · simp [hu, ih]
    · simp [hu]

theorem takeWhile_open_of_le {up : List Block} (outer : List Block) (h : b.depth ≤ o.depth)
    (hup : ∀ u ∈ up, o.depth < u.depth) :
    (up ++ o :: outer).takeWhile (fun x => decide (b.depth ≤ x.depth)) =
        up ++ o :: outer.takeWhile (fun x => decide (b.depth ≤ x.depth)) ∧
      (up ++ o :: outer).dropWhile (fun x => decide (b.depth ≤ x.depth)) =
        outer.dropWhile (fun x => decide (b.depth ≤ x.depth)) := by
  have hall : ∀ u ∈ up, decide (b.depth ≤ u.depth) = true := fun u hu => by
    have := hup u hu
    simp
    omega
  rw [List.takeWhile_append_of_pos hall, List.dropWhile_append_of_pos hall]
  simp [h]

theorem bodyParts_split {up : List Block} (bs outer : List Block) (hup : ∀ u ∈ up, o.depth < u.depth) :
    bodyParts (up ++ o :: outer) bs =
      bodyParts up (bs.takeWhile (o.depth < ·.depth)) ++
        .closing o :: bodyParts outer (bs.dropWhile (o.depth < ·.depth)) := by
  induction bs generalizing up with
  | nil => simp [bodyParts]
  | cons b bs ih =>
    by_cases hb : o.depth < b.depth
    · obtain ⟨htake, hdrop⟩ := takeWhile_open_of_lt up outer hb
      have hstill : ∀ u ∈ b :: up.dropWhile (fun x => decide (b.depth ≤ x.depth)), o.depth < u.depth := by
        intro u hu
        obtain rfl | hu := List.mem_cons.mp hu
        · exact hb
        · exact hup u ((List.dropWhile_suffix _).subset hu)
      have hrest := ih hstill
      rw [List.cons_append] at hrest
      simp only [bodyParts, htake, hdrop, hrest, hb, decide_true, List.takeWhile_cons_of_pos,
        List.dropWhile_cons_of_pos, List.append_assoc]
    · obtain ⟨htake, hdrop⟩ := takeWhile_open_of_le outer (Nat.not_lt.mp hb) hup
      simp [bodyParts, htake, hdrop, hb]

end

theorem bodyParts_eq (bs : List Block) : bodyParts [] bs = (ofBlocks bs).parts := by
  fun_induction ofBlocks bs with
  | case1 => rfl
  | case2 b bs ihInner ihRest =>
    have hnone : ∀ u ∈ ([] : List Block), b.depth < u.depth := fun _ hu => nomatch hu
    have hsplit := bodyParts_split bs [] hnone
    rw [List.nil_append] at hsplit
    rw [parts, ← ihInner, ← ihRest]
    simp [bodyParts, hsplit]

theorem join_parts (a : Arena) (f : BlockForest) : String.join (f.parts.map (BodyPart.text a)) = f.text a := by
  induction f with
  | nil => rfl
  | node b inner rest ihInner ihRest =>
    rw [parts, text, ← ihInner, ← ihRest]
    simp only [BodyPart.text, List.map_cons, List.map_append, String.join_cons, String.join_append,
      String.append_assoc]
    rfl

end BlockForest

theorem Arena.functionText_eq (a : Arena) (f : Function) : a.functionText f =
    "// path: " ++ f.path ++ "\n" ++
    (if f.addr = 0 then "" else "// address: 0x" ++ upperHex 8 f.addr.toNat ++ "\n") ++
    (if f.size = 0 then "" else "// size: 0x" ++ upperHex 1 f.size.toNat ++ "\n") ++
    "// line start: " ++ toString f.lineStart ++ "\n" ++ "// line end:   " ++ toString f.lineEnd ++ "\n" ++
    a.declareFunction f.signature f.name ++
    if f.blocks = [] then ";\n" else "\n" ++ (BlockForest.ofBlocks f.blocks).text a := by
  have hstring (s : String) : toString s = s := rfl
  rw [functionText, BlockForest.bodyParts_eq, BlockForest.join_parts]
  refine String.toList_inj.mp ?_
  by_cases haddr : f.addr = 0 <;> by_cases hsize : f.size = 0 <;> by_cases hnil : f.blocks = [] <;>
    simp [haddr, hsize, hnil, commentLines, sizeComment, hstring]

namespace BlockForest

/-! ## Depths that count the blocks around -/

/-- Outermost blocks have depth `d`, and each level of nesting adds one. -/
def AtDepth (d : Nat) : BlockForest → Prop
  | nil => True
  | node b inner rest => b.depth = d ∧ inner.AtDepth (d + 1) ∧ rest.AtDepth d

theorem AtDepth.le {f : BlockForest} {d : Nat} (h : f.AtDepth d) : ∀ b ∈ f.preorder, d ≤ b.depth := by
  induction f generalizing d with
  | nil => exact fun _ hb => nomatch hb
  | node b inner rest ihInner ihRest =>
    obtain ⟨rfl, hinner, hrest⟩ := h
    intro c hc
    obtain rfl | hc | hc : c = b ∨ c ∈ inner.preorder ∨ c ∈ rest.preorder := by simpa [preorder] using hc
    · exact Nat.le_refl _
    · exact Nat.le_of_succ_le (ihInner hinner c hc)
    · exact ihRest hrest c hc

theorem ofBlocks_preorder {f : BlockForest} {d : Nat} (h : f.AtDepth d) : ofBlocks f.preorder = f := by
  induction f generalizing d with
  | nil => rw [preorder, ofBlocks]
  | node b inner rest ihInner ihRest =>
    obtain ⟨rfl, hinner, hrest⟩ := h
    have hdeeper : ∀ c ∈ inner.preorder, decide (b.depth < c.depth) = true := fun c hc =>
      decide_eq_true (hinner.le c hc)
    have hstops : rest.preorder.takeWhile (fun c => decide (b.depth < c.depth)) = [] ∧
        rest.preorder.dropWhile (fun c => decide (b.depth < c.depth)) = rest.preorder := by
      cases rest with
      | nil => exact ⟨rfl, rfl⟩
      | node c inner' rest' => simp [preorder, hrest.1]
    rw [preorder, List.cons_append, ofBlocks, List.takeWhile_append_of_pos hdeeper,
      List.dropWhile_append_of_pos hdeeper, hstops.1, hstops.2, List.append_nil, ihInner hinner, ihRest hrest]

end BlockForest

end DebugSymbols
