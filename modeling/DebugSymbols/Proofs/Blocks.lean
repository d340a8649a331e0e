import DebugSymbols.Proofs.Build.CleanNames
import DebugSymbols.Proofs.Build.Scopes
import DebugSymbols.Proofs.Independence

/-!
# Blocks of function bodies

`blocks_nest`: the blocks of a function are the scopes of its span in pre-order,
and the printed braces are those of the stream in their order. Any blocks at all
are printed as a forest.
-/

namespace DebugSymbols.Builder

open Relation (ReflTransGen)
open Text (braceLines upperHex)

/-- The step records a span with as many blocks closed as opened, of a function
that has neither a body nor blocks. -/
structure Step.RecordsScopes (s : Step) (start : FunctionStart) : Prop where
  head : s.head.body = .functionStart start
  accepted : ∃ n, s.outcome.result = .ok n
  new : ∀ f, s.before.currentOverlay.function? (Text.identifier start.name) s.head.value = some f →
    (s.before.currentOverlay.func f).hasBody = false ∧ (s.before.currentOverlay.func f).blocks = []
  balanced : (s.rest.takeWhile (!·.endsFunction)).countP Record.opensBlock =
    (s.rest.takeWhile (!·.endsFunction)).countP Record.closesBlock

/-- The step has left the function with the scopes `t`, which are those of the span. -/
structure Step.LeavesScopes (s : Step) (start : FunctionStart) (t : Scopes) (f : Function) : Prop where
  marks : Overlay.spanMarks s.head start s.rest s.before.currentOverlay = t.marks
  unique : ∀ t' : Scopes, Overlay.spanMarks s.head start s.rest s.before.currentOverlay = t'.marks → t' = t
  found : ∃ i, (s.after.overlayAt s.before.current).function? (Text.identifier start.name) s.head.value = some i ∧
    (s.after.overlayAt s.before.current).func i = f
  blocks : f.blocks = t.blocks
  params : f.signature.params =
    addDistinct (s.before.currentOverlay.paramsOf (Text.identifier start.name) s.head.value) t.outermost
  braces : braceLines ((BlockForest.ofBlocks f.blocks).text (s.after.overlayAt s.before.current).arena) =
    ((s.rest.takeWhile (!·.endsFunction)).filterMap Record.brace?).map Brace.line

theorem Step.RecordsScopes.leaves {s : Step} {start : FunctionStart} (h : s.RecordsScopes start)
    (hs : ReflTransGen Edit {} s.before) : ∃ t f, s.LeavesScopes start t f := by
  obtain ⟨hhead, ⟨n, hok⟩, hnew, hbalanced⟩ := h
  obtain ⟨hafter, hresult⟩ := visit_span hs hhead
  obtain ⟨t, hmarks, hbraces, f, hf, hblocks, hparams⟩ :=
    Overlay.functionSpan_scopes (namesGrouped_of_edits hs s.before.current) (hresult.symm.trans hok) hnew hbalanced
  have hclean := overlayAt_of_edits Overlay.cleanNames_new (fun _ _ h => h.cleanNames) (reached hs) s.before.current
  have hunnamed := overlayAt_of_edits Overlay.unnamed_new (fun _ _ h => h.unnamed) (reached hs) s.before.current
  have hforest : ((s.after.overlayAt s.before.current).func f).blocks = t.blocks := by
    rw [hafter]
    exact hblocks
  refine ⟨t, _, hmarks, fun t' ht' => Scopes.marks_injective (ht'.symm.trans hmarks), ⟨f, ?_, rfl⟩, hforest, ?_, ?_⟩
  · rw [hafter]
    exact hf
  · rw [hafter]
    exact hparams
  · have hlocals := hclean.locals hunnamed f
    rw [BlockForest.braceLines_text (hclean.arena hunnamed) (by rwa [BlockForest.preorder_ofBlocks]), hforest,
      t.braces_blocks, hbraces]

/-- A recorded span leaves its scopes: each block with its depth, its lines and the
locals it declares, once for each name, and printed with the braces of the stream.
Any function is printed with the forest of its blocks behind its declaration. Each
block has its two braces in it, and nothing else that is printed reads as a brace. -/
theorem blocks_nest (chunks : List (List Record)) :
    (∀ s ∈ history {} chunks, ∀ start, s.RecordsScopes start → ∃ t f, s.LeavesScopes start t f) ∧
      (∀ (a : Arena) (f : Function), a.functionText f =
        "// path: " ++ f.path ++ "\n" ++
        (if f.addr = 0 then "" else "// address: 0x" ++ upperHex 8 f.addr.toNat ++ "\n") ++
        (if f.size = 0 then "" else "// size: 0x" ++ upperHex 1 f.size.toNat ++ "\n") ++
        "// line start: " ++ toString f.lineStart ++ "\n" ++ "// line end:   " ++ toString f.lineEnd ++ "\n" ++
        a.declareFunction f.signature f.name ++
        if f.blocks = [] then ";\n" else "\n" ++ (BlockForest.ofBlocks f.blocks).text a) ∧
      ∀ bs, (BlockForest.ofBlocks bs).preorder = bs ∧ ∀ a : Arena, a.CleanNames → (∀ b ∈ bs, b.CleanLocals) →
        braceLines ((BlockForest.ofBlocks bs).text a) = (BlockForest.ofBlocks bs).braces.map Brace.line := by
  refine ⟨fun s hs start h => ?_, Arena.functionText_eq, fun bs => ⟨BlockForest.preorder_ofBlocks bs, ?_⟩⟩
  · exact h.leaves (((path_history chunks).edits inRange_new).2 s hs).1
  · intro a ha hlocals
    exact BlockForest.braceLines_text ha (by rwa [BlockForest.preorder_ofBlocks])

/-- A parameter, a block in a block, and a local that is declared twice in one. -/
def nestedSpan : List Record :=
  let record (value : UInt32) (body : Body) : Record := { offset := 0, value, body }
  let entry (symbolClass : SymbolClass) (name : String) : Record :=
    record 4 (.definition .first { symbolClass, word := ⟨4⟩, size := 4, name })
  [spanStart, entry .argument "n", record 17 (.blockStart 1), entry .auto "i", record 18 (.blockStart 2),
    entry .auto "i", record 18 (.blockEnd 3), entry .auto "i", record 19 (.blockEnd 4), spanEnd]

theorem blocks_nest_nestedSpan :
    ∃ s ∈ history {} [nestedSpan], ∃ start, s.RecordsScopes start ∧ (∃ t f, s.LeavesScopes start t f) ∧
      ((s.after.overlayAt 0).func 0).blocks.map (fun b => (b.depth, b.lineStart, b.lineEnd, b.locals.map (·.name))) =
        [(0, 1, 4, ["i"]), (1, 2, 3, ["i"])] := by
  let s : Step := ⟨{}, spanStart, nestedSpan.tail⟩
  have hs : s ∈ history {} [nestedSpan] := by
    refine List.mem_append_left _ ?_
    unfold nestedSpan
    rw [steps]
    exact List.mem_cons_self
  have hrecords : s.RecordsScopes _ := {
    head := rfl
    accepted := ⟨9, by decide +kernel⟩
    new := fun f hf => by
      have hnone : s.before.currentOverlay.function? (Text.identifier "f") s.head.value = none := by decide +kernel
      rw [hnone] at hf
      cases hf
    balanced := by decide +kernel }
  exact ⟨s, hs, _, hrecords, (blocks_nest [nestedSpan]).1 s hs _ hrecords, by decide +kernel⟩

end DebugSymbols.Builder
