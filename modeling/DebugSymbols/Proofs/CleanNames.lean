import DebugSymbols.Proofs.Typedefs

/-!
# Clean names

`cleanNames_of_ofFile`: whatever texts the records hold, the names and tags of a
finished table have only letters and digits of ASCII and underscores.
-/

namespace DebugSymbols.Overlay

open Text (Clean)

variable {o : Overlay}

theorem cleanNames_of_ofFile {file : SymbolFile} {table : SymbolTable}
    (h : (SymbolTable.ofFile file).value = .ok table) (ho : o ∈ table.overlays) :
    o.CleanNames ∧ ∀ t z, o.Stores t z → ∀ name ∈ t.paramNames, Clean name := by
  obtain ⟨hclean, hunnamed⟩ := clean_of_mem h ho
  refine ⟨hclean, fun t z hs name hname => ?_⟩
  rw [hunnamed t z hs] at hname
  exact absurd hname List.not_mem_nil

/-- Texts that are no identifiers, some of them alike but for that. -/
def hostile : List Record :=
  let entry (value : UInt32) (body : Body) : Record := { offset := 0, value, body }
  let int (symbolClass : SymbolClass) (name : String) : Body :=
    .definition .first { symbolClass, word := ⟨4⟩, size := 4, name }
  let start : FunctionStart :=
    { frameRegister := 0, frameSize := 0, returnRegister := 0, mask := 0, maskOffset := 0, line := 1,
      path := "f.c", name := "f()" }
  wrapper "p q" 4 "" ++ wrapper "p.q" 5 "" ++
    [entry 16 (int .static "a */ b"), entry 32 (int .static "a */;b"), entry 48 (.functionStart start),
      entry 0 (int .argument "é"), entry 64 (.functionEnd 2)]

theorem cleanNames_hostile :
    (SymbolTable.ofFile (fileOf hostile)).value = .ok (tableOf hostile) ∧
      finished hostile ∈ (tableOf hostile).overlays ∧
      (finished hostile).vars.map (·.name) = ["a____b_addr_00000010", "a____b_addr_00000020"] ∧
      (finished hostile).funcs.map (·.name) = ["f__"] ∧
      (finished hostile).arena.composites.map (·.tag.text) = ["p_q_duplicate_s0", "p_q_duplicate_s1"] ∧
      (finished hostile).CleanNames ∧
      ∀ t z, (finished hostile).Stores t z → ∀ name ∈ t.paramNames, Clean name := by
  have htable : (SymbolTable.ofFile (fileOf hostile)).value = .ok (tableOf hostile) := by decide +kernel
  have hmem : finished hostile ∈ (tableOf hostile).overlays := List.mem_cons_self
  exact ⟨htable, hmem, by decide +kernel, by decide +kernel, by decide +kernel, cleanNames_of_ofFile htable hmem⟩

end DebugSymbols.Overlay
