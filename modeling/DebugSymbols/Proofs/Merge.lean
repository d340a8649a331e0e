import DebugSymbols.Proofs.Build.Indexed
import DebugSymbols.Proofs.Build.Walks
import DebugSymbols.Proofs.Model.Merging

/-!
# Merging what was built

`merge_exact`: references are redirected and nothing else is changed.
`merge_keepsFirsts`: of each list exactly the copies go.
-/

namespace DebugSymbols

namespace Builder

/-! ## The overlays of a build -/

theorem indexed_afterWalks (chunks : List (List Record)) :
    ∀ o ∈ (afterWalks chunks).overlays, o.Indexed ∧ o.HandlesListed := by
  refine forall_overlays_afterWalks ?_ ?_ chunks
  · intro id addr length
    exact ⟨Overlay.indexed_new id addr length, fun t z hs => absurd hs (Overlay.not_stores_new id addr length)⟩
  · intro o o' h ho
    exact ⟨h.indexed ho.1, h.handlesListed ho.1 ho.2⟩

theorem indexed_of_build {records : List Record} {overlays : List Overlay}
    (h : (build records).result = .ok overlays) : ∀ o ∈ overlays, o.Indexed ∧ o.HandlesListed := by
  rw [overlays_of_build h]
  exact indexed_afterWalks [records]

end Builder

namespace Overlay

/-! ## References -/

/-- `o'` is `o` with the handles in its types replaced by those that stand for
them, and with these alone in its lists. -/
structure MergesTo (o o' : Overlay) : Prop where
  redirected : Redirected o.canon o o'
  compositeCount : o'.arena.composites.length = o.arena.composites.length
  enumCount : o'.arena.enums.length = o.arena.enums.length
  typedefCount : o'.arena.typedefs.length = o.arena.typedefs.length
  handles : o'.HandlesListed
  structs : o.structs.HoldsFixed o.canon.composite o'.structs
  unions : o.unions.HoldsFixed o.canon.composite o'.unions
  enums : o.enums.HoldsFixed o.canon.enum o'.enums
  typedefs : o.typedefs.HoldsFixed o.canon.typedef o'.typedefs

theorem merge_exact {records : List Record} {overlays : List Overlay}
    (hb : (Builder.build records).result = .ok overlays) {o : Overlay} (ho : o ∈ overlays) :
    MergesTo o o.merge.1 := by
  obtain ⟨hi, hl⟩ := Builder.indexed_of_build hb o ho
  have hm := merge_merged hi
  have hr := hm.redirected
  refine ⟨hr, hr.compositeCount, hr.enumCount, hr.typedefCount, handlesListed_merge hi hl, ?_, ?_, ?_, ?_⟩
  · have hstructs : o.merge.1.structs = _ := composites_merge hi .struct
    rw [hstructs]
    exact Catalog.holdsFixed_retain (hi.composites .struct) _
  · have hunions : o.merge.1.unions = _ := composites_merge hi .union
    rw [hunions]
    exact Catalog.holdsFixed_retain (hi.composites .union) _
  · rw [hm.enums]
    exact Catalog.holdsFixed_retain hi.enums _
  · rw [hm.typedefs]
    exact Catalog.holdsFixed_retain hi.typedefs _

/-- A struct of one member, as a unit that includes its header defines it. -/
def structCopy : List Record :=
  let entry (symbolClass : SymbolClass) (bits : UInt16) (name tag : String) : Record :=
    { offset := 0, value := 0,
      body := .definition .second { symbolClass, word := ⟨bits⟩, size := 4, tag, name } }
  [entry .structTag 8 "point" "", entry .structMember 4 "x" "", entry .endOfStruct 0 "eos" "point",
    entry .external 8 "origin" "point"]

def twoCopies : Overlay :=
  (Builder.afterWalks [structCopy ++ structCopy]).currentOverlay

theorem build_twoCopies : (Builder.build (structCopy ++ structCopy)).result = .ok [twoCopies] := by
  decide +kernel

theorem merge_exact_twoCopies :
    twoCopies.canon.composite ⟨1⟩ = ⟨0⟩ ∧ twoCopies.MergesTo twoCopies.merge.1 :=
  ⟨by decide +kernel, merge_exact build_twoCopies List.mem_cons_self⟩

/-! ## Copies -/

theorem merge_keepsFirsts {records : List Record} {overlays : List Overlay}
    (hb : (Builder.build records).result = .ok overlays) {o : Overlay} (ho : o ∈ overlays) :
    KeepsFirsts o.compositesAlike o.structs.listed o.merge.1.structs.listed o.merge.2.structs ∧
      KeepsFirsts o.compositesAlike o.unions.listed o.merge.1.unions.listed o.merge.2.unions ∧
      KeepsFirsts o.enumsAlike o.enums.listed o.merge.1.enums.listed o.merge.2.enums ∧
      KeepsFirsts o.typedefsAlike o.typedefs.listed o.merge.1.typedefs.listed o.merge.2.typedefs := by
  have hi := (Builder.indexed_of_build hb o ho).1
  have hm := merge_merged hi
  rw [hm.structs, hm.unions, hm.enums, hm.typedefs, hm.counts]
  refine ⟨?_, ?_, ?_, ?_⟩
  · exact keepsFirsts o.compositesAlike_iff (hi.composites .struct).nodup
  · exact keepsFirsts o.compositesAlike_iff (hi.composites .union).nodup
  · exact keepsFirsts o.enumsAlike_iff hi.enums.nodup
  · exact keepsFirsts o.typedefsAlike_iff hi.typedefs.nodup

theorem merge_keepsFirsts_twoCopies :
    twoCopies.structs.listed.length = 2 ∧
      KeepsFirsts twoCopies.compositesAlike twoCopies.structs.listed twoCopies.merge.1.structs.listed
        twoCopies.merge.2.structs :=
  ⟨by decide +kernel,
    (merge_keepsFirsts build_twoCopies List.mem_cons_self).1⟩

end Overlay

end DebugSymbols
