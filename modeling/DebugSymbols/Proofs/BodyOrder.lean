import DebugSymbols.Proofs.Print.Order
import DebugSymbols.Proofs.Typedefs

/-!
# The bodies of a finished overlay

`types_writesBodies`: which bodies are among the types of an overlay, how
often, and that a body comes after those it needs.
-/

namespace DebugSymbols

theorem Arena.InOrder.of_noBodies {a : Arena} {before is : List Item} (h : ∀ id, .composite id ∉ is) :
    a.InOrder before is := by
  intro front id back heq
  exact absurd (heq ▸ List.mem_append_right front List.mem_cons_self) (h id)

namespace Overlay

variable {o : Overlay}

structure WritesBodies (o : Overlay) (written : List Item) : Prop where
  once : ∀ kind, ∀ id ∈ (o.composites kind).listed, o.arena.isInlined id = false →
    written.count (.composite id) = 1
  inlined : ∀ id, o.arena.isInlined id = true → written.count (.composite id) ≤ 1
  enums : ∀ id ∈ o.enums.listed, written.count (.enum id) = 1
  order : ∀ front r back, written = front ++ Item.composite r :: back →
    ∀ s, o.arena.Needs r s → .composite s ∈ front

/-! ## Around the bodies -/

theorem notMem_nullItems {i : Item} (hi : i ≠ .blank) (ht : ∀ id, i ≠ .typedef id) (p : Progress) :
    i ∉ o.nullTypedef.elim [] fun id => typedefItems id p ++ [Item.blank] := by
  cases o.nullTypedef with
  | none => simp
  | some id =>
    show i ∉ typedefItems id p ++ [Item.blank]
    unfold typedefItems
    split <;> simp [hi, ht]

theorem notMem_typedefItems {i : Item} (ht : ∀ id, i ≠ .typedef id) (p : Progress) (ids : List TypedefId) :
    i ∉ ids.flatMap (typedefItems · p) := by
  intro hmem
  obtain ⟨id, _, hid⟩ := List.mem_flatMap.mp hmem
  unfold typedefItems at hid
  split at hid
  · exact nomatch hid
  · exact ht id (List.mem_singleton.mp hid)

theorem count_typeItems {i : Item} (hi : i ≠ .blank) (ht : ∀ id, i ≠ .typedef id) :
    (o.typeItems {}).2.count i = o.bodies.2.count i := by
  rw [typeItems_eq, List.count_append, List.count_append, List.count_eq_zero.mpr (notMem_nullItems hi ht _),
    List.count_eq_zero.mpr (notMem_typedefItems ht _ _), Nat.zero_add, Nat.add_zero]

/-! ## The order -/

theorem close_notMem_typeTasks (id : CompositeId) : .close id ∉ o.typeTasks := by
  intro h
  obtain ⟨_, heq, _⟩ | ⟨_, _, heq, _⟩ := mem_typeTasks h <;> exact nomatch heq

theorem pending_typeTasks : o.arena.Pending (fun _ => False) o.typeTasks where
  close := close_notMem_typeTasks
  passes id hid := by
    obtain ⟨_, heq, _⟩ | ⟨_, _, heq, _⟩ := mem_typeTasks hid <;> exact nomatch heq
  avoids _ _ _ _ _ hu := hu.elim

theorem inOrder_typeItems (hn : o.WellNested) : o.arena.InOrder [] (o.typeItems {}).2 := by
  rw [typeItems_eq]
  refine .append (.append (.of_noBodies fun id => notMem_nullItems (by simp) (by simp) _) ?_)
    (.of_noBodies fun id => notMem_typedefItems (by simp) _ _)
  exact (o.writes_bodies.works.inOrder hn pending_typeTasks _ fun _ hid => nomatch hid).2.1

/-- The types are printed with each body once, one that is also written in place
at most once, and what a body needs before it. -/
theorem types_writesBodies (hn : o.WellNested) :
    ∃ texts, o.types = String.join texts ∧ List.Forall₂ o.arena.Renders (o.typeItems {}).2 texts ∧
      o.WritesBodies (o.typeItems {}).2 := by
  obtain ⟨texts, htypes, htexts⟩ := Arena.renders_types o
  refine ⟨texts, htypes, htexts, ?_, ?_, ?_, ?_⟩
  · intro kind id hid hin
    rw [count_typeItems (by simp) (by simp)]
    exact count_bodies_composite (show o.Lists (.composite kind id) from hid) hin
  · intro id _
    rw [count_typeItems (by simp) (by simp)]
    have hcount := o.writes_bodies.works.count_le close_notMem_typeTasks id
    have hle : (if id ∈ o.bodies.1.composites then 1 else 0) ≤ 1 := by split <;> simp
    omega
  · intro id hid
    rw [count_typeItems (by simp) (by simp)]
    exact count_bodies_enum hid
  · intro front r back heq s hs
    exact inOrder_typeItems hn front r back heq s hs

/-- A struct that holds one written in place, which holds one defined last. -/
def heldWithin : List Record :=
  wrapper "outer" 8 ".1fake" ++ wrapper ".1fake" 8 "inner" ++ wrapper "inner" 4 ""

theorem types_writesBodies_heldWithin :
    (SymbolTable.ofFile (fileOf heldWithin)).value = .ok (tableOf heldWithin) ∧
      (finished heldWithin).arena.Needs ⟨0⟩ ⟨2⟩ ∧ (finished heldWithin).WellNested ∧
      ∃ texts, (finished heldWithin).types = String.join texts ∧
        List.Forall₂ (finished heldWithin).arena.Renders ((finished heldWithin).typeItems {}).2 texts ∧
        (finished heldWithin).WritesBodies ((finished heldWithin).typeItems {}).2 := by
  have hneeds : (finished heldWithin).arena.Needs ⟨0⟩ ⟨2⟩ :=
    .within (i := ⟨1⟩) (by decide +kernel) (by decide +kernel) (.held (by decide +kernel) (by decide +kernel))
  have hbelow : ∀ i < (finished heldWithin).arena.composites.length,
      ∀ s ∈ ((finished heldWithin).arena.composite ⟨i⟩).held, 3 - s.index < 3 - i := by
    decide +kernel
  have hnested : (finished heldWithin).WellNested :=
    wellNested_of_rank (3 - ·.index) fun r s h => hbelow r.index h.index_lt s h
  exact ⟨by decide +kernel, hneeds, hnested, types_writesBodies hnested⟩

end Overlay

end DebugSymbols
