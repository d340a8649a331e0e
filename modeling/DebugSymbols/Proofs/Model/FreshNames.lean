import DebugSymbols.Proofs.Model.Tags
import Mathlib.Data.List.Nodup
import Mathlib.Data.List.Perm.Subperm

/-!
# Fresh names

Trying one candidate after another comes to an end, since the candidates are all
different: of one more candidates than there are taken names one is free.
-/

namespace DebugSymbols

variable {α : Type}

def EndsAt (taken : List String) (text : α → String) (candidate : Nat → α) (n : Nat) : Prop :=
  text (candidate n) ∉ taken ∧ ∀ m < n, text (candidate m) ∈ taken

theorem exists_endsAt_firstFree (taken : List String) {text : α → String} {candidate : Nat → α}
    (h : Function.Injective fun n => text (candidate n)) :
    ∃ n ≤ taken.length, EndsAt taken text candidate n ∧ firstFree taken text candidate = candidate n := by
  unfold firstFree
  cases hfind : (List.range taken.length).find? fun n => !taken.contains (text (candidate n)) with
  | some n =>
    obtain ⟨hfree, hn, hbefore⟩ := List.find?_range_eq_some.mp hfind
    refine ⟨n, Nat.le_of_lt (List.mem_range.mp hn), ⟨by simpa using hfree, fun m hm => ?_⟩, rfl⟩
    simpa using hbefore m hm
  | none =>
    have htaken : ∀ m < taken.length, text (candidate m) ∈ taken := by
      intro m hm
      simpa using List.find?_eq_none.mp hfind m (List.mem_range.mpr hm)
    refine ⟨taken.length, Nat.le_refl _, ⟨fun hlast => ?_, htaken⟩, rfl⟩
    -- then all the candidates up to this one are among the taken names
    have hsubset : (List.range (taken.length + 1)).map (fun n => text (candidate n)) ⊆ taken := by
      intro s hs
      obtain ⟨m, hm, rfl⟩ := List.mem_map.mp hs
      rcases Nat.lt_succ_iff_lt_or_eq.mp (List.mem_range.mp hm) with hlt | rfl
      · exact htaken m hlt
      · exact hlast
    have hlength := (List.subperm_of_subset (List.nodup_range.map h) hsubset).length_le
    rw [List.length_map, List.length_range] at hlength
    exact Nat.lt_irrefl _ hlength

/-! ## Names and tags -/

theorem addressName_injective (base : String) (addr : UInt32) : Function.Injective (addressName base addr) := by
  intro m n h
  have hsuffix := (String.append_right_inj _).mp h
  have hne : ∀ k : Nat, "" ≠ "_" ++ toString k := fun k hempty =>
    absurd (String.append_eq_empty_iff.mp hempty.symm).1 (by decide)
  by_cases hm : m = 0
  · by_cases hn : n = 0
    · rw [hm, hn]
    · rw [if_pos hm, if_neg hn] at hsuffix
      exact absurd hsuffix (hne n)
  · by_cases hn : n = 0
    · rw [if_neg hm, if_pos hn] at hsuffix
      exact absurd hsuffix.symm (hne m)
    · rw [if_neg hm, if_neg hn] at hsuffix
      exact Text.toString_injective ((String.append_right_inj "_").mp hsuffix)

theorem exists_endsAt_freshName (taken : List String) (base : String) (addr : UInt32) :
    ∃ n ≤ taken.length, EndsAt taken id (addressName base addr) n ∧
      freshName taken base addr = addressName base addr n :=
  exists_endsAt_firstFree taken (addressName_injective base addr)

theorem exists_endsAt_freshTag (taken : List String) (tag : Tag) (letter : Char) (index : Nat) :
    ∃ n ≤ taken.length, EndsAt taken Tag.text (tag.duplicated letter index) n ∧
      freshTag taken tag letter index = tag.duplicated letter index n :=
  exists_endsAt_firstFree taken (tag.text_duplicated_injective letter index)

theorem freshName_notMem (taken : List String) (base : String) (addr : UInt32) :
    freshName taken base addr ∉ taken := by
  obtain ⟨n, _, hends, heq⟩ := exists_endsAt_freshName taken base addr
  rw [heq]
  exact hends.1

theorem text_freshTag_notMem (taken : List String) (tag : Tag) (letter : Char) (index : Nat) :
    (freshTag taken tag letter index).text ∉ taken := by
  obtain ⟨n, _, hends, heq⟩ := exists_endsAt_freshTag taken tag letter index
  rw [heq]
  exact hends.1

theorem isAnonymous_freshTag (taken : List String) (tag : Tag) (letter : Char) (index : Nat) :
    (freshTag taken tag letter index).isAnonymous = tag.isAnonymous := by
  obtain ⟨n, _, _, heq⟩ := exists_endsAt_freshTag taken tag letter index
  rw [heq, Tag.isAnonymous_duplicated]

end DebugSymbols
