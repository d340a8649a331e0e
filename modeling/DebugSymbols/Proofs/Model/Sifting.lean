import DebugSymbols.Model.Merge
import DebugSymbols.Proofs.Model.Grouping

/-!
# Sifting

Going through a list and setting each entry with the first kept one that it is
like sets it with the first of the whole list that it is like, if likeness is
equality of some key.
-/

namespace DebugSymbols

/-! ## The first entry that is alike -/

/-- The first entry of a list that `i` of the list is like; others are not moved. -/
def firstLike {ι : Type} [DecidableEq ι] (alike : ι → ι → Bool) (is : List ι) (i : ι) : ι :=
  if i ∈ is then (is.find? (alike · i)).getD i else i

def moved {ι : Type} [DecidableEq ι] (first : ι → ι) (is : List ι) : List (ι × ι) :=
  (is.filter fun i => first i ≠ i).map fun i => (i, first i)

section
variable {ι κ : Type} [DecidableEq ι] {alike : ι → ι → Bool} {key : ι → κ} {is : List ι} {i j : ι}

theorem moved_congr {first first' : ι → ι} (h : ∀ i ∈ is, first i = first' i) :
    moved first is = moved first' is := by
  unfold moved
  rw [List.filter_congr fun i hi => by rw [h i hi]]
  refine List.map_congr_left fun i hi => ?_
  rw [h i (List.mem_filter.mp hi).1]

theorem moved_concat (first : ι → ι) (is : List ι) (i : ι) :
    moved first (is ++ [i]) = moved first is ++ if first i ≠ i then [(i, first i)] else [] := by
  unfold moved
  rw [List.filter_append, List.map_append]
  by_cases h : first i = i <;> simp [h]

theorem firstLike_of_notMem (h : i ∉ is) : firstLike alike is i = i :=
  if_neg h

section
variable (hkey : ∀ i j, alike i j = true ↔ key i = key j)
include hkey

theorem find?_of_mem (h : i ∈ is) : is.find? (alike · i) = some (firstLike alike is i) := by
  unfold firstLike
  rw [if_pos h]
  cases hf : is.find? (alike · i) with
  | none => exact absurd ((hkey i i).mpr rfl) (List.find?_eq_none.mp hf i h)
  | some k => rfl

theorem firstLike_mem (h : i ∈ is) : firstLike alike is i ∈ is :=
  List.mem_of_find?_eq_some (find?_of_mem hkey h)

theorem alike_firstLike (h : i ∈ is) : alike (firstLike alike is i) i = true := by
  have hsome := List.find?_some (find?_of_mem hkey h)
  exact hsome

omit [DecidableEq ι] in
theorem find?_congr_key (h : key i = key j) (l : List ι) : l.find? (alike · i) = l.find? (alike · j) := by
  congr 1
  funext k
  rw [Bool.eq_iff_iff, hkey, hkey, h]

theorem firstLike_congr (hi : i ∈ is) (hj : j ∈ is) (h : key i = key j) :
    firstLike alike is i = firstLike alike is j := by
  have hfind := find?_congr_key hkey h is
  rw [find?_of_mem hkey hi, find?_of_mem hkey hj] at hfind
  exact Option.some.inj hfind

theorem firstLike_firstLike : firstLike alike is (firstLike alike is i) = firstLike alike is i := by
  by_cases h : i ∈ is
  · exact firstLike_congr hkey (firstLike_mem hkey h) h ((hkey _ _).mp (alike_firstLike hkey h))
  · rw [firstLike_of_notMem h, firstLike_of_notMem h]

theorem firstLike_concat_of_mem (h : i ∈ is) : firstLike alike (is ++ [j]) i = firstLike alike is i := by
  have hmem : i ∈ is ++ [j] := List.mem_append_left _ h
  have hfind := find?_of_mem hkey hmem
  rw [List.find?_append, find?_of_mem hkey h] at hfind
  exact (Option.some.inj hfind).symm

theorem firstLike_split (before behind : List ι) :
    firstLike alike (before ++ i :: behind) i = (before.find? (alike · i)).getD i := by
  have hself : alike i i = true := (hkey i i).mpr rfl
  unfold firstLike
  rw [if_pos (List.mem_append_right _ List.mem_cons_self), List.find?_append]
  cases before.find? (alike · i) with
  | some k => rfl
  | none => simp [hself]

/-! ## Going through a list -/

omit [DecidableEq ι] in
omit hkey in
theorem ofList_of_apart (h : is.Pairwise fun i j => alike i j = false) :
    Sifted.ofList alike is = { kept := is, copies := [] } := by
  induction is using List.reverseRecOn with
  | nil => rfl
  | append_singleton is j ih =>
    obtain ⟨his, _, hj⟩ := List.pairwise_append.mp h
    have hstep : Sifted.ofList alike (is ++ [j]) = (Sifted.ofList alike is).place alike j := by
      simp [Sifted.ofList]
    have hnone : is.find? (alike · j) = none := by
      rw [List.find?_eq_none]
      intro i hi
      simp [hj i hi j (List.mem_singleton_self j)]
    rw [hstep, ih his]
    unfold Sifted.place
    rw [hnone]

omit [DecidableEq ι] in
theorem find?_kept (is : List ι) :
    ∀ i, (Sifted.ofList alike is).kept.find? (alike · i) = is.find? (alike · i) := by
  induction is using List.reverseRecOn with
  | nil => exact fun _ => rfl
  | append_singleton is j ih =>
    intro i
    have hstep : Sifted.ofList alike (is ++ [j]) = (Sifted.ofList alike is).place alike j := by
      simp [Sifted.ofList]
    rw [hstep]
    unfold Sifted.place
    rw [ih j]
    cases hj : is.find? (alike · j) with
    | none =>
      show ((Sifted.ofList alike is).kept ++ [j]).find? _ = _
      rw [List.find?_append, List.find?_append, ih i]
    | some k =>
      show (Sifted.ofList alike is).kept.find? _ = _
      rw [ih i, List.find?_append]
      cases hi : is.find? (alike · i) with
      | some l => rfl
      | none =>
        -- `j` is like an entry of the list and `i` is like none
        have hne : alike j i = false := by
          by_contra hlike
          have hcongr := find?_congr_key hkey ((hkey j i).mp (by simpa using hlike)) is
          rw [hj, hi] at hcongr
          exact nomatch hcongr
        simp [hne]

theorem ofList_eq (hnd : is.Nodup) :
    Sifted.ofList alike is =
      { kept := is.filter fun i => firstLike alike is i = i, copies := moved (firstLike alike is) is } := by
  induction is using List.reverseRecOn with
  | nil => rfl
  | append_singleton is j ih =>
    have hstep : Sifted.ofList alike (is ++ [j]) = (Sifted.ofList alike is).place alike j := by
      simp [Sifted.ofList]
    have hj : j ∉ is := by
      intro hmem
      exact (List.nodup_append.mp hnd).2.2 j hmem j (List.mem_singleton_self j) rfl
    have hold : ∀ i ∈ is, firstLike alike (is ++ [j]) i = firstLike alike is i := fun i hi =>
      firstLike_concat_of_mem hkey hi
    have hlast := firstLike_split (i := j) hkey is []
    have hkept : is.filter (fun i => firstLike alike (is ++ [j]) i = i) =
        is.filter fun i => firstLike alike is i = i :=
      List.filter_congr fun i hi => by rw [hold i hi]
    have hmoved : moved (firstLike alike (is ++ [j])) is = moved (firstLike alike is) is :=
      moved_congr hold
    rw [hstep, moved_concat, List.filter_append, hkept, hmoved]
    unfold Sifted.place
    rw [find?_kept hkey, ih (List.nodup_append.mp hnd).1]
    cases hfind : is.find? (alike · j) with
    | none =>
      rw [hfind] at hlast
      have hself : firstLike alike (is ++ [j]) j = j := hlast
      simp [hself]
    | some k =>
      rw [hfind] at hlast
      have hne : k ≠ j := fun heq => hj (heq ▸ List.mem_of_find?_eq_some hfind)
      have hself : firstLike alike (is ++ [j]) j = k := hlast
      simp [hself, hne]

end

/-! ## What moved -/

theorem lookup_moved (first : ι → ι) (i : ι) : ∀ is : List ι,
    (moved first is).lookup i = if i ∈ is ∧ first i ≠ i then some (first i) else none
  | [] => by simp [moved]
  | j :: is => by
    have ih := lookup_moved first i is
    unfold moved at ih ⊢
    by_cases hj : first j = j
    · rw [List.filter_cons_of_neg (by simp [hj]), ih]
      by_cases hi : i = j
      · subst hi
        simp [hj]
      · simp [hi]
    · rw [List.filter_cons_of_pos (by simp [hj]), List.map_cons, List.lookup_cons, ih]
      by_cases hi : i = j
      · subst hi
        simp [hj]
      · simp [hi, beq_false_of_ne hi]

theorem survivor_moved {first : ι → ι} (h : ∀ i ∉ is, first i = i) : survivor (moved first is) = first := by
  funext i
  unfold survivor
  rw [lookup_moved]
  by_cases hi : i ∈ is ∧ first i ≠ i
  · rw [if_pos hi]
    rfl
  · rw [if_neg hi]
    by_cases hmem : i ∈ is
    · by_contra hne
      exact hi ⟨hmem, fun heq => hne heq.symm⟩
    · exact (h i hmem).symm

theorem survives_moved {first : ι → ι} (h : ∀ i ∉ is, first i = i) (i : ι) :
    survives (moved first is) i = decide (first i = i) := by
  unfold survives
  rw [lookup_moved]
  by_cases hfix : first i = i
  · simp [hfix]
  · have hmem : i ∈ is := by
      by_contra hn
      exact hfix (h i hn)
    simp [hmem, hfix]

theorem length_moved (first : ι → ι) (is : List ι) :
    (moved first is).length + (is.filter fun i => first i = i).length = is.length := by
  have hsplit := List.length_eq_countP_add_countP (l := is) fun i => decide (first i = i)
  rw [List.countP_eq_length_filter, List.countP_eq_length_filter] at hsplit
  unfold moved
  rw [List.length_map]
  simp only [decide_eq_true_eq] at hsplit
  simp only [ne_eq]
  omega

theorem moved_eq_nil {first : ι → ι} : moved first is = [] ↔ ∀ i ∈ is, first i = i := by
  unfold moved
  rw [List.map_eq_nil_iff, List.filter_eq_nil_iff]
  simp

theorem flatMap_moved {α : Type} (first : ι → ι) (f : α → List ι) (l : List α) :
    (l.flatMap fun a => moved first (f a)) = moved first (l.flatMap f) := by
  induction l with
  | nil => rfl
  | cons a l ih =>
    rw [List.flatMap_cons, List.flatMap_cons, ih]
    simp only [moved, List.filter_append, List.map_append]

/-! ## The entries that stay -/

/-- The list `new` is `old` without the entries that are like an earlier one. -/
structure KeepsFirsts (alike : ι → ι → Bool) (old new : List ι) (removed : Nat) : Prop where
  sublist : new.Sublist old
  mem_iff : ∀ before i behind, old = before ++ i :: behind → (i ∈ new ↔ ∀ j ∈ before, alike j i = false)
  apart : new.Pairwise fun i j => alike i j = false
  stands : ∀ before i behind, old = before ++ i :: behind → i ∉ new →
    ∃ k ∈ before, k ∈ new ∧ alike k i = true ∧ ∀ j ∈ new, alike j i = true → j = k
  count : removed = old.length - new.length

section
variable (hkey : ∀ i j, alike i j = true ↔ key i = key j)
include hkey

theorem firstLike_eq_self_iff {before behind : List ι} (hnd : (before ++ i :: behind).Nodup) :
    firstLike alike (before ++ i :: behind) i = i ↔ ∀ j ∈ before, alike j i = false := by
  rw [firstLike_split hkey]
  cases hb : before.find? (alike · i) with
  | none =>
    have hnone := List.find?_eq_none.mp hb
    exact ⟨fun _ j hj => by simpa using hnone j hj, fun _ => rfl⟩
  | some k =>
    have hk := List.mem_of_find?_eq_some hb
    have hlike := List.find?_some hb
    constructor
    · intro heq
      have heq : k = i := heq
      exact absurd heq ((List.nodup_append.mp hnd).2.2 k hk i List.mem_cons_self)
    · intro hnone
      exact absurd (hnone k hk) (by simpa using hlike)

theorem keepsFirsts (hnd : is.Nodup) :
    KeepsFirsts alike is (is.filter fun i => firstLike alike is i = i)
      (moved (firstLike alike is) is).length where
  sublist := List.filter_sublist
  mem_iff before i behind h := by
    subst h
    rw [List.mem_filter, decide_eq_true_eq, firstLike_eq_self_iff hkey hnd]
    exact and_iff_right (List.mem_append_right _ List.mem_cons_self)
  apart := by
    refine (hnd.filter _).imp_of_mem fun {i j} hi hj hne => ?_
    by_contra hlike
    obtain ⟨hi, hfi⟩ := List.mem_filter.mp hi
    obtain ⟨hj, hfj⟩ := List.mem_filter.mp hj
    have hkeys := (hkey i j).mp (by simpa using hlike)
    have hsame := firstLike_congr hkey hi hj hkeys
    rw [of_decide_eq_true hfi, of_decide_eq_true hfj] at hsame
    exact hne hsame
  stands before i behind h hout := by
    have hi : i ∈ is := h ▸ List.mem_append_right _ List.mem_cons_self
    have hlike := alike_firstLike hkey hi
    have hkeep : firstLike alike is i ∈ is.filter fun i => firstLike alike is i = i :=
      List.mem_filter.mpr ⟨firstLike_mem hkey hi, decide_eq_true (firstLike_firstLike hkey)⟩
    refine ⟨firstLike alike is i, ?_, hkeep, hlike, fun j hj hji => ?_⟩
    · have hsplit := firstLike_split (i := i) hkey before behind
      rw [← h] at hsplit
      cases hb : before.find? (alike · i) with
      | none =>
        rw [hb] at hsplit
        have hfirst : firstLike alike is i = i := hsplit
        exact absurd (hfirst ▸ hkeep) hout
      | some k =>
        rw [hb] at hsplit
        have hfirst : firstLike alike is i = k := hsplit
        exact hfirst ▸ List.mem_of_find?_eq_some hb
    · obtain ⟨hj, hfj⟩ := List.mem_filter.mp hj
      rw [← firstLike_congr hkey hj hi ((hkey j i).mp hji)]
      exact (of_decide_eq_true hfj).symm
  count := by
    have hlength := length_moved (firstLike alike is) is
    omega

end

/-! ## Within groups -/

theorem firstLike_filter {p : ι → Bool} (hp : ∀ i j, alike i j = true → p i = p j) (h : i ∈ is.filter p) :
    firstLike alike (is.filter p) i = firstLike alike is i := by
  obtain ⟨hmem, hpi⟩ := List.mem_filter.mp h
  unfold firstLike
  rw [if_pos h, if_pos hmem, List.find?_filter]
  congr 2
  funext j
  by_cases hj : alike j i = true
  · simp [hj, hp j i hj, hpi]
  · simp [hj]

end

end DebugSymbols
