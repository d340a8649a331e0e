import DebugSymbols.Print.Definition
import DebugSymbols.Proofs.Model.Entries

/-!
# Items written

How a list of tasks is worked off, as a relation with one rule for each step,
and what every run of it comes to: a struct or union that is not written in
place is written once for each time it is closed or comes to be visited, an
enum once if it comes to be visited, and what closes a body is noted.
-/

namespace DebugSymbols

def Progress.Has (p : Progress) : Task → Prop
  | .define id => id ∈ p.composites
  | .passThrough id => id ∈ p.composites
  | .close _ => False
  | .defineEnum id => id ∈ p.enums

namespace Arena

/-- The typedef that closes the body of an item, with or without comment marks
around it. -/
def closes (a : Arena) : Item → List TypedefId
  | .composite id => closing (a.composite id).aliases
  | .enum id => closing (a.enumeration id).aliases
  | _ => []

theorem mem_closing {id : TypedefId} {ids : List TypedefId} : id ∈ closing ids ↔ ids = [id] := by
  match ids with
  | [] => simp [closing]
  | [i] => simp [closing, eq_comm]
  | i :: j :: ids => simp [closing]

inductive Writes (a : Arena) : List Task → Progress → Progress → List Item → Prop
  | nil {p : Progress} : Writes a [] p p []
  | skip {t : Task} {ts : List Task} {p q : Progress} {is : List Item} :
      p.Has t → Writes a ts p q is → Writes a (t :: ts) p q is
  | define {id : CompositeId} {ts : List Task} {p q : Progress} {is : List Item} :
      id ∉ p.composites →
        Writes a (a.embedded id ++ .close id :: ts) { p with composites := id :: p.composites } q is →
          Writes a (.define id :: ts) p q is
  | passThrough {id : CompositeId} {ts : List Task} {p q : Progress} {is : List Item} :
      id ∉ p.composites → Writes a (a.embedded id ++ ts) { p with composites := id :: p.composites } q is →
        Writes a (.passThrough id :: ts) p q is
  | close {id : CompositeId} {ts : List Task} {p q : Progress} {is : List Item} :
      Writes a ts { p with closing := closing (a.composite id).aliases ++ p.closing } q is →
        Writes a (.close id :: ts) p q (.composite id :: is)
  | defineEnum {id : EnumId} {ts : List Task} {p q : Progress} {is : List Item} :
      id ∉ p.enums →
        Writes a ts
          { p with enums := id :: p.enums, closing := closing (a.enumeration id).aliases ++ p.closing } q is →
          Writes a (.defineEnum id :: ts) p q (.enum id :: is)

variable {a : Arena}

theorem writes_items (a : Arena) (ts : List Task) (p : Progress) :
    Writes a ts p (a.items ts p).1 (a.items ts p).2 := by
  fun_induction items a ts p with
  | case1 p => exact .nil
  | case2 id ts p h ih => exact .skip (List.contains_iff_mem.mp h) ih
  | case3 id ts p h ih => exact .define (by simpa using h) ih
  | case4 id ts p h ih => exact .skip (List.contains_iff_mem.mp h) ih
  | case5 id ts p h ih => exact .passThrough (by simpa using h) ih
  | case6 id ts p q is heq ih =>
    rw [heq] at ih
    exact .close ih
  | case7 id ts p h ih => exact .skip (List.contains_iff_mem.mp h) ih
  | case8 id ts p h q is heq ih =>
    rw [heq] at ih
    exact .defineEnum (by simpa using h) ih

theorem Writes.items_eq {ts : List Task} {p q : Progress} {is : List Item} (h : Writes a ts p q is) :
    a.items ts p = (q, is) := by
  induction h with
  | nil => rw [items]
  | @skip t ts p q is hp _ ih =>
    cases t with
    | define id | passThrough id | defineEnum id =>
      rw [items, if_pos (List.contains_iff_mem.mpr hp)]
      exact ih
    | close id => exact hp.elim
  | define hp _ ih | passThrough hp _ ih =>
    rw [items, if_neg (by simpa using hp)]
    exact ih
  | close _ ih => rw [items, ih]
  | defineEnum hp _ ih => rw [items, if_neg (by simpa using hp), ih]

theorem writes_iff {ts : List Task} {p q : Progress} {is : List Item} :
    Writes a ts p q is ↔ a.items ts p = (q, is) := by
  constructor
  · exact Writes.items_eq
  · intro h
    have hwrites := writes_items a ts p
    rw [h] at hwrites
    exact hwrites

/-! ## What is embedded -/

theorem exists_of_mem_embedded {id : CompositeId} {t : Task} (h : t ∈ a.embedded id) :
    ∃ x ∈ (a.composite id).fields,
      (∃ kind i, x.type.stripArrays = .composite kind i ∧
        t = if a.isInlined i then .passThrough i else .define i) ∨
      ∃ i, x.type.stripArrays = .enum i ∧ t = .defineEnum i := by
  obtain ⟨x, hx, htask⟩ := List.mem_filterMap.mp h
  refine ⟨x, hx, ?_⟩
  unfold embedded? at htask
  cases hstrip : x.type.stripArrays with
  | composite kind i =>
    rw [hstrip] at htask
    exact .inl ⟨kind, i, rfl, (Option.some.inj htask).symm⟩
  | enum i =>
    rw [hstrip] at htask
    exact .inr ⟨i, rfl, (Option.some.inj htask).symm⟩
  | _ =>
    rw [hstrip] at htask
    exact nomatch htask

/-- Only what is written in place is passed through. -/
def PassesInlined (a : Arena) (ts : List Task) : Prop :=
  ∀ id, .passThrough id ∈ ts → a.isInlined id = true

theorem passesInlined_embedded (id : CompositeId) : a.PassesInlined (a.embedded id) := by
  intro i hi
  obtain ⟨x, _, ⟨kind, j, _, heq⟩ | ⟨j, _, heq⟩⟩ := exists_of_mem_embedded hi
  · by_cases hj : a.isInlined j = true
    · rw [if_pos hj] at heq
      cases heq
      exact hj
    · rw [if_neg hj] at heq
      exact nomatch heq
  · exact nomatch heq

theorem close_notMem_embedded (id i : CompositeId) : .close i ∉ a.embedded id := by
  intro hi
  obtain ⟨x, _, ⟨kind, j, _, heq⟩ | ⟨j, _, heq⟩⟩ := exists_of_mem_embedded hi
  · split at heq <;> exact nomatch heq
  · exact nomatch heq

namespace Writes

variable {ts : List Task} {p q : Progress} {is : List Item} (h : Writes a ts p q is)
include h

/-! ## What a run visits -/

theorem composites_subset : p.composites ⊆ q.composites := by
  induction h with
  | nil => exact fun _ h => h
  | skip _ _ ih => exact ih
  | define _ _ ih => exact fun _ h => ih (List.mem_cons_of_mem _ h)
  | passThrough _ _ ih => exact fun _ h => ih (List.mem_cons_of_mem _ h)
  | close _ ih => exact ih
  | defineEnum _ _ ih => exact ih

theorem enums_subset : p.enums ⊆ q.enums := by
  induction h with
  | nil => exact fun _ h => h
  | skip _ _ ih => exact ih
  | define _ _ ih => exact ih
  | passThrough _ _ ih => exact ih
  | close _ ih => exact ih
  | defineEnum _ _ ih => exact fun _ h => ih (List.mem_cons_of_mem _ h)

theorem has_mono {t : Task} (ht : p.Has t) : q.Has t := by
  cases t with
  | define id => exact h.composites_subset ht
  | passThrough id => exact h.composites_subset ht
  | close id => exact ht
  | defineEnum id => exact h.enums_subset ht

theorem has_of_mem {t : Task} (ht : t ∈ ts) : q.Has t ∨ ∃ id, t = .close id := by
  induction h with
  | nil => exact nomatch ht
  | skip hp h ih =>
    obtain rfl | ht := List.mem_cons.mp ht
    · exact .inl (h.has_mono hp)
    · exact ih ht
  | define _ h ih =>
    obtain rfl | ht := List.mem_cons.mp ht
    · exact .inl (h.composites_subset List.mem_cons_self)
    · exact ih (List.mem_append_right _ (List.mem_cons_of_mem _ ht))
  | passThrough _ h ih =>
    obtain rfl | ht := List.mem_cons.mp ht
    · exact .inl (h.composites_subset List.mem_cons_self)
    · exact ih (List.mem_append_right _ ht)
  | @close id _ _ _ _ h ih =>
    obtain rfl | ht := List.mem_cons.mp ht
    · exact .inr ⟨id, rfl⟩
    · exact ih ht
  | defineEnum _ h ih =>
    obtain rfl | ht := List.mem_cons.mp ht
    · exact .inl (h.enums_subset List.mem_cons_self)
    · exact ih ht

/-! ## What a run writes -/

theorem count_composite (hts : a.PassesInlined ts) {id : CompositeId} (hid : a.isInlined id = false) :
    is.count (.composite id) + (if id ∈ p.composites then 1 else 0) =
      ts.count (.close id) + if id ∈ q.composites then 1 else 0 := by
  -- a visit makes `id` visited and puts one task on the list that closes it
  induction h with
  | nil => rfl
  | @skip t ts _ _ _ hp _ ih =>
    have hne : t ≠ .close id := by
      rintro rfl
      exact hp
    rw [List.count_cons_of_ne hne]
    exact ih fun i hi => hts i (List.mem_cons_of_mem _ hi)
  | @define i ts p q is hp _ ih =>
    have hembedded : (a.embedded i).count (.close id) = 0 := List.count_eq_zero.mpr (close_notMem_embedded i id)
    have hpasses : a.PassesInlined (a.embedded i ++ .close i :: ts) := by
      intro j hj
      obtain hj | hj := List.mem_append.mp hj
      · exact passesInlined_embedded i j hj
      · obtain hj | hj := List.mem_cons.mp hj
        · exact nomatch hj
        · exact hts j (List.mem_cons_of_mem _ hj)
    have ih := ih hpasses
    rw [List.count_append, hembedded] at ih
    by_cases hi : i = id
    · subst hi
      simp only [List.mem_cons, true_or, if_true, List.count_cons_self] at ih
      rw [if_neg hp, List.count_cons_of_ne (by simp)]
      omega
    · simp only [List.mem_cons, Ne.symm hi, false_or] at ih
      rw [List.count_cons_of_ne (by simpa using hi)] at ih
      rw [List.count_cons_of_ne (by simp)]
      omega
  | @passThrough i ts p q is hp _ ih =>
    have hembedded : (a.embedded i).count (.close id) = 0 := List.count_eq_zero.mpr (close_notMem_embedded i id)
    have hpasses : a.PassesInlined (a.embedded i ++ ts) := by
      intro j hj
      obtain hj | hj := List.mem_append.mp hj
      · exact passesInlined_embedded i j hj
      · exact hts j (List.mem_cons_of_mem _ hj)
    -- `i` is written in place and `id` is not
    have hne : id ≠ i := by
      rintro rfl
      rw [hts id List.mem_cons_self] at hid
      exact nomatch hid
    have ih := ih hpasses
    rw [List.count_append, hembedded] at ih
    simp only [List.mem_cons, hne, false_or] at ih
    rw [List.count_cons_of_ne (by simp)]
    omega
  | @close i ts p q is _ ih =>
    have ih := ih fun j hj => hts j (List.mem_cons_of_mem _ hj)
    dsimp only at ih
    simp only [List.count_cons, beq_iff_eq, Item.composite.injEq, Task.close.injEq]
    omega
  | defineEnum _ _ ih =>
    rw [List.count_cons_of_ne (by simp), List.count_cons_of_ne (by simp)]
    exact ih fun j hj => hts j (List.mem_cons_of_mem _ hj)

theorem count_enum (id : EnumId) :
    is.count (.enum id) + (if id ∈ p.enums then 1 else 0) = if id ∈ q.enums then 1 else 0 := by
  induction h with
  | nil => simp
  | skip _ _ ih => exact ih
  | define _ _ ih => exact ih
  | passThrough _ _ ih => exact ih
  | close _ ih =>
    rw [List.count_cons_of_ne (by simp)]
    exact ih
  | @defineEnum i ts p q is hp _ ih =>
    by_cases hi : i = id
    · subst hi
      simp only [List.mem_cons, true_or, if_true] at ih
      rw [if_neg hp, List.count_cons_self]
      exact ih
    · simp only [List.mem_cons, Ne.symm hi, false_or] at ih
      rw [List.count_cons_of_ne (by simpa using hi)]
      exact ih

theorem mem_closing_iff (id : TypedefId) :
    id ∈ q.closing ↔ id ∈ p.closing ∨ ∃ i ∈ is, id ∈ a.closes i := by
  induction h with
  | nil => simp
  | skip _ _ ih => exact ih
  | define _ _ ih => exact ih
  | passThrough _ _ ih => exact ih
  | close _ ih =>
    simp only [ih, List.mem_append, List.mem_cons, exists_eq_or_imp, or_assoc]
    exact or_left_comm
  | defineEnum _ _ ih =>
    simp only [ih, List.mem_append, List.mem_cons, exists_eq_or_imp, or_assoc]
    exact or_left_comm

theorem of_mem {P : Task → Prop} (hts : ∀ t ∈ ts, P t)
    (hdefine : ∀ id, P (.define id) → P (.close id) ∧ ∀ t ∈ a.embedded id, P t)
    (hpass : ∀ id, P (.passThrough id) → ∀ t ∈ a.embedded id, P t) {i : Item} (hi : i ∈ is) :
    (∃ id, i = .composite id ∧ P (.close id)) ∨ ∃ id, i = .enum id ∧ P (.defineEnum id) := by
  induction h with
  | nil => exact nomatch hi
  | skip _ _ ih => exact ih (fun t ht => hts t (List.mem_cons_of_mem _ ht)) hi
  | @define id ts _ _ _ _ _ ih =>
    refine ih (fun t ht => ?_) hi
    have hid := hdefine id (hts _ List.mem_cons_self)
    obtain ht | ht := List.mem_append.mp ht
    · exact hid.2 t ht
    · obtain rfl | ht := List.mem_cons.mp ht
      · exact hid.1
      · exact hts t (List.mem_cons_of_mem _ ht)
  | @passThrough id ts _ _ _ _ _ ih =>
    refine ih (fun t ht => ?_) hi
    obtain ht | ht := List.mem_append.mp ht
    · exact hpass id (hts _ List.mem_cons_self) t ht
    · exact hts t (List.mem_cons_of_mem _ ht)
  | @close id _ _ _ _ _ ih =>
    obtain rfl | hi := List.mem_cons.mp hi
    · exact .inl ⟨id, rfl, hts _ List.mem_cons_self⟩
    · exact ih (fun t ht => hts t (List.mem_cons_of_mem _ ht)) hi
  | @defineEnum id _ _ _ _ _ _ ih =>
    obtain rfl | hi := List.mem_cons.mp hi
    · exact .inr ⟨id, rfl, hts _ List.mem_cons_self⟩
    · exact ih (fun t ht => hts t (List.mem_cons_of_mem _ ht)) hi

end Writes

end Arena

end DebugSymbols
