import DebugSymbols.Proofs.Model.Uniqueness

/-!
# Names of functions

A function whose name was made from its address as it was added keeps that name.
So the names of functions are unique after renaming if and only if no such name
is that of a function which stands alone in its group.
-/

namespace DebugSymbols.Overlay

/-- The functions are grouped by `key`. The first of a group goes by its key, and
those that do not go by the key of their group have different names. -/
structure FuncsKeyed (o : Overlay) (key : Nat → String) : Prop where
  groups : o.funcNames = .ofList key (List.range o.funcs.length)
  first : ∀ i < o.funcs.length, (∀ j < i, key j ≠ key i) → (o.func i).name = key i
  apart : ∀ i < o.funcs.length, ∀ j < o.funcs.length, (o.func i).name ≠ key i → (o.func j).name ≠ key j →
    (o.func i).name = (o.func j).name → i = j

/-- Where a function does not go by the key of its group, none stands alone under its name. -/
def FuncsSettled (o : Overlay) : Prop :=
  ∀ e ∈ o.funcNames.entries, ∀ i ∈ e.2, (o.func i).name ≠ e.1 → (o.funcNames.get (o.func i).name).length ≠ 1

variable {o : Overlay} {key : Nat → String}

theorem unique_funcs_iff (o : Overlay) : o.Unique .funcs ↔
    ∀ i < o.funcs.length, ∀ j < o.funcs.length, (o.func i).name = (o.func j).name → i = j := by
  constructor
  · exact fun hu i hi j hj heq => Entity.func.inj (hu _ _ (.funcs hi hj) heq)
  · intro hinj x y hxy heq
    cases hxy with
    | funcs hi hj => exact congrArg Entity.func (hinj _ hi _ hj heq)

theorem renamed_func_iff (h : o.funcNames.Cut (List.range o.funcs.length) key) (i : Nat) :
    (o.rename.1.func i).name ≠ (o.func i).name ↔ i ∈ o.collidingFuncs := by
  have hrenamed := (passed_funcs h).renamed_iff (x := .func i) rfl
  rw [List.mem_map_of_injective fun _ _ => Entity.func.inj] at hrenamed
  rw [← hrenamed]
  exact not_congr ⟨fun heq => congrArg Tag.named heq, Tag.named.inj⟩

theorem FuncsKeyed.congr {o' : Overlay} (h : o.FuncsKeyed key) (hgroups : o'.funcNames = o.funcNames)
    (hlength : o'.funcs.length = o.funcs.length) (hname : ∀ i, (o'.func i).name = (o.func i).name) :
    o'.FuncsKeyed key := by
  obtain ⟨groups, first, apart⟩ := h
  constructor <;> simpa only [hgroups, hlength, hname]

namespace FuncsKeyed

variable (h : o.FuncsKeyed key)
include h

theorem cut : o.funcNames.Cut (List.range o.funcs.length) key := by
  rw [h.groups]
  exact Groups.cut_ofList key _

theorem settled_iff : o.FuncsSettled ↔
    ∀ i < o.funcs.length, (o.func i).name ≠ key i → (o.funcNames.get (o.func i).name).length ≠ 1 := by
  constructor
  · intro hs i hi hown
    obtain ⟨e, he, hke, hie⟩ := h.cut.exists_entry (List.mem_range.mpr hi)
    exact hs e he i hie (hke ▸ hown)
  · intro hs e he i hie hown
    obtain ⟨hi, hki⟩ := (h.cut.mem_iff he).mp hie
    exact hs i (List.mem_range.mp hi) (hki ▸ hown)

theorem alone {i : Nat} (hi : i < o.funcs.length) (hown : (o.func i).name = key i) (hmem : i ∉ o.collidingFuncs) :
    o.funcNames.get (key i) = [i] := by
  have hother : ∀ j < o.funcs.length, key j = key i → j = i := by
    intro j hj hkey
    by_contra hne
    exact hmem ((mem_collidingFuncs h.cut).mpr ⟨hown, hi, j, hj, hne, hkey⟩)
  have hget := h.cut.get (key i)
  have hself : i ∈ o.funcNames.get (key i) := h.cut.mem_get.mpr ⟨List.mem_range.mpr hi, rfl⟩
  have hnd : (o.funcNames.get (key i)).Nodup := by
    rw [hget]
    exact List.nodup_range.filter _
  refine List.perm_singleton.mp ((List.perm_ext_iff_of_nodup hnd (List.nodup_singleton i)).mpr fun j => ?_)
  rw [List.mem_singleton]
  constructor
  · intro hj
    obtain ⟨hj, hkey⟩ := h.cut.mem_get.mp hj
    exact hother j (List.mem_range.mp hj) hkey
  · rintro rfl
    exact hself

theorem key_of_get {name : String} {i : Nat} (hget : o.funcNames.get name = [i]) :
    i < o.funcs.length ∧ key i = name ∧ ∀ j < o.funcs.length, key j = name → j = i := by
  have hmem : ∀ j, j ∈ o.funcNames.get name ↔ j < o.funcs.length ∧ key j = name := fun j => by
    rw [h.cut.mem_get, List.mem_range]
  simp only [hget, List.mem_singleton] at hmem
  obtain ⟨hi, hkey⟩ := (hmem i).mp rfl
  exact ⟨hi, hkey, fun j hj hkj => (hmem j).mpr ⟨hj, hkj⟩⟩

/-! ## Renaming once -/

theorem kept_of_get {i : Nat} (hget : o.funcNames.get (o.func i).name = [i]) :
    (o.rename.1.func i).name = (o.func i).name := by
  obtain ⟨_, _, hother⟩ := h.key_of_get hget
  by_contra hne
  rw [← ne_eq, renamed_func_iff h.cut, mem_collidingFuncs h.cut] at hne
  obtain ⟨hown, _, j, hj, hne, hkey⟩ := hne
  exact hne (hother j hj (hkey.trans hown.symm))

theorem kept_of_other {i : Nat} (hother : (o.func i).name ≠ key i) : (o.rename.1.func i).name = (o.func i).name := by
  by_contra hne
  rw [← ne_eq, renamed_func_iff h.cut, mem_collidingFuncs h.cut] at hne
  exact hother hne.1

theorem settled_of_unique (hu : o.rename.1.Unique .funcs) : o.FuncsSettled := by
  rw [h.settled_iff]
  intro i hi hown hone
  -- then another function stands alone under this name, and both keep it
  obtain ⟨j, hget⟩ := List.length_eq_one_iff.mp hone
  obtain ⟨hj, hkey, hother⟩ := h.key_of_get hget
  have hfirst : (o.func j).name = key j := h.first j hj fun k hk hkk =>
    absurd (hother k (Nat.lt_trans hk hj) (hkk.trans hkey)) (Nat.ne_of_lt hk)
  have hname : (o.func j).name = (o.func i).name := hfirst.trans hkey
  rw [← hname] at hget
  have hsame : (o.rename.1.func i).name = (o.rename.1.func j).name := by
    rw [h.kept_of_other hown, h.kept_of_get hget, hname]
  rw [unique_funcs_iff, (renamed_rename o).funcCount] at hu
  have heq := hu i hi j hj hsame
  exact hown (heq ▸ hfirst)

theorem unique_of_settled (hs : o.FuncsSettled) : o.rename.1.Unique .funcs := by
  rw [h.settled_iff] at hs
  -- one that has its own name and one that has the key of its group
  have hcross : ∀ i < o.funcs.length, ∀ j < o.funcs.length, (o.func i).name = key i → i ∉ o.collidingFuncs →
      (o.func j).name ≠ key j → (o.func i).name ≠ (o.func j).name := by
    intro i hi j hj hown hmem hother heq
    refine hs j hj hother ?_
    rw [← heq, hown, h.alone hi hown hmem]
    rfl
  rw [unique_funcs_iff, (renamed_rename o).funcCount]
  intro i hi j hj heq
  obtain heq | ⟨hmi, hmj, heq⟩ := (passed_funcs h.cut).eq_or_kept (x := .func i) (y := .func j) hi hj heq
  · exact Entity.func.inj heq
  · rw [List.mem_map_of_injective fun _ _ => Entity.func.inj] at hmi hmj
    have heq : (o.func i).name = (o.func j).name := heq
    by_cases hi' : (o.func i).name = key i
    · by_cases hj' : (o.func j).name = key j
      · by_contra hne
        exact hmi ((mem_collidingFuncs h.cut).mpr
          ⟨hi', hi, j, hj, Ne.symm hne, hj'.symm.trans (heq.symm.trans hi')⟩)
      · exact absurd heq (hcross i hi j hj hi' hmi hj')
    · by_cases hj' : (o.func j).name = key j
      · exact absurd heq.symm (hcross j hj i hi hj' hmj hi')
      · exact h.apart i hi j hj hi' hj' heq

end FuncsKeyed

/-! ## Renaming again -/

theorem cut_funcs_rename (o : Overlay) :
    o.rename.1.funcNames.Cut (List.range o.rename.1.funcs.length) fun i => (o.rename.1.func i).name :=
  Groups.cut_ofList _ _

section
variable (h : o.funcNames.Cut (List.range o.funcs.length) fun i => (o.func i).name)
include h

theorem collidingFuncs_eq_nil_iff : o.collidingFuncs = [] ↔ o.Unique .funcs := by
  rw [List.eq_nil_iff_forall_not_mem, unique_funcs_iff]
  simp only [mem_collidingFuncs h, true_and]
  constructor
  · intro hnone i hi j hj heq
    by_contra hne
    exact hnone i ⟨hi, j, hj, Ne.symm hne, heq.symm⟩
  · rintro hu i ⟨hi, j, hj, hne, heq⟩
    exact hne (hu j hj i hi heq)

theorem count_funcs_iff : o.rename.2.functions = 0 ↔ o.Unique .funcs := by
  have hcount : o.rename.2.functions = _ := (passed_funcs h).count
  rw [hcount, List.length_map, List.length_eq_zero_iff]
  exact collidingFuncs_eq_nil_iff h

theorem kept_funcs_iff : (∀ i, (o.rename.1.func i).name = (o.func i).name) ↔ o.Unique .funcs := by
  rw [← collidingFuncs_eq_nil_iff h, List.eq_nil_iff_forall_not_mem]
  refine forall_congr' fun i => ?_
  rw [← renamed_func_iff h i, ne_eq, not_not]

end

end DebugSymbols.Overlay
