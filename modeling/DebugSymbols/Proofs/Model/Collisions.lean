import DebugSymbols.Proofs.Model.Grouping
import Mathlib.Data.List.Nodup

/-!
# Collisions

`g.Cut is key`: the groups are the list `is` cut by `key`, in whatever order they
stand. Entries collide that share a group.
-/

namespace DebugSymbols

theorem two_le_length_iff {α : Type} {l : List α} (hnd : l.Nodup) {a : α} (ha : a ∈ l) :
    2 ≤ l.length ↔ ∃ b ∈ l, b ≠ a := by
  match l, hnd, ha with
  | [b], _, ha =>
    rw [List.mem_singleton] at ha
    simp [ha]
  | b :: c :: l, hnd, ha =>
    refine ⟨fun _ => ?_, fun _ => Nat.le_add_left 2 _⟩
    have hne : b ≠ c := by
      rintro rfl
      exact (List.nodup_cons.mp hnd).1 List.mem_cons_self
    by_cases hba : b = a
    · exact ⟨c, List.mem_cons_of_mem _ List.mem_cons_self, fun hca => hne (hba.trans hca.symm)⟩
    · exact ⟨b, List.mem_cons_self, hba⟩

namespace Groups

variable {κ ι : Type} [DecidableEq κ]

structure Cut (g : Groups κ ι) (is : List ι) (key : ι → κ) : Prop where
  keys : g.keys.Nodup
  entries : ∀ e ∈ g.entries, e.2 = is.filter fun i => key i = e.1
  covers : ∀ i ∈ is, key i ∈ g.keys

theorem cut_ofList (key : ι → κ) (is : List ι) : (ofList key is).Cut is key where
  keys := keys_nodup_ofList key is
  entries _ he := eq_filter_of_mem_ofList he
  covers i hi := (mem_keys_ofList key is _).mpr ⟨i, hi, rfl⟩

namespace Cut

variable {g : Groups κ ι} {is : List ι} {key key' : ι → κ} (h : g.Cut is key)
include h

theorem congr (hk : ∀ i ∈ is, key i = key' i) : g.Cut is key' where
  keys := h.keys
  entries e he := by
    rw [h.entries e he]
    exact List.filter_congr fun i hi => by rw [hk i hi]
  covers i hi := hk i hi ▸ h.covers i hi

theorem get (k : κ) : g.get k = is.filter fun i => key i = k := by
  by_cases hk : k ∈ g.keys
  · exact h.entries _ (mem_entries_of_key h.keys hk)
  · have hnone : g.entries.lookup k = none := by
      rw [List.lookup_eq_none_iff]
      intro e he
      have hne : k ≠ e.1 := fun heq => hk (heq ▸ List.mem_map.mpr ⟨e, he, rfl⟩)
      simpa using hne
    have hempty : is.filter (fun i => key i = k) = [] :=
      List.filter_eq_nil_iff.mpr fun i hi hik => hk (of_decide_eq_true hik ▸ h.covers i hi)
    unfold Groups.get
    rw [hnone, hempty]
    rfl

theorem mem_get {k : κ} {i : ι} : i ∈ g.get k ↔ i ∈ is ∧ key i = k := by
  rw [h.get, List.mem_filter, decide_eq_true_eq]

theorem mem_iff {e : κ × List ι} (he : e ∈ g.entries) {i : ι} : i ∈ e.2 ↔ i ∈ is ∧ key i = e.1 := by
  rw [h.entries e he, List.mem_filter, decide_eq_true_eq]

theorem nodup_group (hnd : is.Nodup) {e : κ × List ι} (he : e ∈ g.entries) : e.2.Nodup := by
  rw [h.entries e he]
  exact hnd.filter _

theorem exists_entry {i : ι} (hi : i ∈ is) : ∃ e ∈ g.entries, e.1 = key i ∧ i ∈ e.2 :=
  ⟨_, mem_entries_of_key h.keys (h.covers i hi), rfl, h.mem_get.mpr ⟨hi, rfl⟩⟩

theorem retain (keep : ι → Bool) : (g.retain keep).Cut (is.filter keep) key where
  keys := by
    have hsub : (g.retain keep).keys.Sublist g.keys := by
      have hmap : (g.entries.map fun e => (e.1, e.2.filter keep)).map (·.1) = g.keys := by
        rw [List.map_map]
        rfl
      unfold Groups.keys at hmap ⊢
      rw [← hmap]
      exact List.filter_sublist.map _
    exact h.keys.sublist hsub
  entries e he := by
    obtain ⟨d, hd, rfl⟩ := List.mem_map.mp (List.mem_filter.mp he).1
    show d.2.filter keep = _
    rw [h.entries d hd, List.filter_filter, List.filter_filter]
    simp only [Bool.and_comm]
  covers i hi := by
    obtain ⟨hmem, hkeep⟩ := List.mem_filter.mp hi
    obtain ⟨d, hd, hkey, hid⟩ := h.exists_entry hmem
    have hstay : i ∈ d.2.filter keep := List.mem_filter.mpr ⟨hid, hkeep⟩
    have hentry : (d.1, d.2.filter keep) ∈ (g.retain keep).entries := by
      refine List.mem_filter.mpr ⟨List.mem_map.mpr ⟨d, hd, rfl⟩, ?_⟩
      simpa using List.ne_nil_of_mem hstay
    rw [← hkey]
    exact List.mem_map.mpr ⟨_, hentry, rfl⟩

theorem nodup_flatMap (hnd : is.Nodup) {f : κ × List ι → List ι} (hf : ∀ e, (f e).Sublist e.2) :
    (g.entries.flatMap f).Nodup := by
  rw [List.nodup_flatMap]
  refine ⟨fun e he => (h.nodup_group hnd he).sublist (hf e), ?_⟩
  · have hkeys := h.keys
    unfold Groups.keys List.Nodup at hkeys
    rw [List.pairwise_map] at hkeys
    refine hkeys.imp_of_mem fun {d e} hd he hne => ?_
    intro i hid hie
    have hkd := ((h.mem_iff hd).mp ((hf d).subset hid)).2
    have hke := ((h.mem_iff he).mp ((hf e).subset hie)).2
    exact hne (hkd.symm.trans hke)

theorem length_lt_two_iff (hnd : is.Nodup) :
    (∀ e ∈ g.entries, e.2.length < 2) ↔ ∀ i ∈ is, ∀ j ∈ is, key i = key j → i = j := by
  constructor
  · intro hall i hi j hj hkey
    obtain ⟨e, he, hke, hie⟩ := h.exists_entry hi
    have hje : j ∈ e.2 := (h.mem_iff he).mpr ⟨hj, hkey.symm.trans hke.symm⟩
    have hgroup := h.nodup_group hnd he
    by_contra hne
    exact absurd ((two_le_length_iff hgroup hje).mpr ⟨i, hie, hne⟩) (Nat.not_le_of_lt (hall e he))
  · intro hinj e he
    by_contra hlong
    have hgroup := h.nodup_group hnd he
    obtain ⟨i, hi⟩ := List.exists_mem_of_length_pos (Nat.lt_of_lt_of_le Nat.zero_lt_two (Nat.le_of_not_lt hlong))
    obtain ⟨j, hj, hne⟩ := (two_le_length_iff hgroup hi).mp (Nat.le_of_not_lt hlong)
    obtain ⟨hi, hki⟩ := (h.mem_iff he).mp hi
    obtain ⟨hj, hkj⟩ := (h.mem_iff he).mp hj
    exact hne (hinj j hj i hi (hkj.trans hki.symm))

end Cut

def Singletons (g : Groups κ ι) : Prop :=
  ∀ e ∈ g.entries, ∃ i, e.2 = [i]

theorem singletons_ofList_iff {key : ι → κ} {is : List ι} (hnd : is.Nodup) :
    (ofList key is).Singletons ↔ ∀ i ∈ is, ∀ j ∈ is, key i = key j → i = j := by
  rw [← (cut_ofList key is).length_lt_two_iff hnd]
  constructor
  · intro hall e he
    obtain ⟨i, hi⟩ := hall e he
    rw [hi]
    exact Nat.lt_succ_self 1
  · intro hall e he
    have hpos := List.length_pos_iff.mpr (ne_nil_of_mem_ofList he)
    have hshort := hall e he
    exact List.length_eq_one_iff.mp (by omega)

/-! ## What collides -/

/-- The entries that share a group, each with its key and its place in the group. -/
def colliding (g : Groups κ ι) : List (κ × ι × Nat) :=
  g.entries.flatMap fun e => if e.2.length < 2 then [] else e.2.zipIdx.map fun p => (e.1, p)

omit [DecidableEq κ] in
theorem map_colliding (g : Groups κ ι) :
    g.colliding.map (·.2.1) = g.entries.flatMap fun e => if e.2.length < 2 then [] else e.2 := by
  unfold colliding
  rw [List.map_flatMap]
  congr 1
  funext e
  split
  · rfl
  · rw [List.map_map]
    exact List.zipIdx_map_fst 0 e.2

omit [DecidableEq κ] in
theorem flatMap_retain {α : Type} {f : κ × List ι → List α} (hf : ∀ k, f (k, []) = []) (keep : ι → Bool)
    (g : Groups κ ι) : (g.retain keep).entries.flatMap f = g.entries.flatMap fun e => f (e.1, e.2.filter keep) := by
  obtain ⟨entries⟩ := g
  unfold retain
  dsimp only
  induction entries with
  | nil => rfl
  | cons e es ih =>
    rw [List.map_cons, List.flatMap_cons, ← ih]
    cases hstay : e.2.filter keep with
    | nil => simp [hf]
    | cons i is => simp

namespace Cut

variable {g : Groups κ ι} {is : List ι} {key : ι → κ} (h : g.Cut is key)
include h

theorem of_mem_colliding {c : κ × ι × Nat} (hc : c ∈ g.colliding) : c.2.1 ∈ is ∧ key c.2.1 = c.1 := by
  obtain ⟨e, he, hce⟩ := List.mem_flatMap.mp hc
  split at hce
  · exact nomatch hce
  · obtain ⟨p, hp, rfl⟩ := List.mem_map.mp hce
    exact (h.mem_iff he).mp (List.fst_mem_of_mem_zipIdx hp)

variable (hnd : is.Nodup)
include hnd

theorem nodup_colliding : (g.colliding.map (·.2.1)).Nodup := by
  rw [map_colliding]
  refine h.nodup_flatMap hnd fun e => ?_
  split
  · exact List.nil_sublist _
  · exact .refl _

theorem mem_colliding_iff {i : ι} :
    i ∈ g.colliding.map (·.2.1) ↔ i ∈ is ∧ ∃ j ∈ is, j ≠ i ∧ key j = key i := by
  rw [map_colliding, List.mem_flatMap]
  constructor
  · rintro ⟨e, he, hie⟩
    split at hie
    · exact nomatch hie
    · rename_i hlong
      obtain ⟨hi, hki⟩ := (h.mem_iff he).mp hie
      obtain ⟨j, hj, hne⟩ := (two_le_length_iff (h.nodup_group hnd he) hie).mp (Nat.le_of_not_lt hlong)
      obtain ⟨hj, hkj⟩ := (h.mem_iff he).mp hj
      exact ⟨hi, j, hj, hne, hkj.trans hki.symm⟩
  · rintro ⟨hi, j, hj, hne, hkey⟩
    obtain ⟨e, he, hke, hie⟩ := h.exists_entry hi
    have hje : j ∈ e.2 := (h.mem_iff he).mpr ⟨hj, hkey.trans hke.symm⟩
    refine ⟨e, he, ?_⟩
    rw [if_neg (Nat.not_lt_of_le ((two_le_length_iff (h.nodup_group hnd he) hie).mpr ⟨j, hje, hne⟩))]
    exact hie

end Cut

end Groups

end DebugSymbols
