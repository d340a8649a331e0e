import DebugSymbols.Model.Groups
import Mathlib.Data.List.Induction

/-!
# Grouping

`Groups.ofList key is` is the list `is` cut into groups: under each key stand
the entries of that key in the order of the list, and no key stands twice.
-/

namespace DebugSymbols

namespace Groups

variable {κ ι : Type} [DecidableEq κ]

/-! ## One more entry -/

theorem lookup_addTo (k l : κ) (i : ι) : ∀ es : List (κ × List ι),
    (addTo k i es).lookup l = if l = k then some ((es.lookup k).getD [] ++ [i]) else es.lookup l
  | [] => by
    by_cases h : l = k
    · simp [addTo, h]
    · simp [addTo, h, List.lookup_cons, beq_false_of_ne h]
  | (m, is) :: es => by
    have ih := lookup_addTo k l i es
    unfold addTo
    by_cases hm : m = k
    · subst hm
      by_cases h : l = m
      · simp [h]
      · simp [h, List.lookup_cons, beq_false_of_ne h]
    · rw [if_neg hm]
      by_cases h : l = m
      · simp [h, hm]
      · simp [List.lookup_cons, beq_false_of_ne h, beq_false_of_ne (Ne.symm hm), ih]

theorem get_add (g : Groups κ ι) (k l : κ) (i : ι) :
    (g.add k i).get l = if l = k then g.get k ++ [i] else g.get l := by
  unfold get add
  rw [lookup_addTo]
  split <;> rfl

theorem mem_get_add {g : Groups κ ι} {k l : κ} {i j : ι} : j ∈ (g.add k i).get l ↔ j ∈ g.get l ∨ l = k ∧ j = i := by
  rw [get_add]
  split
  · rename_i h
    simp [h]
  · rename_i h
    simp [h]

theorem mem_get_add_self (g : Groups κ ι) (k : κ) (i : ι) : i ∈ (g.add k i).get k :=
  mem_get_add.mpr (.inr ⟨rfl, rfl⟩)

theorem keys_addTo (k : κ) (i : ι) : ∀ es : List (κ × List ι),
    (addTo k i es).map (·.1) =
      if k ∈ es.map (·.1) then es.map (·.1) else es.map (·.1) ++ [k]
  | [] => rfl
  | (m, is) :: es => by
    unfold addTo
    by_cases hm : m = k
    · simp [hm]
    · rw [if_neg hm, List.map_cons, keys_addTo k i es]
      by_cases h : k ∈ es.map (·.1)
      · simp [h]
      · simp only [h, ite_false, List.map_cons, List.mem_cons, Ne.symm hm, or_self,
          List.cons_append]

theorem mem_keys_add (g : Groups κ ι) (k l : κ) (i : ι) :
    l ∈ (g.add k i).keys ↔ l = k ∨ l ∈ g.keys := by
  unfold keys add
  rw [keys_addTo]
  split
  · rename_i h
    constructor
    · exact Or.inr
    · rintro (rfl | hl)
      · exact h
      · exact hl
  · simp [or_comm]

theorem keys_nodup_add {g : Groups κ ι} (h : g.keys.Nodup) (k : κ) (i : ι) : (g.add k i).keys.Nodup := by
  unfold keys at h
  unfold keys add
  rw [keys_addTo]
  split
  · exact h
  · rename_i hk
    exact List.nodup_append.mpr ⟨h, by simp, fun a ha b hb => by
      rw [List.mem_singleton] at hb
      rintro rfl
      exact hk (hb ▸ ha)⟩

theorem lookup_of_mem {ν : Type} {es : List (κ × ν)} (h : (es.map (·.1)).Nodup) {k : κ} {v : ν}
    (he : (k, v) ∈ es) : es.lookup k = some v := by
  induction es with
  | nil => cases he
  | cons e es ih =>
    obtain ⟨l, w⟩ := e
    rw [List.map_cons, List.nodup_cons] at h
    rcases List.mem_cons.mp he with heq | hm
    · cases heq; simp
    · have hne : k ≠ l := by
        rintro rfl
        exact h.1 (List.mem_map.mpr ⟨_, hm, rfl⟩)
      rw [List.lookup_cons, beq_false_of_ne hne]
      exact ih h.2 hm

theorem get_of_mem {g : Groups κ ι} (h : g.keys.Nodup) {k : κ} {is : List ι}
    (he : (k, is) ∈ g.entries) : g.get k = is := by
  unfold get
  rw [lookup_of_mem h he]
  rfl

theorem mem_entries_of_key {g : Groups κ ι} (h : g.keys.Nodup) {k : κ} (hk : k ∈ g.keys) :
    (k, g.get k) ∈ g.entries := by
  obtain ⟨⟨l, is⟩, he, rfl⟩ := List.mem_map.mp hk
  rw [get_of_mem h he]
  exact he

/-! ## The groups of a list -/

theorem ofList_concat (key : ι → κ) (is : List ι) (i : ι) :
    ofList key (is ++ [i]) = (ofList key is).add (key i) i := by
  simp [ofList]

theorem get_ofList (key : ι → κ) (is : List ι) (k : κ) :
    (ofList key is).get k = is.filter fun i => key i = k := by
  induction is using List.reverseRecOn with
  | nil => rfl
  | append_singleton is i ih =>
    rw [ofList_concat, get_add, List.filter_append]
    by_cases h : k = key i
    · subst h; simp [ih]
    · simp [h, Ne.symm h, ih]

theorem keys_nodup_ofList (key : ι → κ) (is : List ι) : (ofList key is).keys.Nodup := by
  induction is using List.reverseRecOn with
  | nil => exact List.nodup_nil
  | append_singleton is i ih => rw [ofList_concat]; exact keys_nodup_add ih _ _

theorem mem_keys_ofList (key : ι → κ) (is : List ι) (k : κ) :
    k ∈ (ofList key is).keys ↔ ∃ i ∈ is, key i = k := by
  induction is using List.reverseRecOn with
  | nil => simp [ofList, keys]
  | append_singleton is i ih =>
    rw [ofList_concat, mem_keys_add, ih]
    simp only [List.mem_append, List.mem_singleton]
    constructor
    · rintro (rfl | ⟨j, hj, rfl⟩)
      · exact ⟨i, .inr rfl, rfl⟩
      · exact ⟨j, .inl hj, rfl⟩
    · rintro ⟨j, hj | rfl, rfl⟩
      · exact .inr ⟨j, hj, rfl⟩
      · exact .inl rfl

theorem eq_filter_of_mem_ofList {key : ι → κ} {is : List ι} {e : κ × List ι}
    (he : e ∈ (ofList key is).entries) : e.2 = is.filter fun i => key i = e.1 := by
  rw [← get_ofList, get_of_mem (keys_nodup_ofList key is) he]

theorem ne_nil_of_mem_ofList {key : ι → κ} {is : List ι} {e : κ × List ι}
    (he : e ∈ (ofList key is).entries) : e.2 ≠ [] := by
  obtain ⟨i, hi, hk⟩ := (mem_keys_ofList key is e.1).mp (List.mem_map.mpr ⟨e, he, rfl⟩)
  rw [eq_filter_of_mem_ofList he]
  exact List.ne_nil_of_mem (List.mem_filter.mpr ⟨hi, by simpa using hk⟩)

theorem ofList_congr {key key' : ι → κ} {is : List ι} (h : ∀ i ∈ is, key i = key' i) :
    ofList key is = ofList key' is := by
  induction is using List.reverseRecOn with
  | nil => rfl
  | append_singleton is i ih =>
    rw [ofList_concat, ofList_concat, h i (by simp), ih fun j hj => h j (by simp [hj])]

/-! ## All entries -/

theorem flatMap_addTo (k : κ) (i : ι) : ∀ es : List (κ × List ι),
    ((addTo k i es).flatMap (·.2)).Perm (es.flatMap (·.2) ++ [i])
  | [] => .refl _
  | (l, is) :: es => by
    unfold addTo
    by_cases h : l = k
    · rw [if_pos h]
      simp only [List.flatMap_cons, List.append_assoc]
      exact (List.perm_append_comm).append_left is
    · rw [if_neg h]
      simp only [List.flatMap_cons, List.append_assoc]
      exact (flatMap_addTo k i es).append_left is

theorem flatMap_ofList (key : ι → κ) (is : List ι) : ((ofList key is).entries.flatMap (·.2)).Perm is := by
  induction is using List.reverseRecOn with
  | nil => exact .refl _
  | append_singleton is i ih =>
    rw [ofList_concat]
    exact (flatMap_addTo _ i _).trans (ih.append_right [i])

end Groups

/-! ## Catalogs -/

section
variable {κ ι : Type} [DecidableEq κ]

/-- The groups are those of the list, which names nothing twice. -/
structure Catalog.Indexes (c : Catalog κ ι) (key : ι → κ) : Prop where
  nodup : c.listed.Nodup
  groups : c.groups = .ofList key c.listed

namespace Catalog.Indexes

variable {c : Catalog κ ι} {key key' : ι → κ}

theorem congr (h : c.Indexes key) (hk : ∀ i ∈ c.listed, key i = key' i) : c.Indexes key' where
  nodup := h.nodup
  groups := by rw [h.groups, Groups.ofList_congr hk]

theorem add (h : c.Indexes key) {i : ι} (hi : i ∉ c.listed) {k : κ} (hk : key i = k) :
    (c.add k i).Indexes key where
  nodup := List.nodup_append.mpr ⟨h.nodup, List.pairwise_singleton _ i, fun j hj l hl => by
    rw [List.mem_singleton.mp hl]
    rintro rfl
    exact hi hj⟩
  groups := by
    show c.groups.add k i = .ofList key (c.listed ++ [i])
    rw [Groups.ofList_concat, ← h.groups, hk]

theorem mem_listed (h : c.Indexes key) {k : κ} {i : ι} (hi : i ∈ c.groups.get k) : i ∈ c.listed := by
  rw [h.groups, Groups.get_ofList] at hi
  exact (List.mem_filter.mp hi).1

theorem key_of_mem (h : c.Indexes key) {k : κ} {i : ι} (hi : i ∈ c.groups.get k) : key i = k := by
  rw [h.groups, Groups.get_ofList] at hi
  exact of_decide_eq_true (List.mem_filter.mp hi).2

theorem mem_of_entry (h : c.Indexes key) {e : κ × List ι} (he : e ∈ c.groups.entries) {i : ι} (hi : i ∈ e.2) :
    i ∈ c.listed := by
  rw [h.groups] at he
  rw [Groups.eq_filter_of_mem_ofList he] at hi
  exact (List.mem_filter.mp hi).1

theorem retain_congr (h : c.Indexes key) {keep keep' : ι → Bool} (hk : ∀ i ∈ c.listed, keep i = keep' i) :
    c.retain keep = c.retain keep' := by
  have hgroups : c.groups.retain keep = c.groups.retain keep' := by
    unfold Groups.retain
    rw [List.map_congr_left fun e he => by rw [List.filter_congr fun i hi => hk i (h.mem_of_entry he hi)]]
  unfold Catalog.retain
  rw [hgroups, List.filter_congr hk]

theorem retain_all (h : c.Indexes key) : c.retain (fun _ => true) = c := by
  have hne : ∀ e ∈ c.groups.entries, e.2 ≠ [] := by
    rw [h.groups]
    exact fun e he => Groups.ne_nil_of_mem_ofList he
  have hall : ∀ is : List ι, is.filter (fun _ => true) = is := fun is =>
    List.filter_eq_self.mpr fun _ _ => rfl
  have hgroups : c.groups.retain (fun _ => true) = c.groups := by
    unfold Groups.retain
    simp only [hall, List.map_id']
    rw [List.filter_eq_self.mpr]
    intro e he
    simpa using hne e he
  unfold Catalog.retain
  rw [hgroups, hall]

theorem entry_of_mem (h : c.Indexes key) {i : ι} (hi : i ∈ c.listed) : ∃ e ∈ c.groups.entries, i ∈ e.2 := by
  have hkey := (Groups.mem_keys_ofList key c.listed (key i)).mpr ⟨i, hi, rfl⟩
  have hnd := Groups.keys_nodup_ofList key c.listed
  rw [h.groups]
  refine ⟨_, Groups.mem_entries_of_key hnd hkey, ?_⟩
  rw [Groups.get_ofList]
  exact List.mem_filter.mpr ⟨hi, decide_eq_true rfl⟩

end Catalog.Indexes

/-- The catalog `c'` holds what `f` fixes of `c`, in the order of `c`. -/
structure Catalog.HoldsFixed (f : ι → ι) (c c' : Catalog κ ι) [DecidableEq ι] : Prop where
  listed : c'.listed = c.listed.filter fun i => f i = i
  groups : c'.groups.entries =
    (c.groups.entries.map fun e => (e.1, e.2.filter fun i => f i = i)).filter fun e => e.2 ≠ []
  nonempty : ∀ e ∈ c'.groups.entries, e.2 ≠ []
  mem_iff : ∀ i, i ∈ c'.listed ↔ ∃ e ∈ c'.groups.entries, i ∈ e.2

theorem Catalog.holdsFixed_retain [DecidableEq ι] {c : Catalog κ ι} {key : ι → κ} (h : c.Indexes key)
    (f : ι → ι) : HoldsFixed f c (c.retain fun i => f i = i) where
  listed := rfl
  groups := List.filter_congr fun e _ => by cases e.2 <;> simp
  nonempty e he := by
    have hne := (List.mem_filter.mp he).2
    simpa using hne
  mem_iff i := by
    constructor
    · intro hi
      obtain ⟨hmem, hfix⟩ := List.mem_filter.mp hi
      obtain ⟨e, he, hie⟩ := h.entry_of_mem hmem
      have hstay : i ∈ e.2.filter fun i => f i = i := List.mem_filter.mpr ⟨hie, hfix⟩
      refine ⟨(e.1, e.2.filter fun i => f i = i),
        List.mem_filter.mpr ⟨List.mem_map.mpr ⟨e, he, rfl⟩, ?_⟩, hstay⟩
      cases hl : e.2.filter fun i => f i = i with
      | nil => rw [hl] at hstay; exact nomatch hstay
      | cons j js => rfl
    · intro hex
      obtain ⟨e, he, hie⟩ := hex
      obtain ⟨d, hd, hde⟩ := List.mem_map.mp (List.mem_filter.mp he).1
      subst hde
      obtain ⟨hid, hfix⟩ := List.mem_filter.mp hie
      exact List.mem_filter.mpr ⟨h.mem_of_entry hd hid, hfix⟩

/-! ## Partitions -/

/-- The groups part the entries `is`: each stands in one group, there in order of `index` and
under a key that `under` allows. -/
structure Groups.Partition (g : Groups κ ι) (is : List ι) (index : ι → Nat) (under : κ → ι → Prop) :
    Prop where
  keys : g.keys.Nodup
  nonempty : ∀ e ∈ g.entries, e.2 ≠ []
  increasing : ∀ e ∈ g.entries, e.2.Pairwise fun i j => index i < index j
  under : ∀ e ∈ g.entries, ∀ i ∈ e.2, i ∈ is ∧ under e.1 i
  unique : ∀ i ∈ is, ∃! e, e ∈ g.entries ∧ i ∈ e.2

theorem Groups.partition_ofList {key : ι → κ} {is : List ι} {index : ι → Nat} {under : κ → ι → Prop}
    (hlt : is.Pairwise fun i j => index i < index j) (hunder : ∀ i ∈ is, under (key i) i) :
    (ofList key is).Partition is index under where
  keys := keys_nodup_ofList key is
  nonempty e he := ne_nil_of_mem_ofList he
  increasing e he := by
    rw [eq_filter_of_mem_ofList he]
    exact hlt.filter _
  under e he i hi := by
    rw [eq_filter_of_mem_ofList he] at hi
    obtain ⟨hmem, hkey⟩ := List.mem_filter.mp hi
    refine ⟨hmem, ?_⟩
    rw [← of_decide_eq_true hkey]
    exact hunder i hmem
  unique i hi := by
    have hnd := keys_nodup_ofList key is
    have hkey := (mem_keys_ofList key is (key i)).mpr ⟨i, hi, rfl⟩
    refine ⟨(key i, (ofList key is).get (key i)), ⟨mem_entries_of_key hnd hkey, ?_⟩, ?_⟩
    · rw [get_ofList]
      exact List.mem_filter.mpr ⟨hi, decide_eq_true rfl⟩
    · -- the group that `i` stands in goes by the key of `i`
      rintro ⟨k, js⟩ ⟨he, hij⟩
      have hjs := eq_filter_of_mem_ofList he
      rw [hjs] at hij
      cases of_decide_eq_true (List.mem_filter.mp hij).2
      rw [get_of_mem hnd he]

end

end DebugSymbols
