import DebugSymbols.Proofs.Model.Merging
import Mathlib.Logic.Function.Basic

/-!
# Aliases pooled

Merging pools the aliases of a struct, union or enum with those of its copies:
of the typedefs that are alike it keeps one, and it loses none that is like no
other. What is skipped here is what the pass over typedefs would have merged.
-/

namespace DebugSymbols

/-! ## Pools -/

/-- `ids` comes from `source` and has one entry of each key that there is. -/
structure Pools {ι κ : Type} (key : ι → κ) (source : ι → Prop) (ids : List ι) : Prop where
  sound : ∀ i ∈ ids, source i
  complete : ∀ i, source i → ∃ k ∈ ids, key k = key i
  apart : ids.Pairwise fun i j => key i ≠ key j

namespace Pools

variable {ι κ : Type} {key : ι → κ} {source source' : ι → Prop} {ids : List ι} {i : ι}

theorem of_apart (h : ids.Pairwise fun i j => key i ≠ key j) : Pools key (· ∈ ids) ids :=
  ⟨fun _ hi => hi, fun i hi => ⟨i, hi, rfl⟩, h⟩

theorem congr (h : Pools key source ids) (hs : ∀ i, source i ↔ source' i) : Pools key source' ids :=
  ⟨fun i hi => (hs i).mp (h.sound i hi), fun i hi => h.complete i ((hs i).mpr hi), h.apart⟩

theorem nodup (h : Pools key source ids) : ids.Nodup :=
  h.apart.imp fun hne heq => hne (congrArg key heq)

theorem concat (h : Pools key source ids) (hi : ∀ k ∈ ids, key k ≠ key i) :
    Pools key (fun j => source j ∨ j = i) (ids ++ [i]) where
  sound j hj := by
    obtain hj | hj := List.mem_append.mp hj
    · exact .inl (h.sound j hj)
    · exact .inr (List.mem_singleton.mp hj)
  complete j hj := by
    obtain hj | rfl := hj
    · obtain ⟨k, hk, heq⟩ := h.complete j hj
      exact ⟨k, List.mem_append_left _ hk, heq⟩
    · exact ⟨j, List.mem_append_right _ (List.mem_singleton_self j), rfl⟩
  apart := by
    refine List.pairwise_append.mpr ⟨h.apart, List.pairwise_singleton _ _, fun k hk j hj => ?_⟩
    rw [List.mem_singleton.mp hj]
    exact hi k hk

theorem skip (h : Pools key source ids) (hi : ∃ k ∈ ids, key k = key i) :
    Pools key (fun j => source j ∨ j = i) ids where
  sound j hj := .inl (h.sound j hj)
  complete j hj := by
    obtain hj | rfl := hj
    · exact h.complete j hj
    · exact hi
  apart := h.apart

theorem trans {σ : Type} {among : σ → Prop} {lists : σ → List ι} {sources : σ → ι → Prop}
    (h : Pools key (fun i => ∃ s, among s ∧ i ∈ lists s) ids) (hl : ∀ s, among s → Pools key (sources s) (lists s)) :
    Pools key (fun i => ∃ s, among s ∧ sources s i) ids where
  sound i hi := by
    obtain ⟨s, hs, hmem⟩ := h.sound i hi
    exact ⟨s, hs, (hl s hs).sound i hmem⟩
  complete i hi := by
    obtain ⟨s, hs, hsource⟩ := hi
    obtain ⟨j, hj, hkey⟩ := (hl s hs).complete i hsource
    obtain ⟨k, hk, hkey'⟩ := h.complete j ⟨s, hs, hj⟩
    exact ⟨k, hk, hkey'.trans hkey⟩
  apart := h.apart

/-! With the first entry of a list in place of each that it is like. -/

section
variable [DecidableEq ι] {alike : ι → ι → Bool} {is : List ι} (hkey : ∀ i j, alike i j = true ↔ key i = key j)
  (his : ∀ i, source i → i ∈ is)
include hkey his

theorem apart_firsts (h : Pools key source ids) :
    (ids.map (firstLike alike is)).Pairwise fun i j => alike i j = false := by
  refine List.pairwise_map.mpr (h.apart.imp_of_mem fun {i j} hi hj hne => ?_)
  have hkeyi := (hkey _ _).mp (alike_firstLike hkey (his i (h.sound i hi)))
  have hkeyj := (hkey _ _).mp (alike_firstLike hkey (his j (h.sound j hj)))
  by_contra hlike
  have hsame := (hkey _ _).mp (by simpa using hlike)
  rw [hkeyi, hkeyj] at hsame
  exact hne hsame

theorem mem_firsts (h : Pools key source ids) (j : ι) :
    j ∈ ids.map (firstLike alike is) ↔ ∃ i, source i ∧ firstLike alike is i = j := by
  rw [List.mem_map]
  constructor
  · rintro ⟨i, hi, hj⟩
    exact ⟨i, h.sound i hi, hj⟩
  · rintro ⟨i, hi, rfl⟩
    obtain ⟨k, hk, hsame⟩ := h.complete i hi
    exact ⟨k, hk, firstLike_congr hkey (his k (h.sound k hk)) (his i hi) hsame⟩

end

end Pools

/-! ## Merging two lists -/

namespace Arena

def aliasKey (a : Arena) (id : TypedefId) : UInt32 × UInt32 × Option StorageClass × String × Category :=
  (a.typedef id).likeness

theorem mergeAliases_congr {a a' : Arena} (h : a'.typedefs = a.typedefs) (kept ids : List TypedefId) :
    a'.mergeAliases kept ids = a.mergeAliases kept ids := by
  induction ids generalizing kept with
  | nil => rfl
  | cons id ids ih =>
    simp only [mergeAliases, ih]
    unfold typedef
    rw [h]

theorem pools_mergeAliases {a : Arena} {source : TypedefId → Prop} {kept : List TypedefId}
    (h : Pools a.aliasKey source kept) (ids : List TypedefId) :
    Pools a.aliasKey (fun i => source i ∨ i ∈ ids) (a.mergeAliases kept ids) := by
  induction ids generalizing kept source with
  | nil => exact h.congr fun i => by simp
  | cons id ids ih =>
    have hsource : ∀ i, ((source i ∨ i = id) ∨ i ∈ ids) ↔ (source i ∨ i ∈ id :: ids) := fun i => by
      rw [List.mem_cons, or_assoc]
    unfold mergeAliases
    by_cases hlike : (kept.any fun k => (a.typedef k).alike (a.typedef id)) = true
    · rw [if_pos hlike]
      obtain ⟨k, hk, hlike⟩ := List.any_eq_true.mp hlike
      exact (ih (h.skip ⟨k, hk, (Decl.alike_iff _ _).mp hlike⟩)).congr hsource
    · rw [if_neg hlike]
      refine (ih (h.concat fun k hk heq => hlike ?_)).congr hsource
      exact List.any_eq_true.mpr ⟨k, hk, (Decl.alike_iff _ _).mpr heq⟩

end Arena

/-! ## Merging copy after copy -/

section
variable {ι τ κ : Type} [DecidableEq ι]

/-- Lists, one for each entry, after each kept entry has taken over those of its copies. -/
def absorbed (merge : List τ → List τ → List τ) (copies : List (ι × ι)) (lists : ι → List τ) : ι → List τ :=
  copies.foldl (fun lists c => Function.update lists c.2 (merge (lists c.2) (lists c.1))) lists

variable {merge : List τ → List τ → List τ} {copies : List (ι × ι)} {lists : ι → List τ}

theorem absorbed_concat (c : ι × ι) :
    absorbed merge (copies ++ [c]) lists =
      Function.update (absorbed merge copies lists) c.2
        (merge (absorbed merge copies lists c.2) (absorbed merge copies lists c.1)) := by
  simp [absorbed]

theorem absorbed_of_not_kept {i : ι} (h : ∀ c ∈ copies, c.2 ≠ i) : absorbed merge copies lists i = lists i := by
  induction copies using List.reverseRecOn with
  | nil => rfl
  | append_singleton copies c ih =>
    have hc : i ≠ c.2 := fun heq => h c (List.mem_append_right _ (List.mem_singleton_self c)) heq.symm
    rw [absorbed_concat, Function.update_of_ne hc]
    exact ih fun d hd => h d (List.mem_append_left _ hd)

/-- No entry is both a copy and kept, so what a copy hands over is what it had. -/
theorem pools_absorbed {key : τ → κ}
    (hmerge : ∀ {source kept}, Pools key source kept → ∀ ids, Pools key (fun t => source t ∨ t ∈ ids) (merge kept ids))
    (hcopies : ∀ c ∈ copies, ∀ d ∈ copies, d.2 ≠ c.1) {i : ι} (hi : (lists i).Pairwise fun s t => key s ≠ key t) :
    Pools key (fun t => t ∈ lists i ∨ ∃ c ∈ copies, c.2 = i ∧ t ∈ lists c.1) (absorbed merge copies lists i) := by
  induction copies using List.reverseRecOn with
  | nil => exact (Pools.of_apart hi).congr fun t => by simp
  | append_singleton copies c ih =>
    have hlast : c ∈ copies ++ [c] := List.mem_append_right _ (List.mem_singleton_self c)
    have hcopy : absorbed merge copies lists c.1 = lists c.1 :=
      absorbed_of_not_kept fun d hd => hcopies c hlast d (List.mem_append_left _ hd)
    have ih := ih fun c hc d hd => hcopies c (List.mem_append_left _ hc) d (List.mem_append_left _ hd)
    rw [absorbed_concat, hcopy]
    by_cases hc : c.2 = i
    · subst hc
      rw [Function.update_self]
      refine (hmerge ih (lists c.1)).congr fun t => ?_
      simp only [List.mem_append, List.mem_singleton, or_and_right, exists_or, exists_eq_left, true_and, or_assoc]
    · rw [Function.update_of_ne (Ne.symm hc)]
      refine ih.congr fun t => ?_
      simp only [List.mem_append, List.mem_singleton, or_and_right, exists_or, exists_eq_left, hc, false_and, or_false]

theorem pools_moved {key : τ → κ} {first : ι → ι} {is : List ι}
    (hmerge : ∀ {source kept}, Pools key source kept → ∀ ids, Pools key (fun t => source t ∨ t ∈ ids) (merge kept ids))
    (hfix : ∀ i ∉ is, first i = i) (hfirst : ∀ i, first (first i) = first i) {i : ι} (hi : first i = i)
    (hapart : (lists i).Pairwise fun s t => key s ≠ key t) :
    Pools key (fun t => ∃ s, first s = i ∧ t ∈ lists s) (absorbed merge (moved first is) lists i) := by
  have hcopies : ∀ c ∈ moved first is, ∀ d ∈ moved first is, d.2 ≠ c.1 := by
    intro c hc d hd heq
    obtain ⟨j, hj, rfl⟩ := List.mem_map.mp hc
    obtain ⟨k, hk, rfl⟩ := List.mem_map.mp hd
    have hmoves := of_decide_eq_true (List.mem_filter.mp hj).2
    have heq : first k = j := heq
    rw [← heq] at hmoves
    exact hmoves (hfirst k)
  refine (pools_absorbed hmerge hcopies hapart).congr fun t => ⟨?_, ?_⟩
  · rintro (ht | ⟨c, hc, hkept, ht⟩)
    · exact ⟨i, hi, ht⟩
    · obtain ⟨j, _, rfl⟩ := List.mem_map.mp hc
      exact ⟨j, hkept, ht⟩
  · rintro ⟨s, hs, ht⟩
    by_cases hmoves : first s = s
    · rw [← hs, hmoves]
      exact .inl ht
    · have hmem : s ∈ is := by
        by_contra hnot
        exact hmoves (hfix s hnot)
      exact .inr ⟨(s, first s), List.mem_map.mpr ⟨s, List.mem_filter.mpr ⟨hmem, decide_eq_true hmoves⟩, rfl⟩, hs, ht⟩

end

/-! ## Merging in the arena -/

namespace Arena

theorem aliases_absorbComposite {a : Arena} {copy kept : CompositeId} (h : kept.index < a.composites.length) :
    (fun i => ((a.absorbComposite copy kept).composite i).aliases) =
      Function.update (fun i => (a.composite i).aliases) kept
        (a.mergeAliases (a.composite kept).aliases (a.composite copy).aliases) := by
  funext i
  unfold absorbComposite
  rw [composite_modifyComposite]
  by_cases hi : kept = i
  · subst hi
    rw [if_pos ⟨rfl, h⟩, Function.update_self]
  · rw [if_neg fun h => hi h.1, Function.update_of_ne (Ne.symm hi)]

theorem aliases_absorbEnum {a : Arena} {copy kept : EnumId} (h : kept.index < a.enums.length) :
    (fun i => ((a.absorbEnum copy kept).enumeration i).aliases) =
      Function.update (fun i => (a.enumeration i).aliases) kept
        (a.mergeAliases (a.enumeration kept).aliases (a.enumeration copy).aliases) := by
  funext i
  unfold absorbEnum
  rw [enumeration_modifyEnum]
  by_cases hi : kept = i
  · subst hi
    rw [if_pos ⟨rfl, h⟩, Function.update_self]
  · rw [if_neg fun h => hi h.1, Function.update_of_ne (Ne.symm hi)]

/-- To absorb a copy is to take over its aliases, and no definition changes. -/
structure Absorbs {ι : Type} [DecidableEq ι] (absorb : Arena → ι → ι → Arena) (aliases : Arena → ι → List TypedefId)
    (InRange : Arena → ι → Prop) : Prop where
  same : ∀ (a : Arena) copy kept, a.SameDefinitions (absorb a copy kept)
  inRange : ∀ {a a' : Arena} {i}, a.SameDefinitions a' → InRange a i → InRange a' i
  takes : ∀ {a copy kept}, InRange a kept →
    aliases (absorb a copy kept) = Function.update (aliases a) kept (a.mergeAliases (aliases a kept) (aliases a copy))

theorem absorbs_composite :
    Absorbs absorbComposite (fun a i => (a.composite i).aliases) fun a i => i.index < a.composites.length where
  same := sameDefinitions_absorbComposite
  inRange h hi := by rwa [← List.length_map (f := Composite.definition), h.composites, List.length_map]
  takes := aliases_absorbComposite

theorem absorbs_enum : Absorbs absorbEnum (fun a i => (a.enumeration i).aliases) fun a i => i.index < a.enums.length where
  same := sameDefinitions_absorbEnum
  inRange h hi := by rwa [← List.length_map (f := Enumeration.definition), h.enums, List.length_map]
  takes := aliases_absorbEnum

section
variable {ι : Type} [DecidableEq ι] {absorb : Arena → ι → ι → Arena} {aliases : Arena → ι → List TypedefId}
  {InRange : Arena → ι → Prop} {a : Arena}

theorem Absorbs.aliases_foldl (habs : Absorbs absorb aliases InRange) {copies : List (ι × ι)}
    (h : ∀ c ∈ copies, InRange a c.2) :
    aliases (copies.foldl (fun a c => absorb a c.1 c.2) a) = absorbed a.mergeAliases copies (aliases a) := by
  induction copies using List.reverseRecOn with
  | nil => rfl
  | append_singleton copies c ih =>
    have hdefs := sameDefinitions_foldl (ι := ι × ι) (fun a c => habs.same a c.1 c.2) copies a
    have hc := habs.inRange hdefs (h c (List.mem_append_right _ (List.mem_singleton_self c)))
    have hmerge := funext₂ (mergeAliases_congr hdefs.typedefs)
    rw [List.foldl_append, absorbed_concat, ← ih fun c hc => h c (List.mem_append_left _ hc)]
    show aliases (absorb _ c.1 c.2) = _
    rw [habs.takes hc, hmerge]

theorem Absorbs.pools (habs : Absorbs absorb aliases InRange) {κ : Type} {key : ι → κ} {alike : ι → ι → Bool}
    (halike : ∀ i j, alike i j = true ↔ key i = key j) {is : List ι} (his : ∀ i ∈ is, InRange a i) {i : ι}
    (hi : firstLike alike is i = i) (hapart : (aliases a i).Pairwise fun s t => a.aliasKey s ≠ a.aliasKey t) :
    Pools a.aliasKey (fun t => ∃ s, firstLike alike is s = i ∧ t ∈ aliases a s)
      (aliases ((moved (firstLike alike is) is).foldl (fun a c => absorb a c.1 c.2) a) i) := by
  have hrange : ∀ c ∈ moved (firstLike alike is) is, InRange a c.2 := by
    intro c hmoved
    obtain ⟨j, hj, rfl⟩ := List.mem_map.mp hmoved
    exact his _ (firstLike_mem halike (List.mem_filter.mp hj).1)
  rw [habs.aliases_foldl hrange]
  exact pools_moved pools_mergeAliases (fun i hi => firstLike_of_notMem hi) (fun _ => firstLike_firstLike halike) hi
    hapart

end

theorem aliases_renumber_composite (f : Renumbering) (a : Arena) (i : CompositeId) :
    ((a.renumber f).composite i).aliases = f.aliases (a.composite i).aliases := by
  have hmap : (a.renumber f).composites.map (·.aliases) = a.composites.map fun c => f.aliases c.aliases := by
    show (a.composites.map (Composite.renumber f)).map (·.aliases) = _
    rw [List.map_map]
    rfl
  exact getD_congr_map hmap rfl i.index

theorem aliases_renumber_enum (f : Renumbering) (a : Arena) (i : EnumId) :
    ((a.renumber f).enumeration i).aliases = f.aliases (a.enumeration i).aliases := by
  have hmap : (a.renumber f).enums.map (·.aliases) = a.enums.map fun e => f.aliases e.aliases := by
    show (a.enums.map (Enumeration.renumber f)).map (·.aliases) = _
    rw [List.map_map]
    rfl
  exact getD_congr_map hmap rfl i.index

end Arena

theorem withoutRepeats_of_nodup {ι : Type} [DecidableEq ι] {is : List ι} (h : is.Nodup) : withoutRepeats is = is := by
  induction is using List.reverseRecOn with
  | nil => rfl
  | append_singleton is i ih =>
    obtain ⟨his, _, hi⟩ := List.nodup_append.mp h
    have hstep : withoutRepeats (is ++ [i]) =
        if i ∈ withoutRepeats is then withoutRepeats is else withoutRepeats is ++ [i] := by
      unfold withoutRepeats
      rw [List.foldl_append]
      rfl
    have hnot : i ∉ is := fun hmem => hi i hmem i (List.mem_singleton_self i) rfl
    rw [hstep, ih his, if_neg hnot]

theorem Renumbering.aliases_of_nodup {f : Renumbering} (hf : f.typedef = id) {ids : List TypedefId} (h : ids.Nodup) :
    f.aliases ids = ids := by
  unfold Renumbering.aliases
  rw [hf, List.map_id, withoutRepeats_of_nodup h]

/-! ## The passes -/

namespace Overlay

variable {o : Overlay}

theorem arena_mergeComposites (kind : CompositeKind) {key : CompositeId → Tag} (hc : (o.composites kind).Indexes key) :
    let first := firstLike o.compositesAlike (o.composites kind).listed
    let copies := moved first (o.composites kind).listed
    (o.mergeComposites kind).1.arena =
      if copies = [] then o.arena
      else (copies.foldl (fun a c => a.absorbComposite c.1 c.2) o.arena).renumber { composite := first } := by
  intro first copies
  rw [mergeComposites_eq kind hc]
  by_cases hnil : copies = []
  · rw [if_pos hnil, if_pos hnil]
  · rw [if_neg hnil, if_neg hnil, arena_setComposites]
    rfl

theorem arena_mergeEnums {key : EnumId → Tag} (he : o.enums.Indexes key) :
    let first := firstLike o.enumsAlike o.enums.listed
    let copies := moved first o.enums.listed
    o.mergeEnums.1.arena =
      if copies = [] then o.arena
      else (copies.foldl (fun a c => a.absorbEnum c.1 c.2) o.arena).renumber { enum := first } := by
  intro first copies
  rw [mergeEnums_eq he]
  by_cases hnil : copies = []
  · rw [if_pos hnil, if_pos hnil]
  · rw [if_neg hnil, if_neg hnil]
    rfl

theorem pools_mergeComposites (kind : CompositeKind) {key : CompositeId → Tag} (hc : (o.composites kind).Indexes key)
    (hlt : ∀ i ∈ (o.composites kind).listed, i.index < o.arena.composites.length) {i : CompositeId}
    (hi : firstLike o.compositesAlike (o.composites kind).listed i = i)
    (hapart : (o.arena.composite i).aliases.Pairwise fun s t => o.arena.aliasKey s ≠ o.arena.aliasKey t) :
    Pools o.arena.aliasKey
      (fun t => ∃ s, firstLike o.compositesAlike (o.composites kind).listed s = i ∧ t ∈ (o.arena.composite s).aliases)
      ((o.mergeComposites kind).1.arena.composite i).aliases := by
  have hpools := Arena.absorbs_composite.pools o.compositesAlike_iff hlt hi hapart
  rw [arena_mergeComposites kind hc]
  split
  · rename_i hnil
    rw [hnil] at hpools
    exact hpools
  · rw [Arena.aliases_renumber_composite, Renumbering.aliases_of_nodup rfl hpools.nodup]
    exact hpools

theorem pools_mergeEnums {key : EnumId → Tag} (he : o.enums.Indexes key)
    (hlt : ∀ i ∈ o.enums.listed, i.index < o.arena.enums.length) {i : EnumId}
    (hi : firstLike o.enumsAlike o.enums.listed i = i)
    (hapart : (o.arena.enumeration i).aliases.Pairwise fun s t => o.arena.aliasKey s ≠ o.arena.aliasKey t) :
    Pools o.arena.aliasKey
      (fun t => ∃ s, firstLike o.enumsAlike o.enums.listed s = i ∧ t ∈ (o.arena.enumeration s).aliases)
      (o.mergeEnums.1.arena.enumeration i).aliases := by
  have hpools := Arena.absorbs_enum.pools o.enumsAlike_iff hlt hi hapart
  rw [arena_mergeEnums he]
  split
  · rename_i hnil
    rw [hnil] at hpools
    exact hpools
  · rw [Arena.aliases_renumber_enum, Renumbering.aliases_of_nodup rfl hpools.nodup]
    exact hpools

/-! ## What a pass leaves alone -/

theorem enumAliases_mergeComposites (kind : CompositeKind) {key : CompositeId → Tag}
    (hc : (o.composites kind).Indexes key) {i : EnumId} (hi : (o.arena.enumeration i).aliases.Nodup) :
    ((o.mergeComposites kind).1.arena.enumeration i).aliases = (o.arena.enumeration i).aliases := by
  rw [arena_mergeComposites kind hc]
  split
  · rfl
  · rw [Arena.aliases_renumber_enum]
    unfold Arena.enumeration at hi ⊢
    rw [Arena.enums_foldl_absorbComposite, Renumbering.aliases_of_nodup rfl hi]

theorem aliases_mergeEnums {key : EnumId → Tag} (he : o.enums.Indexes key) {i : CompositeId}
    (hi : (o.arena.composite i).aliases.Nodup) :
    (o.mergeEnums.1.arena.composite i).aliases = (o.arena.composite i).aliases := by
  rw [arena_mergeEnums he]
  split
  · rfl
  · rw [Arena.aliases_renumber_composite]
    unfold Arena.composite at hi ⊢
    rw [Arena.composites_foldl_absorbEnum, Renumbering.aliases_of_nodup rfl hi]

end Overlay

end DebugSymbols
