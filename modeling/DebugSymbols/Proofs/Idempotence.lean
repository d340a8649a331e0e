import DebugSymbols.Proofs.UniqueNames
import DebugSymbols.Proofs.Merge

/-!
# Merging again

`merge_again`: what has been merged has no copies left, and renaming makes
none. Renaming changes nothing that is compared but tags, and two tags that are
alike then have been so before.
-/

namespace DebugSymbols.Overlay

variable {o : Overlay}

/-! ## Nothing to merge -/

/-- No two entries of a list are alike, and no two typedefs of a group. -/
structure Apart (o : Overlay) : Prop where
  composites : ∀ kind, (o.composites kind).listed.Pairwise fun i j => o.compositesAlike i j = false
  enums : o.enums.listed.Pairwise fun i j => o.enumsAlike i j = false
  typedefs : ∀ e ∈ o.typedefs.groups.entries, e.2.Pairwise fun i j => o.typedefsAlike i j = false

theorem Apart.mergeComposites_eq (h : o.Apart) (kind : CompositeKind) : o.mergeComposites kind = (o, 0) := by
  have hnone : (Sifted.ofList o.compositesAlike (o.composites kind).listed).copies = [] := by
    rw [ofList_of_apart (h.composites kind)]
  exact if_pos (List.isEmpty_iff.mpr hnone)

theorem Apart.mergeEnums_eq (h : o.Apart) : o.mergeEnums = (o, 0) := by
  have hnone : (Sifted.ofList o.enumsAlike o.enums.listed).copies = [] := by
    rw [ofList_of_apart h.enums]
  exact if_pos (List.isEmpty_iff.mpr hnone)

theorem Apart.mergeTypedefs_eq (h : o.Apart) : o.mergeTypedefs = (o, 0) := by
  have hnone : (o.typedefs.groups.entries.flatMap fun e => (Sifted.ofList o.typedefsAlike e.2).copies) = [] := by
    rw [List.flatMap_eq_nil_iff]
    intro e he
    rw [ofList_of_apart (h.typedefs e he)]
  exact if_pos (List.isEmpty_iff.mpr hnone)

theorem Apart.merge_eq (h : o.Apart) : o.merge = (o, { structs := 0, unions := 0, enums := 0, typedefs := 0 }) := by
  unfold merge
  rw [h.mergeComposites_eq .struct]
  dsimp only
  rw [h.mergeComposites_eq .union]
  dsimp only
  rw [h.mergeEnums_eq]
  dsimp only
  rw [h.mergeTypedefs_eq]

/-! ## After merging -/

theorem Indexed.apart_merge (ho : o.Indexed) : o.merge.1.Apart := by
  have hmerged := merge_merged ho
  have hred := hmerged.redirected
  constructor
  · intro kind
    rw [hred.compositesAlike, composites_merge_eq_firsts ho]
    exact (keepsFirsts o.compositesAlike_iff (ho.composites kind).nodup).apart
  · rw [hred.enumsAlike, hmerged.enums]
    exact (keepsFirsts o.enumsAlike_iff ho.enums.nodup).apart
  · intro e he
    rw [hred.typedefsAlike]
    rw [hmerged.typedefs] at he
    have hcut : o.typedefs.groups.Cut o.typedefs.listed fun id => (o.arena.typedef id).name := by
      rw [ho.typedefs.groups]
      exact Groups.cut_ofList _ _
    rw [(hcut.retain _).entries e he]
    exact (keepsFirsts o.typedefsAlike_iff ho.typedefs.nodup).apart.sublist List.filter_sublist

/-! ## After renaming -/

section
variable (ht : Uniquified .tags o)
include ht

/-- Equal tags are those of one entry, and what is anonymous was anonymous before. -/
theorem likeness_of_rename {x y : Entity} (hxy : o.Rivals .tags x y)
    (hlike : (o.rename.1.label x).likeness = (o.rename.1.label y).likeness) :
    x = y ∨ (o.label x).likeness = (o.label y).likeness := by
  obtain ⟨hx, hy⟩ := hxy.inSpace
  unfold Tag.likeness at hlike ⊢
  rw [ht.anonymous x (space_of_inSpace hx), ht.anonymous y (space_of_inSpace hy)] at hlike
  by_cases hax : (o.label x).isAnonymous = true
  · by_cases hay : (o.label y).isAnonymous = true
    · rw [if_pos hax, if_pos hay]
      exact .inr rfl
    · rw [if_pos hax, if_neg hay] at hlike
      exact nomatch hlike
  · by_cases hay : (o.label y).isAnonymous = true
    · rw [if_neg hax, if_pos hay] at hlike
      exact nomatch hlike
    · rw [if_neg hax, if_neg hay] at hlike
      have hrivals := (renamed_rename o).rivals_iff.mpr hxy
      exact .inl (ht.unique x y hrivals (congrArg Tag.text (Option.some.inj hlike)))

theorem compositesAlike_of_rename {kind : CompositeKind} {i j : CompositeId} (hi : i ∈ (o.composites kind).listed)
    (hj : j ∈ (o.composites kind).listed) (hlike : o.rename.1.compositesAlike i j = true) :
    o.compositesAlike i j = true := by
  rw [compositesAlike_iff] at hlike ⊢
  rw [(renamed_rename o).composite i, (renamed_rename o).composite j] at hlike
  simp only [Composite.likeness, Prod.mk.injEq] at hlike ⊢
  obtain ⟨hkind, htag, hsize, hfields⟩ := hlike
  obtain heq | htag := likeness_of_rename ht (.composites hi hj) htag
  · cases heq
    exact ⟨rfl, rfl, rfl, rfl⟩
  · exact ⟨hkind, htag, hsize, hfields⟩

theorem enumsAlike_of_rename {i j : EnumId} (hi : i ∈ o.enums.listed) (hj : j ∈ o.enums.listed)
    (hlike : o.rename.1.enumsAlike i j = true) : o.enumsAlike i j = true := by
  rw [enumsAlike_iff] at hlike ⊢
  rw [(renamed_rename o).enumeration i, (renamed_rename o).enumeration j] at hlike
  simp only [Enumeration.likeness, Prod.mk.injEq] at hlike ⊢
  obtain ⟨htag, hmembers⟩ := hlike
  obtain heq | htag := likeness_of_rename ht (.enums hi hj) htag
  · cases heq
    exact ⟨rfl, rfl⟩
  · exact ⟨htag, hmembers⟩

theorem Apart.rename (h : o.Apart) : o.rename.1.Apart where
  composites kind := by
    rw [(renamed_rename o).listed]
    refine (h.composites kind).imp_of_mem fun {i j} hi hj hne => ?_
    rw [Bool.eq_false_iff] at hne ⊢
    exact fun hlike => hne (compositesAlike_of_rename ht hi hj hlike)
  enums := by
    rw [(renamed_rename o).enumsListed]
    refine h.enums.imp_of_mem fun {i j} hi hj hne => ?_
    rw [Bool.eq_false_iff] at hne ⊢
    exact fun hlike => hne (enumsAlike_of_rename ht hi hj hlike)
  typedefs := by
    have halike : o.rename.1.typedefsAlike = o.typedefsAlike := by
      unfold typedefsAlike Arena.typedef
      rw [(renamed_rename o).typedefs]
    rw [(renamed_rename o).typedefCatalog, halike]
    exact h.typedefs

end

/-! ## Again -/

theorem merge_again {records : List Record} {overlays : List Overlay}
    (hb : (Builder.build records).result = .ok overlays) (ho : o ∈ overlays) :
    o.merge.1.merge = (o.merge.1, { structs := 0, unions := 0, enums := 0, typedefs := 0 }) ∧
      o.merge.1.rename.1.merge = (o.merge.1.rename.1, { structs := 0, unions := 0, enums := 0, typedefs := 0 }) := by
  have hapart := (sound_of_build hb o ho).indexed.apart_merge
  have hrenamable := renamable_of_build hb ho (.inr rfl)
  have htags := uniquified_tags hrenamable.tags hrenamable.plain
  exact ⟨hapart.merge_eq, (hapart.rename htags).merge_eq⟩

/-- Each of the two structs of one tag a second time. -/
def namesakeCopies : Overlay :=
  (Builder.afterWalks [namesakes ++ namesakes.drop 2]).currentOverlay

/-- The copies go in the first merging, and the structs that stay get new tags. -/
theorem merge_again_namesakeCopies :
    namesakeCopies.merge.2.structs = 2 ∧
      namesakeCopies.merge.1.rename.1.arena.composites.map (·.tag.text) =
        ["pair_duplicate_s0", "pair_duplicate_s1", "pair", "pair"] ∧
      namesakeCopies.merge.1.merge =
        (namesakeCopies.merge.1, { structs := 0, unions := 0, enums := 0, typedefs := 0 }) ∧
      namesakeCopies.merge.1.rename.1.merge =
        (namesakeCopies.merge.1.rename.1, { structs := 0, unions := 0, enums := 0, typedefs := 0 }) := by
  have hbuild : (Builder.build (namesakes ++ namesakes.drop 2)).result = .ok [namesakeCopies] := by decide +kernel
  obtain ⟨hmerged, hrenamed⟩ := merge_again hbuild List.mem_cons_self
  exact ⟨by decide +kernel, by decide +kernel, hmerged, hrenamed⟩

end DebugSymbols.Overlay
