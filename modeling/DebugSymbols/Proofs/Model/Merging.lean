import DebugSymbols.Proofs.Model.Indexed
import DebugSymbols.Proofs.Model.Redirection
import DebugSymbols.Proofs.Model.Sifting

/-!
# Merging

Each pass of merging redirects the handles of one list to the first entries
that they are like, and keeps those in the list. No pass changes what another
compares, so the passes together do what each would have done alone.
-/

namespace DebugSymbols.Overlay

/-! ## Likeness behind handles -/

def compositesAlike (o : Overlay) (i j : CompositeId) : Bool :=
  (o.arena.composite i).alike (o.arena.composite j)

def enumsAlike (o : Overlay) (i j : EnumId) : Bool :=
  (o.arena.enumeration i).alike (o.arena.enumeration j)

def typedefsAlike (o : Overlay) (i j : TypedefId) : Bool :=
  (o.arena.typedef i).alike (o.arena.typedef j)

/-- The first handle of its list that each listed handle is like. -/
def canon (o : Overlay) : Renumbering where
  composite i :=
    if i ∈ o.structs.listed then firstLike o.compositesAlike o.structs.listed i
    else firstLike o.compositesAlike o.unions.listed i
  enum := firstLike o.enumsAlike o.enums.listed
  typedef := firstLike o.typedefsAlike o.typedefs.listed

theorem compositesAlike_iff (o : Overlay) (i j : CompositeId) :
    o.compositesAlike i j = true ↔ (o.arena.composite i).likeness = (o.arena.composite j).likeness :=
  Composite.alike_iff _ _

theorem enumsAlike_iff (o : Overlay) (i j : EnumId) :
    o.enumsAlike i j = true ↔ (o.arena.enumeration i).likeness = (o.arena.enumeration j).likeness :=
  Enumeration.alike_iff _ _

theorem typedefsAlike_iff (o : Overlay) (i j : TypedefId) :
    o.typedefsAlike i j = true ↔ (o.arena.typedef i).likeness = (o.arena.typedef j).likeness :=
  Decl.alike_iff _ _

section
variable {f : Renumbering} {o o' : Overlay} (h : Redirected f o o')
include h

theorem Redirected.compositesAlike : o'.compositesAlike = o.compositesAlike := by
  funext i j
  rw [Bool.eq_iff_iff, compositesAlike_iff, compositesAlike_iff, h.compositeLikeness, h.compositeLikeness]

theorem Redirected.enumsAlike : o'.enumsAlike = o.enumsAlike := by
  funext i j
  rw [Bool.eq_iff_iff, enumsAlike_iff, enumsAlike_iff, h.enumLikeness, h.enumLikeness]

theorem Redirected.typedefsAlike : o'.typedefsAlike = o.typedefsAlike := by
  funext i j
  rw [Bool.eq_iff_iff, typedefsAlike_iff, typedefsAlike_iff, h.typedefLikeness, h.typedefLikeness]

end

/-! ## One pass -/

def withLists (o : Overlay) (structs unions : Catalog Tag CompositeId) (enums : Catalog Tag EnumId)
    (typedefs : Catalog String TypedefId) : Overlay :=
  { o with structs, unions, enums, typedefs }

theorem setComposites_eq (o : Overlay) (kind : CompositeKind) (c : Catalog Tag CompositeId) :
    o.setComposites kind c =
      o.withLists (if kind = .struct then c else o.structs) (if kind = .union then c else o.unions) o.enums
        o.typedefs := by
  cases kind <;> rfl

theorem Redirected.withLists {f : Renumbering} {o o' : Overlay} (h : Redirected f o o')
    (structs unions : Catalog Tag CompositeId) (enums : Catalog Tag EnumId)
    (typedefs : Catalog String TypedefId) : Redirected f o (o'.withLists structs unions enums typedefs) :=
  ⟨h.id, h.addr, h.length, h.composites, h.enums, h.typedefs, h.nullTypedef, h.vars, h.funcs, h.varNames,
    h.funcNames, h.symbols, h.lines⟩

variable {o : Overlay}

theorem firstLike_eq_id {ι : Type} [DecidableEq ι] {alike : ι → ι → Bool} {is : List ι}
    (h : moved (firstLike alike is) is = []) : firstLike alike is = fun i => i := by
  funext i
  by_cases hi : i ∈ is
  · exact moved_eq_nil.mp h i hi
  · exact firstLike_of_notMem hi

def firsts {κ ι : Type} [DecidableEq κ] [DecidableEq ι] (alike : ι → ι → Bool) (c : Catalog κ ι) :
    Catalog κ ι :=
  c.retain fun i => firstLike alike c.listed i = i

theorem firsts_eq_self {κ ι : Type} [DecidableEq κ] [DecidableEq ι] {alike : ι → ι → Bool} {c : Catalog κ ι}
    {key : ι → κ} (hc : c.Indexes key) (h : moved (firstLike alike c.listed) c.listed = []) :
    firsts alike c = c := by
  have hid := firstLike_eq_id h
  unfold firsts
  simp only [hid, decide_true]
  exact hc.retain_all

theorem retain_survives {κ ι : Type} [DecidableEq κ] [DecidableEq ι] {alike : ι → ι → Bool}
    {c : Catalog κ ι} {is : List ι} (h : ∀ i ∉ is, firstLike alike c.listed i = i) :
    c.retain (survives (moved (firstLike alike c.listed) is)) = firsts alike c := by
  unfold firsts
  congr 1
  funext i
  exact survives_moved h i

structure CompositesMerged (kind : CompositeKind) (o : Overlay) (merged : Overlay × Nat) : Prop where
  redirected : Redirected { composite := firstLike o.compositesAlike (o.composites kind).listed } o merged.1
  composites : ∀ k, merged.1.composites k =
    if k = kind then firsts o.compositesAlike (o.composites kind) else o.composites k
  enums : merged.1.enums = o.enums
  typedefs : merged.1.typedefs = o.typedefs
  count : merged.2 =
    (moved (firstLike o.compositesAlike (o.composites kind).listed) (o.composites kind).listed).length

theorem mergeComposites_eq (kind : CompositeKind) {key : CompositeId → Tag}
    (ho : (o.composites kind).Indexes key) :
    let first := firstLike o.compositesAlike (o.composites kind).listed
    let copies := moved first (o.composites kind).listed
    o.mergeComposites kind =
      if copies = [] then (o, 0)
      else
        (((o.modifyArena fun a => copies.foldl (fun a p => a.absorbComposite p.1 p.2) a).renumber
          { composite := first }).setComposites kind (firsts o.compositesAlike (o.composites kind)), copies.length) := by
  intro first copies
  have hcopies : (Sifted.ofList o.compositesAlike (o.composites kind).listed).copies = copies := by
    rw [ofList_eq o.compositesAlike_iff ho.nodup]
  have hfix : ∀ i ∉ (o.composites kind).listed, first i = i := fun i hi => firstLike_of_notMem hi
  have hmerge : o.mergeComposites kind =
      let copies := (Sifted.ofList o.compositesAlike (o.composites kind).listed).copies
      if copies.isEmpty then (o, 0)
      else
        let absorbed := o.modifyArena fun a => copies.foldl (fun a p => a.absorbComposite p.1 p.2) a
        let merged := absorbed.renumber { composite := survivor copies }
        (merged.setComposites kind ((merged.composites kind).retain (survives copies)), copies.length) := rfl
  have hsurvivor : survivor copies = first := survivor_moved hfix
  have hretain : (o.composites kind).retain (survives copies) = firsts o.compositesAlike (o.composites kind) :=
    retain_survives hfix
  have hlist : ∀ f g, ((o.modifyArena f).renumber g).composites kind = o.composites kind := by
    intro f g
    cases kind <;> rfl
  rw [hmerge, hcopies]
  simp only [List.isEmpty_iff, hlist, hsurvivor, hretain]

theorem mergeComposites_merged (kind : CompositeKind) {key : CompositeId → Tag}
    (ho : (o.composites kind).Indexes key) : CompositesMerged kind o (o.mergeComposites kind) := by
  rw [mergeComposites_eq kind ho]
  by_cases hnil : moved (firstLike o.compositesAlike (o.composites kind).listed) (o.composites kind).listed = []
  · rw [if_pos hnil]
    refine ⟨?_, fun k => ?_, rfl, rfl, ?_⟩
    · rw [firstLike_eq_id hnil]
      exact redirected_refl o
    · rw [firsts_eq_self ho hnil]
      by_cases hk : k = kind
      · rw [if_pos hk, hk]
      · rw [if_neg hk]
    · rw [hnil]
      rfl
  · rw [if_neg hnil]
    refine ⟨?_, fun k => ?_, ?_, ?_, rfl⟩
    · rw [setComposites_eq]
      refine Redirected.withLists (redirected_renumber _ ?_) _ _ _ _
      exact Arena.sameDefinitions_foldl (ι := CompositeId × CompositeId)
        (fun a p => a.sameDefinitions_absorbComposite p.1 p.2) _ _
    · rw [composites_setComposites]
      by_cases hk : k = kind
      · rw [if_pos hk, if_pos hk]
      · rw [if_neg hk, if_neg hk]
        cases k <;> rfl
    · exact enums_setComposites _ _ _
    · exact typedefs_setComposites _ _ _

structure EnumsMerged (o : Overlay) (merged : Overlay × Nat) : Prop where
  redirected : Redirected { enum := firstLike o.enumsAlike o.enums.listed } o merged.1
  composites : ∀ kind, merged.1.composites kind = o.composites kind
  enums : merged.1.enums = firsts o.enumsAlike o.enums
  typedefs : merged.1.typedefs = o.typedefs
  count : merged.2 = (moved (firstLike o.enumsAlike o.enums.listed) o.enums.listed).length

theorem mergeEnums_eq {key : EnumId → Tag} (ho : o.enums.Indexes key) :
    let first := firstLike o.enumsAlike o.enums.listed
    let copies := moved first o.enums.listed
    o.mergeEnums =
      if copies = [] then (o, 0)
      else
        ({ (o.modifyArena fun a => copies.foldl (fun a p => a.absorbEnum p.1 p.2) a).renumber { enum := first } with
            enums := firsts o.enumsAlike o.enums }, copies.length) := by
  intro first copies
  have hcopies : (Sifted.ofList o.enumsAlike o.enums.listed).copies = copies := by
    rw [ofList_eq o.enumsAlike_iff ho.nodup]
  have hfix : ∀ i ∉ o.enums.listed, first i = i := fun i hi => firstLike_of_notMem hi
  have hmerge : o.mergeEnums =
      let copies := (Sifted.ofList o.enumsAlike o.enums.listed).copies
      if copies.isEmpty then (o, 0)
      else
        let absorbed := o.modifyArena fun a => copies.foldl (fun a p => a.absorbEnum p.1 p.2) a
        let merged := absorbed.renumber { enum := survivor copies }
        ({ merged with enums := o.enums.retain (survives copies) }, copies.length) := rfl
  have hsurvivor : survivor copies = first := survivor_moved hfix
  have hretain : o.enums.retain (survives copies) = firsts o.enumsAlike o.enums := retain_survives hfix
  rw [hmerge, hcopies]
  simp only [List.isEmpty_iff, hsurvivor, hretain]

theorem mergeEnums_merged {key : EnumId → Tag} (ho : o.enums.Indexes key) : EnumsMerged o o.mergeEnums := by
  rw [mergeEnums_eq ho]
  by_cases hnil : moved (firstLike o.enumsAlike o.enums.listed) o.enums.listed = []
  · rw [if_pos hnil]
    refine ⟨?_, fun _ => rfl, ?_, rfl, ?_⟩
    · rw [firstLike_eq_id hnil]
      exact redirected_refl o
    · rw [firsts_eq_self ho hnil]
    · rw [hnil]
      rfl
  · rw [if_neg hnil]
    refine ⟨?_, fun kind => by cases kind <;> rfl, rfl, rfl, rfl⟩
    refine Redirected.withLists (redirected_renumber _ ?_) _ _ _ _
    exact Arena.sameDefinitions_foldl (ι := EnumId × EnumId)
      (fun a p => a.sameDefinitions_absorbEnum p.1 p.2) _ _

structure TypedefsMerged (o : Overlay) (merged : Overlay × Nat) : Prop where
  redirected : Redirected { typedef := firstLike o.typedefsAlike o.typedefs.listed } o merged.1
  composites : ∀ kind, merged.1.composites kind = o.composites kind
  enums : merged.1.enums = o.enums
  typedefs : merged.1.typedefs = firsts o.typedefsAlike o.typedefs
  count : merged.2 = (moved (firstLike o.typedefsAlike o.typedefs.listed) o.typedefs.listed).length

theorem typedefCopies (ho : o.typedefs.Indexes fun id => (o.arena.typedef id).name) :
    (o.typedefs.groups.entries.flatMap fun e => (Sifted.ofList o.typedefsAlike e.2).copies) =
      moved (firstLike o.typedefsAlike o.typedefs.listed) (o.typedefs.groups.entries.flatMap (·.2)) := by
  rw [← flatMap_moved]
  have hgroup : ∀ e ∈ o.typedefs.groups.entries, (Sifted.ofList o.typedefsAlike e.2).copies =
      moved (firstLike o.typedefsAlike o.typedefs.listed) e.2 := by
    intro e he
    rw [ho.groups] at he
    rw [Groups.eq_filter_of_mem_ofList he, ofList_eq o.typedefsAlike_iff (ho.nodup.filter _)]
    refine moved_congr fun i hi => firstLike_filter (fun i j hij => ?_) hi
    have hname := congrArg (·.2.2.2.1) ((o.typedefsAlike_iff i j).mp hij)
    have hname : (o.arena.typedef i).name = (o.arena.typedef j).name := hname
    rw [hname]
  rw [List.flatMap_def, List.flatMap_def, List.map_congr_left hgroup]

theorem perm_typedefGroups (ho : o.typedefs.Indexes fun id => (o.arena.typedef id).name) :
    (o.typedefs.groups.entries.flatMap (·.2)).Perm o.typedefs.listed := by
  rw [ho.groups]
  exact Groups.flatMap_ofList _ _

theorem mergeTypedefs_eq (ho : o.typedefs.Indexes fun id => (o.arena.typedef id).name) :
    let first := firstLike o.typedefsAlike o.typedefs.listed
    let copies := moved first (o.typedefs.groups.entries.flatMap (·.2))
    o.mergeTypedefs =
      if copies = [] then (o, 0)
      else ({ o.renumber { typedef := first } with typedefs := firsts o.typedefsAlike o.typedefs }, copies.length) := by
  intro first copies
  have hfix : ∀ i ∉ o.typedefs.groups.entries.flatMap (·.2), first i = i := fun i hi =>
    firstLike_of_notMem fun hmem => hi ((perm_typedefGroups ho).mem_iff.mpr hmem)
  have hmerge : o.mergeTypedefs =
      let copies := o.typedefs.groups.entries.flatMap fun e => (Sifted.ofList o.typedefsAlike e.2).copies
      if copies.isEmpty then (o, 0)
      else
        let merged := o.renumber { typedef := survivor copies }
        ({ merged with typedefs := o.typedefs.retain (survives copies) }, copies.length) := rfl
  have hsurvivor : survivor copies = first := survivor_moved hfix
  have hretain : o.typedefs.retain (survives copies) = firsts o.typedefsAlike o.typedefs := retain_survives hfix
  have hcopies : (o.typedefs.groups.entries.flatMap fun e => (Sifted.ofList o.typedefsAlike e.2).copies) = copies :=
    typedefCopies ho
  rw [hmerge, hcopies]
  simp only [List.isEmpty_iff, hsurvivor, hretain]

theorem mergeTypedefs_merged (ho : o.typedefs.Indexes fun id => (o.arena.typedef id).name) :
    TypedefsMerged o o.mergeTypedefs := by
  have hlength : (moved (firstLike o.typedefsAlike o.typedefs.listed)
      (o.typedefs.groups.entries.flatMap (·.2))).length =
      (moved (firstLike o.typedefsAlike o.typedefs.listed) o.typedefs.listed).length :=
    (((perm_typedefGroups ho).filter _).map _).length_eq
  rw [mergeTypedefs_eq ho]
  by_cases hnil : moved (firstLike o.typedefsAlike o.typedefs.listed)
      (o.typedefs.groups.entries.flatMap (·.2)) = []
  · have hnone : moved (firstLike o.typedefsAlike o.typedefs.listed) o.typedefs.listed = [] := by
      rw [hnil] at hlength
      exact List.eq_nil_of_length_eq_zero hlength.symm
    rw [if_pos hnil]
    refine ⟨?_, fun _ => rfl, rfl, ?_, ?_⟩
    · rw [firstLike_eq_id hnone]
      exact redirected_refl o
    · rw [firsts_eq_self ho hnone]
    · rw [hnone]
      rfl
  · rw [if_neg hnil]
    refine ⟨?_, fun kind => by cases kind <;> rfl, rfl, rfl, hlength⟩
    exact Redirected.withLists (redirected_renumber (h := fun a => a) _ ⟨rfl, rfl, rfl⟩) _ _ _ _

/-! ## All passes -/

structure Merged (o : Overlay) (merged : Overlay × TypeCounts) : Prop where
  redirected : Redirected o.canon o merged.1
  structs : merged.1.structs = firsts o.compositesAlike o.structs
  unions : merged.1.unions = firsts o.compositesAlike o.unions
  enums : merged.1.enums = firsts o.enumsAlike o.enums
  typedefs : merged.1.typedefs = firsts o.typedefsAlike o.typedefs
  counts : merged.2 =
    { structs := (moved (firstLike o.compositesAlike o.structs.listed) o.structs.listed).length
      unions := (moved (firstLike o.compositesAlike o.unions.listed) o.unions.listed).length
      enums := (moved (firstLike o.enumsAlike o.enums.listed) o.enums.listed).length
      typedefs := (moved (firstLike o.typedefsAlike o.typedefs.listed) o.typedefs.listed).length }

theorem Indexed.notMem_unions (ho : o.Indexed) {i : CompositeId} (h : i ∈ o.structs.listed) :
    i ∉ o.unions.listed := by
  intro hu
  have hs := (ho.composite_mem .struct i h).2
  rw [(ho.composite_mem .union i hu).2] at hs
  exact nomatch hs

theorem canon_composite (ho : o.Indexed) (i : CompositeId) :
    o.canon.composite i =
      firstLike o.compositesAlike o.unions.listed (firstLike o.compositesAlike o.structs.listed i) := by
  show (if i ∈ o.structs.listed then _ else _) = _
  by_cases h : i ∈ o.structs.listed
  · rw [if_pos h]
    exact (firstLike_of_notMem (ho.notMem_unions (firstLike_mem o.compositesAlike_iff h))).symm
  · rw [if_neg h, firstLike_of_notMem h]

theorem canon_eq (ho : o.Indexed) :
    ((({ composite := firstLike o.compositesAlike o.structs.listed } : Renumbering).trans
      { composite := firstLike o.compositesAlike o.unions.listed }).trans
      { enum := firstLike o.enumsAlike o.enums.listed }).trans
      { typedef := firstLike o.typedefsAlike o.typedefs.listed } = o.canon := by
  have hcomposite : o.canon.composite =
      firstLike o.compositesAlike o.unions.listed ∘ firstLike o.compositesAlike o.structs.listed :=
    funext (canon_composite ho)
  show Renumbering.mk _ _ _ = Renumbering.mk _ _ _
  rw [Renumbering.mk.injEq]
  exact ⟨hcomposite.symm, rfl, rfl⟩

theorem merge_merged (ho : o.Indexed) : Merged o o.merge := by
  have h₁ := mergeComposites_merged .struct (ho.composites .struct)
  generalize hm₁ : o.mergeComposites .struct = m₁ at h₁
  have hunions : m₁.1.composites .union = o.composites .union := h₁.composites .union
  have h₂ := mergeComposites_merged (o := m₁.1) .union (by rw [hunions]; exact ho.composites .union)
  generalize hm₂ : m₁.1.mergeComposites .union = m₂ at h₂
  have henums : m₂.1.enums = o.enums := h₂.enums.trans h₁.enums
  have h₃ := mergeEnums_merged (o := m₂.1) (by rw [henums]; exact ho.enums)
  generalize hm₃ : m₂.1.mergeEnums = m₃ at h₃
  have htypedefs : m₃.1.typedefs = o.typedefs := h₃.typedefs.trans (h₂.typedefs.trans h₁.typedefs)
  -- what a pass compares is still what it was in the beginning
  have hred₁ := h₁.redirected
  have hred₂ := h₂.redirected
  have hred₃ := h₃.redirected
  have hcount₂ := h₂.count
  have hcount₃ := h₃.count
  have hlists₂ := h₂.composites
  have hlists₃ := h₃.enums
  rw [hred₁.compositesAlike, hunions] at hred₂ hcount₂ hlists₂
  have hto₂ := hred₁.trans hred₂
  rw [hto₂.enumsAlike, henums] at hred₃ hcount₃ hlists₃
  have hto₃ := hto₂.trans hred₃
  have hnamed : m₃.1.typedefs.Indexes fun id => (m₃.1.arena.typedef id).name := by
    rw [htypedefs]
    refine ho.typedefs.congr fun id _ => ?_
    rw [hto₃.typedef id]
    rfl
  have h₄ := mergeTypedefs_merged hnamed
  generalize hm₄ : m₃.1.mergeTypedefs = m₄ at h₄
  have hred₄ := h₄.redirected
  have hcount₄ := h₄.count
  have hlists₄ := h₄.typedefs
  rw [hto₃.typedefsAlike, htypedefs] at hred₄ hcount₄ hlists₄
  have hmerge : o.merge = (m₄.1, ⟨m₁.2, m₂.2, m₃.2, m₄.2⟩) := by
    rw [← hm₄, ← hm₃, ← hm₂, ← hm₁]
    rfl
  have hcomposites : ∀ kind, m₄.1.composites kind = m₂.1.composites kind := fun kind =>
    (h₄.composites kind).trans (h₃.composites kind)
  rw [hmerge]
  refine ⟨?_, ?_, ?_, ?_, hlists₄, ?_⟩
  · have hto₄ := hto₃.trans hred₄
    have hcanon := canon_eq ho
    rw [← hcanon]
    exact hto₄
  · exact (hcomposites .struct).trans ((hlists₂ .struct).trans (h₁.composites .struct))
  · exact (hcomposites .union).trans (hlists₂ .union)
  · exact h₄.enums.trans hlists₃
  · rw [h₁.count, hcount₂, hcount₃, hcount₄]
    rfl

/-! ## What is kept -/

theorem canon_of_mem (ho : o.Indexed) (kind : CompositeKind) {i : CompositeId}
    (h : i ∈ (o.composites kind).listed) :
    o.canon.composite i = firstLike o.compositesAlike (o.composites kind).listed i := by
  cases kind with
  | struct => exact if_pos h
  | union => exact if_neg fun hs => ho.notMem_unions hs h

theorem canon_composite_of_notMem {i : CompositeId} (h : ∀ kind, i ∉ (o.composites kind).listed) :
    o.canon.composite i = i := by
  have hs : i ∉ o.structs.listed := h .struct
  have hu : i ∉ o.unions.listed := h .union
  show (if i ∈ o.structs.listed then _ else _) = i
  rw [if_neg hs]
  exact firstLike_of_notMem hu

theorem likeness_canon (ho : o.Indexed) (i : CompositeId) :
    (o.arena.composite (o.canon.composite i)).likeness = (o.arena.composite i).likeness := by
  by_cases h : ∃ kind, i ∈ (o.composites kind).listed
  · obtain ⟨kind, hmem⟩ := h
    rw [canon_of_mem ho kind hmem]
    exact (o.compositesAlike_iff _ _).mp (alike_firstLike o.compositesAlike_iff hmem)
  · rw [canon_composite_of_notMem fun kind hmem => h ⟨kind, hmem⟩]

theorem canon_null (ho : o.Indexed) {i : TypedefId} (h : o.nullTypedef = some i) : o.canon.typedef i = i :=
  firstLike_of_notMem fun hmem => (ho.typedef_mem i hmem).2 h

theorem composites_merge_eq_firsts (ho : o.Indexed) (kind : CompositeKind) :
    o.merge.1.composites kind = firsts o.compositesAlike (o.composites kind) := by
  cases kind with
  | struct => exact (merge_merged ho).structs
  | union => exact (merge_merged ho).unions

theorem composites_merge (ho : o.Indexed) (kind : CompositeKind) :
    o.merge.1.composites kind = (o.composites kind).retain fun i => o.canon.composite i = i := by
  rw [composites_merge_eq_firsts ho]
  exact (ho.composites kind).retain_congr fun i hi => by rw [canon_of_mem ho kind hi]

theorem lists_merge (ho : o.Indexed) {t : CType} (ht : o.Lists t) : o.merge.1.Lists (t.renumber o.canon) := by
  have hmerged := merge_merged ho
  cases t with
  | composite kind i =>
    show o.canon.composite i ∈ (o.merge.1.composites kind).listed
    have hfirst := canon_of_mem ho kind ht
    have hmem : o.canon.composite i ∈ (o.composites kind).listed := by
      rw [hfirst]
      exact firstLike_mem o.compositesAlike_iff ht
    have hfix : o.canon.composite (o.canon.composite i) = o.canon.composite i := by
      rw [canon_of_mem ho kind hmem, hfirst]
      exact firstLike_firstLike o.compositesAlike_iff
    rw [composites_merge ho]
    exact List.mem_filter.mpr ⟨hmem, decide_eq_true hfix⟩
  | enum i =>
    show o.canon.enum i ∈ o.merge.1.enums.listed
    rw [hmerged.enums]
    exact List.mem_filter.mpr
      ⟨firstLike_mem o.enumsAlike_iff ht, decide_eq_true (firstLike_firstLike o.enumsAlike_iff)⟩
  | typedef i =>
    show o.canon.typedef i ∈ o.merge.1.typedefs.listed ∨ o.merge.1.nullTypedef = some (o.canon.typedef i)
    obtain hmem | hnull := ht
    · rw [hmerged.typedefs]
      exact .inl (List.mem_filter.mpr
        ⟨firstLike_mem o.typedefsAlike_iff hmem, decide_eq_true (firstLike_firstLike o.typedefsAlike_iff)⟩)
    · rw [canon_null ho hnull, hmerged.redirected.nullTypedef]
      exact .inr hnull
  | _ => trivial

theorem handlesListed_merge (ho : o.Indexed) (hl : o.HandlesListed) : o.merge.1.HandlesListed := by
  intro t z hs h hh
  obtain ⟨s, hold, rfl⟩ := (merge_merged ho).redirected.stores hs
  rw [CType.handles_renumber] at hh
  obtain ⟨i, hi, rfl⟩ := List.mem_map.mp hh
  exact lists_merge ho (hl s z hold i hi)

end DebugSymbols.Overlay
