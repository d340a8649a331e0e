import DebugSymbols.Proofs.Build.Actions
import DebugSymbols.Proofs.Build.Sizes
import DebugSymbols.Proofs.Merge
import DebugSymbols.Proofs.WellFormed

/-!
# Sizes of arrays

An array of structs or unions is recorded with the size of the whole, which is
divided to find the struct and multiplied to check the type. `refer_arrays`: the
two agree, and the array has a type wherever the division comes out even and
finds something.
-/

namespace DebugSymbols

/-! ## Multiplying -/

theorem checkedMul_eq_some {m n r : UInt32} : checkedMul m n = some r ↔ m.toNat * n.toNat = r.toNat := by
  unfold checkedMul
  by_cases h : m.toNat * n.toNat < UInt32.size
  · rw [if_pos h, Option.some.injEq, ← UInt32.toNat_inj, UInt32.toNat_mul, Nat.mod_eq_of_lt h]
  · rw [if_neg h]
    refine iff_of_false (fun h => nomatch h) fun hr => h ?_
    rw [hr]
    exact r.toNat_lt

theorem sizeWith_derive_arrays {composite : CompositeId → Option UInt32} {typedef : TypedefId → Option UInt32}
    {base : CType} {size : UInt32} (hbase : base.sizeWith composite typedef = some size) :
    ∀ {mods : List Modifier} {dims : List UInt32} {whole : UInt32}, (∀ m ∈ mods, m = .array) →
      dims.length = mods.length → whole ≠ 0 → size.toNat * (dims.map UInt32.toNat).prod = whole.toNat →
        (base.derive mods dims).sizeWith composite typedef = some whole := by
  intro mods
  induction mods with
  | nil =>
    intro dims whole _ hdims _ hmul
    rw [List.eq_nil_of_length_eq_zero hdims, List.map_nil, List.prod_nil, Nat.mul_one, UInt32.toNat_inj] at hmul
    rw [← hmul]
    exact hbase
  | cons m mods ih =>
    intro dims whole hmods hdims hwhole hmul
    obtain ⟨rfl, hinner⟩ := List.forall_mem_cons.mp hmods
    obtain ⟨n, dims, rfl⟩ := List.exists_cons_of_length_eq_add_one hdims
    rw [List.map_cons, List.prod_cons, Nat.mul_left_comm] at hmul
    have hpos : 0 < whole.toNat := Nat.pos_of_ne_zero fun h => hwhole (UInt32.toNat_inj.mp h)
    -- an element is no larger than the whole, so its size fits as well
    obtain ⟨element, helement⟩ : ∃ element : UInt32,
        size.toNat * (dims.map UInt32.toNat).prod = element.toNat := by
      have hle := Nat.le_of_dvd hpos ⟨n.toNat, by rw [Nat.mul_comm, hmul]⟩
      exact ⟨_, (UInt32.toNat_ofNat_of_lt' (Nat.lt_of_le_of_lt hle whole.toNat_lt)).symm⟩
    rw [helement] at hmul
    have hn : n ≠ 0 := by
      rintro rfl
      exact Nat.ne_of_lt hpos (by rw [← hmul, UInt32.toNat_zero, Nat.zero_mul])
    have hne : element ≠ 0 := by
      rintro rfl
      exact Nat.ne_of_lt hpos (by rw [← hmul, UInt32.toNat_zero, Nat.mul_zero])
    rw [CType.derive_array]
    show (if n = 0 then none else ((base.derive mods dims).sizeWith composite typedef).bind (checkedMul · n)) = _
    rw [if_neg hn, ih hinner (Nat.succ.inj hdims) hne helement]
    exact checkedMul_eq_some.mpr (by rw [Nat.mul_comm, hmul])

namespace Overlay

/-! ## Finding -/

/-- The structs or unions of a tag. -/
def tagged (o : Overlay) (kind : CompositeKind) (tag : Tag) : List Composite :=
  o.arena.composites.filter fun c => c.kind = kind ∧ c.tag = tag

theorem composites_eq_map (a : Arena) : a.composites = a.compositeIds.map a.composite := by
  unfold Arena.compositeIds
  rw [List.map_map]
  refine List.ext_getElem (by simp) fun i hi _ => ?_
  simp [Arena.composite, List.getElem?_eq_getElem hi]

theorem tagged_eq_map {o : Overlay} (ho : o.Sound) (kind : CompositeKind) (tag : Tag) :
    o.tagged kind tag = ((o.composites kind).groups.get tag).map o.arena.composite := by
  rw [(ho.indexed.composites kind).groups, Groups.get_ofList, ho.ordered.composites, List.filter_filter, tagged,
    composites_eq_map, List.filter_map]
  congr 1
  exact List.filter_congr fun id _ => by simp [Bool.and_comm]

theorem sized?_eq_none {o : Overlay} {kind : CompositeKind} {tag : Tag} {size : UInt32} :
    o.sized? kind tag size = none ↔
      ∀ id ∈ (o.composites kind).groups.get tag, size ≠ 0 ∧ (o.arena.composite id).size ≠ size := by
  simp [sized?, List.find?_eq_none]

theorem exists_findComposite {kind : CompositeKind} {tag : Tag} {size : UInt32} (hsize : size ≠ 0) (o : Overlay) :
    (∃ id, (findComposite kind tag size o).result = .ok id) ↔
      (o.composites kind).groups.get tag = [] ∨
        ∃ id ∈ (o.composites kind).groups.get tag, (o.arena.composite id).size = size := by
  by_cases hnone : (o.composites kind).groups.get tag = []
  · refine iff_of_true ⟨o.arena.nextComposite, ?_⟩ (.inl hnone)
    simp only [findComposite, Action.bind_run, Action.read, if_pos hnone]
    rfl
  · rw [or_iff_right hnone]
    simp only [findComposite, Action.bind_run, Action.read, if_neg hnone]
    cases hfound : o.sized? kind tag size with
    | none =>
      constructor
      · rintro ⟨_, h⟩
        cases h
      · rintro ⟨id, hid, heq⟩
        exact absurd heq (sized?_eq_none.mp hfound id hid).2
    | some id =>
      obtain ⟨hid, heq⟩ := sized?_spec hfound
      exact iff_of_true ⟨id, rfl⟩ ⟨id, hid, heq.resolve_left hsize⟩

theorem exists_refer {kind : CompositeKind} {d : SymbolDef} (hbase : d.word.base = kind.baseCode) (o : Overlay) :
    (∃ t, (refer d o).result = .ok t) ↔
      ∃ size, d.referencedSize = .ok size ∧
        ∃ id, (findComposite kind (.ofName d.tag) size o).result = .ok id := by
  have hrefer : referBase d = referComposite kind d := by
    unfold referBase
    rw [hbase]
    cases kind <;> rfl
  rw [refer, hrefer, Action.exists_bind_ok]
  -- deriving the type and noting the use cannot fail
  refine Iff.trans (exists_congr fun t => and_iff_left ⟨_, rfl⟩) ?_
  rw [referComposite, Action.exists_bind_ok]
  cases d.referencedSize with
  | error e => exact iff_of_false (fun ⟨_, h, _⟩ => nomatch h) fun ⟨_, h, _⟩ => nomatch h
  | ok size =>
    refine exists_congr fun s => and_congr_right fun hs => ?_
    rw [Action.exists_bind_ok]
    exact exists_congr fun id => and_iff_left ⟨_, rfl⟩

/-! ## Arrays -/

theorem Refers.size?_arrays {o : Overlay} {d : SymbolDef} {t : CType} (h : o.Refers d t) {kind : CompositeKind}
    (hbase : d.word.base = kind.baseCode) (hmods : ∀ m ∈ d.word.modifiers, m = .array)
    (hdims : d.dims.length = d.word.modifiers.length) (hsize : d.size ≠ 0) : o.arena.size? t = some d.size := by
  obtain ⟨base, hb, rfl⟩ := h
  cases hb with
  | scalar hb => rw [hbase] at hb; cases kind <;> exact nomatch hb
  | null hb => rw [hbase] at hb; cases kind <;> exact nomatch hb
  | enum hb => rw [hbase] at hb; cases kind <;> exact nomatch hb
  | composite hb hs hid hfound huse =>
    have hne := referencedSize_ne_zero hmods hsize hs
    refine sizeWith_derive_arrays ?_ hmods hdims hsize ((referencedSize_arrays hmods hsize).mp hs)
    simp only [CType.sizeWith, Arena.compositeSize?, hfound.resolve_left hne, if_neg hne]

theorem recordedSize_of_size? {a : Arena} {t : CType} {size : UInt32} (h : a.size? t = some size) :
    t.recordedSize size = size := by
  cases t with
  | pointer t => exact Option.some.inj h
  | _ => rfl

theorem checkSize_of_size? {o : Overlay} {t : CType} {size : UInt32} (h : o.arena.size? t = some size)
    (name : String) : (checkSize t (t.recordedSize size) name o).result = .ok () := by
  rw [recordedSize_of_size? h]
  simp only [checkSize, Action.bind_run, Action.read, h, or_true, ite_true, Action.pure_run]

/-- A reference to an array by its whole size, where every array has a dimension. -/
theorem refer_arrays {chunks : List (List Record)} {o : Overlay} (ho : o ∈ (Builder.afterWalks chunks).overlays)
    {d : SymbolDef} {kind : CompositeKind} (hbase : d.word.base = kind.baseCode)
    (hmods : ∀ m ∈ d.word.modifiers, m = .array) (hdims : d.dims.length = d.word.modifiers.length)
    (hsize : d.size ≠ 0) :
    ((∃ t, (refer d o).result = .ok t) ↔
      (d.elements ≠ 0 ∧ d.elements < UInt32.size ∧ d.elements ∣ d.size.toNat) ∧
        (o.tagged kind (.ofName d.tag) = [] ∨
          ∃ c ∈ o.tagged kind (.ofName d.tag), c.size.toNat = d.size.toNat / d.elements)) ∧
      ∀ t, (refer d o).result = .ok t → (refer d o).state.arena.size? t = some d.size ∧
        ∀ name, (checkSize t (t.recordedSize d.size) name (refer d o).state).result = .ok () := by
  have hsound := Builder.forall_overlays_afterWalks sound_new (fun _ _ h => h.sound) chunks o ho
  refine ⟨?_, fun t ht => ?_⟩
  · rw [exists_refer hbase, ← exists_referencedSize_arrays hmods hsize, ← exists_and_right, tagged_eq_map hsound]
    refine exists_congr fun size => and_congr_right fun hs => ?_
    have hne := referencedSize_ne_zero hmods hsize hs
    have hquotient : size.toNat = d.size.toNat / d.elements := by
      have hmul := (referencedSize_arrays hmods hsize).mp hs
      have hpos : 0 < d.elements := Nat.pos_of_ne_zero fun h => by
        rw [h, Nat.mul_zero] at hmul
        exact hsize (UInt32.toNat_inj.mp hmul.symm)
      exact Nat.eq_div_of_mul_eq_left hpos.ne' hmul
    rw [exists_findComposite hne, ← hquotient]
    simp only [List.map_eq_nil_iff, List.mem_map, exists_exists_and_eq_and, UInt32.toNat_inj]
  · have hrefers : (refer d o).state.Refers d t := (leads_refer (P := fun _ => True) d o trivial).2 t ht
    have hsize? := hrefers.size?_arrays hbase hmods hdims hsize
    exact ⟨hsize?, checkSize_of_size? hsize?⟩

/-- Two rows of three points of four bytes each. -/
def grid : SymbolDef :=
  { symbolClass := .external, word := .compose 8 [.array, .array], size := 24, dims := [2, 3], tag := "point",
    name := "grid" }

theorem refer_arrays_grid :
    twoCopies ∈ (Builder.afterWalks [structCopy ++ structCopy]).overlays ∧
      grid.word.base = CompositeKind.struct.baseCode ∧ (∀ m ∈ grid.word.modifiers, m = .array) ∧
        grid.dims.length = grid.word.modifiers.length ∧ grid.size ≠ 0 ∧ ∃ t,
          (refer grid twoCopies).result = .ok t ∧ (refer grid twoCopies).state.arena.size? t = some 24 ∧
            ∀ name, (checkSize t (t.recordedSize 24) name (refer grid twoCopies).state).result = .ok () := by
  have hbuilt : twoCopies ∈ (Builder.afterWalks [structCopy ++ structCopy]).overlays := by decide +kernel
  have hbase : grid.word.base = CompositeKind.struct.baseCode := by decide +kernel
  have hmods : ∀ m ∈ grid.word.modifiers, m = .array := by decide +kernel
  have hdims : grid.dims.length = grid.word.modifiers.length := by decide +kernel
  have hsize : grid.size ≠ 0 := by decide
  obtain ⟨hiff, hsizes⟩ := refer_arrays hbuilt hbase hmods hdims hsize
  obtain ⟨t, ht⟩ := hiff.mpr ⟨by decide +kernel, .inr (by decide +kernel)⟩
  exact ⟨hbuilt, hbase, hmods, hdims, hsize, t, ht, hsizes t ht⟩

end Overlay

end DebugSymbols
