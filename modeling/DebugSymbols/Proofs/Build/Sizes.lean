import DebugSymbols.Proofs.Build.Stored
import DebugSymbols.Proofs.Model.Renumbering
import Mathlib.Algebra.BigOperators.Group.List.Basic

/-!
# Recorded sizes while building

A recorded size is checked when its definition is taken in, but the size of a
struct or union may be filled in later. What carries the check over is
`Sized`: a definition with a size of its own never refers by value to a struct
or union that has none yet.
-/

namespace DebugSymbols

/-! ## Sizes of types -/

namespace CType

theorem stripArrays_renumber (f : Renumbering) : ∀ t : CType,
    (t.renumber f).stripArrays = t.stripArrays.renumber f
  | .array t _ => stripArrays_renumber f t
  | .base _ => rfl
  | .pointer _ => rfl
  | .function _ _ _ => rfl
  | .composite _ _ => rfl
  | .enum _ => rfl
  | .typedef _ => rfl

theorem sizeWith_renumber {f : Renumbering} {c c' : CompositeId → Option UInt32}
    {d d' : TypedefId → Option UInt32} : ∀ t : CType,
    (∀ k id, t.stripArrays = .composite k id → c' (f.composite id) = c id) →
      (∀ id, t.stripArrays = .typedef id → d' (f.typedef id) = d id) →
        (t.renumber f).sizeWith c' d' = t.sizeWith c d
  | .array t n, hc, hd => by
    have ih := sizeWith_renumber t hc hd
    simp only [renumber, sizeWith, ih]
  | .base _, _, _ => rfl
  | .pointer _, _, _ => rfl
  | .function _ _ _, _, _ => rfl
  | .composite k id, hc, _ => hc k id rfl
  | .enum _, _, _ => rfl
  | .typedef id, _, hd => hd id rfl

theorem stripArrays_of_isPointer {t : CType} (h : t.isPointer = true) : t.stripArrays = t := by
  cases t <;> first | rfl | exact nomatch h

end CType

/-! ## Sizes of elements -/

/-- The number of elements of an array of arrays, with no bound to it. -/
def SymbolDef.elements (d : SymbolDef) : Nat :=
  (d.dims.map UInt32.toNat).prod

theorem elementCount?_eq (dims : List UInt32) : elementCount? dims =
    if 0 < (dims.map UInt32.toNat).prod ∧ (dims.map UInt32.toNat).prod < UInt32.size then
      some (UInt32.ofNat (dims.map UInt32.toNat).prod)
    else none := by
  have hfold : dims.foldl (fun n d => n * d.toNat) 1 = (dims.map UInt32.toNat).prod := by
    rw [List.prod_eq_foldl, List.foldl_map]
  unfold elementCount?
  rw [hfold]

theorem bounds_of_dvd_toNat {w : UInt32} (hw : w ≠ 0) {n : Nat} (h : n ∣ w.toNat) : 0 < n ∧ n < UInt32.size := by
  have hpos : 0 < w.toNat := Nat.pos_of_ne_zero fun h => hw (UInt32.toNat_inj.mp h)
  exact ⟨Nat.pos_of_dvd_of_pos h hpos, Nat.lt_of_le_of_lt (Nat.le_of_dvd hpos h) w.toNat_lt⟩

theorem mod_eq_zero_and_div_eq_iff {n count size : UInt32} (hcount : count ≠ 0) :
    n % count = 0 ∧ n / count = size ↔ size.toNat * count.toNat = n.toNat := by
  have hpos : 0 < count.toNat := Nat.pos_of_ne_zero fun h => hcount (UInt32.toNat_inj.mp h)
  rw [← UInt32.toNat_inj, ← UInt32.toNat_inj, UInt32.toNat_mod, UInt32.toNat_div]
  constructor
  · rintro ⟨hmod, hdiv⟩
    rw [← hdiv]
    exact Nat.div_mul_cancel (Nat.dvd_of_mod_eq_zero hmod)
  · intro hmul
    rw [← hmul]
    exact ⟨Nat.mul_mod_left _ _, Nat.mul_div_cancel _ hpos⟩

section
variable {d : SymbolDef} (hmods : ∀ m ∈ d.word.modifiers, m = .array) (hsize : d.size ≠ 0)
include hmods hsize

theorem referencedSize_arrays {size : UInt32} :
    d.referencedSize = .ok size ↔ size.toNat * d.elements = d.size.toNat := by
  have hpointer : d.word.modifiers.getLast? ≠ some .pointer := fun hl => nomatch hmods _ (List.mem_of_getLast? hl)
  have hfunction : .function ∉ d.word.modifiers := fun hf => nomatch hmods _ hf
  unfold SymbolDef.referencedSize SymbolDef.elements
  simp only [hpointer, hfunction, and_false, or_self, ite_false, hsize, false_or]
  by_cases hdims : d.dims = []
  · rw [if_pos hdims, hdims, List.map_nil, List.prod_nil, Nat.mul_one, UInt32.toNat_inj, Except.ok.injEq, eq_comm]
  rw [if_neg hdims, elementCount?_eq]
  generalize (d.dims.map UInt32.toNat).prod = n
  by_cases hn : 0 < n ∧ n < UInt32.size
  · have hcount : (UInt32.ofNat n).toNat = n := UInt32.toNat_ofNat_of_lt' hn.2
    have hne : UInt32.ofNat n ≠ 0 := fun h => by
      rw [h] at hcount
      exact Nat.ne_of_lt hn.1 hcount
    rw [if_pos hn]
    conv_rhs => rw [← hcount]
    rw [← mod_eq_zero_and_div_eq_iff hne]
    by_cases hmod : d.size % UInt32.ofNat n = 0
    · simp only [hmod, ite_true, Except.ok.injEq, true_and]
    · simp only [hmod, ite_false, false_and, reduceCtorEq]
  · -- the product of a size and a count that is out of range is no size
    rw [if_neg hn]
    refine iff_of_false (fun h => nomatch h) fun hmul => hn ?_
    exact bounds_of_dvd_toNat hsize ⟨size.toNat, by rw [Nat.mul_comm, hmul]⟩

theorem exists_referencedSize_arrays :
    (∃ size, d.referencedSize = .ok size) ↔
      d.elements ≠ 0 ∧ d.elements < UInt32.size ∧ d.elements ∣ d.size.toNat := by
  simp only [referencedSize_arrays hmods hsize]
  constructor
  · rintro ⟨size, hmul⟩
    have hdvd : d.elements ∣ d.size.toNat := ⟨size.toNat, by rw [Nat.mul_comm, hmul]⟩
    obtain ⟨hpos, hlt⟩ := bounds_of_dvd_toNat hsize hdvd
    exact ⟨Nat.pos_iff_ne_zero.mp hpos, hlt, hdvd⟩
  · rintro ⟨hne, -, hdvd⟩
    have hlt : d.size.toNat / d.elements < UInt32.size :=
      Nat.lt_of_le_of_lt (Nat.div_le_self _ _) d.size.toNat_lt
    refine ⟨UInt32.ofNat (d.size.toNat / d.elements), ?_⟩
    rw [UInt32.toNat_ofNat_of_lt' hlt]
    exact Nat.div_mul_cancel hdvd

theorem referencedSize_ne_zero {size : UInt32} (h : d.referencedSize = .ok size) : size ≠ 0 := by
  rintro rfl
  have hmul := (referencedSize_arrays hmods hsize).mp h
  rw [UInt32.toNat_zero, Nat.zero_mul] at hmul
  exact hsize (UInt32.toNat_inj.mp hmul.symm)

end

namespace Overlay

/-- The size of `t` rests on no struct or union without a size and on no typedef
but that of the null base type. -/
def Sized (o : Overlay) (t : CType) : Prop :=
  match t.stripArrays with
  | .composite _ id => (o.arena.composite id).size ≠ 0
  | .typedef id => o.nullTypedef = some id
  | _ => True

def NullSettled (o : Overlay) : Prop :=
  ∀ id, o.nullTypedef = some id → id.index < o.arena.typedefs.length ∧ o.arena.typedef id = boolTypedef

theorem NullSettled.typedefSize? {o : Overlay} (h : o.NullSettled) {id : TypedefId}
    (hid : o.nullTypedef = some id) : o.arena.typedefSize? o.arena.typedefs.length id = some 4 := by
  obtain ⟨hlt, hbool⟩ := h id hid
  obtain ⟨n, hn⟩ := Nat.exists_eq_succ_of_ne_zero (Nat.ne_zero_of_lt hlt)
  rw [hn, Arena.typedefSize?, hbool]
  rfl

structure KeepsSizes (f : Renumbering) (o o' : Overlay) : Prop where
  composite : ∀ id, (o.arena.composite id).size ≠ 0 →
    (o'.arena.composite (f.composite id)).size = (o.arena.composite id).size
  null : ∀ id, o.nullTypedef = some id → o'.nullTypedef = some (f.typedef id)

section
variable {f : Renumbering} {o o' : Overlay} {t : CType}

theorem KeepsSizes.sized (h : KeepsSizes f o o') (ht : o.Sized t) : o'.Sized (t.renumber f) := by
  unfold Sized at ht ⊢
  rw [CType.stripArrays_renumber]
  cases hs : t.stripArrays with
  | composite k id =>
    rw [hs] at ht
    show (o'.arena.composite (f.composite id)).size ≠ 0
    rw [h.composite id ht]
    exact ht
  | typedef id =>
    rw [hs] at ht
    exact h.null id ht
  | _ => trivial

theorem KeepsSizes.size? (h : KeepsSizes f o o') (ho : o.NullSettled) (ho' : o'.NullSettled)
    (ht : o.Sized t) : o'.arena.size? (t.renumber f) = o.arena.size? t := by
  unfold Sized at ht
  refine CType.sizeWith_renumber t ?_ ?_
  · intro k id hs
    rw [hs] at ht
    simp only [Arena.compositeSize?, h.composite id ht]
  · intro id hs
    rw [hs] at ht
    rw [ho.typedefSize? ht, ho'.typedefSize? (h.null id ht)]

end

/-! ## Recorded sizes -/

def Agrees (o : Overlay) (t : CType) (size : UInt32) : Prop :=
  size ≠ 0 → o.Sized t ∧ ∀ c, o.arena.size? t = some c → size = c

structure SizesAgree (o : Overlay) : Prop where
  null : o.NullSettled
  stored : ∀ t size, o.Stores t (some size) → o.Agrees t size

theorem Agrees.renumber {f : Renumbering} {o o' : Overlay} {t : CType} {size : UInt32} (h : o.Agrees t size)
    (hk : KeepsSizes f o o') (ho : o.NullSettled) (ho' : o'.NullSettled) : o'.Agrees (t.renumber f) size := by
  intro hz
  obtain ⟨hsized, hsize⟩ := h hz
  refine ⟨hk.sized hsized, ?_⟩
  rw [hk.size? ho ho' hsized]
  exact hsize

/-! ## Definitions -/

/-- Under the arrays of a derived type is the base, unless a pointer or function
comes between. -/
theorem stripArrays_derive (base : CType) : ∀ (mods : List Modifier) (dims : List UInt32),
    ((∀ m ∈ mods, m = .array) ∧ (base.derive mods dims).stripArrays = base.stripArrays) ∨
      (∃ t, (base.derive mods dims).stripArrays = .pointer t) ∨
        ∃ t, (base.derive mods dims).stripArrays = .function t [] false
  | [], _ => .inl ⟨by simp, rfl⟩
  | .pointer :: ms, dims => .inr (.inl ⟨_, by rw [CType.derive_pointer]; rfl⟩)
  | .function :: ms, dims => .inr (.inr ⟨_, by rw [CType.derive_function]; rfl⟩)
  | .array :: ms, dims => by
    rw [CType.derive_array]
    obtain ⟨hms, hs⟩ | h := stripArrays_derive base ms dims.tail
    · exact .inl ⟨by simpa using hms, hs⟩
    · exact .inr h

theorem Refers.sized {o : Overlay} {d : SymbolDef} {t : CType} (h : o.Refers d t)
    (hz : t.recordedSize d.size ≠ 0) : o.Sized t := by
  obtain ⟨base, hb, rfl⟩ := h
  unfold Sized
  obtain ⟨hms, hs⟩ | ⟨t, hs⟩ | ⟨t, hs⟩ := stripArrays_derive base d.word.modifiers d.dims
  · -- arrays alone: a struct or union is held by value, and was found by its size
    rw [hs]
    cases hb with
    | scalar hb => trivial
    | null hb hid => exact hid
    | enum hb hid => trivial
    | composite hbase href hid hsize huse =>
      have hd : d.size ≠ 0 := by
        unfold CType.recordedSize at hz
        split at hz
        · rename_i hp
          rw [CType.stripArrays_of_isPointer hp] at hs
          rw [hs] at hp
          exact nomatch hp
        · exact hz
      have hne := referencedSize_ne_zero hms hd href
      show (o.arena.composite _).size ≠ 0
      rw [hsize.resolve_left hne]
      exact hne
  · rw [hs]; trivial
  · rw [hs]; trivial

theorem Declared.agrees {o : Overlay} {d : SymbolDef} {v : Variable} (h : o.Declared d v) :
    o.Agrees v.type v.size := fun hz =>
  ⟨h.refers.sized (h.size ▸ hz), fun c hc => (h.checked c hc).resolve_left hz⟩

theorem DeclaredField.agrees {o : Overlay} {d : SymbolDef} {x : Field} (h : o.DeclaredField d x) {size : UInt32}
    (hx : x.byteSize? = some size) : o.Agrees x.type size := by
  unfold Field.byteSize? at hx
  split at hx
  · exact nomatch hx
  · rename_i hb
    have hb : x.bitfield = false := by simpa using hb
    cases hx
    exact fun hz => ⟨h.refers.sized (h.size hb ▸ hz), fun c hc => (h.checked hb c hc).resolve_left hz⟩

theorem Fresh.agrees {o : Overlay} {t : CType} {z : Option UInt32} (h : o.Fresh t z) :
    ∀ size, z = some size → o.Agrees t size := by
  intro size hz
  cases h with
  | declared h => cases hz; exact h.agrees
  | field h => exact h.agrees hz
  | result h ht => exact nomatch hz
  | null => cases hz; exact fun h => absurd rfl h
  | placeholder => exact nomatch hz

/-! ## Edits -/

section
variable {o o' : Overlay}

theorem keepsSizes_of_eq (hc : o'.arena.composites = o.arena.composites)
    (hn : ∀ id, o.nullTypedef = some id → o'.nullTypedef = some id) : KeepsSizes {} o o' where
  composite id _ := by
    unfold Arena.composite
    rw [hc]
    rfl
  null := hn

theorem keepsSizes_modifyComposite {id : CompositeId} {f : Composite → Composite}
    (hf : (o.arena.composite id).size ≠ 0 → (f (o.arena.composite id)).size = (o.arena.composite id).size) :
    KeepsSizes {} o (o.modifyArena (·.modifyComposite id f)) where
  composite j hj := by
    show ((o.arena.modifyComposite id f).composite j).size = _
    rw [Arena.composite_modifyComposite]
    by_cases h : id = j ∧ j.index < o.arena.composites.length
    · rw [if_pos h, ← h.1]
      rw [← h.1] at hj
      exact hf hj
    · rw [if_neg h]
  null _ h := h

theorem keepsSizes_addComposite (c : Composite) : KeepsSizes {} o (o.addComposite c) where
  composite id hid := by
    -- an index past the end reads as a struct of size zero
    have hne : id ≠ o.arena.nextComposite := by
      rintro rfl
      exact hid (by simp [Arena.composite, Arena.nextComposite, default])
    rw [arena_addComposite, Arena.composite_pushComposite]
    exact congrArg Composite.size (if_neg hne)
  null id hid := by
    rw [nullTypedef_addComposite]
    exact hid

theorem addGlobal_parts (v : Variable) :
    (o.addGlobal v).arena = o.arena ∧ (o.addGlobal v).nullTypedef = o.nullTypedef := by
  unfold addGlobal
  split <;> exact ⟨rfl, rfl⟩

theorem addScoped_parts (f : Nat) (opened : List Nat) (v : Variable) :
    (addScoped f opened v o).arena = o.arena ∧ (addScoped f opened v o).nullTypedef = o.nullTypedef := by
  cases opened <;> exact ⟨rfl, rfl⟩

theorem Edit.keepsSizes (h : o.Edit o') : KeepsSizes {} o o' := by
  cases h with
  | newComposite kind name size => exact keepsSizes_addComposite _
  | newNull h =>
    refine keepsSizes_of_eq rfl fun id hid => ?_
    rw [h] at hid
    exact nomatch hid
  | use id byPointer => exact keepsSizes_modifyComposite fun _ => by cases byPointer <;> rfl
  | fill hf hs =>
    -- what is filled in was zero, or is what it was
    exact keepsSizes_modifyComposite fun hz => (hs.resolve_right hz).symm
  | global h =>
    obtain ⟨ha, hn⟩ := addGlobal_parts (o := o) _
    exact keepsSizes_of_eq (by rw [ha]) fun id hid => by rw [hn]; exact hid
  | @newAlias d v h hnew =>
    generalize aliasTarget v.type = target
    cases target with
    | composite k id =>
      have hk : KeepsSizes {} (o.addTypedef v) ((o.addTypedef v).modifyArena (·.modifyComposite id _)) :=
        keepsSizes_modifyComposite (f := fun c => { c with aliases := c.aliases ++ [o.arena.nextTypedef] })
          fun _ => rfl
      exact ⟨hk.composite, hk.null⟩
    | _ => exact keepsSizes_of_eq rfl fun _ h => h
  | field id h => exact keepsSizes_modifyComposite fun _ => rfl
  | addScoped f opened h =>
    obtain ⟨ha, hn⟩ := addScoped_parts (o := o) f opened _
    exact keepsSizes_of_eq (by rw [ha]) fun id hid => by rw [hn]; exact hid
  | _ => exact keepsSizes_of_eq rfl fun _ h => h

theorem NullSettled.pushTypedef (h : o.NullSettled) {v : Variable}
    (ht : o'.arena.typedefs = o.arena.typedefs ++ [v]) (hn : o'.nullTypedef = o.nullTypedef) :
    o'.NullSettled := by
  intro id hid
  rw [hn] at hid
  obtain ⟨hlt, hbool⟩ := h id hid
  have hlast : (o'.arena.typedef id) = o.arena.typedef id := by
    simp only [Arena.typedef, ht, List.getD_eq_getElem?_getD, List.getElem?_append_left hlt]
  rw [ht, hlast, List.length_append]
  exact ⟨by omega, hbool⟩

theorem NullSettled.of_eq (h : o.NullSettled) (ht : o'.arena.typedefs = o.arena.typedefs)
    (hn : o'.nullTypedef = o.nullTypedef) : o'.NullSettled := by
  unfold NullSettled Arena.typedef
  rw [ht, hn]
  exact h

theorem Edit.nullSettled (h : o.Edit o') (ho : o.NullSettled) : o'.NullSettled := by
  cases h with
  | newComposite kind name size =>
    exact ho.of_eq (by rw [arena_addComposite]; rfl) (nullTypedef_addComposite _ _)
  | newNull h =>
    intro id hid
    cases hid
    refine ⟨by simp [withNull, Arena.pushTypedef, Arena.nextTypedef], ?_⟩
    show (o.arena.pushTypedef boolTypedef).typedef _ = _
    rw [Arena.typedef_pushTypedef, if_pos rfl]
  | global h =>
    obtain ⟨ha, hn⟩ := addGlobal_parts (o := o) _
    exact ho.of_eq (by rw [ha]) hn
  | typedef h => exact ho.pushTypedef rfl rfl
  | @newAlias d v h hnew =>
    generalize aliasTarget v.type = target
    cases target <;> exact ho.pushTypedef (v := v) rfl rfl
  | addScoped f opened h =>
    obtain ⟨ha, hn⟩ := addScoped_parts (o := o) f opened _
    exact ho.of_eq (by rw [ha]) hn
  | _ => exact ho.of_eq rfl rfl

theorem Edit.sizesAgree (h : o.Edit o') (ho : o.SizesAgree) : o'.SizesAgree where
  null := h.nullSettled ho.null
  stored t size hs := by
    have hold : o.Agrees t size := by
      obtain hs | hs := h.stores_cases hs
      · exact ho.stored t size hs
      · exact hs.agrees size rfl
    have hnew := hold.renumber h.keepsSizes ho.null (h.nullSettled ho.null)
    rwa [CType.renumber_id] at hnew

end

theorem sizesAgree_new (id addr length : UInt32) : SizesAgree { id, addr, length } where
  null _ h := nomatch h
  stored _ _ hs := absurd hs (not_stores_new id addr length)

end Overlay

end DebugSymbols
