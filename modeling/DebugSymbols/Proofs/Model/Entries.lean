import DebugSymbols.Model.Overlay

/-!
# Entries after a change

What the arena and the catalogs of an overlay hold after one addition or
change, as equations for `simp`.
-/

namespace DebugSymbols

namespace Arena

/-! ## Lists by position -/

theorem getD_concat {α : Type} (l : List α) (a d : α) (i : Nat) :
    (l ++ [a])[i]?.getD d = if i = l.length then a else l[i]?.getD d := by
  rcases Nat.lt_trichotomy i l.length with h | h | h
  · simp [List.getElem?_append_left h, Nat.ne_of_lt h]
  · simp [h]
  · have hnew : (l ++ [a])[i]? = none := List.getElem?_eq_none (by rw [List.length_append]; exact h)
    have hold : l[i]? = none := List.getElem?_eq_none (Nat.le_of_lt h)
    rw [hnew, hold, if_neg (Nat.ne_of_gt h)]

theorem getD_modify {α : Type} (l : List α) (f : α → α) (d : α) (i j : Nat) :
    (l.modify i f)[j]?.getD d = if i = j ∧ j < l.length then f (l[j]?.getD d) else l[j]?.getD d := by
  rw [List.getElem?_modify]
  by_cases h : i = j
  · subst h
    by_cases hi : i < l.length <;> simp [hi]
  · simp [h]

theorem map_modify_of_same {α β : Type} {l : List α} {i : Nat} {f : α → α} {g : α → β}
    (h : ∀ a, g (f a) = g a) : (l.modify i f).map g = l.map g := by
  refine List.ext_getElem? fun j => ?_
  rw [List.getElem?_map, List.getElem?_map, List.getElem?_modify]
  by_cases hij : i = j
  · simp [hij, Function.comp_def, h]
  · simp [hij]

theorem getD_congr_map {α β : Type} {l l' : List α} {p q : α → β} (h : l'.map p = l.map q) {d : α}
    (hd : p d = q d) (i : Nat) : p (l'.getD i d) = q (l.getD i d) := by
  have hi := congrArg (·[i]?.getD (p d)) h
  simp only [List.getElem?_map] at hi
  rw [List.getD_eq_getElem?_getD, List.getD_eq_getElem?_getD]
  rcases h' : l'[i]? with _ | a <;> rcases hl : l[i]? with _ | b <;>
    simp_all

/-! ## Any handle -/

theorem composite_of_le {a : Arena} {id : CompositeId} (h : a.composites.length ≤ id.index) :
    a.composite id = default := by
  simp [composite, List.getD_eq_getElem?_getD, List.getElem?_eq_none h]

theorem composite_next (a : Arena) : a.composite a.nextComposite = default :=
  composite_of_le (Nat.le_refl _)

theorem enumeration_of_le {a : Arena} {id : EnumId} (h : a.enums.length ≤ id.index) :
    a.enumeration id = default := by
  simp [enumeration, List.getD_eq_getElem?_getD, List.getElem?_eq_none h]

theorem enumeration_next (a : Arena) : a.enumeration a.nextEnum = default :=
  enumeration_of_le (Nat.le_refl _)

theorem getD_mem_or {α : Type} (l : List α) (i : Nat) (d : α) : l.getD i d ∈ l ∨ l.getD i d = d := by
  rw [List.getD_eq_getElem?_getD]
  cases h : l[i]? with
  | none => exact .inr rfl
  | some b => exact .inl (List.mem_of_getElem? h)

theorem composite_mem_of_field {a : Arena} {id : CompositeId} {x : Field} (hx : x ∈ (a.composite id).fields) :
    a.composite id ∈ a.composites := by
  obtain hmem | hdefault := getD_mem_or a.composites id.index default
  · exact hmem
  · unfold composite at hx
    rw [hdefault] at hx
    exact nomatch hx

/-! ## Structs and unions -/

variable (a : Arena)

theorem composite_pushComposite (c : Composite) (id : CompositeId) :
    (a.pushComposite c).composite id = if id = a.nextComposite then c else a.composite id := by
  obtain ⟨i⟩ := id
  simp [composite, pushComposite, nextComposite, getD_concat]

theorem composite_modifyComposite (f : Composite → Composite) (id j : CompositeId) :
    (a.modifyComposite id f).composite j =
      if id = j ∧ j.index < a.composites.length then f (a.composite j) else a.composite j := by
  obtain ⟨i⟩ := id
  obtain ⟨j⟩ := j
  simp [composite, modifyComposite, getD_modify]

theorem composite_modifyComposite_congr {α : Type} {f : Composite → Composite} (g : Composite → α)
    (h : ∀ c, g (f c) = g c) (id j : CompositeId) :
    g ((a.modifyComposite id f).composite j) = g (a.composite j) := by
  rw [composite_modifyComposite]
  split
  · exact h _
  · rfl

@[simp] theorem length_modifyComposite (f : Composite → Composite) (id : CompositeId) :
    (a.modifyComposite id f).composites.length = a.composites.length := by
  simp [modifyComposite]

/-! ## Enums -/

@[simp] theorem enumeration_pushComposite (c : Composite) (id : EnumId) :
    (a.pushComposite c).enumeration id = a.enumeration id := rfl

theorem enumeration_pushEnum (e : Enumeration) (id : EnumId) :
    (a.pushEnum e).enumeration id = if id = a.nextEnum then e else a.enumeration id := by
  obtain ⟨i⟩ := id
  simp [enumeration, pushEnum, nextEnum, getD_concat]

theorem enumeration_modifyEnum (f : Enumeration → Enumeration) (id j : EnumId) :
    (a.modifyEnum id f).enumeration j =
      if id = j ∧ j.index < a.enums.length then f (a.enumeration j) else a.enumeration j := by
  obtain ⟨i⟩ := id
  obtain ⟨j⟩ := j
  simp [enumeration, modifyEnum, getD_modify]

theorem enumeration_modifyEnum_congr {α : Type} {f : Enumeration → Enumeration} (g : Enumeration → α)
    (h : ∀ e, g (f e) = g e) (id j : EnumId) :
    g ((a.modifyEnum id f).enumeration j) = g (a.enumeration j) := by
  rw [enumeration_modifyEnum]
  split
  · exact h _
  · rfl

/-! ## Typedefs -/

@[simp] theorem typedef_pushComposite (c : Composite) (id : TypedefId) :
    (a.pushComposite c).typedef id = a.typedef id := rfl

theorem typedef_pushTypedef (d : Variable) (id : TypedefId) :
    (a.pushTypedef d).typedef id = if id = a.nextTypedef then d else a.typedef id := by
  obtain ⟨i⟩ := id
  simp [typedef, pushTypedef, nextTypedef, getD_concat]

end Arena

namespace Overlay

variable (o : Overlay)

theorem func_mem {i : Nat} (hi : i < o.funcs.length) : o.func i ∈ o.funcs := by
  unfold func
  rw [List.getD_eq_getElem?_getD, List.getElem?_eq_getElem hi]
  exact List.getElem_mem hi

/-! ## Catalogs of structs and unions -/

@[simp] theorem arena_setComposites (kind : CompositeKind) (c : Catalog Tag CompositeId) :
    (o.setComposites kind c).arena = o.arena := by
  cases kind <;> rfl

@[simp] theorem enums_setComposites (kind : CompositeKind) (c : Catalog Tag CompositeId) :
    (o.setComposites kind c).enums = o.enums := by
  cases kind <;> rfl

@[simp] theorem typedefs_setComposites (kind : CompositeKind) (c : Catalog Tag CompositeId) :
    (o.setComposites kind c).typedefs = o.typedefs := by
  cases kind <;> rfl

@[simp] theorem nullTypedef_setComposites (kind : CompositeKind) (c : Catalog Tag CompositeId) :
    (o.setComposites kind c).nullTypedef = o.nullTypedef := by
  cases kind <;> rfl

@[simp] theorem vars_setComposites (kind : CompositeKind) (c : Catalog Tag CompositeId) :
    (o.setComposites kind c).vars = o.vars := by
  cases kind <;> rfl

@[simp] theorem funcs_setComposites (kind : CompositeKind) (c : Catalog Tag CompositeId) :
    (o.setComposites kind c).funcs = o.funcs := by
  cases kind <;> rfl

theorem composites_setComposites (kind k : CompositeKind) (c : Catalog Tag CompositeId) :
    (o.setComposites kind c).composites k = if k = kind then c else o.composites k := by
  cases kind <;> cases k <;> rfl

/-! ## Additions -/

variable (c : Composite) (e : Enumeration) (d : Variable)

@[simp] theorem arena_addComposite : (o.addComposite c).arena = o.arena.pushComposite c := by
  simp [addComposite]

@[simp] theorem enums_addComposite : (o.addComposite c).enums = o.enums := by
  simp [addComposite]

@[simp] theorem typedefs_addComposite : (o.addComposite c).typedefs = o.typedefs := by
  simp [addComposite]

@[simp] theorem nullTypedef_addComposite : (o.addComposite c).nullTypedef = o.nullTypedef := by
  simp [addComposite]

@[simp] theorem vars_addComposite : (o.addComposite c).vars = o.vars := by
  simp [addComposite]

@[simp] theorem funcs_addComposite : (o.addComposite c).funcs = o.funcs := by
  simp [addComposite]

theorem composites_addComposite (k : CompositeKind) :
    (o.addComposite c).composites k =
      if k = c.kind then (o.composites k).add c.tag o.arena.nextComposite else o.composites k := by
  unfold addComposite
  rw [composites_setComposites]
  split
  · rename_i h; subst h; cases c.kind <;> rfl
  · cases k <;> rfl

@[simp] theorem composites_addEnum (k : CompositeKind) : (o.addEnum e).composites k = o.composites k := by
  cases k <;> rfl

@[simp] theorem composites_addTypedef (k : CompositeKind) : (o.addTypedef d).composites k = o.composites k := by
  cases k <;> rfl

@[simp] theorem composites_modifyArena (f : Arena → Arena) (k : CompositeKind) :
    (o.modifyArena f).composites k = o.composites k := by
  cases k <;> rfl

end Overlay

end DebugSymbols
