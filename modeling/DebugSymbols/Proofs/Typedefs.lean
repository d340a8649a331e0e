import DebugSymbols.Proofs.Build.Aliases
import DebugSymbols.Proofs.Containment
import DebugSymbols.Proofs.Print.Bodies
import DebugSymbols.Proofs.Print.Texts
import Mathlib.Data.List.Nodup

/-!
# Definitions of typedefs

`definedOnce_iff`: which typedefs have exactly one definition in the printed
types. A body takes up the typedef that closes it even if it is commented out,
and whatever type that typedef names.
-/

namespace DebugSymbols

open Text (uncommented)

/-- Outside comments, the text of the item has the definition of the typedef: it is
the line of the typedef, or ends with the name behind the brace of a body that
the typedef closes. -/
inductive Arena.Defines (a : Arena) (id : TypedefId) : Item → Prop
  | line (h : uncommented (Overlay.itemText a (.typedef id)) =
      "typedef " ++ a.declare (a.typedef id).type (a.typedef id).name ++ ";\n") : Defines a id (.typedef id)
  | closing {item : Item} {body : String} (hid : id ∈ a.closes item)
      (h : uncommented (Overlay.itemText a item) = body ++ "\n" ++
        ("\x7d " ++ (if (a.typedef id).type.isPointer then "*" else "") ++ (a.typedef id).name ++ ";\n") ++ "\n") :
      Defines a id item

/-- The typedefs that the items define, by what they are made from. -/
def Arena.defines (a : Arena) : Item → List TypedefId
  | .composite id => if (a.composite id).fields.isEmpty then [] else closing (a.composite id).aliases
  | .enum id => closing (a.enumeration id).aliases
  | .typedef id => [id]
  | .blank => []

def CType.body? : CType → Option Item
  | .composite _ i => some (.composite i)
  | .enum i => some (.enum i)
  | _ => none

namespace Overlay

variable {o : Overlay} {id : TypedefId}

/-- One part of the printed types defines the typedef. It is a line of its own, or
the body of the struct, union or enum that the typedef names or points to. -/
def DefinedOnce (o : Overlay) (id : TypedefId) : Prop :=
  ∃ front item back, (o.typeItems {}).2 = front ++ item :: back ∧
    o.types = String.join (front.map (itemText o.arena)) ++ itemText o.arena item ++
      String.join (back.map (itemText o.arena)) ∧
    o.arena.Defines id item ∧ (∀ other ∈ front ++ back, ¬ o.arena.Defines id other) ∧
    (item = .typedef id ∨ (aliasTarget (o.arena.typedef id).type).body? = some item)

def definers (o : Overlay) (id : TypedefId) : List Item :=
  (o.typeItems {}).2.filter fun i => id ∈ o.arena.defines i

/-- The body of a listed struct, union or enum has the typedef as its closing name. -/
def ClosedBy (o : Overlay) (t : CType) (id : TypedefId) : Prop :=
  o.Lists t ∧ o.aliasesOf t = [id]

def Live (o : Overlay) : CType → Prop
  | .composite _ i => (o.arena.composite i).fields ≠ []
  | _ => True

instance (o : Overlay) (t : CType) (id : TypedefId) : Decidable (o.ClosedBy t id) :=
  inferInstanceAs (Decidable (o.Lists t ∧ o.aliasesOf t = [id]))

instance (o : Overlay) : (t : CType) → Decidable (o.Live t)
  | .composite _ i => inferInstanceAs (Decidable ((o.arena.composite i).fields ≠ []))
  | .base _ => .isTrue trivial
  | .pointer _ => .isTrue trivial
  | .array _ _ => .isTrue trivial
  | .function _ _ _ => .isTrue trivial
  | .enum _ => .isTrue trivial
  | .typedef _ => .isTrue trivial

def aggregates (o : Overlay) : List CType :=
  o.structs.listed.map (.composite .struct) ++ o.unions.listed.map (.composite .union) ++ o.enums.listed.map .enum

/-! ## What closes a body -/

theorem ClosedBy.cases {t : CType} (h : o.ClosedBy t id) :
    (∃ kind i, t = .composite kind i ∧ o.Lists (.composite kind i) ∧ (o.arena.composite i).aliases = [id]) ∨
      ∃ i, t = .enum i ∧ o.Lists (.enum i) ∧ (o.arena.enumeration i).aliases = [id] := by
  cases t with
  | composite kind i => exact .inl ⟨kind, i, rfl, h⟩
  | enum i => exact .inr ⟨i, rfl, h⟩
  | _ => exact nomatch h.2

theorem ClosedBy.mem_aggregates {t : CType} (h : o.ClosedBy t id) : t ∈ o.aggregates := by
  obtain ⟨kind, i, rfl, hi, _⟩ | ⟨i, rfl, hi, _⟩ := h.cases
  · cases kind with
    | struct => exact List.mem_append_left _ (List.mem_append_left _ (List.mem_map.mpr ⟨i, hi, rfl⟩))
    | union => exact List.mem_append_left _ (List.mem_append_right _ (List.mem_map.mpr ⟨i, hi, rfl⟩))
  · exact List.mem_append_right _ (List.mem_map.mpr ⟨i, hi, rfl⟩)

theorem not_isInlined {i : CompositeId} (h : (o.arena.composite i).aliases = [id]) :
    o.arena.isInlined i = false := by
  simp [Arena.isInlined, h]

theorem ClosedBy.exists_body {t : CType} (h : o.ClosedBy t id) : ∃ item, t.body? = some item := by
  obtain ⟨kind, i, rfl, _⟩ | ⟨i, rfl, _⟩ := h.cases
  · exact ⟨_, rfl⟩
  · exact ⟨_, rfl⟩

theorem count_bodies_of_closedBy {t : CType} (h : o.ClosedBy t id) {item : Item} (hitem : t.body? = some item) :
    o.bodies.2.count item = 1 := by
  obtain ⟨kind, i, rfl, hi, haliases⟩ | ⟨i, rfl, hi, _⟩ := h.cases
  · cases hitem
    exact count_bodies_composite hi (not_isInlined haliases)
  · cases hitem
    exact count_bodies_enum hi

theorem mem_bodies_of_closedBy {t : CType} (h : o.ClosedBy t id) {item : Item} (hitem : t.body? = some item) :
    item ∈ o.bodies.2 :=
  List.count_pos_iff.mp (by rw [count_bodies_of_closedBy h hitem]; exact Nat.one_pos)

theorem closes_of_closedBy {t : CType} (h : o.ClosedBy t id) {item : Item} (hitem : t.body? = some item) :
    id ∈ o.arena.closes item := by
  obtain ⟨kind, i, rfl, _, haliases⟩ | ⟨i, rfl, _, haliases⟩ := h.cases
  · cases hitem
    exact Arena.mem_closing.mpr haliases
  · cases hitem
    exact Arena.mem_closing.mpr haliases

theorem exists_closedBy (ho : o.Closed) {item : Item} (hitem : item ∈ o.bodies.2)
    (hid : id ∈ o.arena.closes item) : ∃ t, o.ClosedBy t id ∧ t.body? = some item := by
  obtain ⟨kind, i, rfl, hi⟩ | ⟨i, rfl, hi⟩ := lists_of_mem_bodies ho hitem
  · exact ⟨.composite kind i, ⟨hi, Arena.mem_closing.mp hid⟩, rfl⟩
  · exact ⟨.enum i, ⟨hi, Arena.mem_closing.mp hid⟩, rfl⟩

theorem mem_closing_bodies (ho : o.Closed) : id ∈ o.bodies.1.closing ↔ ∃ t, o.ClosedBy t id := by
  rw [o.writes_bodies.mem_closing_iff]
  constructor
  · rintro (hnil | ⟨item, hitem, hid⟩)
    · exact nomatch hnil
    · obtain ⟨t, ht, _⟩ := exists_closedBy ho hitem hid
      exact ⟨t, ht⟩
  · rintro ⟨t, ht⟩
    obtain ⟨item, hitem⟩ := ht.exists_body
    exact .inr ⟨item, mem_bodies_of_closedBy ht hitem, closes_of_closedBy ht hitem⟩

theorem Closed.body?_inj (ho : o.Closed) {item : Item} {s t : CType} (hs : o.Lists s) (ht : o.Lists t)
    (his : s.body? = some item) (hit : t.body? = some item) : s = t := by
  cases s with
  | composite k i =>
    cases t with
    | composite l j =>
      cases his
      cases hit
      rw [← ho.kind k i hs, ← ho.kind l i ht]
    | _ =>
      cases his
      exact nomatch hit
  | enum i =>
    cases t with
    | enum j =>
      cases his
      cases hit
      rfl
    | _ =>
      cases his
      exact nomatch hit
  | _ => exact nomatch his

/-! ## Definitions -/

theorem defines_iff {item : Item} {t : CType} (hitem : t.body? = some item) :
    id ∈ o.arena.defines item ↔ id ∈ o.arena.closes item ∧ o.Live t := by
  cases t with
  | composite k i =>
    cases hitem
    show id ∈ (if (o.arena.composite i).fields.isEmpty then [] else _) ↔ _ ∧ (o.arena.composite i).fields ≠ []
    by_cases hfields : (o.arena.composite i).fields = []
    · simp [hfields]
    · rw [if_neg (by simpa using hfields)]
      exact (and_iff_left hfields).symm
  | enum i =>
    cases hitem
    exact (and_iff_left trivial).symm
  | _ => exact nomatch hitem

theorem mem_closes_of_mem_defines {item : Item} (h : id ∈ o.arena.defines item) :
    item = .typedef id ∨ id ∈ o.arena.closes item ∧ ∀ i, item = .composite i → (o.arena.composite i).fields ≠ [] := by
  cases item with
  | composite i =>
    by_cases hfields : (o.arena.composite i).fields = []
    · simp [Arena.defines, hfields] at h
    · rw [Arena.defines, if_neg (by simpa using hfields)] at h
      refine .inr ⟨h, fun j hj => ?_⟩
      cases hj
      exact hfields
  | enum i => exact .inr ⟨h, fun _ hi => nomatch hi⟩
  | typedef i => exact .inl (congrArg Item.typedef (List.mem_singleton.mp h).symm)
  | blank => exact nomatch h

theorem defines_iff_mem (ha : o.arena.CleanNames) (item : Item) :
    o.arena.Defines id item ↔ id ∈ o.arena.defines item := by
  have hrenders := o.arena.renders_itemText item
  constructor
  · rintro (_ | ⟨hid, htext⟩)
    · exact List.mem_singleton_self _
    · cases item with
      | composite i =>
        by_cases hfields : (o.arena.composite i).fields = []
        · -- all of the text is a comment, and what is left has no brace
          rw [hrenders.uncommented_noFields ha hfields] at htext
          have hbrace : '\x7d' ∈ "\n\n".toList := by
            rw [htext]
            simp
          exact absurd hbrace (by decide)
        · rw [Arena.defines, if_neg (by simpa using hfields)]
          exact hid
      | enum i => exact hid
      | _ => exact nomatch hid
  · intro hid
    obtain rfl | ⟨hcloses, hfields⟩ := mem_closes_of_mem_defines hid
    · exact .line (hrenders.uncommented_eq ha fun _ h => nomatch h)
    · obtain ⟨body, hbody⟩ := hrenders.closing hcloses hfields
      exact .closing hcloses ((hrenders.uncommented_eq ha hfields).trans hbody)

theorem definers_eq_singleton (ha : o.arena.CleanNames) (item : Item) :
    o.definers id = [item] ↔ ∃ front back, (o.typeItems {}).2 = front ++ item :: back ∧ o.arena.Defines id item ∧
      ∀ other ∈ front ++ back, ¬ o.arena.Defines id other := by
  simp only [defines_iff_mem ha, List.forall_mem_append]
  unfold definers
  rw [List.filter_eq_cons_iff]
  constructor
  · rintro ⟨front, back, hsplit, hfront, hitem, hback⟩
    exact ⟨front, back, hsplit, of_decide_eq_true hitem, fun i hi => by simpa using hfront i hi,
      fun i hi => by simpa using List.filter_eq_nil_iff.mp hback i hi⟩
  · rintro ⟨front, back, hsplit, hitem, hfront, hback⟩
    exact ⟨front, back, hsplit, fun i hi => by simpa using hfront i hi, decide_eq_true hitem,
      List.filter_eq_nil_iff.mpr fun i hi => by simpa using hback i hi⟩

theorem definedOnce_iff_definers (ha : o.arena.CleanNames) :
    o.DefinedOnce id ↔ o.definers id = [.typedef id] ∨
      ∃ body, o.definers id = [body] ∧ (aliasTarget (o.arena.typedef id).type).body? = some body := by
  simp only [definers_eq_singleton ha]
  constructor
  · rintro ⟨front, item, back, hsplit, _, hitem, hothers, rfl | hbody⟩
    · exact .inl ⟨front, back, hsplit, hitem, hothers⟩
    · exact .inr ⟨item, ⟨front, back, hsplit, hitem, hothers⟩, hbody⟩
  · have htext {front back : List Item} {item : Item} (hsplit : (o.typeItems {}).2 = front ++ item :: back) :
        o.types = String.join (front.map (itemText o.arena)) ++ itemText o.arena item ++
          String.join (back.map (itemText o.arena)) := by
      show String.join ((o.typeItems {}).2.map (itemText o.arena)) = _
      rw [hsplit, List.map_append, List.map_cons, String.join_append, String.join_cons, String.append_assoc]
    rintro (⟨front, back, hsplit, hitem, hothers⟩ | ⟨body, ⟨front, back, hsplit, hitem, hothers⟩, hbody⟩)
    · exact ⟨front, _, back, hsplit, htext hsplit, hitem, hothers, .inl rfl⟩
    · exact ⟨front, body, back, hsplit, htext hsplit, hitem, hothers, .inr hbody⟩

def liveBodies (o : Overlay) (id : TypedefId) : List Item :=
  o.bodies.2.filter fun i => id ∈ o.arena.defines i

theorem mem_liveBodies_iff (ho : o.Closed) {item : Item} :
    item ∈ o.liveBodies id ↔ ∃ t, o.ClosedBy t id ∧ o.Live t ∧ t.body? = some item := by
  unfold liveBodies
  rw [List.mem_filter, decide_eq_true_eq]
  constructor
  · rintro ⟨hmem, hdefines⟩
    have hbody : ∃ t : CType, t.body? = some item := by
      obtain ⟨kind, i, rfl, _⟩ | ⟨i, rfl, _⟩ := lists_of_mem_bodies ho hmem
      · exact ⟨.composite kind i, rfl⟩
      · exact ⟨.enum i, rfl⟩
    obtain ⟨t, hitem⟩ := hbody
    obtain ⟨u, hu, hitem⟩ := exists_closedBy ho hmem ((defines_iff hitem).mp hdefines).1
    exact ⟨u, hu, ((defines_iff hitem).mp hdefines).2, hitem⟩
  · rintro ⟨t, ht, hlive, hitem⟩
    exact ⟨mem_bodies_of_closedBy ht hitem, (defines_iff hitem).mpr ⟨closes_of_closedBy ht hitem, hlive⟩⟩

theorem nodup_liveBodies (ho : o.Closed) : (o.liveBodies id).Nodup := by
  refine List.nodup_iff_count_le_one.mpr fun item => ?_
  by_cases hmem : item ∈ o.liveBodies id
  · obtain ⟨t, ht, _, hitem⟩ := (mem_liveBodies_iff ho).mp hmem
    have hone := count_bodies_of_closedBy ht hitem
    have hle : (o.liveBodies id).count item ≤ o.bodies.2.count item := List.filter_sublist.count_le item
    omega
  · rw [List.count_eq_zero.mpr hmem]
    exact Nat.zero_le 1

theorem filter_typedefItems (a : Arena) (q : Progress) (j : TypedefId) :
    (typedefItems j q).filter (fun i => id ∈ a.defines i) = if j = id then typedefItems id q else [] := by
  unfold typedefItems
  by_cases hj : j = id
  · subst hj
    split <;> simp [Arena.defines]
  · split <;> simp [Arena.defines, Ne.symm hj]

theorem filter_flatMap_typedefItems (a : Arena) (q : Progress) {ids : List TypedefId} (hnd : ids.Nodup) :
    (ids.flatMap (typedefItems · q)).filter (fun i => id ∈ a.defines i) =
      if id ∈ ids then typedefItems id q else [] := by
  induction ids with
  | nil => rfl
  | cons j ids ih =>
    obtain ⟨hnot, hnd⟩ := List.nodup_cons.mp hnd
    rw [List.flatMap_cons, List.filter_append, filter_typedefItems, ih hnd]
    by_cases hj : j = id
    · rw [hj] at hnot
      simp [hj, hnot]
    · simp [hj, Ne.symm hj]

/-- A typedef is defined by the bodies that it closes and, if there is none of
these at all, by a line of its own. -/
theorem definers_eq (ho : o.Closed) (hid : id ∈ o.typedefs.listed) :
    o.definers id = o.liveBodies id ++ typedefItems id o.bodies.1 := by
  have hnull : ((o.nullTypedef.elim [] fun n => typedefItems n {} ++ [Item.blank]).filter
      fun i => id ∈ o.arena.defines i) = [] := by
    cases hn : o.nullTypedef with
    | none => rfl
    | some n =>
      have hne : n ≠ id := fun heq => ho.null id hid (by rw [hn, heq])
      show ((typedefItems n {} ++ [Item.blank]).filter fun i => id ∈ o.arena.defines i) = []
      rw [List.filter_append, filter_typedefItems, if_neg hne]
      rfl
  unfold definers liveBodies
  rw [typeItems_eq, List.filter_append, List.filter_append, hnull, List.nil_append,
    filter_flatMap_typedefItems _ _ ho.typedefs, if_pos hid]

theorem Closed.lists_aliasTarget (ho : o.Closed) (id : TypedefId) :
    o.Lists (aliasTarget (o.arena.typedef id).type) := by
  obtain hmem | hdefault := Arena.getD_mem_or o.arena.typedefs id.index default
  · exact Overlay.lists_aliasTarget (ho.handles _ _ (.typedef hmem))
  · unfold Arena.typedef
    rw [hdefault]
    trivial

theorem Closed.exists_body_iff (ho : o.Closed) (id : TypedefId) :
    (∃ body, o.liveBodies id = [body] ∧ (aliasTarget (o.arena.typedef id).type).body? = some body) ↔
      (∃ t, o.ClosedBy t id ∧ o.Live t) ∧
        ∀ t, o.ClosedBy t id → o.Live t → t = aliasTarget (o.arena.typedef id).type := by
  constructor
  · rintro ⟨body, hbody, htarget⟩
    have hmem : body ∈ o.liveBodies id := by
      rw [hbody]
      exact List.mem_singleton_self _
    obtain ⟨t, ht, hlive, _⟩ := (mem_liveBodies_iff ho).mp hmem
    refine ⟨⟨t, ht, hlive⟩, fun u hu hlive => ?_⟩
    obtain ⟨item, hitem⟩ := hu.exists_body
    have hsame := (mem_liveBodies_iff ho).mpr ⟨u, hu, hlive, hitem⟩
    rw [hbody, List.mem_singleton] at hsame
    exact ho.body?_inj hu.1 (ho.lists_aliasTarget id) (hsame ▸ hitem) htarget
  · rintro ⟨⟨t, ht, hlive⟩, hall⟩
    obtain ⟨item, hitem⟩ := ht.exists_body
    have htarget := hall t ht hlive
    have hmem := (mem_liveBodies_iff ho).mpr ⟨t, ht, hlive, hitem⟩
    refine ⟨item, ?_, htarget ▸ hitem⟩
    -- any other body would be that of a type with this one
    by_contra hne
    obtain hnil | ⟨other, hother, hdiffers⟩ := ((nodup_liveBodies ho).ne_singleton_iff item).mp hne
    · rw [hnil] at hmem
      exact nomatch hmem
    · obtain ⟨u, hu, hlive, hbody⟩ := (mem_liveBodies_iff ho).mp hother
      rw [hall u hu hlive, ← htarget, hitem] at hbody
      exact hdiffers (Option.some.inj hbody).symm

theorem Closed.definedOnce_iff_closedBy (ho : o.Closed) (ha : o.arena.CleanNames) (hid : id ∈ o.typedefs.listed) :
    o.DefinedOnce id ↔ (∀ t, ¬ o.ClosedBy t id) ∨
      ((∃ t, o.ClosedBy t id ∧ o.Live t) ∧
        ∀ t, o.ClosedBy t id → o.Live t → t = aliasTarget (o.arena.typedef id).type) := by
  have hexists := ho.exists_body_iff id
  rw [definedOnce_iff_definers ha, definers_eq ho hid]
  -- a typedef that any body has taken up, live or not, gets no line of its own
  by_cases hclosing : id ∈ o.bodies.1.closing
  · obtain ⟨t, ht⟩ := (mem_closing_bodies ho).mp hclosing
    have hown : typedefItems id o.bodies.1 = [] := if_pos (List.contains_iff_mem.mpr hclosing)
    have hline : o.liveBodies id ≠ [.typedef id] := by
      intro hline
      have hmem : Item.typedef id ∈ o.liveBodies id := by
        rw [hline]
        exact List.mem_singleton_self _
      obtain ⟨u, hu, _, hitem⟩ := (mem_liveBodies_iff ho).mp hmem
      obtain ⟨kind, i, rfl, _⟩ | ⟨i, rfl, _⟩ := hu.cases <;> exact nomatch hitem
    rw [hown, List.append_nil, hexists]
    exact ⟨fun h => .inr (h.resolve_left hline), fun h => .inr (h.resolve_left fun hnone => hnone t ht)⟩
  · have hnone : ∀ t, ¬ o.ClosedBy t id := fun t ht => hclosing ((mem_closing_bodies ho).mpr ⟨t, ht⟩)
    have hown : typedefItems id o.bodies.1 = [.typedef id] := if_neg (by simpa using hclosing)
    have hbodies : o.liveBodies id = [] := by
      refine List.eq_nil_iff_forall_not_mem.mpr fun item hitem => ?_
      obtain ⟨t, ht, _⟩ := (mem_liveBodies_iff ho).mp hitem
      exact hnone t ht
    rw [hown, hbodies]
    exact iff_of_true (.inl rfl) (.inl hnone)

theorem definedOnce_iff {file : SymbolFile} {table : SymbolTable}
    (h : (SymbolTable.ofFile file).value = .ok table) (ho : o ∈ table.overlays)
    (hid : id ∈ o.typedefs.listed) :
    o.DefinedOnce id ↔ (∀ t, ¬ o.ClosedBy t id) ∨
      ((∃ t, o.ClosedBy t id ∧ o.Live t) ∧
        ∀ t, o.ClosedBy t id → o.Live t → t = aliasTarget (o.arena.typedef id).type) :=
  (closed_of_mem h ho).definedOnce_iff_closedBy (cleanArena_of_mem h ho) hid

/-! ## Where a definition is missing or doubled -/

def structAlias (size : UInt32) (tag name : String) : Record :=
  { offset := 0, value := 0,
    body := .definition .second { symbolClass := .typedef, word := ⟨8⟩, size, tag, name } }

def fileOf (records : List Record) : SymbolFile :=
  { header := { version := 1, targetUnit := 0 }, records }

def finished (records : List Record) : Overlay :=
  (Builder.afterWalks [records]).currentOverlay.merge.1.rename.1

def tableOf (records : List Record) : SymbolTable :=
  { header := (fileOf records).header, overlays := [finished records] }

def bodyAlias : List Record :=
  wrapper "a" 4 "" ++ [structAlias 4 "a" "T"]

theorem definedOnce_bodyAlias : (finished bodyAlias).DefinedOnce ⟨0⟩ := by
  have htable : (SymbolTable.ofFile (fileOf bodyAlias)).value = .ok (tableOf bodyAlias) := by decide +kernel
  have hself : (finished bodyAlias).ClosedBy (.composite .struct ⟨0⟩) ⟨0⟩ ∧
      (finished bodyAlias).Live (.composite .struct ⟨0⟩) := by
    decide +kernel
  have hall : ∀ t ∈ (finished bodyAlias).aggregates, (finished bodyAlias).ClosedBy t ⟨0⟩ →
      t = aliasTarget ((finished bodyAlias).arena.typedef ⟨0⟩).type := by
    decide +kernel
  exact (definedOnce_iff htable List.mem_cons_self (by decide +kernel)).mpr
    (.inr ⟨⟨_, hself⟩, fun t ht _ => hall t ht.mem_aggregates ht⟩)

/-- A typedef of a struct that is defined nowhere. -/
def incompleteAlias : List Record :=
  [structAlias 0 "foo" "Foo"]

theorem ofFile_incompleteAlias :
    (SymbolTable.ofFile (fileOf incompleteAlias)).value = .ok (tableOf incompleteAlias) := by
  decide +kernel

/-- The body that takes the typedef up is commented out. -/
theorem not_definedOnce_incompleteAlias :
    (SymbolTable.ofFile (fileOf incompleteAlias)).value = .ok (tableOf incompleteAlias) ∧
      ⟨0⟩ ∈ (finished incompleteAlias).typedefs.listed ∧ ¬ (finished incompleteAlias).DefinedOnce ⟨0⟩ := by
  have hlisted : ⟨0⟩ ∈ (finished incompleteAlias).typedefs.listed := by decide +kernel
  have hclosed := closed_of_mem ofFile_incompleteAlias List.mem_cons_self
  have hclean := cleanArena_of_mem ofFile_incompleteAlias List.mem_cons_self
  refine ⟨ofFile_incompleteAlias, hlisted, fun hdefined => ?_⟩
  obtain hnone | ⟨⟨t, ht, hlive⟩, _⟩ := (hclosed.definedOnce_iff_closedBy hclean hlisted).mp hdefined
  · exact hnone (.composite .struct ⟨0⟩) (by decide +kernel)
  · have hcommented : ∀ t ∈ (finished incompleteAlias).aggregates, ¬ (finished incompleteAlias).Live t := by
      decide +kernel
    exact hcommented t ht.mem_aggregates hlive

/-- Two structs, each with a typedef of the same name. -/
def sharedAlias : List Record :=
  wrapper "a" 4 "" ++ [structAlias 4 "a" "T"] ++ wrapper "b" 4 "" ++ [structAlias 4 "b" "T"]

/-- The typedefs are merged, and the one that is left closes both bodies. -/
theorem not_definedOnce_sharedAlias :
    (SymbolTable.ofFile (fileOf sharedAlias)).value = .ok (tableOf sharedAlias) ∧
      ⟨0⟩ ∈ (finished sharedAlias).typedefs.listed ∧ ¬ (finished sharedAlias).DefinedOnce ⟨0⟩ := by
  have htable : (SymbolTable.ofFile (fileOf sharedAlias)).value = .ok (tableOf sharedAlias) := by decide +kernel
  have hlisted : ⟨0⟩ ∈ (finished sharedAlias).typedefs.listed := by decide +kernel
  have hboth : ∀ i ∈ [0, 1], (finished sharedAlias).ClosedBy (.composite .struct ⟨i⟩) ⟨0⟩ ∧
      (finished sharedAlias).Live (.composite .struct ⟨i⟩) := by
    decide +kernel
  have hclosed := closed_of_mem htable List.mem_cons_self
  have hclean := cleanArena_of_mem htable List.mem_cons_self
  refine ⟨htable, hlisted, fun hdefined => ?_⟩
  obtain ⟨hfirst, hlive⟩ := hboth 0 (by decide)
  obtain ⟨hsecond, hlive'⟩ := hboth 1 (by decide)
  obtain hnone | ⟨_, hall⟩ := (hclosed.definedOnce_iff_closedBy hclean hlisted).mp hdefined
  · exact hnone _ hfirst
  · exact absurd ((hall _ hfirst hlive).trans (hall _ hsecond hlive').symm) (by decide)

end Overlay

end DebugSymbols
