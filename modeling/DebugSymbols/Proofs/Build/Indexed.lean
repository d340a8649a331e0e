import DebugSymbols.Proofs.Build.Stored
import DebugSymbols.Proofs.Model.Entries
import DebugSymbols.Proofs.Model.Indexed
import DebugSymbols.Proofs.Model.Tags

/-!
# The lists of an overlay while building

Every edit leaves the overlay indexed and the handles in its types listed.
-/

namespace DebugSymbols

namespace Overlay

/-! ## New overlays -/

theorem indexed_new (id addr length : UInt32) : Indexed { id, addr, length } where
  composites kind := by cases kind <;> exact ⟨List.nodup_nil, rfl⟩
  composite_mem kind := by cases kind <;> exact fun _ h => nomatch h
  enums := ⟨List.nodup_nil, rfl⟩
  enum_mem _ h := nomatch h
  typedefs := ⟨List.nodup_nil, rfl⟩
  typedef_mem _ h := nomatch h
  null_mem _ h := nomatch h

structure SameHeads (o o' : Overlay) : Prop where
  composites : ∀ kind, o'.composites kind = o.composites kind
  enums : o'.enums = o.enums
  typedefs : o'.typedefs = o.typedefs
  null : o'.nullTypedef = o.nullTypedef
  compositeCount : o'.arena.composites.length = o.arena.composites.length
  enumCount : o'.arena.enums.length = o.arena.enums.length
  typedefCount : o'.arena.typedefs.length = o.arena.typedefs.length
  kind : ∀ id, (o'.arena.composite id).kind = (o.arena.composite id).kind
  tag : ∀ id, (o'.arena.composite id).tag = (o.arena.composite id).tag
  enumTag : ∀ id, (o'.arena.enumeration id).tag = (o.arena.enumeration id).tag
  name : ∀ id, (o'.arena.typedef id).name = (o.arena.typedef id).name

variable {o o' : Overlay}

theorem Indexed.of_sameHeads (h : o.Indexed) (hs : SameHeads o o') : o'.Indexed where
  composites kind := by
    rw [hs.composites kind]
    exact (h.composites kind).congr fun id _ => (hs.tag id).symm
  composite_mem kind id hid := by
    rw [hs.composites kind] at hid
    rw [hs.compositeCount, hs.kind]
    exact h.composite_mem kind id hid
  enums := by
    rw [hs.enums]
    exact h.enums.congr fun id _ => (hs.enumTag id).symm
  enum_mem id hid := by
    rw [hs.enums] at hid
    rw [hs.enumCount]
    exact h.enum_mem id hid
  typedefs := by
    rw [hs.typedefs]
    exact h.typedefs.congr fun id _ => (hs.name id).symm
  typedef_mem id hid := by
    rw [hs.typedefs] at hid
    rw [hs.typedefCount, hs.null]
    exact h.typedef_mem id hid
  null_mem id hid := by
    rw [hs.null] at hid
    rw [hs.typedefCount]
    exact h.null_mem id hid

/-! ## Edits that add no entry -/

theorem sameHeads_of_eq (ha : o'.arena = o.arena) (hk : ∀ kind, o'.composites kind = o.composites kind)
    (he : o'.enums = o.enums) (ht : o'.typedefs = o.typedefs) (hn : o'.nullTypedef = o.nullTypedef) :
    SameHeads o o' := by
  constructor <;> first | assumption | simp only [ha, implies_true]

theorem sameHeads_modifyComposite {id : CompositeId} {f : Composite → Composite}
    (hkind : ∀ c, (f c).kind = c.kind) (htag : ∀ c, (f c).tag = c.tag) :
    SameHeads o (o.modifyArena (·.modifyComposite id f)) where
  composites kind := composites_modifyArena _ _ kind
  enums := rfl
  typedefs := rfl
  null := rfl
  compositeCount := Arena.length_modifyComposite _ _ _
  enumCount := rfl
  typedefCount := rfl
  kind := Arena.composite_modifyComposite_congr _ Composite.kind hkind id
  tag := Arena.composite_modifyComposite_congr _ Composite.tag htag id
  enumTag _ := rfl
  name _ := rfl

theorem sameHeads_modifyEnum {id : EnumId} {f : Enumeration → Enumeration} (htag : ∀ e, (f e).tag = e.tag) :
    SameHeads o (o.modifyArena (·.modifyEnum id f)) where
  composites kind := composites_modifyArena _ _ kind
  enums := rfl
  typedefs := rfl
  null := rfl
  compositeCount := rfl
  enumCount := List.length_modify _ _ _
  typedefCount := rfl
  kind _ := rfl
  tag _ := rfl
  enumTag := Arena.enumeration_modifyEnum_congr _ Enumeration.tag htag id
  name _ := rfl

theorem sameHeads_modifyFunc (i : Nat) (f : Function → Function) : SameHeads o (o.modifyFunc i f) :=
  sameHeads_of_eq rfl (fun kind => by cases kind <;> rfl) rfl rfl rfl

theorem sameHeads_addGlobal (v : Variable) : SameHeads o (o.addGlobal v) := by
  unfold addGlobal
  split <;> exact sameHeads_of_eq rfl (fun kind => by cases kind <;> rfl) rfl rfl rfl

theorem sameHeads_addAlias (new : TypedefId) (target : CType) : SameHeads o (o.addAlias new target) := by
  cases target with
  | composite k id =>
    exact sameHeads_modifyComposite (f := fun c => { c with aliases := c.aliases ++ [new] }) (fun _ => rfl)
      fun _ => rfl
  | enum id =>
    exact sameHeads_modifyEnum (f := fun e => { e with aliases := e.aliases ++ [new] }) fun _ => rfl
  | _ => exact sameHeads_of_eq rfl (fun _ => rfl) rfl rfl rfl

/-! ## New entries -/

theorem Indexed.addComposite (h : o.Indexed) (c : Composite) : (o.addComposite c).Indexed := by
  have hnew : ∀ kind, ∀ id ∈ (o.composites kind).listed, id ≠ o.arena.nextComposite := by
    intro kind id hid heq
    have hlt := (h.composite_mem kind id hid).1
    rw [heq] at hlt
    exact Nat.lt_irrefl _ hlt
  have hold : ∀ kind, ∀ id ∈ (o.composites kind).listed,
      (o.addComposite c).arena.composite id = o.arena.composite id := by
    intro kind id hid
    rw [arena_addComposite, Arena.composite_pushComposite, if_neg (hnew kind id hid)]
  have hlast : (o.addComposite c).arena.composite o.arena.nextComposite = c := by
    rw [arena_addComposite, Arena.composite_pushComposite, if_pos rfl]
  have hcount : (o.addComposite c).arena.composites.length = o.arena.composites.length + 1 := by
    rw [arena_addComposite]
    exact List.length_append
  refine ⟨fun kind => ?_, fun kind id hid => ?_, ?_, ?_, ?_, ?_, ?_⟩
  · have hcongr := (h.composites kind).congr fun id hid => congrArg Composite.tag (hold kind id hid).symm
    rw [composites_addComposite]
    by_cases hk : kind = c.kind
    · rw [if_pos hk]
      exact hcongr.add (fun hmem => hnew kind _ hmem rfl) (congrArg Composite.tag hlast)
    · rw [if_neg hk]
      exact hcongr
  · have hcases : id ∈ (o.composites kind).listed ∨ kind = c.kind ∧ id = o.arena.nextComposite := by
      rw [composites_addComposite] at hid
      by_cases hk : kind = c.kind
      · rw [if_pos hk] at hid
        simpa [Catalog.add, hk] using hid
      · rw [if_neg hk] at hid
        exact .inl hid
    obtain hmem | ⟨hk, rfl⟩ := hcases
    · obtain ⟨hlt, hkind⟩ := h.composite_mem kind id hmem
      rw [hold kind id hmem, hcount]
      exact ⟨by omega, hkind⟩
    · rw [hlast, hcount]
      exact ⟨Nat.lt_succ_self _, hk.symm⟩
  · simpa using h.enums
  · simpa [Arena.pushComposite] using h.enum_mem
  · simpa using h.typedefs
  · simpa [Arena.pushComposite] using h.typedef_mem
  · simpa [Arena.pushComposite] using h.null_mem

theorem Indexed.addEnum (h : o.Indexed) (e : Enumeration) : (o.addEnum e).Indexed := by
  have hnew : ∀ id ∈ o.enums.listed, id ≠ o.arena.nextEnum := by
    intro id hid heq
    have hlt := h.enum_mem id hid
    rw [heq] at hlt
    exact Nat.lt_irrefl _ hlt
  have hentry := Arena.enumeration_pushEnum o.arena e
  refine ⟨fun kind => ?_, fun kind => ?_, ?_, ?_, h.typedefs, h.typedef_mem, h.null_mem⟩
  · rw [composites_addEnum]
    exact h.composites kind
  · rw [composites_addEnum]
    exact h.composite_mem kind
  · refine Catalog.Indexes.add (h.enums.congr fun id hid => ?_) (fun hmem => hnew _ hmem rfl) ?_
    · show (o.arena.enumeration id).tag = ((o.arena.pushEnum e).enumeration id).tag
      rw [hentry, if_neg (hnew id hid)]
    · show ((o.arena.pushEnum e).enumeration o.arena.nextEnum).tag = e.tag
      rw [hentry, if_pos rfl]
  · intro id hid
    show id.index < (o.arena.enums ++ [e]).length
    rw [List.length_append]
    obtain hid | hid := List.mem_append.mp hid
    · exact Nat.lt_succ_of_lt (h.enum_mem id hid)
    · rw [List.mem_singleton.mp hid]
      exact Nat.lt_succ_self _

theorem Indexed.addTypedef (h : o.Indexed) (v : Variable) : (o.addTypedef v).Indexed := by
  have hnew : ∀ id : TypedefId, id.index < o.arena.typedefs.length → id ≠ o.arena.nextTypedef := by
    intro id hlt heq
    rw [heq] at hlt
    exact Nat.lt_irrefl _ hlt
  have hentry := Arena.typedef_pushTypedef o.arena v
  have hcount : (o.addTypedef v).arena.typedefs.length = o.arena.typedefs.length + 1 := List.length_append
  refine ⟨fun kind => ?_, fun kind => ?_, h.enums, h.enum_mem, ?_, ?_, ?_⟩
  · rw [composites_addTypedef]
    exact h.composites kind
  · rw [composites_addTypedef]
    exact h.composite_mem kind
  · refine Catalog.Indexes.add (h.typedefs.congr fun id hid => ?_) (fun hmem => ?_) ?_
    · show (o.arena.typedef id).name = ((o.arena.pushTypedef v).typedef id).name
      rw [hentry, if_neg (hnew id (h.typedef_mem id hid).1)]
    · exact hnew _ (h.typedef_mem _ hmem).1 rfl
    · show ((o.arena.pushTypedef v).typedef o.arena.nextTypedef).name = v.name
      rw [hentry, if_pos rfl]
  · intro id hid
    rw [hcount]
    obtain hid | hid := List.mem_append.mp hid
    · obtain ⟨hlt, hne⟩ := h.typedef_mem id hid
      exact ⟨by omega, hne⟩
    · rw [List.mem_singleton.mp hid]
      exact ⟨Nat.lt_succ_self _, fun hn => hnew _ (h.null_mem _ hn) rfl⟩
  · intro id hid
    rw [hcount]
    exact Nat.lt_succ_of_lt (h.null_mem id hid)

theorem composites_withNull (o : Overlay) (kind : CompositeKind) :
    o.withNull.composites kind = o.composites kind := by
  cases kind <;> rfl

theorem Indexed.withNull (h : o.Indexed) : o.withNull.Indexed := by
  have hcount : o.withNull.arena.typedefs.length = o.arena.typedefs.length + 1 := List.length_append
  refine ⟨fun kind => ?_, fun kind => ?_, h.enums, h.enum_mem, ?_, ?_, ?_⟩
  · rw [composites_withNull]
    exact h.composites kind
  · rw [composites_withNull]
    exact h.composite_mem kind
  · refine h.typedefs.congr fun id hid => ?_
    show (o.arena.typedef id).name = ((o.arena.pushTypedef boolTypedef).typedef id).name
    rw [Arena.typedef_pushTypedef, if_neg]
    rintro rfl
    exact Nat.lt_irrefl _ (h.typedef_mem _ hid).1
  · -- the new typedef is in the arena but not in the list
    intro id hid
    have hlt := (h.typedef_mem id hid).1
    rw [hcount]
    refine ⟨by omega, fun hn => ?_⟩
    cases hn
    exact Nat.lt_irrefl _ hlt
  · intro id hid
    rw [hcount]
    cases hid
    exact Nat.lt_succ_self _

/-! ## What an edit does to the lists -/

theorem Edit.heads_cases (h : o.Edit o') :
    SameHeads o o' ∨
      (∃ c, c.tag.Plain ∧ SameHeads (o.addComposite c) o') ∨
      (∃ e, e.tag.Plain ∧ SameHeads (o.addEnum e) o') ∨
      (o.nullTypedef = none ∧ SameHeads o.withNull o') ∨
      ∃ v, SameHeads (o.addTypedef v) o' := by
  have hrefl : ∀ o : Overlay, SameHeads o o := fun o => sameHeads_of_eq rfl (fun _ => rfl) rfl rfl rfl
  have hplain : ∀ name, (Tag.ofName name).Plain := fun name => Tag.plain_ofIdentifier (Text.identifier name)
  cases h with
  | newComposite kind name size =>
    exact .inr (.inl ⟨{ kind, tag := .ofName name, size }, hplain name, hrefl _⟩)
  | newEnum name => exact .inr (.inr (.inl ⟨{ tag := .ofName name }, hplain name, hrefl _⟩))
  | newNull h => exact .inr (.inr (.inr (.inl ⟨h, hrefl _⟩)))
  | use id byPointer =>
    refine .inl (sameHeads_modifyComposite (fun c => ?_) fun c => ?_) <;> cases byPointer <;> rfl
  | fill hf hs => exact .inl (sameHeads_modifyComposite (fun _ => rfl) fun _ => rfl)
  | global h => exact .inl (sameHeads_addGlobal _)
  | typedef h => exact .inr (.inr (.inr (.inr ⟨_, hrefl _⟩)))
  | newAlias h hnew => exact .inr (.inr (.inr (.inr ⟨_, sameHeads_addAlias _ _⟩)))
  | field id h => exact .inl (sameHeads_modifyComposite (fun _ => rfl) fun _ => rfl)
  | member id value name => exact .inl (sameHeads_modifyEnum fun _ => rfl)
  | addScoped f opened h => exact .inl (by cases opened <;> exact sameHeads_modifyFunc f _)
  | _ => exact .inl (sameHeads_of_eq rfl (fun kind => by cases kind <;> rfl) rfl rfl rfl)

theorem Edit.indexed (h : o.Edit o') (ho : o.Indexed) : o'.Indexed := by
  obtain hs | ⟨c, _, hs⟩ | ⟨e, _, hs⟩ | ⟨_, hs⟩ | ⟨v, hs⟩ := h.heads_cases
  · exact ho.of_sameHeads hs
  · exact (ho.addComposite c).of_sameHeads hs
  · exact (ho.addEnum e).of_sameHeads hs
  · exact ho.withNull.of_sameHeads hs
  · exact (ho.addTypedef v).of_sameHeads hs

/-! ## Handles in stored types -/

theorem Lists.of_sameHeads {t : CType} (ht : o.Lists t) (hs : SameHeads o o') : o'.Lists t :=
  ht.mono (fun kind => by rw [hs.composites kind]; exact fun _ h => h)
    (by rw [hs.enums]; exact fun _ h => h) (by rw [hs.typedefs]; exact fun _ h => h)
    fun id hid => hs.null.trans hid

theorem Lists.addComposite {t : CType} (ht : o.Lists t) (c : Composite) : (o.addComposite c).Lists t := by
  refine ht.mono (fun k i hi => ?_) (by simp) (by simp) (by simp)
  rw [composites_addComposite]
  by_cases hk : k = c.kind
  · rw [if_pos hk]
    exact List.mem_append_left _ hi
  · rw [if_neg hk]
    exact hi

theorem Lists.addEnum {t : CType} (ht : o.Lists t) (e : Enumeration) : (o.addEnum e).Lists t :=
  ht.mono (by simp) (fun _ h => List.mem_append_left _ h) (fun _ h => h) fun _ h => h

theorem Lists.addTypedef {t : CType} (ht : o.Lists t) (v : Variable) : (o.addTypedef v).Lists t :=
  ht.mono (by simp) (fun _ h => h) (fun _ h => List.mem_append_left _ h) fun _ h => h

theorem Lists.withNull {t : CType} (ht : o.Lists t) (hn : o.nullTypedef = none) : o.withNull.Lists t := by
  refine ht.mono (by simp [composites_withNull]) (fun _ h => h) (fun _ h => h) fun id hid => ?_
  rw [hn] at hid
  cases hid

theorem Edit.lists (h : o.Edit o') {t : CType} (ht : o.Lists t) : o'.Lists t := by
  obtain hs | ⟨c, _, hs⟩ | ⟨e, _, hs⟩ | ⟨hn, hs⟩ | ⟨v, hs⟩ := h.heads_cases
  · exact ht.of_sameHeads hs
  · exact (ht.addComposite c).of_sameHeads hs
  · exact (ht.addEnum e).of_sameHeads hs
  · exact (ht.withNull hn).of_sameHeads hs
  · exact (ht.addTypedef v).of_sameHeads hs

theorem Refers.lists {d : SymbolDef} {t : CType} (h : o.Refers d t) (ho : o.Indexed) :
    ∀ h ∈ t.handles, o.Lists h := by
  obtain ⟨base, hb, rfl⟩ := h
  rw [CType.handles_derive]
  cases hb with
  | scalar hb => exact fun _ h => nomatch h
  | null hb hid => simpa [CType.handles] using (show o.Lists (.typedef _) from .inr hid)
  | enum hb hid => simpa [CType.handles] using (show o.Lists (.enum _) from ho.enums.mem_listed hid)
  | @composite kind id size hb hs hid hsize huse =>
    simpa [CType.handles] using (show o.Lists (.composite kind id) from (ho.composites kind).mem_listed hid)

theorem Fresh.lists {t : CType} {z : Option UInt32} (h : o.Fresh t z) (ho : o.Indexed) :
    ∀ h ∈ t.handles, o.Lists h := by
  cases h with
  | declared h => exact h.refers.lists ho
  | field h => exact h.refers.lists ho
  | result h ht =>
    intro t hmem
    refine h.refers.lists ho t ?_
    rw [ht]
    exact List.mem_append_left _ hmem
  | null => exact fun _ h => nomatch h
  | placeholder => exact fun _ h => nomatch h

theorem Edit.handlesListed (h : o.Edit o') (ho : o.Indexed) (hl : o.HandlesListed) : o'.HandlesListed := by
  intro t z hs
  obtain hold | hnew := h.stores_cases hs
  · exact fun i hi => h.lists (hl t z hold i hi)
  · exact fun i hi => h.lists (hnew.lists ho i hi)

end Overlay

end DebugSymbols
