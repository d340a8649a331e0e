import DebugSymbols.Proofs.Build.Edits
import DebugSymbols.Proofs.Build.Runs
import DebugSymbols.Proofs.Model.Entries
import DebugSymbols.Proofs.Model.Grouping

/-!
# Building takes only edits

Each action on an overlay leads from state to state by edits, also where it
fails, and one that is about types alone by edits of types. On success it has
found what it looked for: `leads_refer` says what the type of a definition refers
to, `leads_declare` what is known of a declaration.
-/

namespace DebugSymbols.Overlay

open DebugSymbols.Action (Leads)

variable {ε α : Type} {P : Overlay → Prop}

theorem edits_of_types {m : Action ε Overlay α} {Q : α → Overlay → Prop} (h : Leads TypeEdit P m Q) :
    Leads Edit P m Q :=
  h.mono fun _ _ h => h.edit

/-! ## Finding types -/

theorem leads_newComposite (kind : CompositeKind) (name : String) (size : UInt32) :
    Leads TypeEdit P (newComposite (ε := ε) { kind, tag := .ofName name, size }) fun id o =>
      id ∈ (o.composites kind).groups.get (.ofName name) ∧ (o.arena.composite id).size = size := by
  refine .read_bind fun o _ =>
    .bind (Q := fun _ o' => o' = o.addComposite { kind, tag := .ofName name, size }) ?_ fun _ => ?_
  · refine .modify_step ?_ ?_ <;> rintro _ rfl
    · cases kind <;> exact (Edit.newComposite _ name size).ofTypes rfl rfl rfl
    · rfl
  · refine .pure ?_
    rintro _ rfl
    rw [composites_addComposite, if_pos rfl, arena_addComposite, Arena.composite_pushComposite, if_pos rfl]
    exact ⟨Groups.mem_get_add_self _ _ _, rfl⟩

theorem leads_newEnum (name : String) :
    Leads TypeEdit P (newEnum (ε := ε) { tag := .ofName name }) fun id o =>
      id ∈ o.enums.groups.get (.ofName name) := by
  refine .read_bind fun o _ => .bind (Q := fun _ o' => o' = o.addEnum { tag := .ofName name }) ?_ fun _ => ?_
  · refine .modify_step ?_ ?_ <;> rintro _ rfl
    · exact (Edit.newEnum name).ofTypes rfl rfl rfl
    · rfl
  · refine .pure ?_
    rintro _ rfl
    exact Groups.mem_get_add_self _ _ _

theorem sized?_spec {o : Overlay} {kind : CompositeKind} {tag : Tag} {size : UInt32} {id : CompositeId}
    (h : o.sized? kind tag size = some id) :
    id ∈ (o.composites kind).groups.get tag ∧ (size = 0 ∨ (o.arena.composite id).size = size) := by
  unfold sized? at h
  refine ⟨List.mem_reverse.mp (List.mem_of_find?_eq_some h), ?_⟩
  have := List.find?_some h
  simpa using this

theorem leads_findComposite (kind : CompositeKind) (name : String) (size : UInt32) :
    Leads TypeEdit P (findComposite kind (.ofName name) size) fun id o =>
      id ∈ (o.composites kind).groups.get (.ofName name) ∧
        (size = 0 ∨ (o.arena.composite id).size = size) := by
  refine .read_bind fun o _ => ?_
  split
  · refine .bind .report fun _ => ?_
    exact (leads_newComposite kind name size).weaken (fun _ h => h) fun _ _ h => ⟨h.1, .inr h.2⟩
  · split
    · rename_i h
      refine .pure ?_
      rintro _ rfl
      exact sized?_spec h
    · exact .fail

theorem used_used (c : Composite) (b : Bool) : (c.used b).used b = c.used b := by
  cases b <;> rfl

theorem leads_referComposite (kind : CompositeKind) {d : SymbolDef} (hb : d.word.base = kind.baseCode) :
    Leads TypeEdit P (referComposite kind d) fun t o => o.RefersBase d t := by
  refine .bind .ofExcept fun size => .of_fact fun hs => .bind (leads_findComposite kind d.tag size) fun id => ?_
  dsimp only
  refine .bind (Q := fun _ o => o.RefersBase d (.composite kind id))
    (.modify_step (fun o _ => (Edit.use id _).ofTypes rfl rfl rfl) ?_) fun _ => .pure fun _ h => h
  rintro o ⟨hid, hsize⟩
  refine .composite hb hs ?_ ?_ ?_
  · simpa using hid
  · show size = 0 ∨ ((o.arena.modifyComposite id _).composite id).size = size
    rw [Arena.composite_modifyComposite_congr _ Composite.size]
    · exact hsize
    · intro c; cases reachesByPointer d.word.modifiers <;> rfl
  · -- the use has just been marked
    intro hlt
    have hlt : id.index < o.arena.composites.length := by
      simpa [modifyArena] using hlt
    show Composite.used ((o.arena.modifyComposite id _).composite id) _ =
      (o.arena.modifyComposite id _).composite id
    rw [Arena.composite_modifyComposite, if_pos ⟨rfl, hlt⟩, used_used]

theorem leads_referEnum {d : SymbolDef} (hb : d.word.base = .enum) :
    Leads TypeEdit P (referEnum (ε := ε) (.ofName d.tag)) fun t o => o.RefersBase d t := by
  refine .read_bind fun o _ => ?_
  split
  · rename_i id h
    refine .pure ?_
    rintro _ rfl
    exact .enum hb (List.mem_of_getLast? h)
  · refine .bind .report fun _ => .bind (leads_newEnum d.tag) fun id => .pure fun o h => .enum hb h

theorem leads_referNull {d : SymbolDef} (hb : d.word.base = .null) :
    Leads TypeEdit P (referNull (ε := ε)) fun t o => o.RefersBase d t := by
  refine .read_bind fun o _ => ?_
  split
  · rename_i id h
    refine .pure ?_
    rintro _ rfl
    exact .null hb h
  · rename_i h
    refine .bind (Q := fun _ o' => o' = o.withNull) ?_ fun _ => ?_
    · refine .modify_step ?_ ?_ <;> rintro _ rfl
      · exact (Edit.newNull h).ofTypes rfl rfl rfl
      · rfl
    · refine .pure ?_
      rintro _ rfl
      exact .null hb rfl

theorem leads_referBase (d : SymbolDef) : Leads TypeEdit P (referBase d) fun t o => o.RefersBase d t := by
  unfold referBase
  split
  · rename_i h; exact leads_referNull h
  · rename_i h; exact leads_referComposite .struct h
  · rename_i h; exact leads_referComposite .union h
  · rename_i h; exact leads_referEnum h
  · split
    · rename_i h; exact .pure fun o _ => .scalar h
    · exact .fail

theorem leads_refer (d : SymbolDef) : Leads TypeEdit P (refer d) fun t o => o.Refers d t :=
  .bind (leads_referBase d) fun _ => .pure fun _ h => ⟨_, h, rfl⟩

/-! ## Filling in -/

theorem leads_openComposite (kind : CompositeKind) (name : String) (size : UInt32) :
    Leads TypeEdit P (openComposite (ε := ε) kind (.ofName name) size) fun _ _ => True := by
  refine .read_bind fun o _ => ?_
  dsimp only
  split
  · rename_i id h
    have hid := List.find?_some h
    simp only [Bool.and_eq_true, List.isEmpty_iff, Bool.or_eq_true, beq_iff_eq] at hid
    refine .bind (Q := fun _ _ => True) (.modify_step ?_ fun _ _ => trivial) fun _ => .pure fun _ h => h
    rintro _ rfl
    exact (Edit.fill hid.1 hid.2).ofTypes rfl rfl rfl
  · exact (leads_newComposite kind name size).weaken (fun _ h => h) fun _ _ _ => trivial

theorem leads_openEnum (name : String) :
    Leads TypeEdit P (openEnum (ε := ε) (.ofName name)) fun _ _ => True := by
  refine .read_bind fun o _ => ?_
  dsimp only
  split
  · exact .pure fun _ _ => trivial
  · exact (leads_newEnum name).weaken (fun _ h => h) fun _ _ _ => trivial

/-! ## Declarations -/

theorem leads_checkSize (t : CType) (size : UInt32) (name : String) :
    Leads TypeEdit P (checkSize t size name) fun _ o => P o ∧ o.SizeChecked t size := by
  refine .read_bind fun o ho => ?_
  split
  · rename_i c hc
    split
    · rename_i h
      refine .pure ?_
      rintro _ rfl
      refine ⟨ho, fun c' hc' => ?_⟩
      rw [hc] at hc'
      cases hc'
      exact h
    · exact .fail
  · rename_i hc
    refine .pure ?_
    rintro _ rfl
    exact ⟨ho, fun c' hc' => by rw [hc] at hc'; cases hc'⟩

theorem leads_declare (addr : UInt32) (storage : Option StorageClass) (d : SymbolDef) :
    Leads TypeEdit P (declare addr storage d) fun v o => o.Declared d v :=
  .bind (leads_refer d) fun _ => .bind (leads_checkSize _ _ _) fun _ => .pure fun _ h =>
    ⟨h.1, rfl, h.2, rfl⟩

theorem leads_typedef (addr : UInt32) (d : SymbolDef) :
    Leads TypeEdit P (typedef addr d) fun _ _ => True := by
  refine .bind (leads_declare addr _ d) fun v => .read_bind fun o hv => ?_
  dsimp only
  split
  · rename_i hall
    simp only [List.all_eq_true, List.mem_filter, beq_iff_eq, and_imp] at hall
    refine .modify_step ?_ fun _ _ => trivial
    rintro _ rfl
    split
    · rename_i hnone
      simp only [List.isEmpty_iff, List.filter_eq_nil_iff, beq_iff_eq] at hnone
      refine (Edit.newAlias hv hnone).ofTypes ?_ ?_ ?_ <;> cases aliasTarget v.type <;> rfl
    · rename_i hsome
      simp only [List.isEmpty_iff, List.filter_eq_nil_iff, beq_iff_eq, Classical.not_forall,
        Classical.not_not] at hsome
      obtain ⟨id, hid, hname⟩ := hsome
      exact (Edit.typedef hv ⟨id, hid, hname⟩ hall).ofTypes rfl rfl rfl
  · exact .fail

/-! ## Members -/

theorem leads_addField (id : CompositeId) (offset : UInt32) (bitfield : Bool) (d : SymbolDef) :
    Leads TypeEdit P (addField id offset bitfield d) fun _ _ => True := by
  refine .bind (leads_refer d) fun t => ?_
  dsimp only
  cases bitfield with
  | true =>
    refine .modify_step (fun o ht => ?_) fun _ _ => trivial
    exact Edit.ofTypes (.field (d := d) id ⟨ht, (nomatch ·), (nomatch ·), rfl⟩) rfl rfl rfl
  | false =>
    refine .bind (leads_checkSize _ _ _) fun _ => .modify_step (fun o ht => ?_) fun _ _ => trivial
    exact Edit.ofTypes (.field (d := d) id ⟨ht.1, fun _ => rfl, fun _ => ht.2, rfl⟩) rfl rfl rfl

theorem leads_compositeMember (kind : CompositeKind) (tag : Tag) (id : CompositeId) (r : Record) :
    Leads TypeEdit P (compositeMember kind tag id r) fun _ _ => True := by
  unfold compositeMember
  split
  · split
    · exact leads_addField id _ _ _
    · exact .fail
  · exact .fail

theorem leads_enumMember (tag : Tag) (id : EnumId) (r : Record) :
    Leads TypeEdit P (enumMember tag id r) fun _ _ => True := by
  unfold enumMember
  dsimp only
  split
  · split
    · exact .modify_step (fun _ _ => (Edit.member id _ _).ofTypes rfl rfl rfl) fun _ _ => trivial
    · exact .fail
  · exact .fail

theorem leads_members (head : Record) (enclosing : Enclosing) (tag : Tag)
    {member : Record → Action Complaint Overlay Unit}
    (h : ∀ r, Leads TypeEdit (fun _ => True) (member r) fun _ _ => True) (rest : List Record) :
    Leads TypeEdit P (members head enclosing tag member rest) fun _ _ => True := by
  refine .bind (Q := fun _ _ => True) ?_ fun _ => ?_
  · exact (Leads.overRecords (J := fun _ _ => True) (fun _ r => h r) _ 1 ()).weaken
      (fun _ _ => trivial) fun _ _ h => h
  · split
    · exact .pure fun _ h => h
    · exact .locate .fail

theorem leads_checkTagBase (d : SymbolDef) (enclosing : Enclosing) (base : BaseCode) :
    Leads TypeEdit P (checkTagBase d enclosing base) fun _ _ => True := by
  unfold checkTagBase
  split
  · exact .pure fun _ _ => trivial
  · exact .fail

theorem leads_compositeRun (kind : CompositeKind) (head : Record) (d : SymbolDef) (rest : List Record) :
    Leads TypeEdit P (compositeRun kind head d rest) fun _ _ => True :=
  .bind (.locate (leads_checkTagBase _ _ _)) fun _ => .bind (leads_openComposite kind d.name _) fun id =>
    leads_members head _ _ (leads_compositeMember kind _ id) rest

theorem leads_enumRun (head : Record) (d : SymbolDef) (rest : List Record) :
    Leads TypeEdit P (enumRun head d rest) fun _ _ => True :=
  .bind (.locate (leads_checkTagBase _ _ _)) fun _ => .bind (leads_openEnum d.name) fun id =>
    leads_members head _ _ (leads_enumMember _ id) rest

/-! ## Function bodies -/

theorem leads_locateFunction (name : String) (addr : UInt32) :
    Leads Edit P (locateFunction (ε := ε) (Text.identifier name) addr) fun _ _ => True := by
  refine .read_bind fun o _ => ?_
  split
  · exact .pure fun _ _ => trivial
  · refine .bind .report fun _ => .bind (Q := fun _ _ => True) ?_ fun _ => .pure fun _ h => h
    exact .modify_step (fun _ _ => .placeholder name addr) fun _ _ => trivial

theorem leads_localDecl (addr : UInt32) (d : SymbolDef) :
    Leads TypeEdit P (localDecl addr d) fun v o => o.Declared d v := by
  unfold localDecl
  split
  · exact leads_declare addr _ d
  · exact .fail

theorem leads_bodyRecord (f : Nat) (start : FunctionStart) (opened : List Nat) (r : Record) :
    Leads Edit P (bodyRecord f start opened r) fun _ _ => True := by
  unfold bodyRecord
  split
  · refine .read_bind fun o _ => .bind (Q := fun _ _ => True) ?_ fun _ => .pure fun _ h => h
    exact .modify_step (fun _ _ => .openBlock f start _ _ _) fun _ _ => trivial
  · split
    · exact .fail
    · refine .bind (Q := fun _ _ => True) ?_ fun _ => .pure fun _ h => h
      exact .modify_step (fun _ _ => .closeBlock f start _ _ _) fun _ _ => trivial
  · refine .bind (edits_of_types (leads_localDecl _ _)) fun v => ?_
    refine .bind (Q := fun _ _ => True) ?_ fun _ => .pure fun _ h => h
    exact .modify_step (fun _ h => .addScoped f opened h) fun _ _ => trivial
  · exact .fail

theorem leads_recordBody (f : Nat) (start : FunctionStart) (addr : UInt32) (inner : List Record)
    (line : Option UInt32) : Leads Edit P (recordBody f start addr inner line) fun _ _ => True := by
  refine .bind (Q := fun _ _ => True) ?_ fun _ => .bind (Q := fun _ _ => True) ?_ fun _ => ?_
  · exact .modify_step (fun _ _ => .startBody f start addr) fun _ _ => trivial
  · exact Leads.overRecords (J := fun _ _ => True) (fun b r => leads_bodyRecord f start b r) inner 1 []
  · split
    · exact .modify_step (fun _ _ => .endBody f _) fun _ _ => trivial
    · exact .pure fun _ h => h

theorem leads_functionSpan (head : Record) (start : FunctionStart) (rest : List Record) :
    Leads Edit P (functionSpan head start rest) fun _ _ => True := by
  refine .bind (leads_locateFunction start.name head.value) fun f => .read_bind fun o _ => ?_
  dsimp only
  have hend : Leads Edit (fun _ => True)
      (if (rest.findSome? Record.functionEnd?).isSome then
        (return (rest.takeWhile (!·.endsFunction)).length + 1)
      else (Action.fail { name := start.name, cause := .unterminated .function }).locate head 0)
      fun _ _ => True := by
    split
    · exact .pure fun _ h => h
    · exact .locate .fail
  split
  · exact .bind (Leads.report.weaken (fun _ h => h) fun _ _ _ => trivial) fun _ => hend
  · exact .bind (leads_recordBody f start _ _ _) fun _ => hend

/-! ## Top level -/

theorem leads_global (addr : UInt32) (storage : StorageClass) (d : SymbolDef) :
    Leads Edit P (global addr storage d) fun _ _ => True :=
  .bind (edits_of_types (leads_declare addr storage d)) fun _ =>
    .modify_step (fun _ h => .global h) fun _ _ => trivial

theorem leads_single {m : Action Complaint Overlay Unit} (h : Leads Edit P m fun _ _ => True)
    (head : Record) :
    Leads Edit P (do m.locate head 0; return 0 : Action Inconsistency Overlay Nat) fun _ _ => True :=
  .bind (.locate h) fun _ => .pure fun _ h => h

theorem leads_definition (head : Record) (d : SymbolDef) (rest : List Record) :
    Leads Edit P (definition head d rest) fun _ _ => True := by
  unfold definition
  dsimp only
  split
  · exact leads_single (leads_global _ _ d) head
  · exact leads_single (leads_global _ _ d) head
  · exact edits_of_types (leads_compositeRun .struct head d rest)
  · exact edits_of_types (leads_compositeRun .union head d rest)
  · exact edits_of_types (leads_enumRun head d rest)
  · exact leads_single (edits_of_types (leads_typedef _ d)) head
  · exact leads_single (Leads.report.weaken (fun _ h => h) fun _ _ _ => trivial) head
  all_goals exact .locate .fail

end DebugSymbols.Overlay
