import DebugSymbols.Proofs.Build.Actions
import DebugSymbols.Proofs.Build.Edits
import DebugSymbols.Proofs.Model.Entries

/-!
# Lookups

The definitions whose types a record and its run look up, in order, each with
the overlay as it was then. From one lookup to the next no struct, union or enum
is added, and only the one that the run fills in gets fields or members.
-/

namespace DebugSymbols

structure Lookup where
  overlay : Overlay
  record : Record
  d : SymbolDef

namespace Lookup

def outcome (l : Lookup) : Outcome Complaint Overlay CType :=
  Overlay.refer l.d l.overlay

def after (l : Lookup) : Overlay :=
  l.outcome.state

def RefersTo (l : Lookup) (kind : CompositeKind) (tag : Tag) : Prop :=
  l.d.word.base = kind.baseCode ∧ Tag.ofName l.d.tag = tag

instance (l : Lookup) (kind : CompositeKind) (tag : Tag) : Decidable (l.RefersTo kind tag) :=
  inferInstanceAs (Decidable (_ ∧ _))

end Lookup

def Action.observe {ε σ α β : Type} (m : Action ε σ α) (f : α → σ → List β) (s : σ) : List β :=
  match (m s).result with
  | .ok a => f a (m s).state
  | .error _ => []

def Record.lookups (looked : SymbolClass → Bool) (r : Record) (o : Overlay) : List Lookup :=
  match r.body with
  | .definition _ d => if looked d.symbolClass then [⟨o, r, d⟩] else []
  | _ => []

section
variable {looked : SymbolClass → Bool} {r : Record} {form : Form} {d : SymbolDef}

theorem Record.lookups_of_looked (hr : r.body = .definition form d) (hd : looked d.symbolClass = true) :
    r.lookups looked = fun o => [⟨o, r, d⟩] := by
  funext o
  unfold lookups
  rw [hr]
  exact if_pos hd

theorem Record.lookups_eq_nil (h : ∀ form d, r.body = .definition form d → looked d.symbolClass = false) :
    r.lookups looked = fun _ => [] := by
  funext o
  unfold lookups
  split
  · rename_i form d hbody
    exact if_neg (Bool.eq_false_iff.mp (h form d hbody))
  · rfl

end

namespace Overlay

variable {β : Type}

def lookupsAlong (looked : SymbolClass → Bool) (f : β → Record → Action Complaint Overlay β) :
    β → List Record → Overlay → List Lookup
  | _, [], _ => []
  | b, r :: rs, o => r.lookups looked o ++ (f b r).observe (fun b o => lookupsAlong looked f b rs o) o

def memberLookups (kind : CompositeKind) (tag : Tag) (id : CompositeId) (inner : List Record) :
    Overlay → List Lookup :=
  lookupsAlong (fun c => (kind.bitfield? c).isSome) (fun _ => compositeMember kind tag id) () inner

def compositeLookups (kind : CompositeKind) (d : SymbolDef) (rest : List Record) (o : Overlay) : List Lookup :=
  let opened : Action Inconsistency Overlay CompositeId := openComposite kind (.ofName d.name) d.size
  if d.word.base = kind.baseCode then
    opened.observe (fun id => memberLookups kind (.ofName d.name) id (rest.takeWhile (!·.endsMembers))) o
  else []

def bodyLookups (f : Nat) (start : FunctionStart) (addr : UInt32) (inner : List Record) (o : Overlay) : List Lookup :=
  lookupsAlong (·.local?.isSome) (bodyRecord f start) [] inner (startBody f start addr o)

def spanLookups (head : Record) (start : FunctionStart) (rest : List Record) : Overlay → List Lookup :=
  let located : Action Inconsistency Overlay Nat := locateFunction (Text.identifier start.name) head.value
  located.observe fun f o =>
    if (o.func f).hasBody then [] else bodyLookups f start head.value (rest.takeWhile (!·.endsFunction)) o

def definitionLookups (head : Record) (d : SymbolDef) (rest : List Record) (o : Overlay) : List Lookup :=
  match d.symbolClass with
  | .external | .static | .typedef => [⟨o, head, d⟩]
  | .structTag => compositeLookups .struct d rest o
  | .unionTag => compositeLookups .union d rest o
  | _ => []

def lookups (head : Record) (rest : List Record) (o : Overlay) : List Lookup :=
  match head.body with
  | .functionStart start => spanLookups head start rest o
  | .definition _ d => definitionLookups head d rest o
  | _ => []

end Overlay

/-! ## From lookup to lookup -/

structure Filling where
  composite : Option CompositeId := none
  enum : Option EnumId := none

def Composite.head (c : Composite) : CompositeKind × Tag × UInt32 :=
  (c.kind, c.tag, c.size)

namespace Overlay

/-- No struct, union or enum is new or has changed, but for what is filled in. -/
structure Quiet (w : Filling) (o o' : Overlay) : Prop where
  composites : ∀ kind, o'.composites kind = o.composites kind
  enums : o'.enums = o.enums
  heads : o'.arena.composites.map Composite.head = o.arena.composites.map Composite.head
  tags : o'.arena.enums.map Enumeration.tag = o.arena.enums.map Enumeration.tag
  fields : ∀ id, w.composite ≠ some id → (o'.arena.composite id).fields = (o.arena.composite id).fields
  members : ∀ id, w.enum ≠ some id → (o'.arena.enumeration id).members = (o.arena.enumeration id).members

/-- The lookups on the way, with nothing but quiet changes between them. -/
inductive Trace (w : Filling) : Overlay → List Lookup → Overlay → Prop
  | quiet {o o' : Overlay} (h : Quiet w o o') : Trace w o [] o'
  | look {o o' : Overlay} {l : Lookup} {ls : List Lookup} (h : Quiet w o l.overlay) (hl : Trace w l.after ls o') :
      Trace w o (l :: ls) o'

variable {w : Filling} {o o' o'' : Overlay}

theorem Quiet.refl (o : Overlay) : Quiet w o o := by
  constructor <;> first | rfl | exact fun _ => rfl | exact fun _ _ => rfl

theorem Quiet.trans (h : Quiet w o o') (h' : Quiet w o' o'') : Quiet w o o'' where
  composites kind := (h'.composites kind).trans (h.composites kind)
  enums := h'.enums.trans h.enums
  heads := h'.heads.trans h.heads
  tags := h'.tags.trans h.tags
  fields id hid := (h'.fields id hid).trans (h.fields id hid)
  members id hid := (h'.members id hid).trans (h.members id hid)

theorem Quiet.trace {ls : List Lookup} (h : Quiet w o o') (ht : Trace w o' ls o'') : Trace w o ls o'' := by
  cases ht with
  | quiet h' => exact .quiet (h.trans h')
  | look h' hl => exact .look (h.trans h') hl

theorem Trace.append {ls ls' : List Lookup} (h : Trace w o ls o') (h' : Trace w o' ls' o'') :
    Trace w o (ls ++ ls') o'' := by
  induction h with
  | quiet h => exact h.trace h'
  | look h _ ih => exact .look h (ih h')

theorem Trace.split {ls : List Lookup} (h : Trace w o ls o') {l : Lookup} (hl : l ∈ ls) :
    ∃ front back, ls = front ++ l :: back ∧ Trace w o front l.overlay ∧ Trace w l.after back o' := by
  induction h with
  | quiet h => exact nomatch hl
  | @look o o' q ls h ht ih =>
    obtain rfl | hl := List.mem_cons.mp hl
    · exact ⟨[], ls, rfl, .quiet h, ht⟩
    · obtain ⟨front, back, rfl, hfront, hback⟩ := ih hl
      exact ⟨q :: front, back, rfl, .look h hfront, hback⟩

/-! ### Quiet changes -/

theorem quiet_of_eq (hs : o'.structs = o.structs) (hu : o'.unions = o.unions) (he : o'.enums = o.enums)
    (hc : o'.arena.composites = o.arena.composites) (hm : o'.arena.enums = o.arena.enums) : Quiet w o o' where
  composites kind := by cases kind <;> assumption
  enums := he
  heads := by rw [hc]
  tags := by rw [hm]
  fields id _ := by
    unfold Arena.composite
    rw [hc]
  members id _ := by
    unfold Arena.enumeration
    rw [hm]

theorem quiet_modifyComposite {id : CompositeId} {f : Composite → Composite} (hhead : ∀ c, (f c).head = c.head)
    (hfields : w.composite = some id ∨ ∀ c, (f c).fields = c.fields) :
    Quiet w o (o.modifyArena (·.modifyComposite id f)) where
  composites := composites_modifyArena _ _
  enums := rfl
  heads := Arena.map_modify_of_same hhead
  tags := rfl
  fields j hj := by
    show ((o.arena.modifyComposite id f).composite j).fields = _
    rw [Arena.composite_modifyComposite]
    split
    · rename_i h
      exact hfields.resolve_left (h.1 ▸ hj) _
    · rfl
  members _ _ := rfl

theorem quiet_modifyEnum {id : EnumId} {f : Enumeration → Enumeration} (htag : ∀ e, (f e).tag = e.tag)
    (hmembers : w.enum = some id ∨ ∀ e, (f e).members = e.members) :
    Quiet w o (o.modifyArena (·.modifyEnum id f)) where
  composites := composites_modifyArena _ _
  enums := rfl
  heads := rfl
  tags := Arena.map_modify_of_same htag
  fields _ _ := rfl
  members j hj := by
    show ((o.arena.modifyEnum id f).enumeration j).members = _
    rw [Arena.enumeration_modifyEnum]
    split
    · rename_i h
      exact hmembers.resolve_left (h.1 ▸ hj) _
    · rfl

theorem quiet_addGlobal (v : Variable) : Quiet w o (o.addGlobal v) := by
  unfold addGlobal
  split <;> exact quiet_of_eq rfl rfl rfl rfl rfl

theorem quiet_addAlias (new : TypedefId) (target : CType) : Quiet w o (o.addAlias new target) := by
  cases target with
  | composite k id =>
    exact quiet_modifyComposite (f := fun c => { c with aliases := c.aliases ++ [new] }) (fun _ => rfl)
      (.inr fun _ => rfl)
  | enum id =>
    exact quiet_modifyEnum (f := fun e => { e with aliases := e.aliases ++ [new] }) (fun _ => rfl) (.inr fun _ => rfl)
  | _ => exact .refl o

end Overlay

/-! ## Actions -/

namespace Action

open Overlay (Quiet Trace)

variable {ε ε' α β : Type} {w : Filling}

def Traces (w : Filling) (m : Action ε Overlay α) (ls : Overlay → List Lookup) : Prop :=
  ∀ o, Trace w o (ls o) (m o).state ∧ ∀ a, (m o).result = .ok a → ∀ l ∈ ls o, ∃ t, l.outcome.result = .ok t

theorem observe_of_ok {σ : Type} {m : Action ε σ α} {f : α → σ → List β} {s : σ} {a : α} (h : (m s).result = .ok a) :
    m.observe f s = f a (m s).state := by
  unfold observe
  rw [h]

theorem observe_mapError {σ : Type} (g : ε → ε') (m : Action ε σ α) (f : α → σ → List β) :
    (m.mapError g).observe f = m.observe f := by
  funext s
  unfold observe
  rw [mapError_run]
  cases (m s).result <;> rfl

theorem observe_nil {σ : Type} (m : Action ε σ α) : (m.observe fun _ _ => ([] : List β)) = fun _ => [] := by
  funext s
  unfold observe
  split <;> rfl

namespace Traces

variable {ls : Overlay → List Lookup}

theorem of_quiet {m : Action ε Overlay α} (h : ∀ o, Quiet w o (m o).state) : Traces w m fun _ => [] := fun o =>
  ⟨.quiet (h o), fun _ _ _ hl => nomatch hl⟩

theorem pure (a : α) : Traces w (pure a : Action ε Overlay α) fun _ => [] :=
  .of_quiet fun o => .refl o

theorem fail (e : ε) : Traces w (fail e : Action ε Overlay α) fun _ => [] :=
  .of_quiet fun o => .refl o

theorem report (e : Event) : Traces w (report e : Action ε Overlay Unit) fun _ => [] :=
  .of_quiet fun o => .refl o

theorem modify {f : Overlay → Overlay} (h : ∀ o, Quiet w o (f o)) :
    Traces w (modify f : Action ε Overlay Unit) fun _ => [] :=
  .of_quiet h

theorem bind {m : Action ε Overlay α} {f : α → Action ε Overlay β} {fs : α → Overlay → List Lookup}
    (hm : Traces w m ls) (hf : ∀ a, Traces w (f a) (fs a)) :
    Traces w (m >>= f) fun o => ls o ++ m.observe fs o := by
  intro o
  obtain ⟨htrace, hfound⟩ := hm o
  show Trace w o (ls o ++ m.observe fs o) _ ∧ ∀ b, _ → ∀ l ∈ ls o ++ m.observe fs o, _
  unfold observe
  rw [bind_run]
  rcases hmo : m o with ⟨e | a, s, es⟩ <;> rw [hmo] at htrace hfound
  · rw [List.append_nil]
    exact ⟨htrace, fun _ h => nomatch h⟩
  · obtain ⟨htrace', hfound'⟩ := hf a s
    refine ⟨htrace.append htrace', fun b hb l hl => ?_⟩
    obtain hl | hl := List.mem_append.mp hl
    · exact hfound a rfl l hl
    · exact hfound' b hb l hl

theorem bind_quiet {m : Action ε Overlay α} {f : α → Action ε Overlay β} (hm : Traces w m ls)
    (hf : ∀ a, Traces w (f a) fun _ => []) : Traces w (m >>= f) ls := by
  have h := hm.bind hf
  rw [observe_nil] at h
  simpa only [List.append_nil] using h

theorem quiet_bind {m : Action ε Overlay α} {f : α → Action ε Overlay β} {fs : α → Overlay → List Lookup}
    (hm : Traces w m fun _ => []) (hf : ∀ a, Traces w (f a) (fs a)) : Traces w (m >>= f) (m.observe fs) := by
  have h := hm.bind hf
  simpa only [List.nil_append] using h

theorem read_bind {f : Overlay → Action ε Overlay α} {fs : Overlay → Overlay → List Lookup}
    (h : ∀ o, Traces w (f o) (fs o)) : Traces w (read >>= f) fun o => fs o o := fun o =>
  h o o

theorem read_quiet {f : Overlay → Action ε Overlay α} (h : ∀ o, Traces w (f o) fun _ => []) :
    Traces w (read >>= f) fun _ => [] :=
  .read_bind h

theorem mapError {m : Action ε Overlay α} (hm : Traces w m ls) (g : ε → ε') : Traces w (m.mapError g) ls := fun o =>
  ⟨(hm o).1, fun a ha => (hm o).2 a (ok_of_mapError ha)⟩

theorem overRecords_quiet {f : β → Record → Action Complaint Overlay β} (h : ∀ b r, Traces w (f b r) fun _ => [])
    (rs : List Record) : ∀ index b, Traces w (overRecords f index b rs) fun _ => [] := by
  induction rs with
  | nil => exact fun _ b => .pure b
  | cons r rs ih => exact fun index b => .bind_quiet ((h b r).mapError _) fun b' => ih (index + 1) b'

theorem overRecords {looked : SymbolClass → Bool} {f : β → Record → Action Complaint Overlay β}
    (h : ∀ b r, Traces w (f b r) (r.lookups looked)) (rs : List Record) :
    ∀ index b, Traces w (overRecords f index b rs) (Overlay.lookupsAlong looked f b rs) := by
  induction rs with
  | nil => exact fun _ b => .pure b
  | cons r rs ih =>
    intro index b
    have hrest := ((h b r).mapError (·.located r index)).bind fun b' => ih (index + 1) b'
    rw [observe_mapError] at hrest
    exact hrest

end Traces

end Action

namespace Overlay

open DebugSymbols.Action (Traces)

variable {w : Filling}

/-! ### Declarations -/

theorem traces_refer (r : Record) (d : SymbolDef) : Traces w (refer d) fun o => [⟨o, r, d⟩] := fun o =>
  ⟨.look (.refl o) (.quiet (.refl _)), fun t ht l hl => by
    rw [List.mem_singleton.mp hl]
    exact ⟨t, ht⟩⟩

theorem traces_checkSize (t : CType) (size : UInt32) (name : String) :
    Traces w (checkSize t size name) fun _ => [] := by
  refine .read_quiet fun o => ?_
  split
  · split
    · exact .pure _
    · exact .fail _
  · exact .pure _

theorem traces_declare (r : Record) (storage : Option StorageClass) (d : SymbolDef) :
    Traces w (declare r.value storage d) fun o => [⟨o, r, d⟩] :=
  .bind_quiet (traces_refer r d) fun _ => .bind_quiet (traces_checkSize _ _ _) fun _ => .pure _

theorem traces_global (r : Record) (storage : StorageClass) (d : SymbolDef) :
    Traces w (global r.value storage d) fun o => [⟨o, r, d⟩] :=
  .bind_quiet (traces_declare r _ d) fun v => .modify fun _ => quiet_addGlobal v

theorem traces_typedef (r : Record) (d : SymbolDef) : Traces w (typedef r.value d) fun o => [⟨o, r, d⟩] := by
  refine .bind_quiet (traces_declare r _ d) fun v => .read_quiet fun o => ?_
  dsimp only
  split
  · refine .modify fun o => ?_
    have hadded : Quiet w o (o.addTypedef v) := quiet_of_eq rfl rfl rfl rfl rfl
    split
    · exact hadded.trans (quiet_addAlias _ _)
    · exact hadded
  · exact .fail _

/-! ### Members -/

theorem traces_addField {id : CompositeId} (hw : w.composite = some id) (r : Record) (bitfield : Bool)
    (d : SymbolDef) : Traces w (addField id r.value bitfield d) fun o => [⟨o, r, d⟩] := by
  have hadd : ∀ x, Traces w (ε := Complaint) (Action.modify (·.withField id x)) fun _ => [] := fun x =>
    .modify fun o => quiet_modifyComposite (f := fun c => { c with fields := c.fields ++ [x] }) (fun _ => rfl) (.inl hw)
  refine .bind_quiet (traces_refer r d) fun t => ?_
  dsimp only
  split
  · exact .bind_quiet (traces_checkSize _ _ _) fun _ => hadd _
  · exact .bind_quiet (.pure _) fun _ => hadd _

theorem compositeMember_eq (kind : CompositeKind) (tag : Tag) (id : CompositeId) (r : Record) :
    (∃ form d bitfield, r.body = .definition form d ∧ kind.bitfield? d.symbolClass = some bitfield ∧
      compositeMember kind tag id r = addField id r.value bitfield d) ∨
      (∀ form d, r.body = .definition form d → kind.bitfield? d.symbolClass = none) ∧
        ∃ e, compositeMember kind tag id r = Action.fail e := by
  unfold compositeMember
  cases hbody : r.body with
  | definition form d =>
    cases hbit : kind.bitfield? d.symbolClass with
    | some bitfield => exact .inl ⟨form, d, bitfield, rfl, hbit, by simp only [hbit]⟩
    | none =>
      refine .inr ⟨?_, _, by simp only [hbit]; rfl⟩
      rintro _ _ ⟨⟩
      exact hbit
  | _ => exact .inr ⟨(fun _ _ h => nomatch h), _, rfl⟩

theorem traces_compositeMember (kind : CompositeKind) (tag : Tag) {id : CompositeId} (hw : w.composite = some id)
    (r : Record) :
    Traces w (compositeMember kind tag id r) (r.lookups fun c => (kind.bitfield? c).isSome) := by
  obtain ⟨form, d, bitfield, hbody, hbit, heq⟩ | ⟨hnot, e, heq⟩ := compositeMember_eq kind tag id r
  · rw [heq, Record.lookups_of_looked hbody (by rw [hbit]; rfl)]
    exact traces_addField hw r bitfield d
  · rw [heq, Record.lookups_eq_nil fun form d hbody => by rw [hnot form d hbody]; rfl]
    exact .fail e

theorem traces_members (head : Record) (enclosing : Enclosing) (tag : Tag)
    {member : Record → Action Complaint Overlay Unit} (rest : List Record) {ls : Overlay → List Lookup}
    (h : Traces w (Action.overRecords (fun _ => member) 1 () (rest.takeWhile (!·.endsMembers))) ls) :
    Traces w (members head enclosing tag member rest) ls := by
  refine .bind_quiet h fun _ => ?_
  split
  · exact .pure _
  · exact .mapError (.fail _) _

theorem traces_enumMember (tag : Tag) {id : EnumId} (hw : w.enum = some id) (r : Record) :
    Traces w (enumMember tag id r) fun _ => [] := by
  unfold enumMember
  dsimp only
  split
  · split
    · exact .modify fun o => quiet_modifyEnum (fun _ => rfl) (.inl hw)
    · exact .fail _
  · exact .fail _

/-! ### Function bodies -/

theorem traces_locateFunction {ε : Type} (name : String) (addr : UInt32) :
    Traces w (locateFunction (ε := ε) name addr) fun _ => [] := by
  refine .read_quiet fun o => ?_
  split
  · exact .pure _
  · exact .bind_quiet (.report _) fun _ => .bind_quiet (.modify fun _ => quiet_of_eq rfl rfl rfl rfl rfl) fun _ =>
      .pure _

theorem traces_bodyRecord (f : Nat) (start : FunctionStart) (opened : List Nat) (r : Record) :
    Traces w (bodyRecord f start opened r) (r.lookups (·.local?.isSome)) := by
  have hother : (∀ form d, r.body ≠ .definition form d) → r.lookups (·.local?.isSome) = fun _ => [] :=
    fun h => Record.lookups_eq_nil fun form d hbody => absurd hbody (h form d)
  unfold bodyRecord
  split
  · rename_i hbody
    rw [hother fun _ _ h => nomatch hbody.symm.trans h]
    exact .read_quiet fun o => .bind_quiet (.modify fun _ => quiet_of_eq rfl rfl rfl rfl rfl) fun _ => .pure _
  · rename_i hbody
    rw [hother fun _ _ h => nomatch hbody.symm.trans h]
    split
    · exact .fail _
    · exact .bind_quiet (.modify fun _ => quiet_of_eq rfl rfl rfl rfl rfl) fun _ => .pure _
  · rename_i form d hbody
    have hdecl : Traces w (localDecl r.value d) (r.lookups (·.local?.isSome)) := by
      unfold localDecl
      split
      · rename_i storage hlocal
        rw [Record.lookups_of_looked hbody (by rw [hlocal]; rfl)]
        exact traces_declare r storage d
      · rename_i hlocal
        rw [Record.lookups_eq_nil fun form d' h => by cases hbody.symm.trans h; rw [hlocal]; rfl]
        exact .fail _
    refine .bind_quiet hdecl fun v => .bind_quiet (.modify fun o => ?_) fun _ => .pure _
    cases opened <;> exact quiet_of_eq rfl rfl rfl rfl rfl
  · rename_i hbody
    rw [hother hbody]
    exact .fail _

theorem traces_recordBody (f : Nat) (start : FunctionStart) (addr : UInt32) (inner : List Record)
    (line : Option UInt32) : Traces w (recordBody f start addr inner line) (bodyLookups f start addr inner) := by
  have hstart : Traces w (ε := Inconsistency) (Action.modify (startBody f start addr)) fun _ => [] :=
    .modify fun _ => quiet_of_eq rfl rfl rfl rfl rfl
  have hinner : Traces w (Action.overRecords (bodyRecord f start) 1 [] inner) _ :=
    .overRecords (traces_bodyRecord f start) inner 1 []
  cases line with
  | none => exact hstart.quiet_bind fun _ => hinner.bind_quiet fun _ => .pure _
  | some line =>
    have hend : Traces w (ε := Inconsistency) (Action.modify (endBody f line)) fun _ => [] :=
      .modify fun _ => quiet_of_eq rfl rfl rfl rfl rfl
    exact hstart.quiet_bind fun _ => hinner.bind_quiet fun _ => hend

theorem traces_functionSpan (head : Record) (start : FunctionStart) (rest : List Record) :
    Traces w (functionSpan head start rest) (spanLookups head start rest) := by
  have hend : Traces w (ε := Inconsistency)
      (if (rest.findSome? Record.functionEnd?).isSome then
        (return (rest.takeWhile (!·.endsFunction)).length + 1)
      else (Action.fail { name := start.name, cause := .unterminated .function }).locate head 0) fun _ => [] := by
    split
    · exact .pure _
    · exact .mapError (.fail _) _
  unfold functionSpan spanLookups
  refine .quiet_bind (traces_locateFunction _ _) fun f => .read_bind fun o => (?_ : Traces w _ fun o' =>
    if (o.func f).hasBody then [] else bodyLookups f start head.value (rest.takeWhile (!·.endsFunction)) o')
  dsimp only
  split
  · exact .bind_quiet (.report _) fun _ => hend
  · exact .bind_quiet (traces_recordBody f start _ _ _) fun _ => hend

end Overlay

end DebugSymbols
