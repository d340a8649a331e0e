import DebugSymbols.Build.TopLevel

/-!
# Places of overlays

What an overlay is called, where it lies and the lines that its addresses come
from decide nothing about what is built in it: each action does the same, and
reports the same, in two overlays that differ in nothing else.
-/

namespace DebugSymbols

/-- The overlay without its place and its lines. -/
def Overlay.unplaced (o : Overlay) : Overlay :=
  { o with id := 0, addr := 0, length := 0, lines := [] }

namespace Action

variable {ε ε' α β : Type}

/-- From overlays that differ in their places it comes to the same result and to
overlays that differ in their places. -/
def Unplaced (m : Action ε Overlay α) : Prop :=
  ∀ o o', o.unplaced = o'.unplaced →
    (m o).result = (m o').result ∧ (m o).state.unplaced = (m o').state.unplaced

namespace Unplaced

theorem pure (a : α) : Unplaced (pure a : Action ε Overlay α) := fun _ _ h => ⟨rfl, h⟩

theorem fail (e : ε) : Unplaced (fail e : Action ε Overlay α) := fun _ _ h => ⟨rfl, h⟩

theorem report (e : Event) : Unplaced (report e : Action ε Overlay Unit) := fun _ _ h => ⟨rfl, h⟩

theorem ofExcept (x : Except ε α) : Unplaced (ofExcept x) := by
  cases x <;> exact fun _ _ h => ⟨rfl, h⟩

theorem modify {f : Overlay → Overlay} (h : ∀ o, (f o).unplaced = (f o.unplaced).unplaced) :
    Unplaced (modify f : Action ε Overlay Unit) := by
  intro o o' heq
  refine ⟨rfl, ?_⟩
  show (f o).unplaced = (f o').unplaced
  rw [h o, h o', heq]

theorem bind {m : Action ε Overlay α} {f : α → Action ε Overlay β} (hm : Unplaced m) (hf : ∀ a, Unplaced (f a)) :
    Unplaced (m >>= f) := by
  intro o o' h
  obtain ⟨hresult, hstate⟩ := hm o o' h
  rw [bind_run, bind_run]
  rcases hmo : m o with ⟨e | a, s, es⟩ <;> rcases hmo' : m o' with ⟨e' | a', s', es'⟩ <;>
    rw [hmo, hmo'] at hresult hstate <;> cases hresult
  · exact ⟨rfl, hstate⟩
  · exact hf a s s' hstate

theorem read_bind {f : Overlay → Action ε Overlay α} (h : ∀ o, Unplaced (f o)) (hf : ∀ o, f o.unplaced = f o) :
    Unplaced (read >>= f) := by
  intro o o' heq
  have hsame : f o = f o' := by rw [← hf o, ← hf o', heq]
  show (f o o).result = (f o' o').result ∧ (f o o).state.unplaced = (f o' o').state.unplaced
  rw [← hsame]
  exact h o o o' heq

theorem mapError {m : Action ε Overlay α} (hm : Unplaced m) (g : ε → ε') : Unplaced (m.mapError g) := fun o o' h =>
  ⟨congrArg (Except.mapError g) (hm o o' h).1, (hm o o' h).2⟩

theorem overRecords {f : β → Record → Action Complaint Overlay β} (h : ∀ b r, Unplaced (f b r)) (rs : List Record) :
    ∀ index b, Unplaced (overRecords f index b rs) := by
  induction rs with
  | nil => exact fun _ b => .pure b
  | cons r rs ih => exact fun index b => .bind (.mapError (h b r) _) fun b' => ih (index + 1) b'

end Unplaced

end Action

namespace Overlay

open DebugSymbols.Action (Unplaced)

variable {ε : Type}

/-! ## Finding types -/

theorem unplaced_addComposite (o : Overlay) (c : Composite) :
    (o.addComposite c).unplaced = (o.unplaced.addComposite c).unplaced := by
  unfold addComposite
  cases c.kind <;> rfl

theorem unplaced_newComposite (c : Composite) : Unplaced (newComposite (ε := ε) c) :=
  .read_bind (fun _ => .bind (.modify fun o => unplaced_addComposite o c) fun _ => .pure _) fun _ => rfl

theorem unplaced_newEnum (e : Enumeration) : Unplaced (newEnum (ε := ε) e) :=
  .read_bind (fun _ => .bind (.modify fun _ => rfl) fun _ => .pure _) fun _ => rfl

theorem unplaced_findComposite (kind : CompositeKind) (tag : Tag) (size : UInt32) :
    Unplaced (findComposite kind tag size) := by
  refine .read_bind (fun o => ?_) fun _ => rfl
  split
  · exact .bind (.report _) fun _ => unplaced_newComposite _
  · split
    · exact .pure _
    · exact .fail _

theorem unplaced_referComposite (kind : CompositeKind) (d : SymbolDef) : Unplaced (referComposite kind d) :=
  .bind (.ofExcept _) fun _ => .bind (unplaced_findComposite kind _ _) fun _ =>
    .bind (.modify fun _ => rfl) fun _ => .pure _

theorem unplaced_referEnum (tag : Tag) : Unplaced (referEnum (ε := ε) tag) := by
  refine .read_bind (fun o => ?_) fun _ => rfl
  split
  · exact .pure _
  · exact .bind (.report _) fun _ => .bind (unplaced_newEnum _) fun _ => .pure _

theorem unplaced_referNull : Unplaced (referNull (ε := ε)) := by
  refine .read_bind (fun o => ?_) fun _ => rfl
  split
  · exact .pure _
  · exact .bind (.modify fun _ => rfl) fun _ => .pure _

theorem unplaced_referBase (d : SymbolDef) : Unplaced (referBase d) := by
  unfold referBase
  split
  · exact unplaced_referNull
  · exact unplaced_referComposite .struct d
  · exact unplaced_referComposite .union d
  · exact unplaced_referEnum _
  · split
    · exact .pure _
    · exact .fail _

theorem unplaced_refer (d : SymbolDef) : Unplaced (refer d) :=
  .bind (unplaced_referBase d) fun _ => .pure _

theorem unplaced_openComposite (kind : CompositeKind) (tag : Tag) (size : UInt32) :
    Unplaced (openComposite (ε := ε) kind tag size) := by
  refine .read_bind (fun o => ?_) fun _ => rfl
  dsimp only
  split
  · exact .bind (.modify fun _ => rfl) fun _ => .pure _
  · exact unplaced_newComposite _

theorem unplaced_openEnum (tag : Tag) : Unplaced (openEnum (ε := ε) tag) := by
  refine .read_bind (fun o => ?_) fun _ => rfl
  dsimp only
  split
  · exact .pure _
  · exact unplaced_newEnum _

/-! ## Declarations -/

theorem unplaced_checkSize (t : CType) (size : UInt32) (name : String) : Unplaced (checkSize t size name) := by
  refine .read_bind (fun o => ?_) fun _ => rfl
  split
  · split
    · exact .pure _
    · exact .fail _
  · exact .pure _

theorem unplaced_declare (addr : UInt32) (storage : Option StorageClass) (d : SymbolDef) :
    Unplaced (declare addr storage d) :=
  .bind (unplaced_refer d) fun _ => .bind (unplaced_checkSize _ _ _) fun _ => .pure _

theorem unplaced_addGlobal (o : Overlay) (v : Variable) :
    (o.addGlobal v).unplaced = (o.unplaced.addGlobal v).unplaced := by
  unfold addGlobal
  cases v.type <;> rfl

theorem unplaced_global (addr : UInt32) (storage : StorageClass) (d : SymbolDef) :
    Unplaced (global addr storage d) :=
  .bind (unplaced_declare addr _ d) fun v => .modify fun o => unplaced_addGlobal o v

theorem unplaced_addAlias (o : Overlay) (new : TypedefId) (target : CType) :
    (o.addAlias new target).unplaced = (o.unplaced.addAlias new target).unplaced := by
  cases target <;> rfl

theorem unplaced_typedef (addr : UInt32) (d : SymbolDef) : Unplaced (typedef addr d) := by
  refine .bind (unplaced_declare addr _ d) fun v => .read_bind (fun o => ?_) fun o => ?_
  · dsimp only
    split
    · refine .modify fun o => ?_
      split
      · exact unplaced_addAlias _ _ _
      · rfl
    · exact .fail _
  · have haliases : ∀ t, o.unplaced.aliases? t = o.aliases? t := fun t => by cases t <;> rfl
    simp only [haliases]
    rfl

/-! ## Members -/

theorem unplaced_addField (id : CompositeId) (offset : UInt32) (bitfield : Bool) (d : SymbolDef) :
    Unplaced (addField id offset bitfield d) := by
  refine .bind (unplaced_refer d) fun t => ?_
  dsimp only
  cases bitfield with
  | true => exact .modify fun _ => rfl
  | false => exact .bind (unplaced_checkSize _ _ _) fun _ => .modify fun _ => rfl

theorem unplaced_compositeMember (kind : CompositeKind) (tag : Tag) (id : CompositeId) (r : Record) :
    Unplaced (compositeMember kind tag id r) := by
  unfold compositeMember
  split
  · split
    · exact unplaced_addField id _ _ _
    · exact .fail _
  · exact .fail _

theorem unplaced_enumMember (tag : Tag) (id : EnumId) (r : Record) : Unplaced (enumMember tag id r) := by
  unfold enumMember
  dsimp only
  split
  · split
    · exact .modify fun _ => rfl
    · exact .fail _
  · exact .fail _

theorem unplaced_members (head : Record) (enclosing : Enclosing) (tag : Tag)
    {member : Record → Action Complaint Overlay Unit} (h : ∀ r, Unplaced (member r)) (rest : List Record) :
    Unplaced (members head enclosing tag member rest) := by
  refine .bind (.overRecords (fun _ => h) _ 1 ()) fun _ => ?_
  split
  · exact .pure _
  · exact .mapError (.fail _) _

theorem unplaced_checkTagBase (d : SymbolDef) (enclosing : Enclosing) (base : BaseCode) :
    Unplaced (checkTagBase d enclosing base) := by
  unfold checkTagBase
  split
  · exact .pure _
  · exact .fail _

theorem unplaced_compositeRun (kind : CompositeKind) (head : Record) (d : SymbolDef) (rest : List Record) :
    Unplaced (compositeRun kind head d rest) :=
  .bind (.mapError (unplaced_checkTagBase _ _ _) _) fun _ => .bind (unplaced_openComposite kind _ _) fun id =>
    unplaced_members head _ _ (unplaced_compositeMember kind _ id) rest

theorem unplaced_enumRun (head : Record) (d : SymbolDef) (rest : List Record) : Unplaced (enumRun head d rest) :=
  .bind (.mapError (unplaced_checkTagBase _ _ _) _) fun _ => .bind (unplaced_openEnum _) fun id =>
    unplaced_members head _ _ (unplaced_enumMember _ id) rest

/-! ## Function bodies -/

theorem unplaced_locateFunction (name : String) (addr : UInt32) :
    Unplaced (locateFunction (ε := ε) name addr) := by
  refine .read_bind (fun o => ?_) fun _ => rfl
  split
  · exact .pure _
  · exact .bind (.report _) fun _ => .bind (.modify fun _ => rfl) fun _ => .pure _

theorem unplaced_localDecl (addr : UInt32) (d : SymbolDef) : Unplaced (localDecl addr d) := by
  unfold localDecl
  split
  · exact unplaced_declare addr _ d
  · exact .fail _

theorem unplaced_bodyRecord (f : Nat) (start : FunctionStart) (opened : List Nat) (r : Record) :
    Unplaced (bodyRecord f start opened r) := by
  unfold bodyRecord
  split
  · exact .read_bind (fun o => .bind (.modify fun _ => rfl) fun _ => .pure _) fun _ => rfl
  · split
    · exact .fail _
    · exact .bind (.modify fun _ => rfl) fun _ => .pure _
  · refine .bind (unplaced_localDecl _ _) fun v => .bind (.modify fun o => ?_) fun _ => .pure _
    cases opened <;> rfl
  · exact .fail _

theorem unplaced_recordBody (f : Nat) (start : FunctionStart) (addr : UInt32) (inner : List Record)
    (line : Option UInt32) : Unplaced (recordBody f start addr inner line) := by
  refine .bind (.modify fun _ => rfl) fun _ => .bind (.overRecords (unplaced_bodyRecord f start) inner 1 []) fun _ => ?_
  split
  · exact .modify fun _ => rfl
  · exact .pure _

theorem unplaced_functionSpan (head : Record) (start : FunctionStart) (rest : List Record) :
    Unplaced (functionSpan head start rest) := by
  refine .bind (unplaced_locateFunction _ _) fun f => .read_bind (fun o => ?_) fun _ => rfl
  have hend : Unplaced
      (if (rest.findSome? Record.functionEnd?).isSome then
        (return (rest.takeWhile (!·.endsFunction)).length + 1)
      else (Action.fail { name := start.name, cause := .unterminated .function }).locate head 0) := by
    split
    · exact .pure _
    · exact .mapError (.fail _) _
  dsimp only
  split
  · exact .bind (.report _) fun _ => hend
  · exact .bind (unplaced_recordBody f start _ _ _) fun _ => hend

/-! ## Top level -/

theorem unplaced_single {m : Action Complaint Overlay Unit} (h : Unplaced m) (head : Record) :
    Unplaced (do m.locate head 0; return 0 : Action Inconsistency Overlay Nat) :=
  .bind (.mapError h _) fun _ => .pure _

theorem unplaced_definition (head : Record) (d : SymbolDef) (rest : List Record) :
    Unplaced (definition head d rest) := by
  unfold definition
  dsimp only
  split
  · exact unplaced_single (unplaced_global _ _ d) head
  · exact unplaced_single (unplaced_global _ _ d) head
  · exact unplaced_compositeRun .struct head d rest
  · exact unplaced_compositeRun .union head d rest
  · exact unplaced_enumRun head d rest
  · exact unplaced_single (unplaced_typedef _ d) head
  · exact unplaced_single (.report _) head
  all_goals exact .mapError (.fail _) _

end Overlay

end DebugSymbols
