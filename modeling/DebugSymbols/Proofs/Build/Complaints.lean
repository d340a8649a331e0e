import DebugSymbols.Build.Builder
import DebugSymbols.Proofs.Build.Actions

/-!
# Complaints

What an action says when it fails. Only the end of a list of records is
complained of as a run or span that does not end; all that is done for one
record complains of that record.
-/

namespace DebugSymbols

def Complaint.unclosed? (c : Complaint) : Option Enclosing :=
  match c.cause with
  | .unterminated enclosing => some enclosing
  | _ => none

namespace Action

variable {ε σ τ α β : Type}

def FailsWith (P : ε → Prop) (m : Action ε σ α) : Prop :=
  ∀ s e, (m s).result = .error e → P e

namespace FailsWith

variable {P : ε → Prop}

theorem pure (a : α) : FailsWith P (pure a : Action ε σ α) := fun _ _ h => nomatch h

theorem read : FailsWith P (read : Action ε σ σ) := fun _ _ h => nomatch h

theorem modify (f : σ → σ) : FailsWith P (modify f : Action ε σ Unit) := fun _ _ h => nomatch h

theorem report (e : Event) : FailsWith P (report e : Action ε σ Unit) := fun _ _ h => nomatch h

theorem fail {e : ε} (h : P e) : FailsWith P (fail e : Action ε σ α) := by
  intro _ _ he
  cases he
  exact h

theorem ofExcept {x : Except ε α} (h : ∀ e, x = .error e → P e) : FailsWith P (ofExcept x : Action ε σ α) := by
  intro _ e he
  cases x with
  | ok a => exact nomatch he
  | error e' =>
    cases he
    exact h e rfl

theorem bind {m : Action ε σ α} {f : α → Action ε σ β} (hm : FailsWith P m) (hf : ∀ a, FailsWith P (f a)) :
    FailsWith P (m >>= f) := by
  intro s e h
  cases hms : (m s).result with
  | error e' =>
    rw [bind_run_of_error hms] at h
    cases h
    exact hm s e hms
  | ok a =>
    rw [bind_run_of_ok hms] at h
    exact hf a _ e h

theorem onPart {m : Action ε σ α} (h : FailsWith P m) (get : τ → σ) (set : σ → τ → τ) :
    FailsWith P (m.onPart get set) := fun t e he => h (get t) e he

theorem locate {P : Complaint → Prop} {m : Action Complaint σ α} (h : FailsWith P m) (r : Record) (index : Nat) :
    FailsWith (fun e => e.index = index ∧ e.offset = r.offset ∧ P e.complaint) (m.locate r index) := by
  intro s e he
  change (m s).result.mapError (fun c => c.located r index) = .error e at he
  cases hm : (m s).result with
  | ok a =>
    rw [hm] at he
    exact nomatch he
  | error c =>
    rw [hm] at he
    cases he
    exact ⟨rfl, rfl, h s c hm⟩

end FailsWith

end Action

namespace Overlay

open DebugSymbols.Action (FailsWith)

/-! ## What never fails -/

section
variable {ε : Type} {P : ε → Prop}

theorem failsWith_newComposite (c : Composite) : FailsWith P (newComposite c) :=
  .bind .read fun _ => .bind (.modify _) fun _ => .pure _

theorem failsWith_newEnum (e : Enumeration) : FailsWith P (newEnum e) :=
  .bind .read fun _ => .bind (.modify _) fun _ => .pure _

theorem failsWith_referEnum (tag : Tag) : FailsWith P (referEnum tag) := by
  refine .bind .read fun o => ?_
  split
  · exact .pure _
  · exact .bind (.report _) fun _ => .bind (failsWith_newEnum _) fun _ => .pure _

theorem failsWith_referNull : FailsWith P referNull := by
  refine .bind .read fun o => ?_
  split
  · exact .pure _
  · exact .bind (.modify _) fun _ => .pure _

theorem failsWith_openComposite (kind : CompositeKind) (tag : Tag) (size : UInt32) :
    FailsWith P (openComposite kind tag size) := by
  refine .bind .read fun o => ?_
  dsimp only
  split
  · exact .bind (.modify _) fun _ => .pure _
  · exact failsWith_newComposite _

theorem failsWith_openEnum (tag : Tag) : FailsWith P (openEnum tag) := by
  refine .bind .read fun o => ?_
  dsimp only
  split
  · exact .pure _
  · exact failsWith_newEnum _

theorem failsWith_locateFunction (name : String) (addr : UInt32) : FailsWith P (locateFunction name addr) := by
  refine .bind .read fun o => ?_
  split
  · exact .pure _
  · exact .bind (.report _) fun _ => .bind (.modify _) fun _ => .pure _

end

/-! ## What is done for one record -/

abbrev OfOneRecord {σ α : Type} (m : Action Complaint σ α) : Prop :=
  FailsWith (fun c => c.unclosed? = none) m

theorem unclosed_referencedSize {d : SymbolDef} {c : Complaint} (h : d.referencedSize = .error c) :
    c.unclosed? = none := by
  unfold SymbolDef.referencedSize at h
  dsimp only at h
  split at h
  · exact nomatch h
  · split at h
    · exact nomatch h
    · split at h
      · cases h
        rfl
      · split at h
        · exact nomatch h
        · cases h
          rfl

theorem ofOneRecord_findComposite (kind : CompositeKind) (tag : Tag) (size : UInt32) :
    OfOneRecord (findComposite kind tag size) := by
  refine .bind .read fun o => ?_
  split
  · exact .bind (.report _) fun _ => failsWith_newComposite _
  · split
    · exact .pure _
    · exact .fail rfl

theorem ofOneRecord_referComposite (kind : CompositeKind) (d : SymbolDef) : OfOneRecord (referComposite kind d) :=
  .bind (.ofExcept fun _ h => unclosed_referencedSize h) fun _ => .bind (ofOneRecord_findComposite kind _ _) fun _ =>
    .bind (.modify _) fun _ => .pure _

theorem ofOneRecord_refer (d : SymbolDef) : OfOneRecord (refer d) := by
  refine .bind ?_ fun _ => .pure _
  unfold referBase
  split
  · exact failsWith_referNull
  · exact ofOneRecord_referComposite .struct d
  · exact ofOneRecord_referComposite .union d
  · exact failsWith_referEnum _
  · split
    · exact .pure _
    · exact .fail rfl

theorem ofOneRecord_checkSize (t : CType) (size : UInt32) (name : String) : OfOneRecord (checkSize t size name) := by
  refine .bind .read fun o => ?_
  split
  · split
    · exact .pure _
    · exact .fail rfl
  · exact .pure _

theorem ofOneRecord_declare (addr : UInt32) (storage : Option StorageClass) (d : SymbolDef) :
    OfOneRecord (declare addr storage d) :=
  .bind (ofOneRecord_refer d) fun _ => .bind (ofOneRecord_checkSize _ _ _) fun _ => .pure _

theorem ofOneRecord_global (addr : UInt32) (storage : StorageClass) (d : SymbolDef) :
    OfOneRecord (global addr storage d) :=
  .bind (ofOneRecord_declare addr _ d) fun _ => .modify _

theorem ofOneRecord_typedef (addr : UInt32) (d : SymbolDef) : OfOneRecord (typedef addr d) := by
  refine .bind (ofOneRecord_declare addr _ d) fun v => .bind .read fun o => ?_
  dsimp only
  split
  · exact .modify _
  · exact .fail rfl

theorem ofOneRecord_addField (id : CompositeId) (offset : UInt32) (bitfield : Bool) (d : SymbolDef) :
    OfOneRecord (addField id offset bitfield d) := by
  refine .bind (ofOneRecord_refer d) fun t => ?_
  dsimp only
  cases bitfield with
  | true => exact .modify _
  | false => exact .bind (ofOneRecord_checkSize _ _ _) fun _ => .modify _

theorem ofOneRecord_compositeMember (kind : CompositeKind) (tag : Tag) (id : CompositeId) (r : Record) :
    OfOneRecord (compositeMember kind tag id r) := by
  unfold compositeMember
  split
  · split
    · exact ofOneRecord_addField _ _ _ _
    · exact .fail rfl
  · exact .fail rfl

theorem ofOneRecord_enumMember (tag : Tag) (id : EnumId) (r : Record) : OfOneRecord (enumMember tag id r) := by
  unfold enumMember
  dsimp only
  split
  · split
    · exact .modify _
    · exact .fail rfl
  · exact .fail rfl

theorem ofOneRecord_checkTagBase (d : SymbolDef) (enclosing : Enclosing) (base : BaseCode) :
    OfOneRecord (checkTagBase d enclosing base) := by
  unfold checkTagBase
  split
  · exact .pure _
  · exact .fail rfl

theorem ofOneRecord_bodyRecord (f : Nat) (start : FunctionStart) (opened : List Nat) (r : Record) :
    OfOneRecord (bodyRecord f start opened r) := by
  unfold bodyRecord
  split
  · exact .bind .read fun _ => .bind (.modify _) fun _ => .pure _
  · cases opened with
    | nil => exact .fail rfl
    | cons block outer => exact .bind (.modify _) fun _ => .pure _
  · refine .bind ?_ fun _ => .bind (.modify _) fun _ => .pure _
    unfold localDecl
    split
    · exact ofOneRecord_declare _ _ _
    · exact .fail rfl
  · exact .fail rfl

end Overlay

namespace Builder

open DebugSymbols.Overlay (OfOneRecord)

theorem ofOneRecord_lineRecord (r : Record) : OfOneRecord (lineRecord r) := by
  unfold lineRecord
  split
  · exact .modify _
  · refine .bind .read fun b => ?_
    split
    · exact .modify _
    · exact .fail rfl
  · exact .pure _

theorem ofOneRecord_addOverlay (addr length id : UInt32) : OfOneRecord (addOverlay addr length id) := by
  refine .bind .read fun b => ?_
  split
  · exact .fail rfl
  · exact .modify _

theorem ofOneRecord_switchOverlay (id : UInt32) : OfOneRecord (switchOverlay id) := by
  refine .bind .read fun b => ?_
  split
  · exact .bind (.modify _) fun _ => .report _
  · exact .fail rfl

end Builder

end DebugSymbols
