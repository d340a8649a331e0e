import DebugSymbols.Proofs.Build.Places
import DebugSymbols.Proofs.Build.Walks

/-!
# The content of overlays

A record is content of the current overlay, or a line record, or one about
overlays. Content changes the current overlay and nothing else; the other
records change no overlay but for its place and its lines.
-/

namespace DebugSymbols

/-- Neither a line record nor one about overlays. -/
def Record.isContent (r : Record) : Bool :=
  match r.body with
  | .line _ | .overlay _ _ | .setOverlay => false
  | _ => true

theorem isContent_of_isLine {r : Record} (h : r.isLine = true) : r.isContent = false := by
  unfold Record.isLine at h
  unfold Record.isContent
  split at h
  · rename_i hbody
    rw [hbody]
  · exact nomatch h

theorem isLine_of_isContent {r : Record} (h : r.isContent = true) : r.isLine = false := by
  by_contra hline
  rw [isContent_of_isLine (Bool.not_eq_false _ ▸ hline)] at h
  exact nomatch h

def Overlay.contentStep (head : Record) (rest : List Record) : Action Inconsistency Overlay Nat :=
  match head.body with
  | .symbol _ name => do
    Action.modify (·.addSymbol { addr := head.value, name })
    return 0
  | .functionStart start => functionSpan head start rest
  | .definition _ d => definition head d rest
  | _ => (Action.fail { cause := .functionRecordOutside }).locate head 0

section
variable {head : Record} {start : FunctionStart} (h : head.body = .functionStart start)
include h

theorem isContent_of_start : head.isContent = true := by
  simp [Record.isContent, h]

theorem Overlay.contentStep_of_start (rest : List Record) : contentStep head rest = functionSpan head start rest := by
  simp only [contentStep, h]

end

theorem Overlay.unplaced_contentStep (head : Record) (rest : List Record) :
    Action.Unplaced (contentStep head rest) := by
  unfold contentStep
  split
  · exact .bind (.modify fun _ => rfl) fun _ => .pure _
  · exact unplaced_functionSpan head _ rest
  · exact unplaced_definition head _ rest
  · exact .mapError (.fail _) _

theorem Overlay.leads_contentStep (head : Record) (rest : List Record) :
    Action.Leads Edit (fun _ => True) (contentStep head rest) fun _ _ => True := by
  unfold contentStep
  split
  · exact .bind (.modify_step (fun _ _ => .symbol _) fun _ _ => trivial) fun _ => .pure fun _ h => h
  · exact leads_functionSpan head _ rest
  · exact leads_definition head _ rest
  · exact .locate .fail

namespace Builder

open DebugSymbols.Action (Leads)

def overlayAt (b : Builder) (k : Nat) : Overlay :=
  b.overlays.getD k default

theorem currentOverlay_eq (b : Builder) : b.currentOverlay = b.overlayAt b.current := rfl

theorem overlayAt_setCurrentOverlay (b : Builder) (o : Overlay) (k : Nat) :
    (b.setCurrentOverlay o).overlayAt k = if k = b.current ∧ k < b.overlays.length then o else b.overlayAt k := by
  unfold overlayAt setCurrentOverlay
  rw [List.getD_eq_getElem?_getD, List.getD_eq_getElem?_getD, List.getElem?_set]
  by_cases hk : b.current = k
  · subst hk
    by_cases hlt : b.current < b.overlays.length <;> simp [hlt]
  · simp [hk, Ne.symm hk]

theorem setCurrentOverlay_self (b : Builder) : b.setCurrentOverlay b.currentOverlay = b := by
  by_cases hb : b.current < b.overlays.length
  · simp [currentOverlay, setCurrentOverlay, hb]
  · unfold setCurrentOverlay
    rw [List.set_eq_of_length_le (Nat.le_of_not_lt hb)]

theorem step_of_isContent {head : Record} (h : head.isContent = true) (rest : List Record) :
    step head rest = onCurrent (Overlay.contentStep head rest) := by
  unfold Record.isContent at h
  unfold step Overlay.contentStep
  cases hbody : head.body with
  | line _ | overlay _ _ | setOverlay =>
    rw [hbody] at h
    exact nomatch h
  | symbol _ _ => rfl
  | functionStart _ => rfl
  | definition _ _ => rfl
  | functionEnd _ | blockStart _ | blockEnd _ =>
    funext b
    exact congrArg (Outcome.mk _ · []) b.setCurrentOverlay_self.symm

/-! ## Records that are not content -/

def SameContent (b b' : Builder) : Prop :=
  ∀ k, (b'.overlayAt k).unplaced = (b.overlayAt k).unplaced

theorem SameContent.of_steps {b b' : Builder} (h : Relation.ReflTransGen SameContent b b') : SameContent b b' := by
  induction h with
  | refl => exact fun _ => rfl
  | tail _ h ih => exact fun k => (h k).trans (ih k)

theorem sameContent_mapLine (addr : UInt32) (s : SourceLine) (b : Builder) : SameContent b (mapLine addr s b) := by
  intro k
  show ((b.setCurrentOverlay _).overlayAt k).unplaced = _
  rw [overlayAt_setCurrentOverlay]
  split
  · rename_i hk
    rw [hk.1]
    rfl
  · rfl

theorem overlayAt_appendOverlay (b : Builder) (o : Overlay) (k : Nat) :
    (b.appendOverlay o).overlayAt k =
      if k = b.overlays.length then o else b.overlayAt k := by
  unfold overlayAt appendOverlay
  rw [List.getD_eq_getElem?_getD, List.getD_eq_getElem?_getD]
  by_cases hk : k < b.overlays.length
  · rw [List.getElem?_append_left hk, if_neg (Nat.ne_of_lt hk)]
  · rw [List.getElem?_append_right (Nat.le_of_not_lt hk), List.getElem?_eq_none (Nat.le_of_not_lt hk)]
    by_cases heq : k = b.overlays.length
    · simp [heq]
    · have hpos : k - b.overlays.length ≠ 0 := by omega
      simp [heq, hpos]

theorem overlayAt_of_le {b : Builder} {k : Nat} (h : b.overlays.length ≤ k) : b.overlayAt k = default := by
  simp [overlayAt, List.getD_eq_getElem?_getD, List.getElem?_eq_none h]

theorem sameContent_appendOverlay (b : Builder) (o : Overlay) (ho : o.unplaced = (default : Overlay)) :
    SameContent b (b.appendOverlay o) := by
  intro k
  rw [overlayAt_appendOverlay]
  by_cases hk : k = b.overlays.length
  · rw [if_pos hk, overlayAt_of_le (Nat.le_of_eq hk.symm), ho]
    rfl
  · rw [if_neg hk]

theorem leads_sameContent {head : Record} (h : head.isContent = false) (rest : List Record) :
    Leads SameContent (fun _ => True) (step head rest) fun _ _ => True := by
  have hrecord : ∀ (_ : Unit) r, Leads SameContent (fun _ => True) (lineRecord r) fun _ _ => True := by
    intro _ r
    unfold lineRecord
    split
    · exact .modify_step (fun _ _ _ => rfl) fun _ _ => trivial
    · refine .read_bind fun b _ => ?_
      split
      · exact .modify_step (fun b' _ => sameContent_mapLine _ _ b') fun _ _ => trivial
      · exact .fail
    · exact .pure fun _ _ => trivial
  unfold Record.isContent at h
  unfold step
  cases hbody : head.body with
  | line _ =>
    exact .bind (.overRecords (J := fun _ _ => True) hrecord _ 0 ()) fun _ => .pure fun _ _ => trivial
  | overlay length id =>
    refine .bind (.locate (Q := fun _ _ => True) (.read_bind fun b _ => ?_)) fun _ => .pure fun _ _ => trivial
    split
    · exact .fail
    · exact .modify_step (fun b' _ => sameContent_appendOverlay b' _ rfl) fun _ _ => trivial
  | setOverlay =>
    refine .bind (.locate (Q := fun _ _ => True) (.read_bind fun b _ => ?_)) fun _ => .pure fun _ _ => trivial
    split
    · exact .bind (Q := fun _ _ => True) (.modify_step (fun _ _ _ => rfl) fun _ _ => trivial) fun _ => .report
    · exact .fail
  | _ =>
    rw [hbody] at h
    exact nomatch h

theorem sameContent_step {head : Record} (h : head.isContent = false) (rest : List Record) (b : Builder) :
    SameContent b (step head rest b).state :=
  .of_steps (leads_sameContent h rest b trivial).1

/-! ## Any overlay -/

theorem overlayAt_step {head : Record} (h : head.isContent = true) (rest : List Record) {b : Builder} (hb : b.InRange) :
    (step head rest b).state.overlayAt b.current = (Overlay.contentStep head rest (b.overlayAt b.current)).state := by
  rw [step_of_isContent h]
  show (b.setCurrentOverlay _).overlayAt b.current = _
  rw [overlayAt_setCurrentOverlay, if_pos ⟨rfl, hb.current⟩]
  rfl

theorem unplaced_step {head : Record} {b : Builder} {k : Nat} (h : head.isContent = true → b.current ≠ k)
    (rest : List Record) : ((step head rest b).state.overlayAt k).unplaced = (b.overlayAt k).unplaced := by
  by_cases hhead : head.isContent = true
  · rw [step_of_isContent hhead]
    show ((b.setCurrentOverlay _).overlayAt k).unplaced = _
    rw [overlayAt_setCurrentOverlay, if_neg fun hk => h hhead hk.1.symm]
  · exact sameContent_step (Bool.eq_false_iff.mpr hhead) rest b k

end Builder

end DebugSymbols
