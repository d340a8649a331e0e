import DebugSymbols.Build.Builder
import DebugSymbols.Proofs.Build.Steps

/-!
# Walks

A walk takes a builder from state to state by edits of its current overlay and
by changes around the overlays. `forall_overlays_afterWalks`: what new overlays
have and every edit keeps, every overlay has after any walks, the failed ones
included.
-/

namespace DebugSymbols.Builder

open DebugSymbols.Action (Leads)
open Relation (ReflTransGen)

/-! ## The steps of a builder -/

inductive Edit : Builder → Builder → Prop
  | overlay {b : Builder} {o : Overlay} (h : b.currentOverlay.Edit o) : Edit b (b.setCurrentOverlay o)
  | source {b : Builder} (s : Option SourceLine) : Edit b { b with source := s }
  | newOverlay {b : Builder} {id : UInt32} (addr length : UInt32) (h : b.position? id = none) :
      Edit b (b.appendOverlay { id, addr, length })
  | switch {b : Builder} {id : UInt32} {position : Nat} (h : b.position? id = some position) :
      Edit b { b with current := position }

/-- There is an overlay in the current position, and in each that the map holds. -/
structure InRange (b : Builder) : Prop where
  current : b.current < b.overlays.length
  ids : ∀ e ∈ b.ids, e.2 < b.overlays.length

theorem inRange_new : ({} : Builder).InRange where
  current := Nat.zero_lt_one
  ids := List.forall_mem_singleton.mpr Nat.zero_lt_one

theorem InRange.appendOverlay {b : Builder} (hb : b.InRange) (o : Overlay) : (b.appendOverlay o).InRange := by
  have hlength : (b.appendOverlay o).overlays.length = b.overlays.length + 1 := by simp [Builder.appendOverlay]
  refine ⟨?_, fun e he => ?_⟩
  · rw [hlength]
    exact Nat.lt_succ_of_lt hb.current
  · rw [hlength]
    obtain he | he := List.mem_append.mp he
    · exact Nat.lt_succ_of_lt (hb.ids e he)
    · rw [List.mem_singleton.mp he]
      exact Nat.lt_succ_self _

theorem mem_ids_of_position? {b : Builder} {id : UInt32} {position : Nat} (h : b.position? id = some position) :
    (id, position) ∈ b.ids := by
  obtain ⟨before, after, hsplit, _⟩ := List.lookup_eq_some_iff.mp h
  rw [hsplit]
  exact List.mem_append_right _ List.mem_cons_self

theorem Edit.inRange {b b' : Builder} (h : Edit b b') (hb : b.InRange) : b'.InRange := by
  cases h with
  | overlay h => exact ⟨by simpa [setCurrentOverlay] using hb.current, by simpa [setCurrentOverlay] using hb.ids⟩
  | source s => exact ⟨hb.current, hb.ids⟩
  | newOverlay addr length h => exact hb.appendOverlay _
  | switch h => exact ⟨hb.ids _ (mem_ids_of_position? h), hb.ids⟩

theorem inRange_of_edits {b b' : Builder} (h : ReflTransGen Edit b b') (hb : b.InRange) : b'.InRange := by
  induction h with
  | refl => exact hb
  | tail _ h ih => exact h.inRange ih

/-! ## Actions on the current overlay -/

theorem currentOverlay_setCurrentOverlay {b : Builder} (hb : b.InRange) (o : Overlay) :
    (b.setCurrentOverlay o).currentOverlay = o := by
  simp [currentOverlay, setCurrentOverlay, hb.current]

theorem setCurrentOverlay_currentOverlay {b : Builder} (hb : b.InRange) :
    b.setCurrentOverlay b.currentOverlay = b := by
  simp [currentOverlay, setCurrentOverlay, hb.current]

theorem setCurrentOverlay_twice (b : Builder) (o o' : Overlay) :
    (b.setCurrentOverlay o).setCurrentOverlay o' = b.setCurrentOverlay o' := by
  simp [setCurrentOverlay]

theorem edits_setCurrentOverlay {b : Builder} (hb : b.InRange) {o : Overlay}
    (h : ReflTransGen Overlay.Edit b.currentOverlay o) : ReflTransGen Edit b (b.setCurrentOverlay o) := by
  induction h with
  | refl => rw [setCurrentOverlay_currentOverlay hb]
  | @tail o o' _ h ih =>
    refine ih.tail ?_
    rw [← setCurrentOverlay_twice b o o']
    refine .overlay ?_
    rw [currentOverlay_setCurrentOverlay hb]
    exact h

variable {ε α : Type}

theorem leads_onCurrent {m : Action ε Overlay α} (h : Leads Overlay.Edit (fun _ => True) m fun _ _ => True) :
    Leads Edit InRange (onCurrent m) fun _ _ => True := fun b hb =>
  ⟨edits_setCurrentOverlay hb (h b.currentOverlay trivial).1, fun _ _ => trivial⟩

/-! ## Records -/

theorem leads_lineRecord (r : Record) : Leads Edit InRange (lineRecord r) fun _ _ => True := by
  unfold lineRecord
  split
  · exact .modify_step (fun _ _ => .source none) fun _ _ => trivial
  · refine .read_bind fun b hb => ?_
    split
    · rename_i s _
      refine .modify (fun b' hb' => ?_) fun _ _ => trivial
      subst hb'
      exact .tail (.single (.overlay (.line _))) (.source (some s))
    · exact .fail
  · exact .pure fun _ _ => trivial

theorem leads_inRange {P : Builder → Prop} {Q : α → Builder → Prop} {m : Action ε Builder α}
    (h : Leads Edit P m Q) (hP : ∀ b, P b → b.InRange) : Leads Edit P m fun _ => InRange := fun b hb =>
  ⟨(h b hb).1, fun _ _ => inRange_of_edits (h b hb).1 (hP b hb)⟩

theorem leads_lines (head : Record) (rest : List Record) :
    Leads Edit InRange (lines head rest) fun _ => InRange := by
  have hrecord : ∀ (_ : Unit) (r : Record), Leads Edit InRange (lineRecord r) fun _ => InRange :=
    fun _ r => leads_inRange (leads_lineRecord r) fun _ h => h
  exact .bind (Leads.overRecords (J := fun _ => InRange) hrecord _ 0 ()) fun _ => .pure fun _ h => h

theorem leads_addOverlay (addr length id : UInt32) :
    Leads Edit InRange (addOverlay addr length id) fun _ _ => True := by
  refine .read_bind fun b _ => ?_
  split
  · exact .fail
  · rename_i h
    refine .modify_step (fun b' hb' => ?_) fun _ _ => trivial
    subst hb'
    exact .newOverlay addr length h

theorem leads_switchOverlay (id : UInt32) :
    Leads Edit InRange (switchOverlay id) fun _ _ => True := by
  refine .read_bind fun b _ => ?_
  split
  · rename_i position h
    refine .bind (Q := fun _ _ => True) (.modify_step (fun b' hb' => ?_) fun _ _ => trivial) fun _ => .report
    subst hb'
    exact .switch h
  · exact .fail

theorem leads_step (head : Record) (rest : List Record) :
    Leads Edit InRange (step head rest) fun _ => InRange := by
  have hsingle : ∀ m : Action Inconsistency Builder Unit, (Leads Edit InRange m fun _ _ => True) →
      Leads Edit InRange (do m; return 0) fun _ => InRange := fun m h =>
    .bind (leads_inRange h fun _ h => h) fun _ => .pure fun _ h => h
  have hoverlay : ∀ m : Action Inconsistency Overlay Nat,
      (Leads Overlay.Edit (fun _ => True) m fun _ _ => True) →
        Leads Edit InRange (onCurrent m) fun _ => InRange := fun m h =>
    leads_inRange (leads_onCurrent h) fun _ h => h
  unfold step
  split
  · exact hsingle _ (leads_onCurrent (.modify_step (fun _ _ => .symbol _) fun _ _ => trivial))
  · exact leads_lines head rest
  · exact hoverlay _ (Overlay.leads_functionSpan head _ rest)
  · exact .locate .fail
  · exact .locate .fail
  · exact .locate .fail
  · exact hoverlay _ (Overlay.leads_definition head _ rest)
  · exact hsingle _ (.locate (leads_addOverlay _ _ _))
  · exact hsingle _ (.locate (leads_switchOverlay _))

/-! ## Walks -/

theorem leads_walkFrom (index : Nat) (rs : List Record) :
    Leads Edit InRange (walkFrom index rs) fun _ => InRange := by
  fun_induction walkFrom index rs with
  | case1 index => exact .pure fun _ h => h
  | case2 index r rs ih => exact .bind (.mapError (leads_step r rs)) ih

theorem leads_walk (rs : List Record) : Leads Edit InRange (walk rs) fun _ => InRange :=
  .bind .report fun _ => leads_walkFrom 0 rs

/-- The builder after one walk over each list, whether it fails or not. -/
def afterWalks (chunks : List (List Record)) : Builder :=
  chunks.foldl (fun b records => (walk records b).state) {}

theorem edits_afterWalks (chunks : List (List Record)) : ReflTransGen Edit {} (afterWalks chunks) := by
  have hrun : ∀ b : Builder, b.InRange →
      ReflTransGen Edit b (chunks.foldl (fun b records => (walk records b).state) b) := by
    induction chunks with
    | nil => exact fun _ _ => .refl
    | cons rs chunks ih =>
      intro b hb
      have hwalk := (leads_walk rs b hb).1
      exact hwalk.trans (ih _ (inRange_of_edits hwalk hb))
  exact hrun {} inRange_new

theorem Edit.forall_overlays {I : Overlay → Prop} (hnew : ∀ id addr length, I { id, addr, length })
    (hedit : ∀ o o', o.Edit o' → I o → I o') {b b' : Builder} (h : Edit b b') (hb : ∀ o ∈ b.overlays, I o) :
    ∀ o ∈ b'.overlays, I o := by
  cases h with
  | @overlay o' h =>
    have hcurrent : I b.currentOverlay := by
      unfold currentOverlay
      rw [List.getD_eq_getElem?_getD]
      cases hget : b.overlays[b.current]? with
      | none => exact hnew 0 0 0
      | some o => exact hb o (List.mem_of_getElem? hget)
    intro o ho
    rcases List.mem_or_eq_of_mem_set ho with ho | ho
    · exact hb o ho
    · subst ho; exact hedit _ _ h hcurrent
  | source s => exact hb
  | newOverlay addr length h =>
    intro o ho
    rcases List.mem_append.mp ho with ho | ho
    · exact hb o ho
    · rw [List.mem_singleton.mp ho]; exact hnew _ _ _
  | switch h => exact hb

theorem forall_overlays_of_edits {I : Overlay → Prop} (hnew : ∀ id addr length, I { id, addr, length })
    (hedit : ∀ o o', o.Edit o' → I o → I o') {b : Builder} (h : ReflTransGen Edit {} b) : ∀ o ∈ b.overlays, I o := by
  induction h with
  | refl =>
    intro o ho
    rw [List.mem_singleton.mp ho]
    exact hnew 0 0 0
  | tail _ h ih => exact h.forall_overlays hnew hedit ih

theorem forall_overlays_afterWalks {I : Overlay → Prop} (hnew : ∀ id addr length, I { id, addr, length })
    (hedit : ∀ o o', o.Edit o' → I o → I o') (chunks : List (List Record)) :
    ∀ o ∈ (afterWalks chunks).overlays, I o :=
  forall_overlays_of_edits hnew hedit (edits_afterWalks chunks)

/-! ## Building -/

theorem forM_report (es : List Event) (b : Builder) :
    (es.forM Action.report : Action ε Builder Unit) b = ⟨.ok (), b, es⟩ := by
  induction es with
  | nil => rfl
  | cons e es ih =>
    show (Action.report e >>= fun _ => es.forM Action.report) b = _
    rw [Action.bind_run]
    simp only [Action.report, ih, List.singleton_append]

theorem build_result (records : List Record) :
    (build records).result = (walk records {}).result.map fun _ => (walk records {}).state.overlays := by
  unfold build
  simp only [Action.bind_run]
  rcases hw : walk records {} with ⟨e | u, b, es⟩
  · rfl
  · simp only [Action.read, forM_report]
    rfl

theorem walk_of_build {records : List Record} {overlays : List Overlay} (h : (build records).result = .ok overlays) :
    (walk records {}).result = .ok () ∧ overlays = (walk records {}).state.overlays := by
  rw [build_result] at h
  cases hw : (walk records {}).result with
  | error e =>
    rw [hw] at h
    exact nomatch h
  | ok u =>
    rw [hw] at h
    cases h
    exact ⟨rfl, rfl⟩

theorem overlays_of_build {records : List Record} {overlays : List Overlay}
    (h : (build records).result = .ok overlays) : overlays = (afterWalks [records]).overlays :=
  (walk_of_build h).2

end DebugSymbols.Builder
