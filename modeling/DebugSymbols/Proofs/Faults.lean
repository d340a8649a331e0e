import DebugSymbols.Proofs.Concatenation

/-!
# Faults

`build_blames`: a build that fails blames a record of its list, and only what
comes up to that record matters for it. Only what does not end is blamed on the
record that opened it, and then nothing behind that one ends it.
-/

namespace DebugSymbols

theorem Complaint.unclosed?_eq_some_iff {c : Complaint} {enclosing : Enclosing} :
    c.unclosed? = some enclosing ↔ c.cause = .unterminated enclosing := by
  unfold unclosed?
  cases c.cause <;> simp

theorem Complaint.unclosed?_eq_none_iff {c : Complaint} :
    c.unclosed? = none ↔ ∀ enclosing, c.cause ≠ .unterminated enclosing := by
  rw [Option.eq_none_iff_forall_ne_some]
  simp only [ne_eq, unclosed?_eq_some_iff]

namespace Builder

open DebugSymbols.Action (Answers exists_of_bind_ok)

/-! ## Steps of one line record -/

/-- A step that takes line records one by one. -/
def advance (head : Record) (rest : List Record) : Action Inconsistency Builder Nat :=
  if head.isLine then do
    (lineRecord head).locate head 0
    return 0
  else step head rest

theorem answers_advance (head : Record) : Answers head (advance head) := by
  unfold advance
  by_cases hline : head.isLine = true
  · simp only [if_pos hline]
    exact .single ((ofOneRecord_lineRecord head).locate head 0)
  · simp only [if_neg hline]
    exact answers_step (Bool.eq_false_iff.mpr hline)

theorem walkFrom_isLine {r : Record} (h : r.isLine = true) (i : Nat) (rs : List Record) :
    walkFrom i (r :: rs) = (lineRecord r).locate r i >>= fun _ => walkFrom (i + 1) rs := by
  rw [walkFrom_lineRun]
  by_cases hend : r.endsLines = true
  · have hrun : lineRun (r :: rs) = [r] := by simp [lineRun, hend]
    rw [hrun]
    simp only [Action.overRecords, bind_assoc, pure_bind]
    rfl
  · rw [lineRun_cons_open ⟨h, Bool.eq_false_iff.mpr hend⟩]
    simp only [Action.overRecords, bind_assoc]
    congr 1
    funext _
    rw [walkFrom_lineRun (i + 1) rs, List.length_cons, List.drop_succ_cons, Nat.add_assoc, Nat.add_comm 1]

theorem walkFrom_advance (i : Nat) (r : Record) (rs : List Record) :
    walkFrom i (r :: rs) = (advance r rs).mapError (·.shift i) >>= fun n => walkFrom (i + 1 + n) (rs.drop n) := by
  unfold advance
  by_cases hline : r.isLine = true
  · rw [if_pos hline, walkFrom_isLine hline, Action.mapError_bind, Action.locate_shift, bind_assoc]
    rfl
  · rw [if_neg hline, walkFrom_cons]

/-! ## Whole walks -/

/-- The fault `e` of the list `rs` lies at its record `k`. Lists that begin as `rs` does up to this record have
the same fault, unless it is that something does not end. Then the record has opened it, and none ends it. -/
structure Blames {α : Type} (outcome : List Record → Except Inconsistency α) (rs : List Record) (k : Nat)
    (e : Inconsistency) : Prop where
  placed : ∃ r, rs[k]? = some r ∧ e.offset = r.offset
  causal : (∀ enclosing, e.complaint.cause ≠ .unterminated enclosing) →
    ∀ other : List Record, other.take (k + 1) = rs.take (k + 1) → outcome other = .error e
  unclosed : ∀ enclosing, e.complaint.cause = .unterminated enclosing →
    (∃ r, rs[k]? = some r ∧ r.opened? = some enclosing) ∧ ∀ q ∈ rs.drop (k + 1), enclosing.closes q = false

theorem exists_cons_of_take {r : Record} {rs other : List Record} {k : Nat}
    (h : other.take (k + 1) = (r :: rs).take (k + 1)) : ∃ rest, other = r :: rest ∧ rest.take k = rs.take k := by
  cases other with
  | nil => exact nomatch h
  | cons q rest =>
    rw [List.take_succ_cons, List.take_succ_cons, List.cons.injEq] at h
    exact ⟨rest, by rw [h.1], h.2⟩

theorem Blames.here {i : Nat} {r : Record} {rs : List Record} {b : Builder} {e : Inconsistency}
    (h : (advance r rs b).result = .error e) :
    Blames (fun rs => (walkFrom i rs b).result) (r :: rs) e.index (e.shift i) where
  placed := (answers_advance r).placed h
  causal hcause other hother := by
    obtain ⟨rest, rfl, hrest⟩ := exists_cons_of_take hother
    have hreach : Action.reach (advance r rs b).result = some e.index := by
      rw [h]
      exact if_pos (Complaint.unclosed?_eq_none_iff.mpr hcause)
    have hagain : (advance r rest b).result = .error e := by rw [(answers_advance r).congr hreach hrest, h]
    show (walkFrom i (r :: rest) b).result = _
    rw [walkFrom_advance, Action.bind_run_of_error (Action.mapError_of_error hagain _)]
  unclosed enclosing hcause := by
    obtain ⟨hzero, hopened, hnone⟩ := (answers_advance r).unclosed h (Complaint.unclosed?_eq_some_iff.mpr hcause)
    rw [hzero]
    exact ⟨⟨r, rfl, hopened⟩, hnone⟩

theorem Blames.behind {i n k : Nat} {r : Record} {rs : List Record} {b : Builder} {e : Inconsistency}
    (hn : (advance r rs b).result = .ok n)
    (h : Blames (fun left => (walkFrom (i + 1 + n) left (advance r rs b).state).result) (rs.drop n) k e) :
    Blames (fun rs => (walkFrom i rs b).result) (r :: rs) (n + k + 1) e where
  placed := by
    obtain ⟨q, hq, hoffset⟩ := h.placed
    rw [List.getElem?_drop] at hq
    exact ⟨q, hq, hoffset⟩
  causal hcause other hother := by
    obtain ⟨rest, rfl, hrest⟩ := exists_cons_of_take hother
    have hreach : Action.reach (advance r rs b).result = some n := by
      rw [hn]
      rfl
    have htaken : rest.take n = rs.take n := by
      have htake := congrArg (List.take n) hrest
      simpa only [List.take_take, Nat.add_assoc, Nat.min_eq_left (Nat.le_add_right n _)] using htake
    have hleft : (rest.drop n).take (k + 1) = (rs.drop n).take (k + 1) := by
      have hdrop := congrArg (List.drop n) hrest
      simpa only [List.drop_take, Nat.add_assoc, Nat.add_sub_cancel_left] using hdrop
    have hsame := (answers_advance r).congr hreach htaken
    have hagain : (advance r rest b).result = .ok n := by rw [hsame, hn]
    have hstate : ((advance r rest).mapError (·.shift i) b).state = (advance r rs b).state := by
      rw [Action.mapError_run, hsame]
    show (walkFrom i (r :: rest) b).result = _
    rw [walkFrom_advance, Action.bind_run_of_ok (Action.mapError_of_ok hagain _), hstate]
    exact h.causal hcause _ hleft
  unclosed enclosing hcause := by
    obtain ⟨⟨q, hq, hopened⟩, hnone⟩ := h.unclosed enclosing hcause
    rw [List.getElem?_drop] at hq
    rw [List.drop_drop] at hnone
    exact ⟨⟨q, hq, hopened⟩, hnone⟩

/-- By induction on the length of the list, a step at a time. -/
theorem walkFrom_blames (n : Nat) : ∀ {i : Nat} {rs : List Record} {b : Builder} {e : Inconsistency}, rs.length ≤ n →
    (walkFrom i rs b).result = .error e →
      ∃ k, e.index = i + k ∧ Blames (fun rs => (walkFrom i rs b).result) rs k e := by
  induction n with
  | zero =>
    intro i rs b e hle h
    rw [List.eq_nil_of_length_eq_zero (Nat.le_zero.mp hle), walkFrom] at h
    cases h
  | succ n ih =>
    intro i rs b e hle h
    cases rs with
    | nil =>
      rw [walkFrom] at h
      cases h
    | cons r rs =>
      cases hfirst : (advance r rs b).result with
      | error e' =>
        rw [walkFrom_advance, Action.bind_run_of_error (Action.mapError_of_error hfirst _)] at h
        cases h
        exact ⟨e'.index, rfl, .here hfirst⟩
      | ok m =>
        rw [walkFrom_advance, Action.bind_run_of_ok (Action.mapError_of_ok hfirst _)] at h
        have hshorter : (rs.drop m).length ≤ n := by
          rw [List.length_drop]
          rw [List.length_cons] at hle
          omega
        obtain ⟨k, hindex, hblames⟩ := ih hshorter h
        exact ⟨m + k + 1, by omega, .behind hfirst hblames⟩

theorem build_error_iff {records : List Record} {e : Inconsistency} :
    (build records).result = .error e ↔ (walkFrom 0 records {}).result = .error e := by
  have hwalk : (walk records {}).result = (walkFrom 0 records {}).result := rfl
  rw [build_result, hwalk]
  cases (walkFrom 0 records {}).result <;> simp [Except.map]

theorem build_blames {records : List Record} {e : Inconsistency} (h : (build records).result = .error e) :
    Blames (fun records => (build records).result) records e.index e := by
  obtain ⟨k, hindex, hblames⟩ := walkFrom_blames _ (Nat.le_refl _) (build_error_iff.mp h)
  rw [Nat.zero_add] at hindex
  rw [hindex]
  exact ⟨hblames.placed, fun hcause other hother => build_error_iff.mpr (hblames.causal hcause other hother),
    hblames.unclosed⟩

def strayMember : List Record :=
  let entry (offset : Nat) (symbolClass : SymbolClass) (bits : UInt16) (name tag : String) : Record :=
    { offset, value := 0, body := .definition .second { symbolClass, word := ⟨bits⟩, size := 4, tag, name } }
  [entry 8 .structTag 8 "point" "", entry 40 .structMember 4 "x" "", entry 70 .auto 4 "y" "",
    entry 100 .endOfStruct 0 "eos" "point"]

def openStruct : List Record :=
  strayMember.take 2

def memberFault : Inconsistency :=
  { offset := 70, index := 2, complaint := { name := "point", cause := .memberClass .auto .struct } }

def openFault : Inconsistency :=
  { offset := 8, index := 0, complaint := { name := "point", cause := .unterminated (.composite .struct) } }

theorem build_strayMember : (build strayMember).result = .error memberFault := by
  decide +kernel

theorem build_openStruct : (build openStruct).result = .error openFault := by
  decide +kernel

theorem build_blames_struct :
    Blames (fun records => (build records).result) strayMember 2 memberFault ∧
      Blames (fun records => (build records).result) openStruct 0 openFault :=
  ⟨build_blames build_strayMember, build_blames build_openStruct⟩

end Builder

end DebugSymbols
