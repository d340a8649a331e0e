import DebugSymbols.Proofs.Build.Portions
import DebugSymbols.Proofs.Independence

/-!
# Every record once

A walk is a loop over a position and a builder. `visitsOnce`: each turn of the
loop takes the portion at its position and goes on right behind it, so the loop
ends, and a walk that succeeds has parted the stream into portions.
-/

namespace DebugSymbols.Builder

open Relation (ReflTransGen)

/-- One turn of the loop: from a position that is not past the end, by a step that
succeeds, to the position behind what the step takes. -/
inductive Turn (records : List Record) : Nat × Builder → Nat × Builder → Prop
  | step {i n : Nat} {b : Builder} {head : Record} {rest : List Record} (hrest : records.drop i = head :: rest)
      (hn : (step head rest b).result = .ok n) : Turn records (i, b) (i + 1 + n, (step head rest b).state)

section
variable {records : List Record}

/-! ## One turn -/

theorem drop_add_of_drop {i : Nat} {head : Record} {rest : List Record} (h : records.drop i = head :: rest) (n : Nat) :
    records.drop (i + 1 + n) = rest.drop n := by
  rw [Nat.add_assoc, ← List.drop_drop, h, Nat.add_comm 1, List.drop_succ_cons]

theorem Turn.portion {s t : Nat × Builder} (h : Turn records s t) :
    s.1 < t.1 ∧ t.1 ≤ records.length ∧ Portion (records.extract s.1 t.1) (records.drop t.1) := by
  cases h with
  | @step i n b head rest hrest hn =>
    obtain ⟨hle, hportion⟩ := takesPortion_step head rest b n hn
    have hlength : records.length - i = rest.length + 1 := by rw [← List.length_drop, hrest, List.length_cons]
    have htaken : records.extract i (i + 1 + n) = head :: rest.take n := by
      have hcount : i + 1 + n - i = n + 1 := by omega
      rw [List.extract_eq_take_drop, hrest, hcount, List.take_succ_cons]
    rw [htaken, drop_add_of_drop hrest]
    exact ⟨by omega, by omega, hportion⟩

theorem wellFounded_turn : WellFounded fun t s => Turn records s t := by
  refine Subrelation.wf (fun {t s} h => ?_) (measure fun s : Nat × Builder => records.length - s.1).wf
  obtain ⟨hlt, hle, _⟩ := h.portion
  show records.length - t.1 < records.length - s.1
  omega

/-! ## The loop -/

/-- The loop that has come to this position and builder ends with this outcome. -/
def EndsAt (records : List Record) (out : Outcome Inconsistency Builder Unit) (s : Nat × Builder) : Prop :=
  (s.1 = records.length ∧ out.result = .ok () ∧ out.state = s.2) ∨
    ∃ head rest e, records.drop s.1 = head :: rest ∧ (step head rest s.2).result = .error e ∧
      out.result = .error (e.shift s.1) ∧ out.state = (step head rest s.2).state

theorem endsAt_walkFrom (i : Nat) (rs : List Record) (b : Builder) (hi : i ≤ records.length)
    (hrs : records.drop i = rs) : ∃ s, ReflTransGen (Turn records) (i, b) s ∧ EndsAt records (walkFrom i rs b) s := by
  fun_induction walkFrom i rs generalizing b with
  | case1 i =>
    have hend : i = records.length := Nat.le_antisymm hi (List.drop_eq_nil_iff.mp hrs)
    exact ⟨(i, b), .refl, .inl ⟨hend, rfl, rfl⟩⟩
  | case2 i r rs ih =>
    cases hstep : (step r rs b).result with
    | error e =>
      rw [Action.bind_run_of_error (Action.mapError_of_error hstep _)]
      exact ⟨(i, b), .refl, .inr ⟨r, rs, e, hrs, hstep, rfl, rfl⟩⟩
    | ok n =>
      have hturn : Turn records (i, b) (i + 1 + n, (step r rs b).state) := .step hrs hstep
      obtain ⟨s, hturns, hends⟩ := ih n (step r rs b).state hturn.portion.2.1 (drop_add_of_drop hrs n)
      rw [Action.bind_run_of_ok (Action.mapError_of_ok hstep _)]
      exact ⟨s, .head hturn hturns, hends⟩

end

/-! ## The walk -/

structure VisitsOnce (b : Builder) (records : List Record) : Prop where
  /-- A turn takes at least a record and no more than there are, at any position and from any builder. -/
  portions : ∀ i c j d, Turn records (i, c) (j, d) →
    i < j ∧ j ≤ records.length ∧ Portion (records.extract i j) (records.drop j)
  /-- There is no endless run of turns. -/
  finite : WellFounded fun t s => Turn records s t
  /-- The walk makes turn after turn, to the end of the records or to a step that fails. -/
  ends : ∃ s, ReflTransGen (Turn records) (0, b) s ∧ EndsAt records (walk records b) s
  parted : (walk records b).result = .ok () →
    Parted ((steps b records).map Step.taken) records ∧ (steps b records).flatMap Step.taken = records

theorem visitsOnce (b : Builder) (records : List Record) : VisitsOnce b records where
  portions _ _ _ _ h := h.portion
  finite := wellFounded_turn
  ends := endsAt_walkFrom 0 records b (Nat.zero_le _) rfl
  parted h := by
    have hsteps := steps_ok 0 records b h
    exact ⟨parted_steps records b hsteps, taken_steps records b hsteps⟩

def mixed : List Record :=
  lineRunFront ++ lineRunBack.take 2 ++ lineRunFront ++ switching

theorem visitsOnce_mixed :
    (walk mixed {}).result = .ok () ∧
      (steps {} mixed).map (·.taken.length) = [4, 2, 1, 3, 1, 1, 3, 1, 2, 3, 1, 1, 1, 1] ∧
      Parted ((steps {} mixed).map Step.taken) mixed :=
  ⟨by decide +kernel, by decide +kernel, ((visitsOnce {} mixed).parted (by decide +kernel)).1⟩

end DebugSymbols.Builder
