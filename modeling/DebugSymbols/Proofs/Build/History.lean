import DebugSymbols.Proofs.Concatenation
import DebugSymbols.Proofs.WellFormed

/-!
# Histories

The steps that walks take one after another, each with the builder as it was
before it. What every step brings with it and what may be put together holds
between any two builders of a history.
-/

namespace DebugSymbols.Builder

open Relation (ReflTransGen)

/-- A record about to be taken, with those behind it. -/
structure Step where
  before : Builder
  head : Record
  rest : List Record
  deriving DecidableEq

namespace Step

def outcome (s : Step) : Outcome Inconsistency Builder Nat :=
  step s.head s.rest s.before

def after (s : Step) : Builder :=
  s.outcome.state

/-- The record and those of its run, none if the step fails. -/
def taken (s : Step) : List Record :=
  match s.outcome.result with
  | .ok n => s.head :: s.rest.take n
  | .error _ => []

theorem taken_of_ok {s : Step} {n : Nat} (h : s.outcome.result = .ok n) : s.taken = s.head :: s.rest.take n := by
  unfold taken
  rw [h]

end Step

/-- The steps of a walk, the last of which may be one that fails. -/
def steps (b : Builder) : List Record → List Step
  | [] => []
  | r :: rs =>
    ⟨b, r, rs⟩ ::
      match (step r rs b).result with
      | .ok n => steps (step r rs b).state (rs.drop n)
      | .error _ => []
termination_by rs => rs.length

def history (b : Builder) : List (List Record) → List Step
  | [] => []
  | rs :: chunks => steps b rs ++ history (walk rs b).state chunks

/-! ## From builder to builder -/

/-- Each step starts where the one before it has ended. -/
inductive Path : Builder → List Step → Builder → Prop
  | nil {b : Builder} : Path b [] b
  | cons {s : Step} {ss : List Step} {b : Builder} : Path s.after ss b → Path s.before (s :: ss) b

theorem Path.append {b c d : Builder} {ss ts : List Step} (h : Path b ss c) (ht : Path c ts d) :
    Path b (ss ++ ts) d := by
  induction h with
  | nil => exact ht
  | cons _ ih => exact .cons (ih ht)

theorem Path.edits {b c : Builder} {ss : List Step} (h : Path b ss c) (hb : b.InRange) :
    ReflTransGen Edit b c ∧ ∀ s ∈ ss, ReflTransGen Edit b s.before ∧ ReflTransGen Edit s.before c := by
  induction h with
  | nil => exact ⟨.refl, fun _ hs => nomatch hs⟩
  | @cons s ss c _ ih =>
    have hstep : ReflTransGen Edit s.before s.after := (leads_step s.head s.rest s.before hb).1
    obtain ⟨hrest, hmem⟩ := ih (inRange_of_edits hstep hb)
    refine ⟨hstep.trans hrest, fun t ht => ?_⟩
    obtain rfl | ht := List.mem_cons.mp ht
    · exact ⟨.refl, hstep.trans hrest⟩
    · exact ⟨hstep.trans (hmem t ht).1, (hmem t ht).2⟩

theorem Path.split {b c : Builder} {front back : List Step} {s : Step} (h : Path b (front ++ s :: back) c) :
    Path b front s.before ∧ Path s.after back c := by
  induction front generalizing b with
  | nil =>
    cases h with
    | cons h => exact ⟨.nil, h⟩
  | cons t front ih =>
    cases h with
    | cons h => exact ⟨.cons (ih h).1, (ih h).2⟩

theorem Path.pairwise {R : Builder → Builder → Prop} (htrans : ∀ {a b c}, R a b → R b c → R a c) {b c : Builder}
    {ss : List Step} (h : Path b ss c) (hstep : ∀ s ∈ ss, R s.before s.after) :
    (b :: ss.map Step.after).Pairwise R := by
  induction h with
  | nil => exact List.pairwise_singleton R _
  | @cons s ss c _ ih =>
    have hrest := ih fun t ht => hstep t (List.mem_cons_of_mem s ht)
    have hfirst := hstep s List.mem_cons_self
    refine List.pairwise_cons.mpr ⟨List.forall_mem_cons.mpr ⟨hfirst, fun x hx => ?_⟩, hrest⟩
    exact htrans hfirst ((List.pairwise_cons.mp hrest).1 x hx)

theorem Path.pairwise_steps {R : Builder → Builder → Prop} (hrefl : ∀ b, R b b)
    (htrans : ∀ {a b c}, R a b → R b c → R a c) {b c : Builder} {ss : List Step} (h : Path b ss c)
    (hstep : ∀ s ∈ ss, R s.before s.after) : (∀ s ∈ ss, R b s.before) ∧ ss.Pairwise fun s t => R s.after t.before := by
  induction h with
  | nil => exact ⟨fun _ hs => (nomatch hs), .nil⟩
  | @cons s ss c _ ih =>
    obtain ⟨hahead, hrest⟩ := ih fun t ht => hstep t (List.mem_cons_of_mem s ht)
    refine ⟨List.forall_mem_cons.mpr ⟨hrefl _, fun t ht => ?_⟩, List.pairwise_cons.mpr ⟨hahead, hrest⟩⟩
    exact htrans (hstep s List.mem_cons_self) (hahead t ht)

theorem path_steps (i : Nat) (rs : List Record) (b : Builder) :
    Path b (steps b rs) (walkFrom i rs b).state := by
  fun_induction walkFrom i rs generalizing b with
  | case1 i =>
    rw [steps]
    exact .nil
  | case2 i r rs ih =>
    rw [steps]
    refine .cons (s := ⟨b, r, rs⟩) ?_
    have hrun := Action.mapError_run (·.shift i) (step r rs) b
    rw [Action.bind_run, hrun]
    rcases hstep : step r rs b with ⟨e | n, c, es⟩
    · have hafter : (⟨b, r, rs⟩ : Step).after = c := by
        unfold Step.after Step.outcome
        rw [hstep]
      rw [hafter]
      exact .nil
    · have hafter : (⟨b, r, rs⟩ : Step).after = c := by
        unfold Step.after Step.outcome
        rw [hstep]
      rw [hafter]
      exact ih n c

theorem steps_ok (i : Nat) (rs : List Record) (b : Builder) (h : (walkFrom i rs b).result = .ok ()) :
    ∀ s ∈ steps b rs, ∃ n, s.outcome.result = .ok n := by
  fun_induction walkFrom i rs generalizing b with
  | case1 i =>
    rw [steps]
    exact List.forall_mem_nil _
  | case2 i r rs ih =>
    obtain ⟨n, hlocated, hrest⟩ := Action.exists_of_bind_ok h
    have hn := Action.ok_of_mapError hlocated
    rw [steps, hn]
    exact List.forall_mem_cons.mpr ⟨⟨n, hn⟩, ih n _ hrest⟩

theorem path_history (chunks : List (List Record)) : Path {} (history {} chunks) (afterWalks chunks) := by
  have hrun : ∀ b, Path b (history b chunks) (chunks.foldl (fun b records => (walk records b).state) b) := by
    induction chunks with
    | nil => exact fun _ => .nil
    | cons rs chunks ih => exact fun b => (path_steps 0 rs b).append (ih _)
  exact hrun {}

end DebugSymbols.Builder
