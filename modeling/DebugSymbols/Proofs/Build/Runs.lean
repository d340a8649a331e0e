import DebugSymbols.Build.Action
import Mathlib.Logic.Relation

/-!
# Runs of actions

`Leads r P m Q`: from a state in `P` the action `m` gets to its last state by
steps of `r`, whether it fails or not, and if it succeeds then its value and
state are in `Q`. One rule for each way to put actions together.
-/

namespace DebugSymbols.Action

variable {ε ε' σ τ α β : Type}

def Leads (r : σ → σ → Prop) (P : σ → Prop) (m : Action ε σ α) (Q : α → σ → Prop) : Prop :=
  ∀ s, P s → Relation.ReflTransGen r s (m s).state ∧ ∀ a, (m s).result = .ok a → Q a (m s).state

variable {r : σ → σ → Prop} {P P' : σ → Prop} {Q Q' : α → σ → Prop}

namespace Leads

theorem pure {a : α} (h : ∀ s, P s → Q a s) : Leads r P (pure a : Action ε σ α) Q := by
  intro s hs
  refine ⟨.refl, ?_⟩
  rintro _ ⟨⟩
  exact h s hs

theorem bind {m : Action ε σ α} {f : α → Action ε σ β} {S : β → σ → Prop} (hm : Leads r P m Q)
    (hf : ∀ a, Leads r (Q a) (f a) S) : Leads r P (m >>= f) S := by
  intro s hs
  obtain ⟨hr, hq⟩ := hm s hs
  rw [bind_run]
  rcases hms : m s with ⟨e | a, s', es⟩
  · rw [hms] at hr
    exact ⟨hr, fun _ h => nomatch h⟩
  · rw [hms] at hr hq
    obtain ⟨hr', hq'⟩ := hf a s' (hq a rfl)
    exact ⟨hr.trans hr', hq'⟩

theorem weaken {m : Action ε σ α} (h : Leads r P m Q) (hP : ∀ s, P' s → P s)
    (hQ : ∀ a s, Q a s → Q' a s) : Leads r P' m Q' := fun s hs =>
  ⟨(h s (hP s hs)).1, fun a ha => hQ a _ ((h s (hP s hs)).2 a ha)⟩

theorem mono {r' : σ → σ → Prop} {m : Action ε σ α} (h : Leads r P m Q) (hr : ∀ s t, r s t → r' s t) :
    Leads r' P m Q := fun s hs =>
  ⟨Relation.ReflTransGen.mono hr _ _ (h s hs).1, (h s hs).2⟩

theorem of_fact {φ : Prop} {m : Action ε σ α} (h : φ → Leads r P m Q) :
    Leads r (fun s => φ ∧ P s) m Q := fun s hs =>
  h hs.1 s hs.2

theorem fail {e : ε} : Leads r P (fail e : Action ε σ α) Q := fun _ _ =>
  ⟨.refl, fun _ h => nomatch h⟩

theorem read_bind {f : σ → Action ε σ α} (h : ∀ s, P s → Leads r (· = s) (f s) Q) :
    Leads r P (read >>= f) Q := by
  intro s hs
  have := h s hs s rfl
  rw [bind_run]
  exact this

theorem modify {f : σ → σ} {Q : Unit → σ → Prop} (hr : ∀ s, P s → Relation.ReflTransGen r s (f s))
    (hq : ∀ s, P s → Q () (f s)) : Leads r P (modify f : Action ε σ Unit) Q := fun s hs =>
  ⟨hr s hs, fun _ _ => hq s hs⟩

theorem modify_step {f : σ → σ} {Q : Unit → σ → Prop} (hr : ∀ s, P s → r s (f s))
    (hq : ∀ s, P s → Q () (f s)) : Leads r P (Action.modify f : Action ε σ Unit) Q :=
  .modify (fun s hs => .single (hr s hs)) hq

theorem report {e : Event} : Leads r P (report e : Action ε σ Unit) fun _ => P := fun _ hs =>
  ⟨.refl, fun _ _ => hs⟩

theorem ofExcept {x : Except ε α} :
    Leads r P (ofExcept x : Action ε σ α) fun a s => x = .ok a ∧ P s := by
  intro s hs
  cases x with
  | error e => exact ⟨.refl, fun _ h => nomatch h⟩
  | ok a =>
    refine ⟨.refl, ?_⟩
    rintro _ ⟨⟩
    exact ⟨rfl, hs⟩

theorem mapError {m : Action ε σ α} {f : ε → ε'} (h : Leads r P m Q) :
    Leads r P (m.mapError f) Q := by
  intro s hs
  refine ⟨(h s hs).1, fun a ha => (h s hs).2 a ?_⟩
  change (m s).result.mapError f = .ok a at ha
  cases hm : (m s).result with
  | error e => rw [hm] at ha; cases ha
  | ok b => rw [hm] at ha; cases ha; rfl

theorem locate {m : Action Complaint σ α} {rec : Record} {index : Nat} (h : Leads r P m Q) :
    Leads r P (m.locate rec index) Q :=
  h.mapError

theorem overRecords {f : β → Record → Action Complaint σ β} {J : β → σ → Prop}
    (h : ∀ b rec, Leads r (J b) (f b rec) J) (rs : List Record) :
    ∀ index b, Leads r (J b) (overRecords f index b rs) J := by
  induction rs with
  | nil => exact fun _ _ => .pure fun _ hs => hs
  | cons rec rs ih =>
    intro index b
    exact .bind (.locate (h b rec)) fun b' => ih (index + 1) b'

end Leads

end DebugSymbols.Action
