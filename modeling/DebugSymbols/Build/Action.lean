import DebugSymbols.Build.Event
import DebugSymbols.Build.Fault

/-!
# Actions

A step of building changes a state, reports events and may fail. A failed step
keeps what it did to the state before it failed. Events go out beside the state,
so no step can depend on what was reported.
-/

namespace DebugSymbols

structure Outcome (ε σ α : Type) where
  result : Except ε α
  /-- The state, also after a failure. -/
  state : σ
  events : List Event

def Action (ε σ α : Type) : Type :=
  σ → Outcome ε σ α

namespace Action

variable {ε ε' σ τ α β : Type}

protected def pure (a : α) : Action ε σ α := fun s =>
  ⟨.ok a, s, []⟩

protected def bind (m : Action ε σ α) (f : α → Action ε σ β) : Action ε σ β := fun s =>
  match m s with
  | ⟨.ok a, s', es⟩ =>
    let next := f a s'
    { next with events := es ++ next.events }
  | ⟨.error e, s', es⟩ => ⟨.error e, s', es⟩

instance : Monad (Action ε σ) where
  pure := Action.pure
  bind := Action.bind

/-! ## Basic actions -/

def fail (e : ε) : Action ε σ α := fun s =>
  ⟨.error e, s, []⟩

def read : Action ε σ σ := fun s =>
  ⟨.ok s, s, []⟩

def modify (f : σ → σ) : Action ε σ Unit := fun s =>
  ⟨.ok (), f s, []⟩

def report (e : Event) : Action ε σ Unit := fun s =>
  ⟨.ok (), s, [e]⟩

def ofExcept : Except ε α → Action ε σ α
  | .ok a => Action.pure a
  | .error e => fail e

def mapError (f : ε → ε') (m : Action ε σ α) : Action ε' σ α := fun s =>
  let out := m s
  { out with result := out.result.mapError f }

def onPart (get : τ → σ) (set : σ → τ → τ) (m : Action ε σ α) : Action ε τ α := fun t =>
  let out := m (get t)
  { out with state := set out.state t }

/-! ## Actions at records -/

/-- Complaints become faults at the `index`-th record. -/
def locate (r : Record) (index : Nat) (m : Action Complaint σ α) : Action Inconsistency σ α :=
  m.mapError fun c => c.located r index

/-- Does one thing after another for records from number `index` on, passing a
value along. -/
def overRecords (f : β → Record → Action Complaint σ β) (index : Nat) :
    β → List Record → Action Inconsistency σ β
  | b, [] => return b
  | b, r :: rs => do
    let b ← (f b r).locate r index
    overRecords f (index + 1) b rs

/-! ## Laws -/

theorem pure_run (a : α) (s : σ) : (pure a : Action ε σ α) s = ⟨.ok a, s, []⟩ := rfl

theorem bind_run (m : Action ε σ α) (f : α → Action ε σ β) (s : σ) :
    (m >>= f) s =
      match m s with
      | ⟨.ok a, s', es⟩ => { f a s' with events := es ++ (f a s').events }
      | ⟨.error e, s', es⟩ => ⟨.error e, s', es⟩ := rfl

instance : LawfulMonad (Action ε σ) := LawfulMonad.mk' _
  (by
    intro α m
    funext s
    change (m >>= fun a => pure (id a)) s = m s
    rw [bind_run]
    rcases m s with ⟨_ | a, s', es⟩ <;> simp [pure_run])
  (by
    intro α β a f
    funext s
    rw [bind_run, pure_run]
    simp)
  (by
    intro α β γ m f g
    funext s
    rw [bind_run, bind_run, bind_run]
    rcases m s with ⟨_ | a, s', es⟩
    · rfl
    · dsimp only
      rw [bind_run]
      rcases f a s' with ⟨_ | b, s'', fs⟩ <;> simp)

end Action

end DebugSymbols
