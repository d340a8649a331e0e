import DebugSymbols.Build.Action

/-!
# Laws of actions

How errors pass through a sequence of actions, and how a list of records is
gone through in two parts.
-/

namespace DebugSymbols

theorem Inconsistency.shift_shift (i j : Nat) (e : Inconsistency) : (e.shift j).shift i = e.shift (i + j) := by
  simp only [shift, Nat.add_assoc]

namespace Action

variable {ε ε' ε'' σ α β : Type}

theorem exists_of_bind_ok {m : Action ε σ α} {f : α → Action ε σ β} {s : σ} {b : β}
    (h : ((m >>= f) s).result = .ok b) : ∃ a, (m s).result = .ok a ∧ (f a (m s).state).result = .ok b := by
  rw [bind_run] at h
  rcases hm : m s with ⟨e | a, s', es⟩
  · rw [hm] at h
    cases h
  · rw [hm] at h
    exact ⟨a, rfl, h⟩

theorem bind_run_of_ok {m : Action ε σ α} {f : α → Action ε σ β} {s : σ} {a : α} (h : (m s).result = .ok a) :
    (m >>= f) s = ⟨(f a (m s).state).result, (f a (m s).state).state,
      (m s).events ++ (f a (m s).state).events⟩ := by
  rw [bind_run]
  rcases hm : m s with ⟨e | a', s', es⟩
  · rw [hm] at h
    cases h
  · rw [hm] at h
    cases h
    rfl

theorem bind_run_of_error {m : Action ε σ α} {f : α → Action ε σ β} {s : σ} {e : ε} (h : (m s).result = .error e) :
    (m >>= f) s = ⟨.error e, (m s).state, (m s).events⟩ := by
  rw [bind_run]
  rcases hm : m s with ⟨e' | a, s', es⟩
  · rw [hm] at h
    cases h
    rfl
  · rw [hm] at h
    cases h

theorem exists_bind_ok {m : Action ε σ α} {f : α → Action ε σ β} {s : σ} :
    (∃ b, ((m >>= f) s).result = .ok b) ↔ ∃ a, (m s).result = .ok a ∧ ∃ b, (f a (m s).state).result = .ok b := by
  constructor
  · rintro ⟨b, h⟩
    obtain ⟨a, hm, hf⟩ := exists_of_bind_ok h
    exact ⟨a, hm, b, hf⟩
  · rintro ⟨a, hm, b, hf⟩
    exact ⟨b, by rw [bind_run_of_ok hm]; exact hf⟩

theorem ok_of_mapError {g : ε → ε'} {m : Action ε σ α} {s : σ} {a : α} (h : (m.mapError g s).result = .ok a) :
    (m s).result = .ok a := by
  change (m s).result.mapError g = .ok a at h
  cases hm : (m s).result with
  | error e => rw [hm] at h; cases h
  | ok b => rw [hm] at h; cases h; rfl

theorem mapError_run (g : ε → ε') (m : Action ε σ α) (s : σ) :
    m.mapError g s = ⟨(m s).result.mapError g, (m s).state, (m s).events⟩ := rfl

theorem mapError_of_ok {m : Action ε σ α} {s : σ} {a : α} (h : (m s).result = .ok a) (g : ε → ε') :
    (m.mapError g s).result = .ok a := by
  rw [mapError_run, h]
  rfl

theorem mapError_of_error {m : Action ε σ α} {s : σ} {e : ε} (h : (m s).result = .error e) (g : ε → ε') :
    (m.mapError g s).result = .error (g e) := by
  rw [mapError_run, h]
  rfl

theorem mapError_pure (g : ε → ε') (a : α) : (pure a : Action ε σ α).mapError g = pure a := rfl

theorem mapError_bind (g : ε → ε') (m : Action ε σ α) (f : α → Action ε σ β) :
    (m >>= f).mapError g = m.mapError g >>= fun a => (f a).mapError g := by
  funext s
  rw [mapError_run, bind_run, bind_run, mapError_run]
  rcases m s with ⟨_ | a, s', es⟩ <;> rfl

theorem mapError_mapError (g : ε → ε') (h : ε' → ε'') (m : Action ε σ α) :
    (m.mapError g).mapError h = m.mapError (h ∘ g) := by
  funext s
  rw [mapError_run, mapError_run, mapError_run]
  rcases m s with ⟨_ | a, s', es⟩ <;> rfl

/-! ## Records -/

theorem locate_shift (i j : Nat) (r : Record) (m : Action Complaint σ α) :
    (m.locate r j).mapError (·.shift i) = m.locate r (i + j) :=
  mapError_mapError _ _ m

theorem overRecords_cons_of_ok {f : β → Record → Action Complaint σ β} {r : Record} {b b' : β} {s : σ}
    (h : (f b r s).result = .ok b') (i : Nat) (rs : List Record) :
    (overRecords f i b (r :: rs) s).state = (overRecords f (i + 1) b' rs (f b r s).state).state ∧
      (overRecords f i b (r :: rs) s).result = (overRecords f (i + 1) b' rs (f b r s).state).result := by
  have hlocated : ((f b r).locate r i s).result = .ok b' := mapError_of_ok h _
  rw [overRecords, bind_run_of_ok hlocated]
  exact ⟨rfl, rfl⟩

theorem overRecords_cons_of_error {f : β → Record → Action Complaint σ β} {r : Record} {b : β} {s : σ} {e : Complaint}
    (h : (f b r s).result = .error e) (i : Nat) (rs : List Record) :
    (overRecords f i b (r :: rs) s).state = (f b r s).state ∧
      (overRecords f i b (r :: rs) s).result = .error (e.located r i) := by
  have hlocated : ((f b r).locate r i s).result = .error (e.located r i) := mapError_of_error h _
  rw [overRecords, bind_run_of_error hlocated]
  exact ⟨rfl, rfl⟩

theorem overRecords_shift (f : β → Record → Action Complaint σ β) (i : Nat) (rs : List Record) :
    ∀ j b, (overRecords f j b rs).mapError (·.shift i) = overRecords f (i + j) b rs := by
  induction rs with
  | nil => exact fun _ _ => rfl
  | cons r rs ih =>
    intro j b
    simp only [overRecords, mapError_bind, locate_shift, ih, Nat.add_assoc]

theorem overRecords_append (f : β → Record → Action Complaint σ β) (rs more : List Record) :
    ∀ i b, overRecords f i b (rs ++ more) =
      overRecords f i b rs >>= fun b => overRecords f (i + rs.length) b more := by
  induction rs with
  | nil =>
    intro i b
    simp only [List.nil_append, overRecords, pure_bind, List.length_nil, Nat.add_zero]
  | cons r rs ih =>
    intro i b
    simp only [List.cons_append, overRecords, ih, bind_assoc, List.length_cons, Nat.add_assoc, Nat.add_comm 1]

end Action

end DebugSymbols
