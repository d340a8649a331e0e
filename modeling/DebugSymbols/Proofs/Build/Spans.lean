import DebugSymbols.Proofs.Build.Complaints
import Mathlib.Data.List.TakeWhile

/-!
# Spans

A record that opens a span takes the records up to the one that closes it. If
the step succeeds then that record is there, and nothing behind it is looked at.
If it fails at a record then nothing behind that one is looked at, unless it is
for want of a record that closes the span. Line records alone go on for as long
as they come.
-/

namespace DebugSymbols

section
variable {closes : Record → Bool} {rest : List Record}

theorem length_takeWhile_lt_iff : (rest.takeWhile (!closes ·)).length < rest.length ↔ rest.any closes := by
  induction rest with
  | nil => simp
  | cons r rest ih =>
    by_cases h : closes r = true
    · simp [h]
    · simp [h, ih]

theorem takeWhile_closed {inner : List Record} {r : Record} (hinner : ∀ q ∈ inner, closes q = false)
    (hr : closes r = true) (more : List Record) : (inner ++ r :: more).takeWhile (!closes ·) = inner := by
  rw [List.takeWhile_append_of_pos fun q hq => by simp [hinner q hq], List.takeWhile_cons_of_neg (by simp [hr]),
    List.append_nil]

theorem not_closes_of_mem {q : Record} (h : q ∈ rest.takeWhile (!closes ·)) : closes q = false := by
  simpa using List.mem_takeWhile_imp h

theorem exists_closing (h : rest.any closes) :
    ∃ r tail, closes r = true ∧ rest = rest.takeWhile (!closes ·) ++ r :: tail := by
  induction rest with
  | nil => simp at h
  | cons r rest ih =>
    by_cases hr : closes r = true
    · exact ⟨r, rest, hr, by simp [hr]⟩
    · obtain ⟨q, tail, hq, heq⟩ := ih (by simpa [hr] using h)
      refine ⟨q, tail, hq, ?_⟩
      rw [List.takeWhile_cons_of_pos (by simpa using hr), List.cons_append, ← heq]

end

def Record.opened? (r : Record) : Option Enclosing :=
  match r.body with
  | .functionStart _ => some .function
  | .definition _ d =>
    match d.symbolClass with
    | .structTag => some (.composite .struct)
    | .unionTag => some (.composite .union)
    | .enumTag => some .enum
    | _ => none
  | _ => none

def Enclosing.closes : Enclosing → Record → Bool
  | .function, r => r.endsFunction
  | _, r => r.endsMembers

namespace Action

variable {σ τ α β : Type}

/-- Where it succeeds it takes no more records than there are, and more records
behind them make no difference. -/
def StaysWithin {ε σ : Type} (m : List Record → Action ε σ Nat) : Prop :=
  ∀ rest more s n, (m rest s).result = .ok n → n ≤ rest.length ∧ m (rest ++ more) s = m rest s

/-! ## Passes over what a span encloses -/

/-- The records up to the first that closes decide, and of these, if one is at fault, those up to that one. -/
structure PassesOver (closes : Record → Bool) (m : List Record → Action Inconsistency σ α) : Prop where
  closed : ∀ {inner : List Record} {r : Record}, (∀ q ∈ inner, closes q = false) → closes r = true →
    ∀ more more', m (inner ++ r :: more) = m (inner ++ r :: more')
  fault : ∀ {rest s e}, (m rest s).result = .error e → e.complaint.unclosed? = none ∧
    ∃ (before : List Record) (r : Record) (behind : List Record),
      rest = before ++ r :: behind ∧ e.index = before.length + 1 ∧ e.offset = r.offset ∧
      ∀ more, m (before ++ r :: more) s = m rest s

theorem overRecords_error {f : β → Record → Action Complaint σ β} {rs : List Record} : ∀ {i b s e},
    (overRecords f i b rs s).result = .error e →
    ∃ (before : List Record) (r : Record) (behind : List Record), rs = before ++ r :: behind ∧
      e.index = i + before.length ∧ e.offset = r.offset ∧ (∃ b' s', (f b' r s').result = .error e.complaint) ∧
      ∀ more, overRecords f i b (before ++ r :: more) s = overRecords f i b rs s := by
  induction rs with
  | nil => exact fun h => nomatch h
  | cons r rs ih =>
    intro i b s e h
    cases hr : (f b r s).result with
    | error c =>
      have hlocated : ((f b r).locate r i s).result = .error (c.located r i) := by
        unfold locate
        rw [mapError_run, hr]
        rfl
      rw [(overRecords_cons_of_error hr i rs).2] at h
      cases h
      refine ⟨[], r, rs, rfl, rfl, rfl, ⟨b, s, hr⟩, fun more => ?_⟩
      rw [List.nil_append, overRecords, overRecords, bind_run_of_error hlocated, bind_run_of_error hlocated]
    | ok b' =>
      have hlocated : ((f b r).locate r i s).result = .ok b' := by
        unfold locate
        rw [mapError_run, hr]
        rfl
      rw [(overRecords_cons_of_ok hr i rs).2] at h
      obtain ⟨before, q, behind, rfl, hindex, hoffset, hfault, hmore⟩ := ih h
      refine ⟨r :: before, q, behind, rfl, ?_, hoffset, hfault, fun more => ?_⟩
      · rw [hindex, List.length_cons]
        omega
      · have hstate : ((f b r).locate r i s).state = (f b r s).state := rfl
        rw [List.cons_append, overRecords, overRecords, bind_run_of_ok hlocated, bind_run_of_ok hlocated, hstate, hmore]

namespace PassesOver

variable {closes : Record → Bool}

theorem overRecords {f : β → Record → Action Complaint σ β} (hf : ∀ b r, Overlay.OfOneRecord (f b r)) (b : β) :
    PassesOver closes fun rest => Action.overRecords f 1 b (rest.takeWhile (!closes ·)) where
  closed hinner hr more more' := by
    rw [takeWhile_closed hinner hr, takeWhile_closed hinner hr]
  fault := by
    intro rest s e h
    obtain ⟨before, r, behind, hsplit, hindex, hoffset, ⟨b', s', hfault⟩, hmore⟩ := overRecords_error h
    obtain ⟨rest', hrest⟩ := List.takeWhile_prefix (!closes ·) (l := rest)
    refine ⟨hf b' r s' _ hfault, before, r, behind ++ rest', ?_, by omega, hoffset, fun more => ?_⟩
    · rw [← hrest, hsplit, List.append_assoc, List.cons_append]
    · -- none of the records that were gone through closes, so they are gone through again
      have hopen : ∀ q ∈ before ++ [r], (!closes q) = true := by
        intro q hq
        have hmem : q ∈ rest.takeWhile (!closes ·) := by
          rw [hsplit]
          obtain hq | hq := List.mem_append.mp hq
          · exact List.mem_append_left _ hq
          · exact List.mem_append_right _ (List.mem_cons.mpr (.inl (List.mem_singleton.mp hq)))
        simp [not_closes_of_mem hmem]
      have hagain : (before ++ r :: more).takeWhile (!closes ·) = before ++ r :: more.takeWhile (!closes ·) := by
        simpa using List.takeWhile_append_of_pos hopen
      rw [hagain, hmore]

theorem of_never {m : Action Inconsistency σ α} (hm : FailsWith (fun _ => False) m) : PassesOver closes fun _ => m where
  closed _ _ _ _ := rfl
  fault he := (hm _ _ he).elim

theorem after {m : Action Inconsistency σ α} {f : α → List Record → Action Inconsistency σ β}
    (hm : FailsWith (fun _ => False) m) (hf : ∀ a, PassesOver closes (f a)) :
    PassesOver closes fun rest => m >>= fun a => f a rest where
  closed hinner hr more more' := by
    simp only [(hf _).closed hinner hr more more']
  fault := by
    intro rest s e h
    cases hms : (m s).result with
    | error e' => exact (hm s e' hms).elim
    | ok a =>
      rw [bind_run_of_ok hms] at h
      obtain ⟨hnone, before, r, behind, hsplit, hindex, hoffset, hmore⟩ := (hf a).fault h
      refine ⟨hnone, before, r, behind, hsplit, hindex, hoffset, fun more => ?_⟩
      rw [bind_run_of_ok hms, bind_run_of_ok hms, hmore]

theorem andThen {m : List Record → Action Inconsistency σ α} {f : α → List Record → Action Inconsistency σ β}
    (hm : PassesOver closes m) (hf : ∀ a, PassesOver closes (f a))
    (hnever : ∀ a rest, FailsWith (fun _ => False) (f a rest)) :
    PassesOver closes fun rest => m rest >>= fun a => f a rest where
  closed hinner hr more more' := by
    simp only [hm.closed hinner hr more more', (hf _).closed hinner hr more more']
  fault := by
    intro rest s e h
    cases hms : (m rest s).result with
    | error e' =>
      rw [bind_run_of_error hms] at h
      cases h
      obtain ⟨hnone, before, r, behind, hsplit, hindex, hoffset, hmore⟩ := hm.fault hms
      refine ⟨hnone, before, r, behind, hsplit, hindex, hoffset, fun more => ?_⟩
      have hagain : (m (before ++ r :: more) s).result = .error e := by rw [hmore, hms]
      rw [bind_run_of_error hms, bind_run_of_error hagain, hmore]
    | ok a =>
      rw [bind_run_of_ok hms] at h
      exact (hnever a rest _ e h).elim

theorem fault_cut {m : List Record → Action Inconsistency σ α} (hm : PassesOver closes m) {rest s e}
    (h : (m rest s).result = .error e) (more : List Record) : m (rest.take e.index ++ more) s = m rest s := by
  obtain ⟨_, before, r, behind, hsplit, hindex, _, hmore⟩ := hm.fault h
  have htake : rest.take e.index ++ more = before ++ r :: more := by
    rw [hsplit, hindex, List.take_length_add_append]
    simp
  rw [htake, hmore]

theorem closed_cut {m : List Record → Action Inconsistency σ α} (hm : PassesOver closes m) {rest : List Record}
    (hany : rest.any closes) (more : List Record) :
    (rest.take ((rest.takeWhile (!closes ·)).length + 1) ++ more).takeWhile (!closes ·) = rest.takeWhile (!closes ·) ∧
      m (rest.take ((rest.takeWhile (!closes ·)).length + 1) ++ more) = m rest := by
  obtain ⟨r, behind, hr, hsplit⟩ := exists_closing hany
  have hinner : ∀ q ∈ rest.takeWhile (!closes ·), closes q = false := fun _ => not_closes_of_mem
  generalize rest.takeWhile (!closes ·) = inner at hinner hsplit
  subst hsplit
  have htake : (inner ++ r :: behind).take (inner.length + 1) ++ more = inner ++ r :: more := by
    rw [List.take_length_add_append]
    simp
  rw [htake]
  exact ⟨takeWhile_closed hinner hr more, hm.closed hinner hr more behind⟩

end PassesOver

/-! ## Steps that answer for what they say -/

/-- The number of followers that the outcome depends on; for want of a record that closes, it is all of them. -/
def reach : Except Inconsistency Nat → Option Nat
  | .ok n => some n
  | .error e => if e.complaint.unclosed? = none then some e.index else none

/-- A step from `head` takes only records that there are and blames only such; none behind its reach makes a
difference, and what it says does not end was opened by `head` and is not closed. -/
structure Answers (head : Record) (m : List Record → Action Inconsistency σ Nat) : Prop where
  within : ∀ {rest s n}, (m rest s).result = .ok n → n ≤ rest.length
  placed : ∀ {rest s e}, (m rest s).result = .error e → ∃ r, (head :: rest)[e.index]? = some r ∧ e.offset = r.offset
  foreseen : ∀ {rest s k}, reach (m rest s).result = some k → ∀ more, m (rest.take k ++ more) s = m rest s
  unclosed : ∀ {rest s e enclosing}, (m rest s).result = .error e → e.complaint.unclosed? = some enclosing →
    e.index = 0 ∧ head.opened? = some enclosing ∧ ∀ r ∈ rest, enclosing.closes r = false

abbrev FaultsAt (head : Record) (m : Action Inconsistency σ α) : Prop :=
  FailsWith (fun e => e.index = 0 ∧ e.offset = head.offset ∧ e.complaint.unclosed? = none) m

namespace Answers

variable {head : Record}

theorem bind {m : Action Inconsistency σ α} {f : α → List Record → Action Inconsistency σ Nat} (hm : FaultsAt head m)
    (hf : ∀ a, Answers head (f a)) : Answers head fun rest => m >>= fun a => f a rest where
  within h := by
    obtain ⟨a, _, h⟩ := exists_of_bind_ok h
    exact (hf a).within h
  placed := by
    intro rest s e h
    cases hms : (m s).result with
    | error e' =>
      rw [bind_run_of_error hms] at h
      cases h
      obtain ⟨hindex, hoffset, _⟩ := hm s e hms
      exact ⟨head, by rw [hindex]; rfl, hoffset⟩
    | ok a =>
      rw [bind_run_of_ok hms] at h
      exact (hf a).placed h
  foreseen := by
    intro rest s k h more
    cases hms : (m s).result with
    | error e' => rw [bind_run_of_error hms, bind_run_of_error hms]
    | ok a =>
      rw [bind_run_of_ok hms] at h
      rw [bind_run_of_ok hms, bind_run_of_ok hms, (hf a).foreseen h]
  unclosed := by
    intro rest s e enclosing h henclosing
    cases hms : (m s).result with
    | error e' =>
      rw [bind_run_of_error hms] at h
      cases h
      rw [(hm s e hms).2.2] at henclosing
      exact nomatch henclosing
    | ok a =>
      rw [bind_run_of_ok hms] at h
      exact (hf a).unclosed h henclosing

theorem alone {m : Action Inconsistency σ Nat} (hm : FaultsAt head m) (hzero : ∀ s n, (m s).result = .ok n → n = 0) :
    Answers head fun _ => m where
  within h := by
    rw [hzero _ _ h]
    exact Nat.zero_le _
  placed h := by
    obtain ⟨hindex, hoffset, _⟩ := hm _ _ h
    exact ⟨head, by rw [hindex]; rfl, hoffset⟩
  foreseen _ _ := rfl
  unclosed h henclosing := by
    rw [(hm _ _ h).2.2] at henclosing
    exact nomatch henclosing

theorem single {m : Action Inconsistency σ Unit} (hm : FaultsAt head m) : Answers head fun _ => do m; return 0 := by
  refine alone (hm.bind fun _ => .pure 0) fun s n hn => ?_
  obtain ⟨_, _, hzero⟩ := exists_of_bind_ok hn
  cases hzero
  rfl

theorem complains {c : Complaint} (hc : c.unclosed? = none) :
    Answers head fun _ => (fail c : Action Complaint σ Nat).locate head 0 :=
  alone ((FailsWith.fail (P := fun c => c.unclosed? = none) hc).locate head 0) fun _ _ h => nomatch h

/-- A span that fails either does so inside or is not closed. -/
theorem error_upTo {enclosing : Enclosing} {body : List Record → Action Inconsistency σ Unit} {c : Complaint}
    {rest : List Record} {s : σ} {e : Inconsistency}
    (h : ((body rest >>= fun _ =>
      if (rest.takeWhile (!enclosing.closes ·)).length < rest.length then
        pure ((rest.takeWhile (!enclosing.closes ·)).length + 1)
      else (fail c).locate head 0 : Action Inconsistency σ Nat) s).result = .error e) :
    (body rest s).result = .error e ∨ e = c.located head 0 ∧ ∀ r ∈ rest, enclosing.closes r = false := by
  cases hms : (body rest s).result with
  | error e' =>
    rw [bind_run_of_error hms] at h
    cases h
    exact .inl rfl
  | ok _ =>
    rw [bind_run_of_ok hms] at h
    split at h
    · exact nomatch h
    · rename_i hlt
      cases h
      rw [length_takeWhile_lt_iff] at hlt
      refine .inr ⟨rfl, fun r hr => ?_⟩
      simpa using fun hcloses => hlt (List.any_eq_true.mpr ⟨r, hr, hcloses⟩)

theorem upTo {enclosing : Enclosing} (hopened : head.opened? = some enclosing)
    {body : List Record → Action Inconsistency σ Unit} (hbody : PassesOver enclosing.closes body) {c : Complaint}
    (hc : c.unclosed? = some enclosing) :
    Answers head fun rest => body rest >>= fun _ =>
      if (rest.takeWhile (!enclosing.closes ·)).length < rest.length then
        pure ((rest.takeWhile (!enclosing.closes ·)).length + 1)
      else (fail c).locate head 0 where
  within := by
    intro rest s n h
    obtain ⟨_, _, hend⟩ := exists_of_bind_ok h
    split at hend
    · rename_i hlt
      cases hend
      exact hlt
    · exact nomatch hend
  placed := by
    intro rest s e h
    obtain hinside | ⟨rfl, _⟩ := error_upTo h
    · obtain ⟨_, before, r, behind, rfl, hindex, hoffset, _⟩ := hbody.fault hinside
      exact ⟨r, by rw [hindex]; simp, hoffset⟩
    · exact ⟨head, rfl, rfl⟩
  foreseen := by
    intro rest s k h more
    cases hms : (body rest s).result with
    | error e =>
      rw [bind_run_of_error hms] at h
      simp only [reach, (hbody.fault hms).1, if_true, Option.some.injEq] at h
      subst h
      have hsame := hbody.fault_cut hms more
      have hagain : (body (rest.take e.index ++ more) s).result = .error e := by rw [hsame, hms]
      rw [bind_run_of_error hms, bind_run_of_error hagain, hsame]
    | ok _ =>
      rw [bind_run_of_ok hms] at h
      by_cases hlt : (rest.takeWhile (!enclosing.closes ·)).length < rest.length
      · rw [if_pos hlt] at h
        cases h
        obtain ⟨hinner, hsame⟩ := hbody.closed_cut (length_takeWhile_lt_iff.mp hlt) more
        have hlonger : (rest.takeWhile (!enclosing.closes ·)).length <
            (rest.take ((rest.takeWhile (!enclosing.closes ·)).length + 1) ++ more).length := by
          rw [List.length_append, List.length_take]
          omega
        rw [hinner, if_pos hlonger, if_pos hlt, hsame]
      · rw [if_neg hlt] at h
        have hnone : reach (.error (c.located head 0)) = some k := h
        have hunclosed : (c.located head 0).complaint.unclosed? = some enclosing := hc
        simp [reach, hunclosed] at hnone
  unclosed := by
    intro rest s e enclosing' h henclosing
    obtain hinside | ⟨rfl, hopen⟩ := error_upTo h
    · rw [(hbody.fault hinside).1] at henclosing
      exact nomatch henclosing
    · have hsame : enclosing = enclosing' := Option.some.inj (hc.symm.trans henclosing)
      subst hsame
      exact ⟨rfl, hopened, hopen⟩

theorem onCurrent {m : List Record → Action Inconsistency Overlay Nat} (h : Answers head m) :
    Answers head fun rest => Builder.onCurrent (m rest) where
  within hn := h.within hn
  placed he := h.placed he
  foreseen hk more := by
    show Outcome.mk _ _ _ = Outcome.mk _ _ _
    rw [h.foreseen hk more]
  unclosed he := h.unclosed he

theorem congr {m : List Record → Action Inconsistency σ Nat} (h : Answers head m) {rest other : List Record} {s : σ}
    {k : Nat} (hk : reach (m rest s).result = some k) (hother : other.take k = rest.take k) : m other s = m rest s := by
  have hsame := h.foreseen hk (other.drop k)
  rw [← hother, List.take_append_drop] at hsame
  exact hsame

theorem staysWithin {m : List Record → Action Inconsistency σ Nat} (h : Answers head m) : StaysWithin m := by
  intro rest more s n hn
  have hreach : reach (m rest s).result = some n := by rw [hn]; rfl
  have hsame := h.foreseen hreach (rest.drop n ++ more)
  rw [← List.append_assoc, List.take_append_drop] at hsame
  exact ⟨h.within hn, hsame⟩

end Answers

end Action

namespace Overlay

open DebugSymbols.Action (Answers PassesOver FailsWith)

variable {head : Record}

/-! ## Members -/

theorem answers_members {enclosing : Enclosing} (hopened : head.opened? = some enclosing)
    (hcloses : enclosing.closes = Record.endsMembers) (tag : Tag) {member : Record → Action Complaint Overlay Unit}
    (hmember : ∀ r, OfOneRecord (member r)) : Answers head (members head enclosing tag member) := by
  have hbody : PassesOver enclosing.closes _ := .overRecords (fun _ : Unit => hmember) ()
  have hanswers := Answers.upTo hopened hbody (c := { name := tag.text, cause := .unterminated enclosing }) rfl
  rw [hcloses] at hanswers
  exact hanswers

theorem answers_compositeRun {kind : CompositeKind} (hopened : head.opened? = some (.composite kind)) (d : SymbolDef) :
    Answers head (compositeRun kind head d) :=
  .bind ((ofOneRecord_checkTagBase d _ _).locate head 0) fun _ => .bind (failsWith_openComposite _ _ _) fun _ =>
    answers_members hopened rfl _ fun _ => ofOneRecord_compositeMember _ _ _ _

theorem answers_enumRun (hopened : head.opened? = some .enum) (d : SymbolDef) : Answers head (enumRun head d) :=
  .bind ((ofOneRecord_checkTagBase d _ _).locate head 0) fun _ => .bind (failsWith_openEnum _) fun _ =>
    answers_members hopened rfl _ fun _ => ofOneRecord_enumMember _ _ _

/-! ## Function spans -/

theorem isSome_functionEnd? (r : Record) : r.functionEnd?.isSome = r.endsFunction := by
  unfold Record.functionEnd? Record.endsFunction
  cases r.body <;> rfl

theorem isSome_findSome?_functionEnd? (rest : List Record) :
    (rest.findSome? Record.functionEnd?).isSome ↔
      (rest.takeWhile (!·.endsFunction)).length < rest.length := by
  rw [length_takeWhile_lt_iff, List.isSome_findSome?]
  simp only [isSome_functionEnd?]

def endBody? (f : Nat) (line : Option UInt32) (o : Overlay) : Overlay :=
  line.elim o fun line => endBody f line o

theorem recordBody_eq (f : Nat) (start : FunctionStart) (addr : UInt32) (inner : List Record) (line : Option UInt32) :
    recordBody f start addr inner line =
      (do Action.modify (startBody f start addr)
          let _ ← Action.overRecords (bodyRecord f start) 1 [] inner
          Action.modify (endBody? f line)) := by
  cases line <;> rfl

theorem passesOver_recordBody (f : Nat) (start : FunctionStart) (addr : UInt32) :
    PassesOver Record.endsFunction fun rest =>
      recordBody f start addr (rest.takeWhile (!·.endsFunction)) (rest.findSome? Record.functionEnd?) := by
  simp only [recordBody_eq]
  refine .after (.modify _) fun _ => ?_
  refine .andThen (.overRecords (ofOneRecord_bodyRecord f start) []) (fun _ => ?_) fun _ rest => ?_
  · constructor
    · -- the first record that closes is the first that has a line
      intro inner r hinner hr more more'
      have hline : ∀ more : List Record, (inner ++ r :: more).findSome? Record.functionEnd? = r.functionEnd? := by
        intro more
        have hnone : inner.findSome? Record.functionEnd? = none := List.findSome?_eq_none_iff.mpr fun q hq => by
          rw [← Option.not_isSome_iff_eq_none, isSome_functionEnd?, hinner q hq]
          exact Bool.false_ne_true
        have hsome : r.functionEnd?.isSome = true := (isSome_functionEnd? r).trans hr
        obtain ⟨line, hr⟩ := Option.isSome_iff_exists.mp hsome
        rw [List.findSome?_append, hnone, Option.none_or, List.findSome?_cons, hr]
      rw [hline, hline]
    · intro rest s e h
      cases h
  · exact .modify _

theorem answers_functionSpan {start : FunctionStart} (hopened : head.opened? = some .function) :
    Answers head (functionSpan head start) := by
  refine .bind (failsWith_locateFunction _ _) fun f => .bind .read fun o => ?_
  simp only [isSome_findSome?_functionEnd?]
  by_cases hbody : (o.func f).hasBody = true
  · simp only [if_pos hbody]
    exact .upTo hopened (.of_never (.report _)) rfl
  · simp only [if_neg hbody]
    exact .upTo hopened (passesOver_recordBody f start head.value) rfl

/-! ## Top level -/

theorem answers_definition {form : Form} {d : SymbolDef} (hhead : head.body = .definition form d) :
    Answers head (definition head d) := by
  have hopened : ∀ {enclosing}, (match d.symbolClass with
      | .structTag => some (.composite .struct)
      | .unionTag => some (.composite .union)
      | .enumTag => some .enum
      | _ => none) = some enclosing → head.opened? = some enclosing := by
    intro enclosing h
    unfold Record.opened?
    rw [hhead]
    exact h
  unfold definition
  dsimp only
  split
  · exact .single ((ofOneRecord_global _ _ _).locate head 0)
  · exact .single ((ofOneRecord_global _ _ _).locate head 0)
  · rename_i hclass
    exact answers_compositeRun (hopened (by rw [hclass])) d
  · rename_i hclass
    exact answers_compositeRun (hopened (by rw [hclass])) d
  · rename_i hclass
    exact answers_enumRun (hopened (by rw [hclass])) d
  · exact .single ((ofOneRecord_typedef _ _).locate head 0)
  · exact .single (FailsWith.locate (FailsWith.report _ : OfOneRecord _) head 0)
  all_goals exact .complains rfl

end Overlay

namespace Builder

open DebugSymbols.Action (Answers FailsWith StaysWithin)

theorem answers_step {head : Record} (h : head.isLine = false) : Answers head (step head) := by
  unfold step
  split
  · exact .single ((FailsWith.modify _).onPart _ _)
  · rename_i hbody
    unfold Record.isLine at h
    rw [hbody] at h
    exact nomatch h
  · rename_i hbody
    exact .onCurrent (Overlay.answers_functionSpan (by unfold Record.opened?; rw [hbody]))
  · exact .complains rfl
  · exact .complains rfl
  · exact .complains rfl
  · rename_i hbody
    exact .onCurrent (Overlay.answers_definition hbody)
  · exact .single ((ofOneRecord_addOverlay _ _ _).locate head 0)
  · exact .single ((ofOneRecord_switchOverlay _).locate head 0)

theorem staysWithin_step {head : Record} (h : head.isLine = false) : StaysWithin (step head) :=
  (answers_step h).staysWithin

end Builder

end DebugSymbols
