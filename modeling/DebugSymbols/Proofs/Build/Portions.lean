import DebugSymbols.Proofs.Build.Excerpts
import DebugSymbols.Proofs.Build.History

/-!
# Portions

What a single step takes: one record, or a record that opens a span with all up
to the first one that closes it, or a run of line records. `takesPortion_step`: a
step that succeeds takes a portion, whatever was built before.
-/

namespace DebugSymbols

/-- The records in front of the others are what one step is to take. A run of line
records goes on for as long as they come, but not beyond the first that ends the
line information. -/
inductive Portion : List Record → List Record → Prop
  | alone {r : Record} {behind : List Record} (hline : r.isLine = false) (hopened : r.opened? = none) :
      Portion [r] behind
  | span {head last : Record} {enclosing : Enclosing} {inner behind : List Record}
      (hopened : head.opened? = some enclosing) (hinner : ∀ r ∈ inner, enclosing.closes r = false)
      (hlast : enclosing.closes last = true) : Portion (head :: inner ++ [last]) behind
  | ended {inner behind : List Record} {last : Record} (hinner : OpenLines inner) (hlast : last.endsLines = true) :
      Portion (inner ++ [last]) behind
  | lines {run behind : List Record} (hne : run ≠ []) (hrun : OpenLines run)
      (hbehind : ∀ r ∈ behind.head?, r.isLine = false) : Portion run behind

inductive Parted : List (List Record) → List Record → Prop
  | nil : Parted [] []
  | cons {part behind : List Record} {parts : List (List Record)} (hpart : Portion part behind)
      (hbehind : Parted parts behind) : Parted (part :: parts) (part ++ behind)

theorem Parted.flatten {parts : List (List Record)} {records : List Record} (h : Parted parts records) :
    parts.flatten = records := by
  induction h with
  | nil => rfl
  | cons _ _ ih => rw [List.flatten_cons, ih]

/-! ## Line runs -/

theorem lineRun_cases (rs : List Record) : ∃ inner, OpenLines inner ∧
    ((∃ last behind, last.endsLines = true ∧ rs = inner ++ last :: behind ∧ lineRun rs = inner ++ [last]) ∨
      ∃ behind, (∀ r ∈ behind.head?, r.isLine = false) ∧ rs = inner ++ behind ∧ lineRun rs = inner) := by
  induction rs with
  | nil => exact ⟨[], by simp [OpenLines], .inr ⟨[], by simp, rfl, rfl⟩⟩
  | cons r rs ih =>
    by_cases hend : r.endsLines = true
    · exact ⟨[], by simp [OpenLines], .inl ⟨r, rs, hend, rfl, by simp [lineRun, hend]⟩⟩
    · by_cases hline : r.isLine = true
      · have hopen : r.isLine = true ∧ r.endsLines = false := ⟨hline, by simpa using hend⟩
        obtain ⟨inner, hinner, hcases⟩ := ih
        refine ⟨r :: inner, List.forall_mem_cons.mpr ⟨hopen, hinner⟩, ?_⟩
        rw [lineRun_cons_open hopen]
        rcases hcases with ⟨last, behind, hlast, rfl, hrun⟩ | ⟨behind, hbehind, rfl, hrun⟩
        · exact .inl ⟨last, behind, hlast, rfl, by rw [hrun]; rfl⟩
        · exact .inr ⟨behind, hbehind, rfl, by rw [hrun]⟩
      · exact ⟨[], by simp [OpenLines], .inr ⟨r :: rs, by simpa using hline, rfl, by simp [lineRun, hend, hline]⟩⟩

theorem portion_lineRun {rs : List Record} (h : lineRun rs ≠ []) :
    Portion (lineRun rs) (rs.drop (lineRun rs).length) := by
  obtain ⟨inner, hinner, ⟨last, behind, hlast, rfl, hrun⟩ | ⟨behind, hbehind, rfl, hrun⟩⟩ := lineRun_cases rs
  · rw [hrun]
    exact .ended hinner hlast
  · rw [hrun] at h ⊢
    rw [List.drop_left]
    exact .lines h hinner hbehind

/-! ## Actions that take portions -/

namespace Action

variable {ε σ α : Type} {head : Record}

/-- Where it succeeds it takes no more records than there are, with `head` a portion. -/
def TakesPortion (head : Record) (m : List Record → Action ε σ Nat) : Prop :=
  ∀ rest s n, (m rest s).result = .ok n → n ≤ rest.length ∧ Portion (head :: rest.take n) (rest.drop n)

namespace TakesPortion

theorem bind {m : Action ε σ α} {f : α → List Record → Action ε σ Nat} (h : ∀ a, TakesPortion head (f a)) :
    TakesPortion head fun rest => m >>= fun a => f a rest := by
  intro rest s n hn
  obtain ⟨a, _, hf⟩ := exists_of_bind_ok hn
  exact h a rest _ n hf

theorem single (hline : head.isLine = false) (hopened : head.opened? = none) (m : Action ε σ Unit) :
    TakesPortion head fun _ => do m; return 0 := by
  intro rest s n hn
  obtain ⟨_, _, hzero⟩ := exists_of_bind_ok hn
  cases hzero
  exact ⟨Nat.zero_le _, .alone hline hopened⟩

theorem of_fails {m : Action ε σ Nat} (h : ∀ s n, (m s).result ≠ .ok n) : TakesPortion head fun _ => m :=
  fun _ s n hn => absurd hn (h s n)

theorem upTo {enclosing : Enclosing} (hopened : head.opened? = some enclosing)
    (body : List Record → Action ε σ Unit) (unclosed : Action ε σ Nat)
    (hfail : ∀ s n, (unclosed s).result ≠ .ok n) :
    TakesPortion head fun rest => body rest >>= fun _ =>
      if (rest.takeWhile (!enclosing.closes ·)).length < rest.length then
        pure ((rest.takeWhile (!enclosing.closes ·)).length + 1)
      else unclosed := by
  intro rest s n hn
  obtain ⟨_, _, hend⟩ := exists_of_bind_ok hn
  by_cases hlt : (rest.takeWhile (!enclosing.closes ·)).length < rest.length
  · rw [if_pos hlt] at hend
    cases hend
    obtain ⟨last, behind, hlast, _, htake⟩ := exists_take_closing (length_takeWhile_lt_iff.mp hlt)
    refine ⟨hlt, ?_⟩
    rw [htake, ← List.cons_append]
    exact .span hopened (fun _ => not_closes_of_mem) hlast
  · rw [if_neg hlt] at hend
    exact absurd hend (hfail _ n)

end TakesPortion

end Action

namespace Overlay

open DebugSymbols.Action (TakesPortion)

variable {head : Record}

theorem takesPortion_members {enclosing : Enclosing} (hopened : head.opened? = some enclosing)
    (hcloses : enclosing.closes = Record.endsMembers) (tag : Tag) (member : Record → Action Complaint Overlay Unit) :
    TakesPortion head (members head enclosing tag member) := by
  have hbody := TakesPortion.upTo hopened
    (fun rest => Action.overRecords (fun _ => member) 1 () (rest.takeWhile (!enclosing.closes ·)))
    ((Action.fail { name := tag.text, cause := .unterminated enclosing }).locate head 0)
    fun _ _ h => nomatch h
  rw [hcloses] at hbody
  exact hbody

theorem takesPortion_functionSpan (hopened : head.opened? = some .function) (start : FunctionStart) :
    TakesPortion head (functionSpan head start) := by
  refine .bind fun f => .bind fun o => ?_
  simp only [isSome_findSome?_functionEnd?]
  by_cases hbody : (o.func f).hasBody = true
  · simp only [if_pos hbody]
    exact .upTo hopened _ _ fun _ _ h => nomatch h
  · simp only [if_neg hbody]
    exact .upTo hopened _ _ fun _ _ h => nomatch h

theorem takesPortion_definition {form : Form} {d : SymbolDef} (hhead : head.body = .definition form d) :
    TakesPortion head (definition head d) := by
  have hline : head.isLine = false := by simp [Record.isLine, hhead]
  unfold definition
  cases hclass : d.symbolClass with
  | external | static | typedef | file => exact .single hline (by simp [Record.opened?, hhead, hclass]) _
  | structTag | unionTag | enumTag =>
    -- the base is checked and the type opened before the members come
    refine .bind fun _ => .bind fun _ => ?_
    exact takesPortion_members (by simp [Record.opened?, hhead, hclass]) rfl _ _
  | _ => exact .of_fails fun _ _ h => nomatch h

end Overlay

namespace Builder

open DebugSymbols.Action (TakesPortion exists_of_bind_ok)

variable {head : Record}

theorem takesPortion_lines (hline : head.isLine = true) : TakesPortion head (lines head) := by
  intro rest b n hn
  obtain ⟨_, _, hlength⟩ := exists_of_bind_ok hn
  cases hlength
  have htaken := cons_take_lineRun hline rest
  have hne : lineRun (head :: rest) ≠ [] := by
    rw [← htaken]
    exact List.cons_ne_nil _ _
  have hsucc : (lineRun (head :: rest)).length - 1 + 1 = (lineRun (head :: rest)).length :=
    Nat.sub_add_cancel (List.length_pos_iff.mpr hne)
  have hle := length_lineRun_le (head :: rest)
  rw [← hsucc, List.length_cons] at hle
  refine ⟨Nat.le_of_succ_le_succ hle, ?_⟩
  have hportion := portion_lineRun hne
  rw [← hsucc, List.drop_succ_cons] at hportion
  rw [htaken]
  exact hportion

theorem takesPortion_onCurrent {m : List Record → Action Inconsistency Overlay Nat} (h : TakesPortion head m) :
    TakesPortion head fun rest => onCurrent (m rest) :=
  fun rest b n hn => h rest b.currentOverlay n hn

theorem takesPortion_step (head : Record) : TakesPortion head (step head) := by
  by_cases hline : head.isLine = true
  · intro rest
    rw [step_of_isLine hline]
    exact takesPortion_lines hline rest
  · have hline : head.isLine = false := by simpa using hline
    unfold step
    cases hbody : head.body with
    | symbol | overlay | setOverlay => exact .single hline (by simp [Record.opened?, hbody]) _
    | line op => simp [Record.isLine, hbody] at hline
    | functionStart start =>
      exact takesPortion_onCurrent (Overlay.takesPortion_functionSpan (by simp [Record.opened?, hbody]) start)
    | functionEnd | blockStart | blockEnd => exact .of_fails fun _ _ h => nomatch h
    | definition form d => exact takesPortion_onCurrent (Overlay.takesPortion_definition hbody)

/-! ## Walks -/

theorem parted_steps (rs : List Record) (b : Builder) (h : ∀ s ∈ steps b rs, ∃ n, s.outcome.result = .ok n) :
    Parted ((steps b rs).map Step.taken) rs := by
  fun_induction steps b rs with
  | case1 => exact .nil
  | case2 b r rs ih =>
    obtain ⟨⟨n, hn⟩, hrest⟩ := List.forall_mem_cons.mp h
    have hresult : (step r rs b).result = .ok n := hn
    rw [hresult] at hrest
    obtain ⟨-, hportion⟩ := takesPortion_step r rs b n hresult
    have hparted := Parted.cons hportion (ih n hrest)
    rw [List.cons_append, List.take_append_drop] at hparted
    rw [List.map_cons, hresult, Step.taken_of_ok hn]
    exact hparted

theorem taken_steps (rs : List Record) (b : Builder) (hok : ∀ s ∈ steps b rs, ∃ n, s.outcome.result = .ok n) :
    (steps b rs).flatMap Step.taken = rs := by
  rw [List.flatMap_def]
  exact (parted_steps rs b hok).flatten

end Builder

end DebugSymbols
