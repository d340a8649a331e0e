import DebugSymbols.Proofs.Build.Functions
import DebugSymbols.Proofs.Independence

/-!
# Repeated function spans

`repeatedSpan_iff`: a span of a function may be left out of the stream if and
only if a span of that function, in the same overlay, has come before it with a
line or a path in its start. A function that has a body never changes.
-/

namespace DebugSymbols.Builder

open Relation (ReflTransGen)

variable {b c : Builder} {k f i : Nat} {name : String} {addr : UInt32}

/-! ## One step -/

def KeepsBodies (b b' : Builder) : Prop :=
  ∀ k, (b.overlayAt k).KeepsBodies (b'.overlayAt k)

theorem KeepsBodies.refl (b : Builder) : b.KeepsBodies b := fun k =>
  (Overlay.AddsFuncs.refl (b.overlayAt k)).keepsBodies

theorem KeepsBodies.trans {b b' b'' : Builder} (h : b.KeepsBodies b') (h' : b'.KeepsBodies b'') : b.KeepsBodies b'' :=
  fun k => (h k).trans (h' k)

namespace Step

variable {s : Step}

/-- The step takes a span of that function, in the overlay in position `k`. -/
structure IsSpan (s : Step) (k : Nat) (name : String) (addr : UInt32) (start : FunctionStart) : Prop where
  current : s.before.current = k
  head : s.head.body = .functionStart start
  name : Text.identifier start.name = name
  addr : s.head.value = addr

theorem funcs_of_unvisited (h : ¬ (s.head.isContent = true ∧ s.before.current = k)) :
    (∀ i, (s.after.overlayAt k).func i = (s.before.overlayAt k).func i) ∧
      (s.after.overlayAt k).funcs.length = (s.before.overlayAt k).funcs.length ∧
      (s.after.overlayAt k).funcNames = (s.before.overlayAt k).funcNames := by
  have hsame : (s.after.overlayAt k).unplaced = (s.before.overlayAt k).unplaced :=
    unplaced_step (fun hhead hk => h ⟨hhead, hk⟩) s.rest
  have hfuncs : (s.after.overlayAt k).unplaced.funcs = (s.before.overlayAt k).unplaced.funcs := by rw [hsame]
  have hnames : (s.after.overlayAt k).unplaced.funcNames = (s.before.overlayAt k).unplaced.funcNames := by rw [hsame]
  exact ⟨fun i => congrArg (fun fs => List.getD fs i default) hfuncs, congrArg List.length hfuncs, hnames⟩

theorem keepsBodies (hs : ReflTransGen Edit {} s.before) : s.before.KeepsBodies s.after := by
  intro k
  by_cases hvisit : s.head.isContent = true ∧ s.before.current = k
  · obtain ⟨hhead, rfl⟩ := hvisit
    rw [(visit hs hhead).1]
    exact Overlay.keepsBodies_contentStep (namesGrouped_of_edits hs _) s.head s.rest
  · obtain ⟨hfunc, hlength, hnames⟩ := funcs_of_unvisited hvisit
    exact ⟨Nat.le_of_eq hlength.symm, fun _ => hnames ▸ List.prefix_rfl, fun i _ => by rw [hfunc], fun i _ => hfunc i⟩

theorem body_of_step (hs : ReflTransGen Edit {} s.before) (hbefore : ((s.before.overlayAt k).func i).hasBody = false)
    (hafter : ((s.after.overlayAt k).func i).hasBody = true) :
    ∃ start, s.IsSpan k (Text.identifier start.name) s.head.value start ∧ start.isPlaced = true ∧
      (s.after.overlayAt k).function? (Text.identifier start.name) s.head.value = some i := by
  by_cases hvisit : s.head.isContent = true ∧ s.before.current = k
  · obtain ⟨hhead, rfl⟩ := hvisit
    rw [(visit hs hhead).1] at hafter ⊢
    obtain ⟨start, hbody, hplaced, hfound⟩ :=
      Overlay.body_of_contentStep (namesGrouped_of_edits hs s.before.current) hbefore hafter
    exact ⟨start, ⟨rfl, hbody, rfl, rfl⟩, hplaced, hfound⟩
  · rw [(funcs_of_unvisited hvisit).1, hbefore] at hafter
    exact absurd hafter Bool.false_ne_true

theorem span_of_step (hs : ReflTransGen Edit {} s.before) (hi : i < (s.before.overlayAt k).funcs.length)
    (hne : (s.after.overlayAt k).func i ≠ (s.before.overlayAt k).func i) :
    ∃ start, s.IsSpan k (Text.identifier start.name) s.head.value start ∧
      (s.after.overlayAt k).function? (Text.identifier start.name) s.head.value = some i := by
  by_cases hvisit : s.head.isContent = true ∧ s.before.current = k
  · obtain ⟨hhead, rfl⟩ := hvisit
    rw [(visit hs hhead).1] at hne ⊢
    obtain ⟨start, hbody, hfound⟩ := Overlay.span_of_contentStep (namesGrouped_of_edits hs s.before.current) hi hne
    exact ⟨start, ⟨rfl, hbody, rfl, rfl⟩, hfound⟩
  · exact absurd ((funcs_of_unvisited hvisit).1 i) hne

theorem IsSpan.hasBody {start : FunctionStart} (h : s.IsSpan k name addr start) (hs : ReflTransGen Edit {} s.before)
    (hplaced : start.isPlaced = true) :
    ∃ f, (s.after.overlayAt k).function? name addr = some f ∧ ((s.after.overlayAt k).func f).hasBody = true := by
  obtain ⟨rfl, hhead, rfl, rfl⟩ := h
  rw [(visit_span hs hhead).1]
  exact Overlay.hasBody_functionSpan (namesGrouped_of_edits hs _) s.head hplaced s.rest

end Step

/-! ## Many steps -/

theorem Path.keepsBodies {ss : List Step} (h : Path b ss c) (hb : ReflTransGen Edit {} b) : b.KeepsBodies c := by
  induction h with
  | nil => exact .refl _
  | cons _ ih => exact (Step.keepsBodies hb).trans (ih (Step.reached hb))

theorem Path.body_or {ss : List Step} (h : Path b ss c) (hb : ReflTransGen Edit {} b)
    (hi : ((c.overlayAt k).func i).hasBody = true) :
    ((b.overlayAt k).func i).hasBody = true ∨
      ∃ s ∈ ss, ∃ start, s.IsSpan k (Text.identifier start.name) s.head.value start ∧ start.isPlaced = true ∧
        (c.overlayAt k).function? (Text.identifier start.name) s.head.value = some i := by
  induction h with
  | nil => exact .inl hi
  | @cons s ss c hpath ih =>
    have hafter := Step.reached hb
    obtain hbody | ⟨t, ht, start, hspan⟩ := ih hafter hi
    · by_cases hbefore : ((s.before.overlayAt k).func i).hasBody = true
      · exact .inl hbefore
      · obtain ⟨start, hspan, hplaced, hfound⟩ := Step.body_of_step hb (Bool.eq_false_iff.mpr hbefore) hbody
        have hkept := (hpath.keepsBodies hafter k).function? (namesGrouped_of_edits hafter k) hfound
        exact .inr ⟨s, List.mem_cons_self, start, hspan, hplaced, hkept⟩
    · exact .inr ⟨t, List.mem_cons_of_mem _ ht, start, hspan⟩

theorem Path.hasBody_iff {ss : List Step} (h : Path {} ss c) (k : Nat) (name : String) (addr : UInt32) :
    (∃ f, (c.overlayAt k).function? name addr = some f ∧ ((c.overlayAt k).func f).hasBody = true) ↔
      ∃ s ∈ ss, ∃ start, s.IsSpan k name addr start ∧ start.isPlaced = true := by
  have hreached := (h.edits inRange_new).1
  have hgrouped := namesGrouped_of_edits hreached k
  constructor
  · rintro ⟨f, hf, hbody⟩
    obtain hnew | ⟨s, hs, start, hspan, hplaced, hfound⟩ := h.body_or .refl hbody
    · have hnone : (({} : Builder).overlayAt k).funcs = [] := by cases k <;> rfl
      have hlt := Overlay.lt_of_hasBody hnew
      rw [hnone] at hlt
      exact absurd hlt (Nat.not_lt_zero f)
    · obtain ⟨hmem, _, haddr⟩ := Overlay.function?_spec hgrouped hf
      obtain ⟨hmem', _, haddr'⟩ := Overlay.function?_spec hgrouped hfound
      refine ⟨s, hs, start, ?_, hplaced⟩
      rw [hgrouped.name_unique hmem hmem', ← haddr, haddr']
      exact hspan
  · rintro ⟨s, hs, start, hspan, hplaced⟩
    obtain ⟨front, back, rfl⟩ := List.append_of_mem hs
    have hbefore := ((h.edits inRange_new).2 s hs).1
    obtain ⟨f, hf, hbody⟩ := hspan.hasBody hbefore hplaced
    have hkeeps := h.split.2.keepsBodies (Step.reached hbefore) k
    exact ⟨f, hkeeps.function? (namesGrouped_of_edits (Step.reached hbefore) k) hf, hkeeps.hasBody hbody⟩

/-! ## One span more -/

theorem walk_cons_of_ok {r : Record} {rs : List Record} {n : Nat} (h : (step r rs b).result = .ok n) :
    (walk (r :: rs) b).state = (walk (rs.drop n) (step r rs b).state).state ∧
      (walk (r :: rs) b).result = (walk (rs.drop n) (step r rs b).state).result.mapError (·.shift (1 + n)) := by
  have hlocated : ((step r rs).mapError (·.shift 0) b).result = .ok n := Action.mapError_of_ok h _
  have hrun := Action.bind_run_of_ok (f := fun n => walkFrom (0 + 1 + n) (rs.drop n)) hlocated
  rw [← walkFrom_cons, Action.mapError_run, Nat.zero_add, ← Nat.add_zero (1 + n), ← walkFrom_shift,
    Action.mapError_run] at hrun
  show (walkFrom 0 (r :: rs) b).state = _ ∧ (walkFrom 0 (r :: rs) b).result = _
  rw [hrun]
  exact ⟨rfl, rfl⟩

theorem walk_cons_of_error {r : Record} {rs : List Record} {e : Inconsistency} (h : (step r rs b).result = .error e) :
    (walk (r :: rs) b).state = (step r rs b).state := by
  have hlocated : ((step r rs).mapError (·.shift 0) b).result = .error (e.shift 0) := Action.mapError_of_error h _
  have hrun := Action.bind_run_of_error (f := fun n => walkFrom (0 + 1 + n) (rs.drop n)) hlocated
  rw [← walkFrom_cons] at hrun
  show (walkFrom 0 (r :: rs) b).state = _
  rw [hrun]
  rfl

theorem step_functionStart {head : Record} {start : FunctionStart} (hhead : head.body = .functionStart start)
    (rest : List Record) : step head rest = onCurrent (Overlay.functionSpan head start rest) := by
  unfold step
  rw [hhead]

section
variable {head last : Record} {inner : List Record} {start : FunctionStart}
  (hinner : ∀ r ∈ inner, r.endsFunction = false) (hlast : last.endsFunction = true)
include hinner hlast

theorem spanResult_span (head : Record) (start : FunctionStart) (ys : List Record) :
    Overlay.spanResult head start (inner ++ last :: ys) = .ok (inner.length + 1) := by
  have htake : (inner ++ last :: ys).takeWhile (!·.endsFunction) = inner := by
    rw [List.takeWhile_append_of_pos fun r hr => by simp [hinner r hr]]
    simp [hlast]
  have hend : ((inner ++ last :: ys).findSome? Record.functionEnd?).isSome = true := by
    rw [Overlay.isSome_findSome?_functionEnd?, htake]
    simp
  rw [Overlay.spanResult, if_pos hend, htake]

variable (hhead : head.body = .functionStart start)
include hhead

theorem walk_repeated (hb : ReflTransGen Edit {} b)
    (hf : b.currentOverlay.function? (Text.identifier start.name) head.value = some f)
    (hbody : (b.currentOverlay.func f).hasBody = true) (ys : List Record) :
    (walk (head :: inner ++ [last] ++ ys) b).state = (walk ys b).state ∧
      (walk (head :: inner ++ [last] ++ ys) b).result =
        (walk ys b).result.mapError (·.shift (head :: inner ++ [last]).length) := by
  obtain ⟨hstate, hresult⟩ := Overlay.functionSpan_repeated (namesGrouped_of_edits hb b.current)
    (Overlay.withFunction_of_some hf) hf hbody (inner ++ last :: ys)
  rw [spanResult_span hinner hlast] at hresult
  have hstep : (step head (inner ++ last :: ys) b).state = b := by
    rw [step_functionStart hhead]
    show b.setCurrentOverlay (Overlay.functionSpan head start _ (b.overlayAt b.current)).state = b
    rw [hstate]
    exact setCurrentOverlay_self b
  have hok : (step head (inner ++ last :: ys) b).result = .ok (inner.length + 1) := by
    rw [step_functionStart hhead]
    exact hresult
  have hrest : (inner ++ last :: ys).drop (inner.length + 1) = ys := by
    rw [List.append_cons, List.drop_left' (by simp)]
  have hwalk := walk_cons_of_ok hok
  rw [hrest, hstep] at hwalk
  have hlist : head :: inner ++ [last] ++ ys = head :: (inner ++ last :: ys) := by simp
  have hlength : (head :: inner ++ [last]).length = 1 + (inner.length + 1) := by simp; omega
  rw [hlist, hlength]
  exact hwalk

theorem walk_recorded (hb : ReflTransGen Edit {} b)
    (hnone : ¬ ∃ f, b.currentOverlay.function? (Text.identifier start.name) head.value = some f ∧
      (b.currentOverlay.func f).hasBody = true) :
    (walk (head :: inner ++ [last]) b).state ≠ b := by
  have hcurrent : (step head (inner ++ [last]) b).state =
      b.setCurrentOverlay (Overlay.functionSpan head start (inner ++ [last]) b.currentOverlay).state := by
    rw [step_functionStart hhead]
    rfl
  have hall : (walk (head :: inner ++ [last]) b).state = (step head (inner ++ [last]) b).state := by
    show (walk (head :: (inner ++ [last])) b).state = _
    cases hresult : (step head (inner ++ [last]) b).result with
    | error e => exact walk_cons_of_error hresult
    | ok n =>
      have hspan := hresult
      rw [step_functionStart hhead] at hspan
      have hn := Overlay.spanResult_of_ok hspan
      rw [spanResult_span hinner hlast] at hn
      cases hn
      rw [(walk_cons_of_ok hresult).1, List.drop_of_length_le (by simp)]
      show (walkFrom 0 [] _).state = _
      rw [walkFrom]
      rfl
  intro heq
  rw [← hall, heq] at hcurrent
  have hsame : b.currentOverlay = _ := congrArg currentOverlay hcurrent
  rw [currentOverlay_setCurrentOverlay (inRange_of_edits hb inRange_new)] at hsame
  obtain ⟨f, hf, ⟨hfound, hbody, _⟩ | ⟨o₁, hadds, _, _, _, _, hlines⟩⟩ :=
    Overlay.functionSpan_cases (namesGrouped_of_edits hb b.current) head start (inner ++ [last])
  · exact hnone ⟨f, hfound, hbody⟩
  · rw [← currentOverlay_eq, ← hsame, hadds.lines] at hlines
    exact Nat.lt_irrefl _ hlines

end

/-! ## Repeated spans -/

/-- A span may be left out if and only if it repeats one that says where it
begins. Through all walks a function changes in spans of its own only, and not at
all once it has a body. -/
theorem repeatedSpan_iff {xs inner : List Record} {head last : Record} {start : FunctionStart}
    (hxs : (walk xs {}).result = .ok ()) (hhead : head.body = .functionStart start)
    (hinner : ∀ r ∈ inner, r.endsFunction = false) (hlast : last.endsFunction = true) :
    ((∀ ys, (walk (xs ++ (head :: inner ++ [last]) ++ ys) {}).state = (walk (xs ++ ys) {}).state ∧
        (walk (xs ++ (head :: inner ++ [last]) ++ ys) {}).result =
          (walk (xs ++ ys) {}).result.mapError (·.shift (head :: inner ++ [last]).length)) ↔
      ∃ s ∈ steps {} xs, ∃ first, s.IsSpan (walk xs {}).state.current (Text.identifier start.name) head.value first ∧
        first.isPlaced = true) ∧
    ∀ chunks, (({} : Builder) :: (history {} chunks).map Step.after).Pairwise KeepsBodies ∧
      ∀ s ∈ history {} chunks, ∀ k, ∀ i < (s.before.overlayAt k).funcs.length,
        (s.after.overlayAt k).func i ≠ (s.before.overlayAt k).func i →
          ∃ first, s.IsSpan k (Text.identifier first.name) s.head.value first ∧
            (s.after.overlayAt k).function? (Text.identifier first.name) s.head.value = some i := by
  refine ⟨?_, fun chunks => ?_⟩
  · have hpath : Path {} (steps {} xs) (walk xs {}).state := path_steps 0 xs {}
    have hreached := (hpath.edits inRange_new).1
    rw [← hpath.hasBody_iff]
    constructor
    · intro hsame
      by_contra hnone
      refine walk_recorded hinner hlast hhead hreached hnone ?_
      have hempty := (hsame []).1
      rwa [List.append_nil, List.append_nil, (walk_append {} hxs _).1] at hempty
    · rintro ⟨f, hf, hbody⟩ ys
      obtain ⟨hstate, hresult⟩ := walk_repeated hinner hlast hhead hreached hf hbody ys
      obtain ⟨hstate₁, hresult₁⟩ := walk_append {} hxs (head :: inner ++ [last] ++ ys)
      obtain ⟨hstate₂, hresult₂⟩ := walk_append {} hxs ys
      rw [List.append_assoc xs, hstate₁, hresult₁, hstate₂, hresult₂, hstate, hresult]
      refine ⟨rfl, ?_⟩
      -- the two shifts may be made in either order
      cases (walk ys (walk xs {}).state).result with
      | ok u => rfl
      | error e =>
        simp only [Except.mapError, Inconsistency.shift_shift, Nat.add_comm]
  · have hpath := path_history chunks
    have hreached : ∀ s ∈ history {} chunks, ReflTransGen Edit {} s.before := fun s hs =>
      ((hpath.edits inRange_new).2 s hs).1
    refine ⟨hpath.pairwise (fun h h' => h.trans h') fun s hs => Step.keepsBodies (hreached s hs), ?_⟩
    exact fun s hs k i hi hne => Step.span_of_step (hreached s hs) hi hne

/-- The span of `spanStart` again, with a record in it that no body may hold. -/
theorem repeatedSpan_switchWithin :
    (walk [spanStart, spanEnd] {}).result = .ok () ∧
      (∃ s ∈ steps {} [spanStart, spanEnd], ∃ first,
        s.IsSpan (walk [spanStart, spanEnd] {}).state.current "f" 16 first ∧ first.isPlaced = true) ∧
      ∀ ys, (walk ([spanStart, spanEnd] ++ [spanStart, { offset := 0, value := 5, body := .setOverlay }, spanEnd] ++ ys)
          {}).state = (walk ([spanStart, spanEnd] ++ ys) {}).state ∧
        (walk ([spanStart, spanEnd] ++ [spanStart, { offset := 0, value := 5, body := .setOverlay }, spanEnd] ++ ys)
          {}).result = (walk ([spanStart, spanEnd] ++ ys) {}).result.mapError (·.shift 3) := by
  have hok : (walk [spanStart, spanEnd] {}).result = .ok () := by decide +kernel
  have hcurrent : 0 = (walk [spanStart, spanEnd] {}).state.current := by decide +kernel
  have hname : Text.identifier "f" = "f" := by decide +kernel
  have hspan : ∃ s ∈ steps {} [spanStart, spanEnd], ∃ first,
      s.IsSpan (walk [spanStart, spanEnd] {}).state.current "f" 16 first ∧ first.isPlaced = true := by
    refine ⟨⟨{}, spanStart, [spanEnd]⟩, ?_, _, ⟨hcurrent, rfl, hname, rfl⟩, by decide +kernel⟩
    rw [steps]
    exact List.mem_cons_self
  have hinner : ∀ r ∈ [({ offset := 0, value := 5, body := .setOverlay } : Record)], r.endsFunction = false := by decide
  have hlast : spanEnd.endsFunction = true := rfl
  have hrepeated := (repeatedSpan_iff hok (show spanStart.body = _ from rfl) hinner hlast).1
  rw [hname] at hrepeated
  exact ⟨hok, hspan, hrepeated.mpr hspan⟩

/-- A whole span of a function, with a block, whose start has neither line nor path. -/
def unplacedSpan : List Record :=
  [{ offset := 0
     value := 16
     body := .functionStart
      { frameRegister := 29, frameSize := 0, returnRegister := 31, mask := 0, maskOffset := 0, line := 0, path := "",
        name := "f" } },
    { offset := 16, value := 18, body := .blockStart 1 },
    { offset := 32, value := 19, body := .blockEnd 2 },
    { offset := 48, value := 20, body := .functionEnd 2 }]

/-- It does have an effect when it comes a second time: there are two blocks. -/
theorem not_repeatedSpan_unplaced :
    (walk unplacedSpan {}).result = .ok () ∧
      (∃ s ∈ steps {} unplacedSpan, ∃ first, s.IsSpan (walk unplacedSpan {}).state.current "f" 16 first ∧
        s.taken = unplacedSpan) ∧
      (walk (unplacedSpan ++ unplacedSpan ++ []) {}).state ≠ (walk (unplacedSpan ++ []) {}).state ∧
      ((walk (unplacedSpan ++ []) {}).state.currentOverlay.func 0).blocks.length = 1 ∧
      ((walk (unplacedSpan ++ unplacedSpan ++ []) {}).state.currentOverlay.func 0).blocks.length = 2 := by
  have hcurrent : 0 = (walk unplacedSpan {}).state.current := by decide +kernel
  refine ⟨by decide +kernel, ⟨⟨{}, unplacedSpan.head (by decide), unplacedSpan.tail⟩, ?_, _,
    ⟨hcurrent, rfl, by decide +kernel, rfl⟩, by decide +kernel⟩, by decide +kernel, by decide +kernel,
    by decide +kernel⟩
  unfold unplacedSpan
  rw [steps]
  exact List.mem_cons_self

end DebugSymbols.Builder
