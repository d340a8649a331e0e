import DebugSymbols.Proofs.Build.Excerpts
import DebugSymbols.Proofs.Build.Functions
import DebugSymbols.Proofs.Build.Visits
import DebugSymbols.Proofs.Stream.Running

/-!
# Lines while building

Each line record maps its address, but for one that ends the line information. A
function span that is recorded maps its start and its blocks. Nothing else adds
lines.
-/

namespace DebugSymbols

open DebugSymbols.Action (exists_of_bind_ok ok_of_mapError)
open Relation (ReflTransGen)

/-- What a line record maps its address to: the line that the listing shows with
it, in the source file that was the last to be named. -/
def mappedLine? (before : List Record) (r : Record) : Option Line :=
  if r.mapsLine then
    match Listing.shown (before ++ [r]), latestPath (before ++ [r]) with
    | some line, some path => some { addr := r.value, path, line }
    | _, _ => none
  else none

def mappedLines (before : List Record) : List Record → List Line
  | [] => []
  | r :: rs => (mappedLine? before r).toList ++ mappedLines (before ++ [r]) rs

/-- No line record lacks a line or a path. -/
def EachMapped (before : List Record) : List Record → Prop
  | [] => True
  | r :: rs => (r.mapsLine = true → (mappedLine? before r).isSome = true) ∧ EachMapped (before ++ [r]) rs

section
variable {before xs ys : List Record} {r : Record}

theorem eachMapped_append : EachMapped before (xs ++ ys) ↔ EachMapped before xs ∧ EachMapped (before ++ xs) ys := by
  induction xs generalizing before with
  | nil => simp [EachMapped]
  | cons r xs ih => simp [EachMapped, ih, and_assoc]

theorem mapsLine_of_not_line (h : r.isLine = false) : r.mapsLine = false := by
  simp [Record.mapsLine, h]

theorem eachMapped_of_not_line (h : ∀ r ∈ xs, r.isLine = false) : EachMapped before xs := by
  induction xs generalizing before with
  | nil => trivial
  | cons r xs ih =>
    obtain ⟨hr, hxs⟩ := List.forall_mem_cons.mp h
    refine ⟨fun hmaps => ?_, ih hxs⟩
    rw [mapsLine_of_not_line hr] at hmaps
    exact nomatch hmaps

theorem mappedLines_of_not_line (h : ∀ r ∈ xs, r.isLine = false) : mappedLines before xs = [] := by
  induction xs generalizing before with
  | nil => rfl
  | cons r xs ih =>
    obtain ⟨hr, hxs⟩ := List.forall_mem_cons.mp h
    simp [mappedLines, mappedLine?, mapsLine_of_not_line hr, ih hxs]

theorem exists_mappedLine (h : EachMapped before (xs ++ r :: ys)) (hr : r.mapsLine = true) :
    ∃ line path, Listing.shown (before ++ xs ++ [r]) = some line ∧ latestPath (before ++ xs ++ [r]) = some path ∧
      mappedLine? (before ++ xs) r = some { addr := r.value, path, line } := by
  have hsome := (eachMapped_append.mp h).2.1 hr
  unfold mappedLine? at hsome ⊢
  rw [if_pos hr] at hsome ⊢
  revert hsome
  cases Listing.shown (before ++ xs ++ [r]) with
  | none => exact fun hsome => nomatch hsome
  | some line =>
    cases latestPath (before ++ xs ++ [r]) with
    | none => exact fun hsome => nomatch hsome
    | some path => exact fun _ => ⟨line, path, rfl, rfl, rfl⟩

end

/-! ## Function spans -/

def Record.startsFunction (r : Record) : Bool :=
  match r.body with
  | .functionStart _ => true
  | _ => false

/-- No line record is between a function start and the function end after it. -/
def linesOutsideSpans : List Record → Bool
  | [] => true
  | r :: rs => (!r.startsFunction || (rs.takeWhile (!·.endsFunction)).all (!·.isLine)) && linesOutsideSpans rs

theorem linesOutsideSpans_of_suffix {xs ys : List Record} (h : linesOutsideSpans ys = true) (hxs : xs <:+ ys) :
    linesOutsideSpans xs = true := by
  induction ys with
  | nil => rwa [List.suffix_nil.mp hxs]
  | cons r ys ih =>
    obtain rfl | hxs := List.suffix_cons_iff.mp hxs
    · exact h
    · rw [linesOutsideSpans, Bool.and_eq_true] at h
      exact ih h.2 hxs

/-- The line that a block record maps its address to, counted from the function's. -/
def Record.blockMapping? (start : FunctionStart) (r : Record) : Option Line :=
  match r.body with
  | .blockStart line | .blockEnd line => some { addr := r.value, path := start.path, line := start.blockLine line }
  | _ => none

namespace Overlay

variable {o : Overlay} {f : Nat} {start : FunctionStart} {opened opened' : List Nat}

def spanEntries (head : Record) (start : FunctionStart) (rest : List Record) (o : Overlay) : List Line :=
  if o.repeats (Text.identifier start.name) head.value then []
  else
    { addr := head.value, path := start.path, line := start.line } ::
      (rest.takeWhile (!·.endsFunction)).filterMap (Record.blockMapping? start)

theorem lines_bodyRecord {r : Record} (h : (bodyRecord f start opened r o).result = .ok opened') :
    (bodyRecord f start opened r o).state.lines = o.lines ++ (r.blockMapping? start).toList := by
  obtain ⟨line, hbody, _, hstate⟩ | ⟨line, b, hbody, _, hstate⟩ | ⟨form, d, v, hbody, _, _, hstate⟩ :=
    bodyRecord_cases h
  · rw [hstate]
    simp [Record.blockMapping?, hbody, openBlock, addLine, modifyFunc]
  · rw [hstate]
    simp [Record.blockMapping?, hbody, closeBlock, addLine, modifyFunc]
  · have hlines : (addScoped f opened v (localDecl r.value d o).state).lines = (localDecl r.value d o).state.lines := by
      cases opened <;> rfl
    rw [hstate, hlines, (sameCode_localDecl r.value d o).lines]
    simp [Record.blockMapping?, hbody]

theorem lines_overRecords {i : Nat} {rs : List Record}
    (h : (Action.overRecords (bodyRecord f start) i opened rs o).result = .ok opened') :
    (Action.overRecords (bodyRecord f start) i opened rs o).state.lines =
      o.lines ++ rs.filterMap (Record.blockMapping? start) := by
  induction rs generalizing i opened o with
  | nil => simp [Action.overRecords, Action.pure_run]
  | cons r rs ih =>
    obtain ⟨next, hlocated, hrest⟩ := exists_of_bind_ok h
    have hr := ok_of_mapError hlocated
    have hafter : (Action.overRecords (bodyRecord f start) (i + 1) next rs
          (bodyRecord f start opened r o).state).state.lines =
        (bodyRecord f start opened r o).state.lines ++ rs.filterMap (Record.blockMapping? start) := ih hrest
    rw [(Action.overRecords_cons_of_ok hr i rs).1, hafter, lines_bodyRecord hr, List.append_assoc, List.filterMap_cons]
    cases r.blockMapping? start <;> rfl

theorem lines_recordBody {addr : UInt32} {inner : List Record} {line : Option UInt32}
    (h : (recordBody f start addr inner line o).result = .ok ()) :
    (recordBody f start addr inner line o).state.lines =
      o.lines ++ { addr, path := start.path, line := start.line } :: inner.filterMap (Record.blockMapping? start) := by
  obtain ⟨opened, hrun, hstate⟩ := recordBody_ok h
  have hend : ∀ o : Overlay, (endBody? f line o).lines = o.lines := fun _ => by cases line <;> rfl
  rw [hstate, hend, lines_overRecords hrun]
  simp [startBody, addLine, modifyFunc]

theorem lines_functionSpan (ho : o.NamesGrouped) {head : Record} {rest : List Record} {n : Nat}
    (h : (functionSpan head start rest o).result = .ok n) :
    (functionSpan head start rest o).state.lines = o.lines ++ spanEntries head start rest o := by
  obtain ⟨f, hf, _, _⟩ := exists_function?_withFunction ho (Text.identifier start.name) head.value
  have hadds := addsFuncs_withFunction o (Text.identifier start.name) head.value
  unfold spanEntries
  rw [← hasBody_withFunction ho hf]
  by_cases hbody : ((o.withFunction (Text.identifier start.name) head.value).func f).hasBody = true
  · rw [(functionSpan_repeated ho rfl hf hbody rest).1, hadds.lines, if_pos hbody, List.append_nil]
  · have hnone := Bool.eq_false_iff.mpr hbody
    have hrecord := recordBody_ok_of_functionSpan ho rfl hf hnone h
    rw [(functionSpan_recorded ho rfl hf hnone rest).1, lines_recordBody hrecord, hadds.lines, if_neg hbody]

theorem not_line_of_functionSpan {head : Record} (hhead : head.body = .functionStart start) {rest : List Record}
    (hspan : linesOutsideSpans (head :: rest) = true) {n : Nat} (h : (functionSpan head start rest o).result = .ok n) :
    ∀ r ∈ rest.take n, r.isLine = false := by
  have hn := spanResult_of_ok h
  unfold spanResult at hn
  by_cases hend : (rest.findSome? Record.functionEnd?).isSome = true
  · rw [if_pos hend] at hn
    cases hn
    have hany := length_takeWhile_lt_iff.mp ((isSome_findSome?_functionEnd? rest).mp hend)
    obtain ⟨last, _, hlast, _, htake⟩ := exists_take_closing hany
    rw [htake]
    intro r hr
    obtain hr | hr := List.mem_append.mp hr
    · have hstarts : head.startsFunction = true := by simp [Record.startsFunction, hhead]
      simp only [linesOutsideSpans, hstarts, Bool.and_eq_true, Bool.not_true, Bool.false_or, List.all_eq_true] at hspan
      simpa using hspan.1 r hr
    · rw [List.mem_singleton.mp hr]
      exact isLine_of_isContent (isContent_of_endsFunction hlast)
  · rw [if_neg hend] at hn
    exact nomatch hn

theorem contentStep_of_not_start {head : Record} (hstart : head.startsFunction = false) {rest : List Record} {n : Nat}
    (h : (contentStep head rest o).result = .ok n) :
    (∀ r ∈ rest.take n, r.isLine = false) ∧ (contentStep head rest o).state.lines = o.lines := by
  unfold contentStep at h ⊢
  unfold Record.startsFunction at hstart
  cases hbody : head.body with
  | functionStart start =>
    rw [hbody] at hstart
    exact nomatch hstart
  | symbol form name =>
    rw [hbody] at h
    cases h
    simp only [List.take_zero, List.not_mem_nil, false_imp_iff, implies_true, true_and]
    rfl
  | definition form d =>
    rw [hbody] at h
    refine ⟨fun r hr => isLine_of_isContent ?_, (addsFuncs_definition head d rest o).lines⟩
    exact takesContent_definition head d rest o n h r hr
  | _ =>
    rw [hbody] at h
    exact nomatch h

end Overlay

/-! ## Line records -/

theorem mappedLine?_of_source {before : List Record} {r : Record} (hr : r.mapsLine = true) {s : SourceLine}
    (h : SourceAfter (before ++ [r]) (some s)) :
    mappedLine? before r = some { addr := r.value, path := s.path, line := s.line } := by
  unfold mappedLine?
  rw [if_pos hr, ← h.line, h.path s rfl]
  rfl

namespace Builder

variable {b c d : Builder} {before : List Record} {r : Record} {ls ls' : List Line}

structure AddsLines (b c : Builder) (ls : List Line) : Prop where
  current : c.current = b.current
  ids : c.ids = b.ids
  count : c.overlays.length = b.overlays.length
  lines : ∀ k, (c.overlayAt k).lines = (b.overlayAt k).lines ++ if b.current = k then ls else []

theorem addsLines_nil (hcurrent : c.current = b.current) (hids : c.ids = b.ids) (h : c.overlays = b.overlays) :
    AddsLines b c [] where
  current := hcurrent
  ids := hids
  count := by rw [h]
  lines k := by simp [overlayAt, h]

theorem AddsLines.trans (h : AddsLines b c ls) (h' : AddsLines c d ls') : AddsLines b d (ls ++ ls') where
  current := h'.current.trans h.current
  ids := h'.ids.trans h.ids
  count := h'.count.trans h.count
  lines k := by
    rw [h'.lines, h.lines, h.current, List.append_assoc]
    split
    · rfl
    · simp

theorem AddsLines.inRange (h : AddsLines b c ls) (hb : b.InRange) : c.InRange := by
  refine ⟨?_, ?_⟩
  · rw [h.current, h.count]
    exact hb.current
  · rw [h.ids, h.count]
    exact hb.ids

theorem addsLines_setCurrentOverlay (hb : b.InRange) {o : Overlay} (ho : o.lines = b.currentOverlay.lines ++ ls) :
    AddsLines b (b.setCurrentOverlay o) ls where
  current := rfl
  ids := rfl
  count := by simp [setCurrentOverlay]
  lines k := by
    rw [overlayAt_setCurrentOverlay]
    by_cases hk : b.current = k
    · subst hk
      rw [if_pos ⟨rfl, hb.current⟩, if_pos rfl, ho]
      rfl
    · rw [if_neg fun h => hk h.1.symm, if_neg hk, List.append_nil]

theorem lineRecord_of_ne {op : LineOp} (hbody : r.body = .line op) (hop : op ≠ .finish) :
    lineRecord r b =
      match SourceLine.after b.source op with
      | some s => ⟨.ok (), mapLine r.value s b, []⟩
      | none => ⟨.error { cause := .lineWithoutPath }, b, []⟩ := by
  unfold lineRecord
  rw [hbody]
  cases op with
  | finish => exact absurd rfl hop
  | _ =>
    simp only [Action.bind_run, Action.read]
    cases SourceLine.after b.source _ <;> rfl

theorem lineRecord_cases (hr : r.isLine = true) (h : (lineRecord r b).result = .ok ()) :
    (r.body = .line .finish ∧ r.mapsLine = false ∧ (lineRecord r b).state = { b with source := none }) ∨
      ∃ op s, r.body = .line op ∧ r.mapsLine = true ∧ SourceLine.after b.source op = some s ∧
        (lineRecord r b).state = mapLine r.value s b := by
  obtain ⟨op, hbody⟩ : ∃ op, r.body = .line op := by
    unfold Record.isLine at hr
    cases hbody : r.body <;> simp_all
  by_cases hop : op = .finish
  · subst hop
    have hmaps : r.mapsLine = false := by simp [Record.mapsLine, Record.endsLines, hbody]
    have hstate : lineRecord r b = ⟨.ok (), { b with source := none }, []⟩ := by
      unfold lineRecord
      rw [hbody]
      rfl
    exact .inl ⟨hbody, hmaps, by rw [hstate]⟩
  · have hmaps : r.mapsLine = true := by
      unfold Record.mapsLine Record.isLine Record.endsLines
      rw [hbody]
      cases op with
      | finish => exact absurd rfl hop
      | _ => rfl
    rw [lineRecord_of_ne hbody hop] at h ⊢
    cases hs : SourceLine.after b.source op with
    | none => simp [hs] at h
    | some s => exact .inr ⟨op, s, hbody, hmaps, hs, rfl⟩

theorem lineRecord_maps (hb : b.InRange) (hs : SourceAfter before b.source) (hr : r.isLine = true)
    (h : (lineRecord r b).result = .ok ()) :
    AddsLines b (lineRecord r b).state (mappedLine? before r).toList ∧
      SourceAfter (before ++ [r]) (lineRecord r b).state.source ∧
      (r.mapsLine = true → (mappedLine? before r).isSome = true) := by
  obtain ⟨hbody, hmaps, hstate⟩ | ⟨op, s, hbody, hmaps, hafter, hstate⟩ := lineRecord_cases hr h
  · have hnone : mappedLine? before r = none := by simp [mappedLine?, hmaps]
    rw [hstate, hnone, hmaps]
    exact ⟨addsLines_nil rfl rfl rfl, .finish before hbody, fun h => nomatch h⟩
  · have hsource := hs.concat hbody hafter
    rw [hstate, mappedLine?_of_source hmaps hsource]
    have hadds := addsLines_setCurrentOverlay hb
      (o := b.currentOverlay.addLine { addr := r.value, path := s.path, line := s.line }) rfl
    exact ⟨⟨hadds.current, hadds.ids, hadds.count, hadds.lines⟩, hsource, fun _ => rfl⟩

theorem overRecords_maps {i : Nat} {rs : List Record} (hrs : ∀ r ∈ rs, r.isLine = true) (hb : b.InRange)
    (hs : SourceAfter before b.source) (h : (Action.overRecords (fun _ => lineRecord) i () rs b).result = .ok ()) :
    AddsLines b (Action.overRecords (fun _ => lineRecord) i () rs b).state (mappedLines before rs) ∧
      SourceAfter (before ++ rs) (Action.overRecords (fun _ => lineRecord) i () rs b).state.source ∧
      EachMapped before rs := by
  induction rs generalizing i b before with
  | nil =>
    rw [List.append_nil]
    exact ⟨addsLines_nil rfl rfl rfl, hs, trivial⟩
  | cons r rs ih =>
    obtain ⟨hline, hlines⟩ := List.forall_mem_cons.mp hrs
    obtain ⟨⟨⟩, hlocated, hrest⟩ := exists_of_bind_ok h
    have hr := ok_of_mapError hlocated
    obtain ⟨hadds, hsource, hmapped⟩ := lineRecord_maps hb hs hline hr
    obtain ⟨hadds', hsource', hmapped'⟩ := ih hlines (hadds.inRange hb) hsource hrest
    rw [(Action.overRecords_cons_of_ok (f := fun _ => lineRecord) hr i rs).1, List.append_cons]
    exact ⟨hadds.trans hadds', hsource', hmapped, hmapped'⟩

/-! ## Records about overlays -/

theorem addOverlay_keeps (addr length id : UInt32) (b : Builder) :
    (addOverlay addr length id b).state.source = b.source ∧
      ∀ k, ((addOverlay addr length id b).state.overlayAt k).lines = (b.overlayAt k).lines := by
  simp only [addOverlay, Action.bind_run, Action.read]
  cases b.position? id with
  | some position => exact ⟨rfl, fun _ => rfl⟩
  | none =>
    refine ⟨rfl, fun k => ?_⟩
    show ((b.appendOverlay { id, addr, length }).overlayAt k).lines = _
    rw [overlayAt_appendOverlay]
    by_cases hk : k = b.overlays.length
    · rw [if_pos hk, overlayAt_of_le (Nat.le_of_eq hk.symm)]
      rfl
    · rw [if_neg hk]

theorem switchOverlay_keeps (id : UInt32) (b : Builder) :
    (switchOverlay id b).state.source = b.source ∧
      ∀ k, ((switchOverlay id b).state.overlayAt k).lines = (b.overlayAt k).lines := by
  simp only [switchOverlay, Action.bind_run, Action.read]
  cases b.position? id with
  | some position => exact ⟨rfl, fun _ => rfl⟩
  | none => exact ⟨rfl, fun _ => rfl⟩

theorem step_overlays {head : Record} (hcontent : head.isContent = false) (hline : head.isLine = false)
    {rest : List Record} {n : Nat} (h : (step head rest b).result = .ok n) :
    n = 0 ∧ (step head rest b).state.source = b.source ∧
      ∀ k, ((step head rest b).state.overlayAt k).lines = (b.overlayAt k).lines := by
  have hsingle : ∀ {m : Action Complaint Builder Unit},
      ((do m.locate head 0; return 0 : Action Inconsistency Builder Nat) b).result = .ok n →
        n = 0 ∧ ((do m.locate head 0; return 0 : Action Inconsistency Builder Nat) b).state = (m b).state := by
    intro m hm
    obtain ⟨_, hlocated, hzero⟩ := exists_of_bind_ok hm
    cases hzero
    exact ⟨rfl, congrArg Outcome.state (Action.bind_run_of_ok hlocated)⟩
  unfold Record.isContent at hcontent
  unfold Record.isLine at hline
  unfold step at h ⊢
  cases hbody : head.body with
  | overlay length id =>
    rw [hbody] at h
    obtain ⟨hn, hstate⟩ := hsingle h
    rw [hstate]
    exact ⟨hn, addOverlay_keeps head.value length id b⟩
  | setOverlay =>
    rw [hbody] at h
    obtain ⟨hn, hstate⟩ := hsingle h
    rw [hstate]
    exact ⟨hn, switchOverlay_keeps head.value b⟩
  | line op =>
    rw [hbody] at hline
    exact nomatch hline
  | _ =>
    rw [hbody] at hcontent
    exact nomatch hcontent

end Builder

end DebugSymbols
