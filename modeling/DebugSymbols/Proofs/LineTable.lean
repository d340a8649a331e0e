import DebugSymbols.Proofs.Build.Lines
import DebugSymbols.Proofs.Build.Portions
import DebugSymbols.Proofs.Independence

/-!
# The line table and the listing

`lineTable_listed`: the lines of the overlays are those that the listing shows,
record by record, but for the starts and blocks of functions. It makes no
difference how line records are grouped.
-/

namespace DebugSymbols.Builder

open DebugSymbols.Action (exists_of_bind_ok)
open Relation (ReflTransGen)

/-! ## One step -/

namespace Step

variable {s : Step} {before : List Record} {n : Nat}

/-- The lines that come with the step, once those records have been taken. -/
def entries (s : Step) (before : List Record) : List Line :=
  match s.head.body with
  | .functionStart start => Overlay.spanEntries s.head start s.rest s.before.currentOverlay
  | _ => mappedLines before s.taken

structure Maps (s : Step) (before : List Record) : Prop where
  lines : ∀ k, (s.after.overlayAt k).lines =
    (s.before.overlayAt k).lines ++ if s.before.current = k then s.entries before else []
  source : SourceAfter (before ++ s.taken) s.after.source
  mapped : EachMapped before s.taken

theorem maps_of_not_line (hsource : SourceAfter before s.before.source) (htaken : ∀ r ∈ s.taken, r.isLine = false)
    (hsame : s.after.source = s.before.source)
    (hlines : ∀ k, (s.after.overlayAt k).lines =
      (s.before.overlayAt k).lines ++ if s.before.current = k then s.entries before else []) : s.Maps before where
  lines := hlines
  source := by
    rw [hsame]
    exact hsource.append_of_not_line htaken
  mapped := eachMapped_of_not_line htaken

theorem maps_lines (hb : s.before.InRange) (hsource : SourceAfter before s.before.source) (hhead : s.head.isLine = true)
    (h : s.outcome.result = .ok n) : s.Maps before := by
  have htaken := taken_of_ok h
  have hrun : s.outcome = lines s.head s.rest s.before := by
    unfold outcome
    rw [step_of_isLine hhead]
  rw [hrun] at h
  obtain ⟨⟨⟩, hok, hn⟩ := exists_of_bind_ok h
  cases hn
  have hafter : s.after =
      (Action.overRecords (fun _ => lineRecord) 0 () (lineRun (s.head :: s.rest)) s.before).state := by
    unfold after
    rw [hrun]
    exact congrArg Outcome.state (Action.bind_run_of_ok hok)
  have hentries : s.entries before = mappedLines before s.taken := by
    unfold Record.isLine at hhead
    unfold entries
    cases hbody : s.head.body <;> simp_all
  rw [cons_take_lineRun hhead] at htaken
  obtain ⟨hadds, hsource', hmapped⟩ := overRecords_maps (fun r hr => isLine_of_mem_lineRun r hr) hb hsource hok
  rw [← hafter, ← htaken] at hadds hsource'
  rw [← htaken] at hmapped
  exact ⟨hentries ▸ hadds.lines, hsource', hmapped⟩

theorem maps_content (hs : ReflTransGen Edit {} s.before) (hsource : SourceAfter before s.before.source)
    (hhead : s.head.isContent = true) (h : s.outcome.result = .ok n) (hrest : ∀ r ∈ s.rest.take n, r.isLine = false)
    (hlines : (Overlay.contentStep s.head s.rest s.before.currentOverlay).state.lines =
      s.before.currentOverlay.lines ++ s.entries before) : s.Maps before := by
  have hafter : s.after = s.before.setCurrentOverlay
      (Overlay.contentStep s.head s.rest s.before.currentOverlay).state := by
    unfold after outcome
    rw [step_of_isContent hhead]
    rfl
  have hadds := addsLines_setCurrentOverlay (inRange_of_edits hs inRange_new) hlines
  rw [← hafter] at hadds
  refine maps_of_not_line hsource ?_ (by rw [hafter]; rfl) hadds.lines
  rw [taken_of_ok h]
  exact List.forall_mem_cons.mpr ⟨isLine_of_isContent hhead, hrest⟩

theorem maps_span (hs : ReflTransGen Edit {} s.before) (hsource : SourceAfter before s.before.source)
    {start : FunctionStart} (hhead : s.head.body = .functionStart start) (h : s.outcome.result = .ok n)
    (hspan : linesOutsideSpans (s.head :: s.rest) = true) : s.Maps before := by
  have hok := (visit_span hs hhead).2.symm.trans h
  have hentries : s.entries before = Overlay.spanEntries s.head start s.rest s.before.currentOverlay := by
    simp only [entries, hhead]
  refine maps_content hs hsource (isContent_of_start hhead) h (Overlay.not_line_of_functionSpan hhead hspan hok) ?_
  rw [Overlay.contentStep_of_start hhead, hentries]
  exact Overlay.lines_functionSpan (namesGrouped_of_edits hs _) hok

theorem maps_other (hs : ReflTransGen Edit {} s.before) (hsource : SourceAfter before s.before.source)
    (hhead : s.head.isContent = true) (hstart : s.head.startsFunction = false) (h : s.outcome.result = .ok n) :
    s.Maps before := by
  have hok := (visit hs hhead).2.symm.trans h
  obtain ⟨hrest, hlines⟩ := Overlay.contentStep_of_not_start hstart hok
  have hentries : s.entries before = mappedLines before s.taken := by
    unfold Record.startsFunction at hstart
    unfold entries
    cases hbody : s.head.body <;> simp_all
  refine maps_content hs hsource hhead h hrest ?_
  rw [hlines, hentries, taken_of_ok h, mappedLines_of_not_line, List.append_nil]
  exact List.forall_mem_cons.mpr ⟨isLine_of_isContent hhead, hrest⟩

theorem maps_overlays (hsource : SourceAfter before s.before.source) (hcontent : s.head.isContent = false)
    (hline : s.head.isLine = false) (h : s.outcome.result = .ok n) : s.Maps before := by
  obtain ⟨rfl, hsame, hlines⟩ := step_overlays hcontent hline h
  have htaken : ∀ r ∈ s.taken, r.isLine = false := by simp [taken_of_ok h, hline]
  have hentries : s.entries before = mappedLines before s.taken := by
    unfold Record.isContent at hcontent
    unfold entries
    cases hbody : s.head.body <;> simp_all
  refine maps_of_not_line hsource htaken hsame fun k => ?_
  rw [hentries, mappedLines_of_not_line htaken, ite_self, List.append_nil]
  exact hlines k

theorem maps (hs : ReflTransGen Edit {} s.before) (hsource : SourceAfter before s.before.source)
    (hspan : linesOutsideSpans (s.head :: s.rest) = true) (h : s.outcome.result = .ok n) : s.Maps before := by
  by_cases hline : s.head.isLine = true
  · exact maps_lines (inRange_of_edits hs inRange_new) hsource hline h
  · by_cases hcontent : s.head.isContent = true
    · cases hbody : s.head.body with
      | functionStart start => exact maps_span hs hsource hbody h hspan
      | _ => exact maps_other hs hsource hcontent (by simp [Record.startsFunction, hbody]) h
    · exact maps_overlays hsource (Bool.eq_false_iff.mpr hcontent) (Bool.eq_false_iff.mpr hline) h

end Step

/-! ## Many steps -/

def entriesAt (k : Nat) (before : List Record) : List Step → List Line
  | [] => []
  | s :: ss => (if s.before.current = k then s.entries before else []) ++ entriesAt k (before ++ s.taken) ss

theorem Path.maps {b c : Builder} {ss : List Step} (h : Path b ss c) {before : List Record}
    (hb : ReflTransGen Edit {} b) (hsource : SourceAfter before b.source)
    (hspans : ∀ s ∈ ss, linesOutsideSpans (s.head :: s.rest) = true) (hok : ∀ s ∈ ss, ∃ n, s.outcome.result = .ok n) :
    (∀ k, (c.overlayAt k).lines = (b.overlayAt k).lines ++ entriesAt k before ss) ∧
      EachMapped before (ss.flatMap Step.taken) := by
  induction h generalizing before with
  | nil => exact ⟨fun k => by rw [entriesAt, List.append_nil], trivial⟩
  | @cons s ss c _ ih =>
    obtain ⟨hspan, hspans⟩ := List.forall_mem_cons.mp hspans
    obtain ⟨⟨n, hn⟩, hok⟩ := List.forall_mem_cons.mp hok
    have hmaps := Step.maps hb hsource hspan hn
    obtain ⟨hlines, hmapped⟩ := ih (Step.reached hb) hmaps.source hspans hok
    refine ⟨fun k => ?_, ?_⟩
    · rw [hlines, hmaps.lines, entriesAt, List.append_assoc]
    · rw [List.flatMap_cons]
      exact eachMapped_append.mpr ⟨hmaps.mapped, hmapped⟩

theorem suffix_of_mem_steps (rs : List Record) (b : Builder) : ∀ s ∈ steps b rs, s.head :: s.rest <:+ rs := by
  fun_induction steps b rs with
  | case1 => exact List.forall_mem_nil _
  | case2 b r rs ih =>
    refine List.forall_mem_cons.mpr ⟨List.suffix_rfl, ?_⟩
    cases (step r rs b).result with
    | error e => exact List.forall_mem_nil _
    | ok n => exact fun s hs => (ih n s hs).trans ((List.drop_suffix n rs).trans (List.suffix_cons r rs))

/-! ## The line table -/

/-- The line table that a stream builds, and its listing. -/
structure LineTable (records : List Record) (overlays : List Overlay) : Prop where
  /-- The steps take all the records, in order. -/
  taken : (steps {} records).flatMap Step.taken = records
  lines : ∀ k o, overlays[k]? = some o → o.lines = entriesAt k [] (steps {} records)
  /-- A line record maps its address to the line that it shows where it is listed. -/
  mapped : ∀ before r after, records = before ++ r :: after → r.mapsLine = true →
    ∃ line path, mappedLine? before r = some { addr := r.value, path, line } ∧
      latestPath (before ++ [r]) = some path ∧ Listing.shown (before ++ [r]) = some line ∧
      ∃ op text, r.body = .line op ∧ Listing.LineText line op text ∧
        Listing.recordText (some line) r = Listing.listedAs r text
  listed : ∀ header before r after, records = before ++ r :: after →
    SymbolFile.listing { header, records } =
      SymbolFile.listing { header, records := before } ++ Listing.recordText (Listing.shown (before ++ [r])) r ++
        Listing.recordsText (Listing.shown (before ++ [r])) after

/-- What the listing shows as the running line with each line record is the line
that the record adds to the table of the overlay that is then the current one.
Function spans that are recorded add a line for their start and for each record of
a block, and nothing else adds lines. -/
theorem lineTable_listed {records : List Record} {overlays : List Overlay}
    (h : (build records).result = .ok overlays) (hspans : linesOutsideSpans records = true) :
    LineTable records overlays := by
  obtain ⟨hok, rfl⟩ := walk_of_build h
  have hsteps := steps_ok 0 records {} hok
  have htaken := taken_steps records {} hsteps
  have hpath : Path {} (steps {} records) (walk records {}).state := path_steps 0 records {}
  have hsuffix : ∀ s ∈ steps {} records, linesOutsideSpans (s.head :: s.rest) = true := fun s hs =>
    linesOutsideSpans_of_suffix hspans (suffix_of_mem_steps records {} s hs)
  obtain ⟨hlines, hmapped⟩ := hpath.maps .refl .nil hsuffix hsteps
  refine ⟨htaken, fun k o ho => ?_, ?_, ?_⟩
  · have hstart : (({} : Builder).overlayAt k).lines = [] := by cases k <;> rfl
    have hentries := hlines k
    rw [hstart, List.nil_append] at hentries
    rw [← hentries]
    unfold overlayAt
    rw [List.getD_eq_getElem?_getD, ho]
    rfl
  · rintro before r after rfl hr
    rw [htaken] at hmapped
    obtain ⟨line, path, hline, hpath, hentry⟩ := exists_mappedLine hmapped hr
    exact ⟨line, path, hentry, hpath, hline, Listing.listedAs_lineText hr hline⟩
  · rintro header before r after rfl
    exact SymbolFile.listing_split header before r after

def linesAcross : List Record :=
  let record (value : UInt32) (body : Body) : Record := { offset := 0, value, body }
  [record 64 (.overlay 32 5), record 24 (.line (.setWithPath 7 "f.c")), record 28 (.line .increment),
    record 5 .setOverlay, record 64 (.line (.incrementByte 2)), spanStart, record 18 (.blockStart 1),
    record 19 (.blockEnd 2), spanEnd, record 68 (.line .finish)]

theorem lineTable_linesAcross :
    (build linesAcross).result = .ok (afterWalks [linesAcross]).overlays ∧ linesOutsideSpans linesAcross = true ∧
      LineTable linesAcross (afterWalks [linesAcross]).overlays ∧
      (afterWalks [linesAcross]).overlays.map Overlay.lines =
        [[{ addr := 24, path := "f.c", line := 7 }, { addr := 28, path := "f.c", line := 8 }],
          [{ addr := 64, path := "f.c", line := 10 }, { addr := 16, path := "f.c", line := 3 },
            { addr := 18, path := "f.c", line := 3 }, { addr := 19, path := "f.c", line := 4 }]] := by
  have hbuild : (build linesAcross).result = .ok (afterWalks [linesAcross]).overlays := by decide +kernel
  have hspans : linesOutsideSpans linesAcross = true := by decide +kernel
  exact ⟨hbuild, hspans, lineTable_listed hbuild hspans, by decide +kernel⟩

end DebugSymbols.Builder
