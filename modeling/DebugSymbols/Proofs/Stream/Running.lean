import DebugSymbols.Build.SourceLine
import DebugSymbols.Stream.Listing

/-!
# The running line

The listing shows a running line and forgets it at each record that ends the line
information. A source line that line records count from has that line, and the
path that was the last to be set.
-/

namespace DebugSymbols

/-- A line record other than one that ends the line information. -/
def Record.mapsLine (r : Record) : Bool :=
  r.isLine && !r.endsLines

def Record.sourcePath? (r : Record) : Option String :=
  match r.body with
  | .line (.setWithPath _ path) => some path
  | _ => none

/-- The path that the last of the records to set one sets. -/
def latestPath (records : List Record) : Option String :=
  (records.filterMap Record.sourcePath?).getLast?

namespace Listing

open Text

def shown (records : List Record) : Option UInt32 :=
  records.foldl runningAfter none

variable {r : Record} {before more : List Record}

theorem shown_concat (before : List Record) (r : Record) : shown (before ++ [r]) = runningAfter (shown before) r := by
  simp [shown]

theorem runningAfter_of_not_line (h : r.isLine = false) (line : Option UInt32) : runningAfter line r = line := by
  unfold Record.isLine at h
  unfold runningAfter
  cases hbody : r.body <;> simp_all

theorem shown_append_of_not_line (h : ∀ r ∈ more, r.isLine = false) : shown (before ++ more) = shown before := by
  induction more generalizing before with
  | nil => simp
  | cons r more ih =>
    obtain ⟨hr, hmore⟩ := List.forall_mem_cons.mp h
    rw [List.append_cons, ih hmore, shown_concat, runningAfter_of_not_line hr]

theorem recordsText_append (line : Option UInt32) (xs ys : List Record) :
    recordsText line (xs ++ ys) = recordsText line xs ++ recordsText (xs.foldl runningAfter line) ys := by
  induction xs generalizing line with
  | nil => simp [recordsText]
  | cons r xs ih => simp [recordsText, ih, String.append_assoc]

/-! ## The text of a line record -/

/-- What a line record that leads to `line` is listed as doing. -/
inductive LineText (line : UInt32) : LineOp → String → Prop
  | increment : LineText line .increment ("Inc SLD linenum" ++ " (to " ++ toString line ++ ")")
  | incrementByte (n : UInt8) :
      LineText line (.incrementByte n) ("Inc SLD linenum by " ++ toString n ++ " (to " ++ toString line ++ ")")
  | incrementWord (n : UInt16) :
      LineText line (.incrementWord n) ("Inc SLD linenum by " ++ toString n ++ " (to " ++ toString line ++ ")")
  | set : LineText line (.set line) ("Set SLD linenum to " ++ toString line)
  | setWithPath (path : String) :
      LineText line (.setWithPath line path) ("Set SLD linenum to " ++ toString line ++ " (file " ++ path ++ ")")

/-- The listed line of the record, with the text behind its offset, value and kind. -/
def listedAs (r : Record) (text : String) : String :=
  lowerHex 6 r.offset ++ ": $" ++ lowerHex 8 r.value.toNat ++ " " ++ lowerHex 1 r.kind.code.toNat ++ " " ++ text ++ "\n"

theorem append_target (head : String) (line : UInt32) :
    head ++ target (some line) = head ++ " (to " ++ toString line ++ ")" := by
  show head ++ (" (to " ++ toString line ++ ")") = _
  rw [String.append_assoc, String.append_assoc, String.append_assoc]

theorem lineText_of_running {from? : Option UInt32} {op : LineOp} {line : UInt32} (h : running from? op = some line) :
    LineText line op (lineOpText (some line) op) := by
  cases op with
  | finish => exact nomatch h
  | increment =>
    show LineText line .increment ("Inc SLD linenum" ++ target (some line))
    rw [append_target]
    exact .increment
  | incrementByte n =>
    show LineText line (.incrementByte n) ("Inc SLD linenum by " ++ toString n ++ target (some line))
    rw [append_target]
    exact .incrementByte n
  | incrementWord n =>
    show LineText line (.incrementWord n) ("Inc SLD linenum by " ++ toString n ++ target (some line))
    rw [append_target]
    exact .incrementWord n
  | set n =>
    cases h
    exact .set
  | setWithPath n path =>
    cases h
    exact .setWithPath path

theorem listedAs_lineText (hr : r.mapsLine = true) {line : UInt32} (h : shown (before ++ [r]) = some line) :
    ∃ op text, r.body = .line op ∧ LineText line op text ∧ recordText (some line) r = listedAs r text := by
  rw [shown_concat] at h
  unfold Record.mapsLine Record.isLine at hr
  unfold runningAfter at h
  cases hbody : r.body with
  | line op =>
    rw [hbody] at h
    refine ⟨op, lineOpText (some line) op, rfl, lineText_of_running h, ?_⟩
    unfold recordText
    rw [hbody]
    rfl
  | _ =>
    rw [hbody] at hr
    exact nomatch hr

end Listing

theorem SymbolFile.listing_split (header : Header) (before : List Record) (r : Record) (after : List Record) :
    SymbolFile.listing { header, records := before ++ r :: after } =
      SymbolFile.listing { header, records := before } ++
        Listing.recordText (Listing.shown (before ++ [r])) r ++
        Listing.recordsText (Listing.shown (before ++ [r])) after := by
  unfold SymbolFile.listing
  rw [Listing.recordsText_append, Listing.recordsText, Listing.shown_concat]
  simp only [String.append_assoc]
  rfl

/-! ## Source lines -/

theorem sourcePath?_of_not_line {r : Record} (h : r.isLine = false) : r.sourcePath? = none := by
  unfold Record.isLine at h
  unfold Record.sourcePath?
  cases hbody : r.body <;> simp_all

theorem latestPath_append_of_not_line {before more : List Record} (h : ∀ r ∈ more, r.isLine = false) :
    latestPath (before ++ more) = latestPath before := by
  have hnone : more.filterMap Record.sourcePath? = [] :=
    List.filterMap_eq_nil_iff.mpr fun r hr => sourcePath?_of_not_line (h r hr)
  simp [latestPath, hnone]

theorem latestPath_concat (before : List Record) (r : Record) :
    latestPath (before ++ [r]) = r.sourcePath?.or (latestPath before) := by
  unfold latestPath
  rw [List.filterMap_append]
  cases hr : r.sourcePath? with
  | none => simp [hr]
  | some path => simp [hr]

/-- Line records count from there after the records: from the running line of the
listing, in the source file that was the last to be named. -/
structure SourceAfter (records : List Record) (source : Option SourceLine) : Prop where
  line : source.map (·.line) = Listing.shown records
  path : ∀ s, source = some s → latestPath records = some s.path

namespace SourceAfter

variable {before more : List Record} {source : Option SourceLine}

theorem nil : SourceAfter [] none :=
  ⟨rfl, fun _ h => nomatch h⟩

theorem append_of_not_line (h : SourceAfter before source) (hmore : ∀ r ∈ more, r.isLine = false) :
    SourceAfter (before ++ more) source := by
  refine ⟨?_, fun s hs => ?_⟩
  · rw [Listing.shown_append_of_not_line hmore, h.line]
  · rw [latestPath_append_of_not_line hmore, h.path s hs]

theorem finish (before : List Record) {r : Record} (hbody : r.body = .line .finish) :
    SourceAfter (before ++ [r]) none := by
  refine ⟨?_, fun _ h => nomatch h⟩
  simp [Listing.shown_concat, Listing.runningAfter, Listing.running, hbody]

theorem concat (h : SourceAfter before source) {r : Record} {op : LineOp} (hbody : r.body = .line op) {s : SourceLine}
    (hs : SourceLine.after source op = some s) : SourceAfter (before ++ [r]) (some s) := by
  have hpath : latestPath (before ++ [r]) = r.sourcePath?.or (latestPath before) := latestPath_concat before r
  have hrunning : Listing.shown (before ++ [r]) = Listing.running (Listing.shown before) op := by
    simp only [Listing.shown_concat, Listing.runningAfter, hbody]
  simp only [Record.sourcePath?, hbody] at hpath
  rw [← h.line] at hrunning
  refine ⟨?_, fun t ht => ?_⟩
  · rw [hrunning]
    cases op <;> cases source <;> cases hs <;> rfl
  · cases ht
    rw [hpath]
    -- only a record with a path leads to another file
    cases op with
    | setWithPath line path =>
      cases hs
      rfl
    | finish => exact nomatch hs
    | increment | incrementByte _ | incrementWord _ | set _ =>
      obtain ⟨t, ht, rfl⟩ := Option.map_eq_some_iff.mp hs
      exact h.path t ht

end SourceAfter

end DebugSymbols
