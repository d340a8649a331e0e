import DebugSymbols.Proofs.Stream.RoundTrip

/-!
# Files that are cut short

`decode_locatesCut`: a file cut between two records reads as the records before
the cut, and one cut anywhere else is an error at the record that is cut. A
reader that is done knows so from what it took, so that no cut of that is taken
for less.
-/

namespace DebugSymbols

namespace Reader

variable {α β : Type}

/-! ## What a reader takes -/

/-- The reader takes these bytes, whatever stands behind them, and not fewer. -/
structure Takes (r : Reader α) (used : List UInt8) (a : α) : Prop where
  whole : ∀ rest, r (used ++ rest) = .ok (a, rest)
  cut : ∀ n < used.length, ∃ what, r (used.take n) = .error (.unexpectedEnd what)

theorem Takes.pure (a : α) : Takes (pure a : Reader α) [] a where
  whole _ := rfl
  cut _ hn := absurd hn (Nat.not_lt_zero _)

theorem Takes.bind {r : Reader α} {f : α → Reader β} {used used' : List UInt8} {a : α} {b : β}
    (hr : Takes r used a) (hf : Takes (f a) used' b) : Takes (r >>= f) (used ++ used') b where
  whole rest := by
    rw [List.append_assoc, run_bind, hr.whole, ok_bind, hf.whole]
  cut n hn := by
    rw [run_bind]
    by_cases hcut : n < used.length
    · obtain ⟨what, herror⟩ := hr.cut n hcut
      rw [List.take_append_of_le_length (Nat.le_of_lt hcut), herror]
      exact ⟨what, rfl⟩
    · have hle : used.length ≤ n := Nat.le_of_not_lt hcut
      have hbehind : n - used.length < used'.length := by
        rw [List.length_append] at hn
        omega
      rw [List.take_append, List.take_of_length_le hle, hr.whole, ok_bind]
      exact hf.cut _ hbehind

/-- Wherever the reader succeeds, what it took says so by itself. -/
def SelfDelimiting (r : Reader α) : Prop :=
  ∀ ⦃bs a rest⦄, r bs = .ok (a, rest) → ∃ used, bs = used ++ rest ∧ Takes r used a

theorem selfDelimiting_pure (a : α) : SelfDelimiting (pure a : Reader α) := by
  intro bs b rest h
  cases h
  exact ⟨[], rfl, .pure a⟩

theorem selfDelimiting_bind {r : Reader α} {f : α → Reader β} (hr : SelfDelimiting r)
    (hf : ∀ a, SelfDelimiting (f a)) : SelfDelimiting (r >>= f) := by
  intro bs b rest h
  obtain ⟨a, mid, ha, hb⟩ := bind_inv h
  obtain ⟨used, rfl, htakes⟩ := hr ha
  obtain ⟨used', rfl, htakes'⟩ := hf a hb
  exact ⟨used ++ used', (List.append_assoc _ _ _).symm, htakes.bind htakes'⟩

/-! ## Fields -/

theorem selfDelimiting_byte (what : String) : SelfDelimiting (byte what) := by
  intro bs b rest h
  refine ⟨[b], byte_inv h, fun _ => rfl, fun n hn => ⟨what, ?_⟩⟩
  rw [Nat.lt_one_iff.mp hn]
  rfl

theorem word16_of_short (what : String) {bs : List UInt8} (h : bs.length < 2) :
    word16 what bs = .error (.unexpectedEnd what) := by
  unfold word16
  split
  · simp only [List.length_cons] at h
    omega
  · rfl

theorem word32_of_short (what : String) {bs : List UInt8} (h : bs.length < 4) :
    word32 what bs = .error (.unexpectedEnd what) := by
  unfold word32
  split
  · simp only [List.length_cons] at h
    omega
  · rfl

theorem selfDelimiting_word16 (what : String) : SelfDelimiting (word16 what) := by
  intro bs w rest h
  refine ⟨Encode.word16 w, word16_inv h, word16_encode what w, fun n hn => ⟨what, word16_of_short what ?_⟩⟩
  exact Nat.lt_of_le_of_lt (List.length_take_le n _) hn

theorem selfDelimiting_word32 (what : String) : SelfDelimiting (word32 what) := by
  intro bs w rest h
  refine ⟨Encode.word32 w, word32_inv h, word32_encode what w, fun n hn => ⟨what, word32_of_short what ?_⟩⟩
  exact Nat.lt_of_le_of_lt (List.length_take_le n _) hn

theorem selfDelimiting_bytes (what : String) (n : Nat) : SelfDelimiting (bytes what n) := by
  intro bs found rest h
  obtain ⟨rfl, hbs⟩ := bytes_iff.mp h
  refine ⟨found, hbs, fun _ => bytes_iff.mpr ⟨rfl, rfl⟩, fun n hn => ⟨what, if_neg ?_⟩⟩
  rw [List.length_take_of_le (Nat.le_of_lt hn)]
  exact Nat.not_le_of_lt hn

theorem selfDelimiting_text (what : String) : SelfDelimiting (text what) :=
  selfDelimiting_bind (selfDelimiting_byte what) fun n =>
    selfDelimiting_bind (selfDelimiting_bytes what n.toNat) fun _ => selfDelimiting_pure _

theorem selfDelimiting_times {r : Reader α} (hr : SelfDelimiting r) (n : Nat) : SelfDelimiting (times r n) := by
  induction n with
  | zero => exact selfDelimiting_pure []
  | succ n ih =>
    exact selfDelimiting_bind hr fun _ => selfDelimiting_bind ih fun _ => selfDelimiting_pure _

/-! ## Records -/

theorem selfDelimiting_functionStart : SelfDelimiting functionStart :=
  selfDelimiting_bind (selfDelimiting_word16 _) fun _ => selfDelimiting_bind (selfDelimiting_word32 _) fun _ =>
  selfDelimiting_bind (selfDelimiting_word16 _) fun _ => selfDelimiting_bind (selfDelimiting_word32 _) fun _ =>
  selfDelimiting_bind (selfDelimiting_word32 _) fun _ => selfDelimiting_bind (selfDelimiting_word32 _) fun _ =>
  selfDelimiting_bind (selfDelimiting_text _) fun _ => selfDelimiting_bind (selfDelimiting_text _) fun _ =>
  selfDelimiting_pure _

theorem selfDelimiting_symbolDef (form : Form) : SelfDelimiting (symbolDef form) := by
  refine selfDelimiting_bind (selfDelimiting_word16 _) fun _ => selfDelimiting_bind (selfDelimiting_word16 _) fun _ =>
    selfDelimiting_bind (selfDelimiting_word32 _) fun _ => ?_
  cases form with
  | first => exact selfDelimiting_bind (selfDelimiting_text _) fun _ => selfDelimiting_pure _
  | second =>
    exact selfDelimiting_bind (selfDelimiting_word16 _) fun _ =>
      selfDelimiting_bind (selfDelimiting_times (selfDelimiting_word32 _) _) fun _ =>
      selfDelimiting_bind (selfDelimiting_text _) fun _ => selfDelimiting_bind (selfDelimiting_text _) fun _ =>
      selfDelimiting_pure _

theorem selfDelimiting_body (k : Kind) : SelfDelimiting (body k) := by
  cases k with
  | name1 | name2 => exact selfDelimiting_bind (selfDelimiting_text _) fun _ => selfDelimiting_pure _
  | incLine | endLine | setOverlay => exact selfDelimiting_pure _
  | incLineByte => exact selfDelimiting_bind (selfDelimiting_byte _) fun _ => selfDelimiting_pure _
  | incLineWord => exact selfDelimiting_bind (selfDelimiting_word16 _) fun _ => selfDelimiting_pure _
  | setLine | funcEnd | blockStart | blockEnd =>
    exact selfDelimiting_bind (selfDelimiting_word32 _) fun _ => selfDelimiting_pure _
  | setLineWithPath =>
    exact selfDelimiting_bind (selfDelimiting_word32 _) fun _ => selfDelimiting_bind (selfDelimiting_text _) fun _ =>
      selfDelimiting_pure _
  | funcStart => exact selfDelimiting_bind selfDelimiting_functionStart fun _ => selfDelimiting_pure _
  | def1 | def2 => exact selfDelimiting_bind (selfDelimiting_symbolDef _) fun _ => selfDelimiting_pure _
  | overlay =>
    exact selfDelimiting_bind (selfDelimiting_word32 _) fun _ => selfDelimiting_bind (selfDelimiting_word32 _) fun _ =>
      selfDelimiting_pure _

theorem selfDelimiting_kind : SelfDelimiting kind := by
  refine selfDelimiting_bind (selfDelimiting_byte _) fun code => ?_
  cases Kind.ofCode? code with
  | some k => exact selfDelimiting_pure k
  | none => exact fun bs a rest h => nomatch h

theorem selfDelimiting_record (offset : Nat) : SelfDelimiting (record offset) :=
  selfDelimiting_bind (selfDelimiting_word32 _) fun _ => selfDelimiting_bind selfDelimiting_kind fun k =>
  selfDelimiting_bind (selfDelimiting_body k) fun _ => selfDelimiting_pure _

theorem record_takes {offset : Nat} {bs rest : List UInt8} {r : Record} (h : record offset bs = .ok (r, rest)) :
    ∃ used, used ≠ [] ∧ bs = used ++ rest ∧ Takes (record offset) used r := by
  obtain ⟨used, rfl, htakes⟩ := selfDelimiting_record offset h
  refine ⟨used, ?_, rfl, htakes⟩
  rintro rfl
  exact absurd (length_record h) (Nat.lt_irrefl _)

/-! ## Streams of records -/

theorem records_error {offset index : Nat} {bytes : List UInt8} {cause : FormatCause} (hne : bytes ≠ [])
    (h : record offset bytes = .error cause) : records offset index bytes = .error { offset, index, cause } := by
  have hempty : bytes.isEmpty = false := by simpa using hne
  rw [records, hempty]
  simp only [Bool.false_eq_true, if_false]
  split
  · rename_i heq
    rw [h] at heq
    cases heq
    rfl
  · rename_i heq
    rw [h] at heq
    exact nomatch heq

theorem records_increasing {rs : List Record} : ∀ {offset index : Nat} {bytes : List UInt8},
    records offset index bytes = .ok rs →
      (∀ r ∈ rs, offset ≤ r.offset) ∧ rs.Pairwise fun r q => r.offset < q.offset := by
  induction rs with
  | nil =>
    intro _ _ _ _
    exact ⟨fun _ hr => (List.not_mem_nil hr).elim, List.Pairwise.nil⟩
  | cons r rs ih =>
    intro offset index bytes h
    obtain ⟨_, heq⟩ | ⟨r', rest, rs', hrecord, hrest, heq⟩ := records_cases h
    · exact nomatch heq
    · cases heq
      have hoffset := record_offset hrecord
      have hshorter := length_record hrecord
      obtain ⟨hfrom, hlt⟩ := ih hrest
      refine ⟨fun q hq => ?_, List.pairwise_cons.mpr ⟨fun q hq => ?_, hlt⟩⟩
      · obtain rfl | hq := List.mem_cons.mp hq
        · exact Nat.le_of_eq hoffset.symm
        · have hq := hfrom q hq
          omega
      · have hq := hfrom q hq
        omega

/-- What comes of the first `n` of the bytes: the records before a record that starts there, or an error at
the record that does not end there. -/
inductive CutOff (offset index n : Nat) (rs : List Record) : Except FormatError (List Record) → Prop where
  | between {before : List Record} {r : Record} {behind : List Record} (hrs : rs = before ++ r :: behind)
      (hr : r.offset = offset + n) : CutOff offset index n rs (.ok before)
  | inside {before : List Record} {r : Record} {behind : List Record} {what : String}
      (hrs : rs = before ++ r :: behind) (hr : r.offset < offset + n) (hbehind : ∀ q ∈ behind, offset + n < q.offset) :
      CutOff offset index n rs
        (.error { offset := r.offset, index := index + before.length, cause := .unexpectedEnd what })

theorem CutOff.cons {offset index n taken : Nat} {r : Record} {rs : List Record}
    {result : Except FormatError (List Record)} (h : CutOff (offset + taken) (index + 1) n rs result) :
    CutOff offset index (taken + n) (r :: rs) (result.map (r :: ·)) := by
  cases h with
  | @between before q behind hrs hq =>
    have hrs' : r :: rs = r :: before ++ q :: behind := congrArg (r :: ·) hrs
    exact .between hrs' (by omega)
  | @inside before q behind what hrs hq hbehind =>
    have hrs' : r :: rs = r :: before ++ q :: behind := congrArg (r :: ·) hrs
    have hindex : index + 1 + before.length = index + (r :: before).length := by
      rw [List.length_cons]
      omega
    rw [hindex]
    refine .inside hrs' (by omega) fun p hp => ?_
    have hp := hbehind p hp
    omega

theorem records_take {rs : List Record} : ∀ {offset index : Nat} {bytes : List UInt8} {n : Nat},
    records offset index bytes = .ok rs → n < bytes.length →
      CutOff offset index n rs (records offset index (bytes.take n)) := by
  induction rs with
  | nil =>
    intro offset index bytes n h hn
    obtain ⟨rfl, _⟩ | ⟨_, _, _, _, _, heq⟩ := records_cases h
    · exact absurd hn (Nat.not_lt_zero n)
    · exact nomatch heq
  | cons r rs ih =>
    intro offset index bytes n h hn
    obtain ⟨_, heq⟩ | ⟨r', rest, rs', hrecord, hrest, heq⟩ := records_cases h
    · exact nomatch heq
    · cases heq
      have hoffset := record_offset hrecord
      obtain ⟨used, hne, rfl, htakes⟩ := record_takes hrecord
      have hlength : (used ++ rest).length - rest.length = used.length := by
        rw [List.length_append]
        omega
      rw [hlength] at hrest
      have hfrom := (records_increasing hrest).1
      by_cases hzero : n = 0
      · subst hzero
        rw [List.take_zero, records_nil]
        exact .between (List.nil_append _).symm hoffset
      · by_cases hcut : n < used.length
        · -- the cut is in the record itself
          obtain ⟨what, herror⟩ := htakes.cut n hcut
          have hpart : used.take n ≠ [] := by
            intro hnil
            rw [List.take_eq_nil_iff] at hnil
            exact hnil.elim hzero hne
          rw [List.take_append_of_le_length (Nat.le_of_lt hcut), records_error hpart herror, ← hoffset]
          refine .inside (List.nil_append _).symm (by omega) fun q hq => ?_
          have hq := hfrom q hq
          omega
        · have hle : used.length ≤ n := Nat.le_of_not_lt hcut
          have hbehind : n - used.length < rest.length := by
            rw [List.length_append] at hn
            omega
          have htail := (ih hrest hbehind).cons (r := r)
          have hrecord' := htakes.whole (rest.take (n - used.length))
          have hlength' : (used ++ rest.take (n - used.length)).length - (rest.take (n - used.length)).length =
              used.length := by
            rw [List.length_append]
            omega
          rw [Nat.add_sub_cancel' hle] at htail
          rw [List.take_append, List.take_of_length_le hle, records_cons hrecord', hlength']
          exact htail

end Reader

/-! ## Files -/

namespace SymbolFile

structure LocatesCut (f : SymbolFile) (n : Nat) (result : Except FormatError SymbolFile) : Prop where
  header : n < Header.length → result = .error { offset := 0, index := 0, cause := .shortHeader n }
  between : Header.length ≤ n → (∃ r ∈ f.records, r.offset = n) →
    result = .ok { f with records := f.records.filter fun r => r.offset < n }
  inside : Header.length ≤ n → (∀ r ∈ f.records, r.offset ≠ n) →
    ∃ (before : List Record) (r : Record) (behind : List Record) (what : String),
      f.records = before ++ r :: behind ∧ r.offset < n ∧ (∀ q ∈ behind, n < q.offset) ∧
      result = .error { offset := r.offset, index := before.length, cause := .unexpectedEnd what }

theorem decode_locatesCut {bytes : List UInt8} {f : SymbolFile} (h : decode bytes = .ok f) {n : Nat}
    (hn : n < bytes.length) : LocatesCut f n (decode (bytes.take n)) := by
  obtain ⟨rest, rfl, hrecords⟩ := decode_inv h
  by_cases hheader : n < Header.length
  · refine ⟨fun _ => ?_, fun hle => absurd hheader (Nat.not_lt.mpr hle), fun hle => absurd hheader (Nat.not_lt.mpr hle)⟩
    have htake : ((Encode.header f.header ++ rest).take n).length = n := List.length_take_of_le (Nat.le_of_lt hn)
    unfold decode
    rw [htake, if_pos hheader]
  · have hle : Header.length ≤ n := Nat.le_of_not_lt hheader
    obtain ⟨m, rfl⟩ := Nat.exists_eq_add_of_le hle
    have hlength : (Encode.header f.header).length = Header.length := rfl
    have hm : m < rest.length := by
      rw [List.length_append, hlength] at hn
      omega
    have hincreasing := (Reader.records_increasing hrecords).2
    have hcut := Reader.records_take hrecords hm
    have htake : (Encode.header f.header ++ rest).take (Header.length + m) = Encode.header f.header ++ rest.take m := by
      rw [← hlength, List.take_length_add_append]
    rw [htake, decode_header_append]
    generalize Reader.records Header.length 0 (rest.take m) = result at hcut ⊢
    cases hcut with
    | @between before r behind hrs hr =>
      refine ⟨fun hlt => absurd hlt hheader, fun _ _ => ?_, fun _ hne => ?_⟩
      · rw [hrs] at hincreasing
        obtain ⟨_, hbehind, hbefore⟩ := List.pairwise_append.mp hincreasing
        have hfilter : (before ++ r :: behind).filter (fun q => q.offset < Header.length + m) = before := by
          rw [List.filter_append, List.filter_eq_self.mpr, List.filter_eq_nil_iff.mpr, List.append_nil]
          · intro q hq
            obtain rfl | hq := List.mem_cons.mp hq
            · simp [hr]
            · have hlt := (List.pairwise_cons.mp hbehind).1 q hq
              simp only [decide_eq_true_eq]
              omega
          · intro q hq
            have hlt := hbefore q hq r List.mem_cons_self
            simp only [decide_eq_true_eq]
            omega
        rw [hrs, hfilter]
        rfl
      · exact absurd hr (hne r (by simp [hrs]))
    | @inside before r behind what hrs hr hbehind =>
      refine ⟨fun hlt => absurd hlt hheader, fun _ hex => ?_, fun _ _ => ?_⟩
      · -- no record starts where another is cut
        obtain ⟨q, hq, hoffset⟩ := hex
        rw [hrs] at hq hincreasing
        obtain ⟨_, _, hbefore⟩ := List.pairwise_append.mp hincreasing
        obtain hq | hq := List.mem_append.mp hq
        · have hlt := hbefore q hq r List.mem_cons_self
          omega
        · obtain rfl | hq := List.mem_cons.mp hq
          · omega
          · have hlt := hbehind q hq
            omega
      · refine ⟨before, r, behind, what, hrs, hr, hbehind, ?_⟩
        rw [Nat.zero_add]
        rfl

/-- The second record stands at 18 and is cut at 20. -/
theorem decode_locatesCut_names :
    (place ⟨1, 0⟩ twoNames).records.map (·.offset) = [8, 18] ∧
      LocatesCut (place ⟨1, 0⟩ twoNames) 18 (decode ((Encode.file (place ⟨1, 0⟩ twoNames)).take 18)) ∧
      LocatesCut (place ⟨1, 0⟩ twoNames) 20 (decode ((Encode.file (place ⟨1, 0⟩ twoNames)).take 20)) := by
  have hdecode := decode_place ⟨1, 0⟩ fits_twoNames
  have hlength : (Encode.file (place ⟨1, 0⟩ twoNames)).length = 26 := by decide +kernel
  exact ⟨by decide +kernel, decode_locatesCut hdecode (by rw [hlength]; decide),
    decode_locatesCut hdecode (by rw [hlength]; decide)⟩

end SymbolFile

end DebugSymbols
