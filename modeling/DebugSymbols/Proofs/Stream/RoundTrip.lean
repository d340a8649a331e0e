import Mathlib.Control.Monad.Basic
import DebugSymbols.Proofs.Stream.Fields

/-!
# Reading what was written

`decode_encode_exact`: reading inverts the wire format. Reading a file that
fits gives it back, and bytes that are read, with valid texts, are those of the
file they are read as.
-/

namespace DebugSymbols

namespace Reader

/-! ## Bodies from their bytes -/

theorem functionStart_encode {start : FunctionStart} (hp : TextFits start.path) (hn : TextFits start.name)
    (rest : List UInt8) : functionStart (Encode.functionStart start ++ rest) = .ok (start, rest) := by
  simp only [functionStart, Encode.functionStart, List.append_assoc, run_bind, word16_encode, word32_encode,
    text_encode hp, text_encode hn, ok_bind, run_pure, Int32.toInt32_toUInt32]

theorem symbolDef_encode {form : Form} {d : SymbolDef} (h : d.Fits form) (rest : List UInt8) :
    symbolDef form (Encode.symbolDef form d ++ rest) = .ok (d, rest) := by
  obtain ⟨⟨code, hcode⟩, hname, hform⟩ := h
  have hclass : SymbolClass.ofCode d.symbolClass.code = d.symbolClass := by
    rw [← hcode, SymbolClass.code_ofCode]
  obtain ⟨symbolClass, word, size, dims, tag, name⟩ := d
  cases form with
  | first =>
    obtain ⟨rfl, rfl⟩ := hform
    simp only [symbolDef, Encode.symbolDef, List.append_assoc, run_bind, word16_encode, word32_encode,
      text_encode hname, ok_bind, run_pure, hclass]
  | second =>
    obtain ⟨hdims, htag⟩ := hform
    have hcount : (UInt16.ofNat dims.length).toNat = dims.length := by
      rw [UInt16.toNat_ofNat']
      exact Nat.mod_eq_of_lt (Nat.lt_succ_of_le hdims)
    have htimes : ∀ rest, times (word32 "array dimension") dims.length (dims.flatMap Encode.word32 ++ rest) =
        .ok (dims, rest) := fun _ => times_word32_iff.mpr ⟨rfl, rfl⟩
    simp only [symbolDef, Encode.symbolDef, List.append_assoc, run_bind, word16_encode, word32_encode, hcount,
      htimes, text_encode hname, text_encode htag, ok_bind, run_pure, hclass]

theorem body_encode {b : Body} (h : b.Fits) (rest : List UInt8) :
    body b.kind (Encode.body b ++ rest) = .ok (b, rest) := by
  cases b with
  | symbol form name =>
    cases form <;> simp only [body, Body.kind, Encode.body, run_bind, text_encode h, ok_bind, run_pure]
  | line op =>
    cases op with
    | setWithPath line path =>
      have hpath : TextFits path := h
      simp only [body, Body.kind, LineOp.kind, Encode.body, Encode.lineOp, List.append_assoc, run_bind,
        word32_encode, text_encode hpath, ok_bind, run_pure]
    | increment | finish => rfl
    | incrementByte amount => rfl
    | incrementWord amount =>
      simp only [body, Body.kind, LineOp.kind, Encode.body, Encode.lineOp, run_bind, word16_encode,
        ok_bind, run_pure]
    | set line =>
      simp only [body, Body.kind, LineOp.kind, Encode.body, Encode.lineOp, run_bind, word32_encode,
        ok_bind, run_pure]
  | functionStart start =>
    simp only [body, Body.kind, Encode.body, run_bind, functionStart_encode h.1 h.2, ok_bind, run_pure]
  | functionEnd line | blockStart line | blockEnd line =>
    simp only [body, Body.kind, Encode.body, run_bind, word32_encode, ok_bind, run_pure]
  | definition form d =>
    have hd : d.Fits form := h
    cases form <;> simp only [body, Body.kind, Encode.body, run_bind, symbolDef_encode hd, ok_bind, run_pure]
  | overlay length id =>
    simp only [body, Body.kind, Encode.body, List.append_assoc, run_bind, word32_encode, ok_bind, run_pure]
  | setOverlay => rfl

theorem kind_encode (k : Kind) (rest : List UInt8) : kind (k.code :: rest) = .ok (k, rest) := by
  simp only [kind, run_bind, byte_encode, ok_bind, Kind.ofCode?_code, run_pure]

theorem record_encode {r : Record} (h : r.body.Fits) (rest : List UInt8) :
    record r.offset (Encode.record r ++ rest) = .ok (r, rest) := by
  have hkind := kind_encode r.body.kind (Encode.body r.body ++ rest)
  simp only [record, Encode.record, Record.kind, List.append_assoc, List.cons_append, List.nil_append,
    run_bind, word32_encode, hkind, body_encode h, ok_bind, run_pure]

/-! ## Bytes from their bodies -/

open Text (Utf8.Valid)

theorem functionStart_inv {bs rest : List UInt8} {start : FunctionStart}
    (h : functionStart bs = .ok (start, rest))
    (hvalid : ∀ raw ∈ rawTexts 2 (bs.drop 20), Utf8.Valid raw) :
    bs = Encode.functionStart start ++ rest := by
  obtain ⟨frameRegister, bs₁, h₁, h⟩ := bind_inv h
  obtain ⟨frameSize, bs₂, h₂, h⟩ := bind_inv h
  obtain ⟨returnRegister, bs₃, h₃, h⟩ := bind_inv h
  obtain ⟨mask, bs₄, h₄, h⟩ := bind_inv h
  obtain ⟨maskOffset, bs₅, h₅, h⟩ := bind_inv h
  obtain ⟨line, bs₆, h₆, h⟩ := bind_inv h
  obtain ⟨path, bs₇, h₇, h⟩ := bind_inv h
  obtain ⟨name, bs₈, h₈, h⟩ := bind_inv h
  cases h
  -- the texts are what was read only where their bytes are valid
  obtain ⟨raw₁, hraw₁, hpath⟩ := text_inv h₇
  obtain ⟨raw₂, hraw₂, hname⟩ := text_inv h₈
  have hfixed := word16_inv h₁
  rw [word32_inv h₂, word16_inv h₃, word32_inv h₄, word32_inv h₅, word32_inv h₆] at hfixed
  have hdrop : bs.drop 20 = bs₆ := by
    rw [hfixed]
    rfl
  rw [hdrop, hraw₁, hraw₂] at hvalid
  rw [hpath (hvalid raw₁ (by simp)), hname (hvalid raw₂ (by simp))] at hfixed
  rw [hfixed]
  simp only [Encode.functionStart, List.append_assoc, UInt32.toUInt32_toInt32]

theorem length_flatMap_word32 (ws : List UInt32) : (ws.flatMap Encode.word32).length = 4 * ws.length := by
  induction ws with
  | nil => rfl
  | cons w ws ih =>
    rw [List.flatMap_cons, List.length_append, ih, List.length_cons]
    show 4 + 4 * ws.length = _
    omega

theorem symbolDef_inv {form : Form} {bs rest : List UInt8} {d : SymbolDef}
    (h : symbolDef form bs = .ok (d, rest))
    (hvalid : ∀ raw ∈ (Body.definition form d).rawTexts bs, Utf8.Valid raw) :
    bs = Encode.symbolDef form d ++ rest := by
  obtain ⟨code, bs₁, h₁, h⟩ := bind_inv h
  obtain ⟨word, bs₂, h₂, h⟩ := bind_inv h
  obtain ⟨size, bs₃, h₃, h⟩ := bind_inv h
  have hfixed := word16_inv h₁
  rw [word16_inv h₂, word32_inv h₃] at hfixed
  cases form with
  | first =>
    obtain ⟨name, bs₄, h₄, h⟩ := bind_inv h
    cases h
    obtain ⟨raw, hraw, hname⟩ := text_inv h₄
    have hdrop : bs.drop 8 = bs₃ := by
      rw [hfixed]
      rfl
    have htexts : (Body.definition .first ⟨SymbolClass.ofCode code, ⟨word⟩, size, [], "", name⟩).rawTexts bs =
        [raw] := by
      show rawTexts 1 (bs.drop 8) = [raw]
      rw [hdrop, hraw]
      rfl
    rw [htexts] at hvalid
    rw [hname (hvalid raw (by simp))] at hfixed
    rw [hfixed]
    simp only [Encode.symbolDef, List.append_assoc, SymbolClass.code_ofCode]
  | second =>
    obtain ⟨count, bs₄, h₄, h⟩ := bind_inv h
    obtain ⟨dims, bs₅, h₅, h⟩ := bind_inv h
    obtain ⟨tag, bs₆, h₆, h⟩ := bind_inv h
    obtain ⟨name, bs₇, h₇, h⟩ := bind_inv h
    cases h
    obtain ⟨raw₁, hraw₁, htag⟩ := text_inv h₆
    obtain ⟨raw₂, hraw₂, hname⟩ := text_inv h₇
    obtain ⟨hlength, hdims⟩ := times_word32_iff.mp h₅
    rw [word16_inv h₄, hdims] at hfixed
    have hdrop : bs.drop (10 + 4 * dims.length) = bs₅ := by
      rw [← List.drop_drop, hfixed, ← length_flatMap_word32]
      exact List.drop_left
    have htexts :
        (Body.definition .second ⟨SymbolClass.ofCode code, ⟨word⟩, size, dims, tag, name⟩).rawTexts bs =
          [raw₁, raw₂] := by
      show rawTexts 2 (bs.drop (10 + 4 * dims.length)) = [raw₁, raw₂]
      rw [hdrop, hraw₁, hraw₂]
      rfl
    rw [htexts] at hvalid
    rw [htag (hvalid raw₁ (by simp)), hname (hvalid raw₂ (by simp))] at hfixed
    rw [hfixed]
    simp only [Encode.symbolDef, List.append_assoc, SymbolClass.code_ofCode, hlength, UInt16.ofNat_toNat]

theorem body_inv {k : Kind} {bs rest : List UInt8} {b : Body} (h : body k bs = .ok (b, rest))
    (hvalid : ∀ raw ∈ b.rawTexts bs, Utf8.Valid raw) : b.kind = k ∧ bs = Encode.body b ++ rest := by
  cases k with
  | name1 | name2 =>
    obtain ⟨name, mid, hname, h⟩ := bind_inv h
    cases h
    obtain ⟨raw, hraw, hbytes⟩ := text_inv hname
    exact ⟨rfl, hbytes (hvalid raw (by simp [Body.rawTexts, Body.texts, hraw]))⟩
  | incLine | endLine | setOverlay =>
    cases h
    exact ⟨rfl, rfl⟩
  | incLineByte =>
    obtain ⟨amount, mid, hamount, h⟩ := bind_inv h
    cases h
    exact ⟨rfl, byte_inv hamount⟩
  | incLineWord =>
    obtain ⟨amount, mid, hamount, h⟩ := bind_inv h
    cases h
    exact ⟨rfl, word16_inv hamount⟩
  | setLine | funcEnd | blockStart | blockEnd =>
    obtain ⟨line, mid, hline, h⟩ := bind_inv h
    cases h
    exact ⟨rfl, word32_inv hline⟩
  | setLineWithPath =>
    obtain ⟨line, bs₁, hline, h⟩ := bind_inv h
    obtain ⟨path, bs₂, hpath, h⟩ := bind_inv h
    cases h
    obtain ⟨raw, hraw, hbytes⟩ := text_inv hpath
    have hfixed := word32_inv hline
    have hdrop : bs.drop 4 = bs₁ := by
      rw [hfixed]
      rfl
    rw [hbytes (hvalid raw (by simp [Body.rawTexts, Body.texts, hdrop, hraw]))] at hfixed
    rw [hfixed]
    exact ⟨rfl, (List.append_assoc _ _ _).symm⟩
  | funcStart =>
    obtain ⟨start, mid, hstart, h⟩ := bind_inv h
    cases h
    exact ⟨rfl, functionStart_inv hstart hvalid⟩
  | def1 | def2 =>
    obtain ⟨d, mid, hd, h⟩ := bind_inv h
    cases h
    exact ⟨rfl, symbolDef_inv hd hvalid⟩
  | overlay =>
    obtain ⟨length, bs₁, hlength, h⟩ := bind_inv h
    obtain ⟨id, bs₂, hid, h⟩ := bind_inv h
    cases h
    have hfixed := word32_inv hlength
    rw [word32_inv hid] at hfixed
    rw [hfixed]
    exact ⟨rfl, (List.append_assoc _ _ _).symm⟩

theorem kind_inv {bs rest : List UInt8} {k : Kind} (h : kind bs = .ok (k, rest)) : bs = k.code :: rest := by
  obtain ⟨code, mid, hcode, h⟩ := bind_inv h
  rw [byte_inv hcode]
  cases hk : Kind.ofCode? code with
  | none =>
    rw [hk] at h
    exact nomatch h
  | some kind =>
    rw [hk] at h
    cases h
    rw [Kind.code_of_ofCode? hk]

theorem record_offset {offset : Nat} {bs rest : List UInt8} {r : Record}
    (h : record offset bs = .ok (r, rest)) : r.offset = offset := by
  obtain ⟨value, bs₁, _, h⟩ := bind_inv h
  obtain ⟨k, bs₂, _, h⟩ := bind_inv h
  obtain ⟨b, bs₃, _, h⟩ := bind_inv h
  cases h
  rfl

theorem record_inv {offset : Nat} {bs rest : List UInt8} {r : Record} (h : record offset bs = .ok (r, rest))
    (hvalid : ∀ raw ∈ r.body.rawTexts (bs.drop 5), Utf8.Valid raw) : bs = Encode.record r ++ rest := by
  obtain ⟨value, bs₁, hvalue, h⟩ := bind_inv h
  obtain ⟨k, bs₂, hk, h⟩ := bind_inv h
  obtain ⟨b, bs₃, hbody, h⟩ := bind_inv h
  cases h
  have hfixed := word32_inv hvalue
  rw [kind_inv hk] at hfixed
  have hdrop : bs.drop 5 = bs₂ := by
    rw [hfixed]
    rfl
  rw [hdrop] at hvalid
  obtain ⟨hkind, hbytes⟩ := body_inv hbody hvalid
  rw [hbytes, ← hkind] at hfixed
  rw [hfixed]
  simp only [Encode.record, Record.kind, List.append_assoc, List.cons_append, List.nil_append]

/-! ## Records -/

theorem records_nil (offset index : Nat) : records offset index [] = .ok [] := by
  rw [records]
  rfl

theorem records_cons {offset index : Nat} {bytes rest : List UInt8} {r : Record}
    (h : record offset bytes = .ok (r, rest)) : records offset index bytes =
      (records (offset + (bytes.length - rest.length)) (index + 1) rest).map (r :: ·) := by
  have hne : bytes.isEmpty = false := by
    cases bytes with
    | nil => cases h
    | cons b bs => rfl
  rw [records, hne]
  simp only [Bool.false_eq_true, if_false]
  split
  · rename_i heq
    rw [h] at heq
    cases heq
  · rename_i heq
    rw [h] at heq
    cases heq
    rfl

theorem records_cases {offset index : Nat} {bytes : List UInt8} {rs : List Record}
    (h : records offset index bytes = .ok rs) :
    (bytes = [] ∧ rs = []) ∨ ∃ r rest rs', record offset bytes = .ok (r, rest) ∧
      records (offset + (bytes.length - rest.length)) (index + 1) rest = .ok rs' ∧ rs = r :: rs' := by
  cases hr : record offset bytes with
  | error cause =>
    cases bytes with
    | nil =>
      rw [records_nil] at h
      cases h
      exact .inl ⟨rfl, rfl⟩
    | cons b bs =>
      rw [records] at h
      simp only [List.isEmpty_cons, Bool.false_eq_true, if_false] at h
      split at h
      · cases h
      · rename_i heq
        rw [hr] at heq
        cases heq
  | ok p =>
    rw [records_cons hr] at h
    cases hrest : records (offset + (bytes.length - p.2.length)) (index + 1) p.2 with
    | error e =>
      rw [hrest] at h
      cases h
    | ok rs' =>
      rw [hrest] at h
      cases h
      exact .inr ⟨p.1, p.2, rs', rfl, hrest, rfl⟩

theorem records_encode {rs : List Record} : ∀ {offset : Nat} (index : Nat), PlacedFrom offset rs →
    (∀ r ∈ rs, r.body.Fits) → records offset index (rs.flatMap Encode.record) = .ok rs := by
  induction rs with
  | nil => exact fun index _ _ => records_nil _ index
  | cons r rs ih =>
    intro offset index hplaced hfits
    obtain ⟨hoffset, hrest⟩ := placedFrom_cons.mp hplaced
    have hhead := record_encode (hfits r List.mem_cons_self) (rs.flatMap Encode.record)
    rw [hoffset] at hhead
    have hlength : offset + ((Encode.record r ++ rs.flatMap Encode.record).length -
        (rs.flatMap Encode.record).length) = offset + (Encode.record r).length := by
      rw [List.length_append]
      omega
    rw [List.flatMap_cons, records_cons hhead, hlength,
      ih (index + 1) hrest fun q hq => hfits q (List.mem_cons_of_mem _ hq)]
    rfl

theorem records_inv {rs : List Record} : ∀ {index : Nat} {front bytes : List UInt8},
    records front.length index bytes = .ok rs →
      (∀ r ∈ rs, ∀ raw ∈ r.rawTexts (front ++ bytes), Utf8.Valid raw) →
        bytes = rs.flatMap Encode.record := by
  induction rs with
  | nil =>
    intro index front bytes h _
    obtain ⟨hbytes, _⟩ | ⟨r, rest, rs', _, _, heq⟩ := records_cases h
    · exact hbytes
    · exact nomatch heq
  | cons r rs ih =>
    intro index front bytes h hvalid
    obtain ⟨_, heq⟩ | ⟨q, rest, rs', hrecord, hrest, heq⟩ := records_cases h
    · exact nomatch heq
    · cases heq
      have hraw := hvalid r List.mem_cons_self
      have hoffset := record_offset hrecord
      -- offsets count from the start of the file, with what was read before in front
      have hdrop : (front ++ bytes).drop (r.offset + 5) = bytes.drop 5 := by
        rw [hoffset, ← List.drop_drop, List.drop_left]
      unfold Record.rawTexts at hraw
      rw [hdrop] at hraw
      have hbytes := record_inv hrecord hraw
      have hlength : front.length + (bytes.length - rest.length) = (front ++ Encode.record r).length := by
        rw [hbytes, List.length_append, List.length_append]
        omega
      rw [hlength] at hrest
      have htail := ih hrest fun q hq raw hmem => by
        rw [List.append_assoc, ← hbytes] at hmem
        exact hvalid q (List.mem_cons_of_mem _ hq) raw hmem
      rw [List.flatMap_cons, ← htail]
      exact hbytes

/-! ## Files -/

theorem header_encode (h : Header) (rest : List UInt8) : header (Encode.header h ++ rest) = .ok (h, rest) := by
  have hsignature : ∀ bs, bytes "signature" signature.length (signature ++ bs) = .ok (signature, bs) := fun _ =>
    bytes_iff.mpr ⟨rfl, rfl⟩
  unfold header Encode.header
  simp only [List.append_assoc, List.cons_append, List.nil_append, run_bind, hsignature, ok_bind, ne_eq,
    not_true_eq_false, if_false, byte_encode, word32_encode, run_pure]

theorem header_inv {bs rest : List UInt8} {h : Header} (hh : header bs = .ok (h, rest)) :
    bs = Encode.header h ++ rest := by
  obtain ⟨found, bs₁, hfound, hh⟩ := bind_inv hh
  obtain ⟨_, hbytes⟩ := bytes_iff.mp hfound
  by_cases hs : found = signature
  · rw [if_neg (not_not_intro hs)] at hh
    obtain ⟨version, bs₂, hversion, hh⟩ := bind_inv hh
    obtain ⟨targetUnit, bs₃, htarget, hh⟩ := bind_inv hh
    cases hh
    rw [hs, byte_inv hversion, word32_inv htarget] at hbytes
    rw [hbytes]
    simp only [Encode.header, List.append_assoc, List.cons_append, List.nil_append]
  · rw [if_pos hs] at hh
    exact nomatch hh

end Reader

namespace SymbolFile

theorem decode_header_append (h : Header) (rest : List UInt8) :
    decode (Encode.header h ++ rest) =
      (Reader.records Header.length 0 rest).map fun records => { header := h, records } := by
  have hlength : ¬(Encode.header h ++ rest).length < Header.length := by
    rw [List.length_append]
    exact Nat.not_lt.mpr (Nat.le_add_right _ _)
  unfold decode
  rw [if_neg hlength, Reader.header_encode]

theorem decode_inv {bytes : List UInt8} {f : SymbolFile} (h : decode bytes = .ok f) :
    ∃ rest, bytes = Encode.header f.header ++ rest ∧ Reader.records Header.length 0 rest = .ok f.records := by
  unfold decode at h
  split at h
  · exact nomatch h
  · cases hheader : Reader.header bytes with
    | error cause =>
      rw [hheader] at h
      exact nomatch h
    | ok p =>
      rw [hheader] at h
      dsimp only at h
      cases hrecords : Reader.records Header.length 0 p.2 with
      | error e =>
        rw [hrecords] at h
        exact nomatch h
      | ok rs =>
        rw [hrecords] at h
        cases h
        exact ⟨p.2, Reader.header_inv hheader, hrecords⟩

theorem decode_encode {f : SymbolFile} (hplaced : PlacedFrom Header.length f.records)
    (hfits : ∀ r ∈ f.records, r.body.Fits) : decode (Encode.file f) = .ok f := by
  unfold Encode.file
  rw [decode_header_append, Reader.records_encode 0 hplaced hfits]
  rfl

theorem decode_place (h : Header) {entries : List (UInt32 × Body)} (hfits : ∀ e ∈ entries, e.2.Fits) :
    decode (Encode.file (place h entries)) = .ok (place h entries) := by
  refine decode_encode (placedFrom_placeFrom Header.length entries) fun r hr => ?_
  obtain ⟨e, he, hbody⟩ := mem_placeFrom hr
  rw [hbody]
  exact hfits e he

theorem encode_of_decode {bytes : List UInt8} {f : SymbolFile} (h : decode bytes = .ok f)
    (hvalid : f.TextsValid bytes) : Encode.file f = bytes := by
  obtain ⟨rest, rfl, hrecords⟩ := decode_inv h
  have hplace : Reader.records (Encode.header f.header).length 0 rest = .ok f.records := hrecords
  have hrest := Reader.records_inv hplace hvalid
  unfold Encode.file
  rw [← hrest]

/-- Reading inverts the wire format, and the wire format inverts reading. -/
theorem decode_encode_exact :
    (∀ (h : Header) (entries : List (UInt32 × Body)), (∀ e ∈ entries, e.2.Fits) →
      decode (Encode.file (place h entries)) = .ok (place h entries) ∧
        PlacedFrom Header.length (place h entries).records) ∧
      ∀ (bytes : List UInt8) (f : SymbolFile), decode bytes = .ok f → f.TextsValid bytes →
        Encode.file f = bytes := by
  refine ⟨fun h entries hfits => ?_, fun _ _ => encode_of_decode⟩
  exact ⟨decode_place h hfits, placedFrom_placeFrom Header.length entries⟩

def twoNames : List (UInt32 × Body) :=
  [(0x80010000, .symbol .first "main"), (4, .symbol .second "é")]

theorem fits_twoNames : ∀ e ∈ twoNames, e.2.Fits := by
  intro e he
  simp only [twoNames, List.mem_cons, List.not_mem_nil, or_false] at he
  obtain rfl | rfl := he
  · show (Text.Utf8.encode "main").length ≤ 255
    decide +kernel
  · show (Text.Utf8.encode "é").length ≤ 255
    decide +kernel

theorem decode_encode_exact_names :
    decode (Encode.file (place ⟨1, 0⟩ twoNames)) = .ok (place ⟨1, 0⟩ twoNames) ∧
      Encode.file ⟨⟨1, 0⟩, [⟨8, 4, .symbol .second "é"⟩]⟩ =
        [0x4D, 0x4E, 0x44, 1, 0, 0, 0, 0, 4, 0, 0, 0, 2, 2, 0xC3, 0xA9] := by
  refine ⟨(decode_encode_exact.1 _ _ fits_twoNames).1, decode_encode_exact.2 _ _ ?_ ?_⟩
  · decide +kernel
  · intro r hr raw hraw
    cases List.mem_singleton.mp hr
    cases List.mem_singleton.mp hraw
    exact ⟨"é", by decide +kernel⟩

end SymbolFile

end DebugSymbols
