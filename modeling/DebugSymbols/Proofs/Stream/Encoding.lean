import DebugSymbols.Proofs.Text.Utf8
import DebugSymbols.Stream.Reader

/-!
# The wire format

A symbol file as bytes: the header, and behind it each record as its value, the
code of its kind and its body. Numbers are little endian; a text is a length
byte and its UTF-8.
-/

namespace DebugSymbols

namespace Encode

/-! ## Fields -/

def word16 (w : UInt16) : List UInt8 :=
  [UInt8.ofNat w.toNat, UInt8.ofNat (w.toNat / 256)]

def word32 (w : UInt32) : List UInt8 :=
  [UInt8.ofNat w.toNat, UInt8.ofNat (w.toNat / 256), UInt8.ofNat (w.toNat / 65536),
    UInt8.ofNat (w.toNat / 16777216)]

def text (s : String) : List UInt8 :=
  UInt8.ofNat (Text.Utf8.encode s).length :: Text.Utf8.encode s

/-! ## Bodies -/

def functionStart (f : FunctionStart) : List UInt8 :=
  word16 f.frameRegister ++ word32 f.frameSize ++ word16 f.returnRegister ++ word32 f.mask ++
    word32 f.maskOffset.toUInt32 ++ word32 f.line ++ text f.path ++ text f.name

def symbolDef (form : Form) (d : SymbolDef) : List UInt8 :=
  word16 d.symbolClass.code ++ word16 d.word.bits ++ word32 d.size ++
    match form with
    | .first => text d.name
    | .second =>
      word16 (UInt16.ofNat d.dims.length) ++ d.dims.flatMap word32 ++ text d.tag ++ text d.name

def lineOp : LineOp → List UInt8
  | .increment | .finish => []
  | .incrementByte amount => [amount]
  | .incrementWord amount => word16 amount
  | .set line => word32 line
  | .setWithPath line path => word32 line ++ text path

def body : Body → List UInt8
  | .symbol _ name => text name
  | .line op => lineOp op
  | .functionStart start => functionStart start
  | .functionEnd line | .blockStart line | .blockEnd line => word32 line
  | .definition form d => symbolDef form d
  | .overlay length id => word32 length ++ word32 id
  | .setOverlay => []

/-! ## Files -/

def record (r : Record) : List UInt8 :=
  word32 r.value ++ [r.kind.code] ++ body r.body

def header (h : Header) : List UInt8 :=
  Reader.signature ++ [h.version] ++ word32 h.targetUnit

def file (f : SymbolFile) : List UInt8 :=
  header f.header ++ f.records.flatMap record

end Encode

/-! ## What fits -/

def TextFits (s : String) : Prop :=
  (Text.Utf8.encode s).length ≤ 255

/-- Dimensions are counted by two bytes; the first form has none, and no tag. -/
def SymbolDef.Fits (form : Form) (d : SymbolDef) : Prop :=
  (∃ code, SymbolClass.ofCode code = d.symbolClass) ∧ TextFits d.name ∧
    match form with
    | .first => d.dims = [] ∧ d.tag = ""
    | .second => d.dims.length ≤ 65535 ∧ TextFits d.tag

def Body.Fits : Body → Prop
  | .symbol _ name => TextFits name
  | .line (.setWithPath _ path) => TextFits path
  | .functionStart start => TextFits start.path ∧ TextFits start.name
  | .definition form d => d.Fits form
  | _ => True

/-! ## Where records stand -/

def placeFrom (offset : Nat) : List (UInt32 × Body) → List Record
  | [] => []
  | (value, body) :: entries =>
    let r := { offset, value, body }
    r :: placeFrom (offset + (Encode.record r).length) entries

def SymbolFile.place (h : Header) (entries : List (UInt32 × Body)) : SymbolFile :=
  { header := h, records := placeFrom Header.length entries }

/-- Each record stands behind the ones before it, the first at `offset`. -/
def PlacedFrom (offset : Nat) (rs : List Record) : Prop :=
  ∀ before r behind, rs = before ++ r :: behind →
    r.offset = offset + (before.flatMap Encode.record).length

theorem placedFrom_cons {offset : Nat} {r : Record} {rs : List Record} :
    PlacedFrom offset (r :: rs) ↔ r.offset = offset ∧ PlacedFrom (offset + (Encode.record r).length) rs := by
  constructor
  · intro h
    refine ⟨h [] r rs rfl, fun before q behind hrs => ?_⟩
    have hq := h (r :: before) q behind (by rw [hrs]; rfl)
    rw [List.flatMap_cons, List.length_append] at hq
    omega
  · intro h before q behind hrs
    obtain ⟨hoffset, hrest⟩ := h
    cases before with
    | nil =>
      cases hrs
      exact hoffset
    | cons p before =>
      cases hrs
      have hq := hrest before q behind rfl
      rw [List.flatMap_cons, List.length_append]
      omega

theorem placedFrom_placeFrom (offset : Nat) (entries : List (UInt32 × Body)) :
    PlacedFrom offset (placeFrom offset entries) := by
  induction entries generalizing offset with
  | nil =>
    intro before r behind h
    exact absurd h (by cases before <;> exact fun h => nomatch h)
  | cons e entries ih => exact placedFrom_cons.mpr ⟨rfl, ih _⟩

theorem mem_placeFrom {r : Record} {offset : Nat} {entries : List (UInt32 × Body)}
    (h : r ∈ placeFrom offset entries) : ∃ e ∈ entries, r.body = e.2 := by
  induction entries generalizing offset with
  | nil => exact nomatch h
  | cons e entries ih =>
    obtain heq | h := List.mem_cons.mp h
    · exact ⟨e, List.mem_cons_self, by rw [heq]⟩
    · obtain ⟨d, hd, hbody⟩ := ih h
      exact ⟨d, List.mem_cons_of_mem _ hd, hbody⟩

/-! ## The bytes of texts -/

def rawTexts : Nat → List UInt8 → List (List UInt8)
  | n + 1, length :: bs => bs.take length.toNat :: rawTexts n (bs.drop length.toNat)
  | _, _ => []

/-- How far into a body its texts start, and how many there are. -/
def Body.texts : Body → Nat × Nat
  | .symbol _ _ => (0, 1)
  | .line (.setWithPath _ _) => (4, 1)
  | .functionStart _ => (20, 2)
  | .definition .first _ => (8, 1)
  | .definition .second d => (10 + 4 * d.dims.length, 2)
  | _ => (0, 0)

def Body.rawTexts (b : Body) (bytes : List UInt8) : List (List UInt8) :=
  DebugSymbols.rawTexts b.texts.2 (bytes.drop b.texts.1)

def Record.rawTexts (r : Record) (bytes : List UInt8) : List (List UInt8) :=
  r.body.rawTexts (bytes.drop (r.offset + 5))

def SymbolFile.TextsValid (f : SymbolFile) (bytes : List UInt8) : Prop :=
  ∀ r ∈ f.records, ∀ raw ∈ r.rawTexts bytes, Text.Utf8.Valid raw

end DebugSymbols
