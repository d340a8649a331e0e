import DebugSymbols.Stream.Fault
import DebugSymbols.Stream.Record
import DebugSymbols.Text.Utf8

/-!
# Reading a symbol file

Numbers are little endian; a text is a length byte and that many bytes of
UTF-8. `decode` stops only between records: a record cut short is an error at
that record.
-/

namespace DebugSymbols

/-- Reads from the front of the bytes and leaves the rest, or says why not. -/
abbrev Reader := StateT (List UInt8) (Except FormatCause)

namespace Reader

/-! ## Fields -/

def byte (what : String) : Reader UInt8
  | b :: bs => .ok (b, bs)
  | [] => .error (.unexpectedEnd what)

def word16 (what : String) : Reader UInt16
  | b₀ :: b₁ :: bs => .ok (b₀.toUInt16 ||| b₁.toUInt16 <<< 8, bs)
  | _ => .error (.unexpectedEnd what)

def word32 (what : String) : Reader UInt32
  | b₀ :: b₁ :: b₂ :: b₃ :: bs =>
    .ok (b₀.toUInt32 ||| b₁.toUInt32 <<< 8 ||| b₂.toUInt32 <<< 16 ||| b₃.toUInt32 <<< 24, bs)
  | _ => .error (.unexpectedEnd what)

def bytes (what : String) (n : Nat) : Reader (List UInt8) := fun bs =>
  if n ≤ bs.length then .ok (bs.take n, bs.drop n) else .error (.unexpectedEnd what)

def text (what : String) : Reader String := do
  let n ← byte what
  return Text.Utf8.decode (← bytes what n.toNat)

def times {α : Type} (r : Reader α) : Nat → Reader (List α)
  | 0 => return []
  | n + 1 => return (← r) :: (← times r n)

/-! ## Records -/

def functionStart : Reader FunctionStart := do
  let frameRegister ← word16 "frame register"
  let frameSize ← word32 "frame size"
  let returnRegister ← word16 "return register"
  let mask ← word32 "register mask"
  let maskOffset ← word32 "register mask offset"
  let line ← word32 "line number"
  let path ← text "source path"
  let name ← text "function name"
  return { frameRegister, frameSize, returnRegister, mask, maskOffset := maskOffset.toInt32,
           line, path, name }

/-- A definition; only the second form has dimensions and a tag. -/
def symbolDef (form : Form) : Reader SymbolDef := do
  let symbolClass := SymbolClass.ofCode (← word16 "storage class")
  let word := TypeWord.mk (← word16 "type word")
  let size ← word32 "size"
  match form with
  | .first => return { symbolClass, word, size, name := ← text "definition name" }
  | .second =>
    let count ← word16 "dimension count"
    let dims ← times (word32 "array dimension") count.toNat
    let tag ← text "tag"
    return { symbolClass, word, size, dims, tag, name := ← text "definition name" }

def body : Kind → Reader Body
  | .name1 => return .symbol .first (← text "symbol name")
  | .name2 => return .symbol .second (← text "symbol name")
  | .incLine => return .line .increment
  | .incLineByte => return .line (.incrementByte (← byte "line increment"))
  | .incLineWord => return .line (.incrementWord (← word16 "line increment"))
  | .setLine => return .line (.set (← word32 "line number"))
  | .setLineWithPath => do
    let line ← word32 "line number"
    return .line (.setWithPath line (← text "source path"))
  | .endLine => return .line .finish
  | .funcStart => return .functionStart (← functionStart)
  | .funcEnd => return .functionEnd (← word32 "line number")
  | .blockStart => return .blockStart (← word32 "line number")
  | .blockEnd => return .blockEnd (← word32 "line number")
  | .def1 => return .definition .first (← symbolDef .first)
  | .def2 => return .definition .second (← symbolDef .second)
  | .overlay => do
    let length ← word32 "overlay length"
    return .overlay length (← word32 "overlay id")
  | .setOverlay => return .setOverlay

def kind : Reader Kind := do
  let code ← byte "record kind"
  match Kind.ofCode? code with
  | some k => return k
  | none => throw (.unknownKind code)

def record (offset : Nat) : Reader Record := do
  let value ← word32 "record value"
  let k ← kind
  return { offset, value, body := ← body k }

/-! ## Readers leave no more than they were given -/

def Shrinks {α : Type} (r : Reader α) : Prop :=
  ∀ ⦃bs a rest⦄, r bs = .ok (a, rest) → rest.length ≤ bs.length

section
variable {α β : Type}

theorem shrinks_pure (a : α) : Shrinks (pure a : Reader α) := by
  intro bs b rest h
  cases h
  exact Nat.le_refl _

theorem shrinks_bind {r : Reader α} {f : α → Reader β} (hr : Shrinks r) (hf : ∀ a, Shrinks (f a)) :
    Shrinks (r >>= f) := by
  intro bs b rest h
  simp only [bind, StateT.bind, Except.bind] at h
  cases hrb : r bs with
  | error e => simp [hrb] at h
  | ok p => simp only [hrb] at h; exact Nat.le_trans (hf _ h) (hr hrb)

theorem shrinks_byte (what : String) : Shrinks (byte what) := by
  intro bs b rest h
  cases bs <;> simp [byte] at h
  simp [h.2]

theorem shrinks_word16 (what : String) : Shrinks (word16 what) := by
  intro bs b rest h
  unfold word16 at h
  split at h <;> simp at h
  simp only [← h.2, List.length_cons]; omega

theorem length_word32 {what : String} {bs rest : List UInt8} {a : UInt32}
    (h : word32 what bs = .ok (a, rest)) : rest.length + 4 = bs.length := by
  unfold word32 at h
  split at h <;> simp at h
  simp [← h.2]

theorem shrinks_word32 (what : String) : Shrinks (word32 what) := by
  intro bs b rest h
  have := length_word32 h
  omega

theorem shrinks_bytes (what : String) (n : Nat) : Shrinks (bytes what n) := by
  intro bs b rest h
  unfold bytes at h
  split at h <;> simp at h
  simp [← h.2]

theorem shrinks_text (what : String) : Shrinks (text what) :=
  shrinks_bind (shrinks_byte what) fun n =>
    shrinks_bind (shrinks_bytes what n.toNat) fun _ => shrinks_pure _

theorem shrinks_times {r : Reader α} (hr : Shrinks r) (n : Nat) : Shrinks (times r n) := by
  induction n with
  | zero => exact shrinks_pure _
  | succ n ih => exact shrinks_bind hr fun _ => shrinks_bind ih fun _ => shrinks_pure _

theorem shrinks_functionStart : Shrinks functionStart :=
  shrinks_bind (shrinks_word16 _) fun _ => shrinks_bind (shrinks_word32 _) fun _ =>
  shrinks_bind (shrinks_word16 _) fun _ => shrinks_bind (shrinks_word32 _) fun _ =>
  shrinks_bind (shrinks_word32 _) fun _ => shrinks_bind (shrinks_word32 _) fun _ =>
  shrinks_bind (shrinks_text _) fun _ => shrinks_bind (shrinks_text _) fun _ => shrinks_pure _

theorem shrinks_symbolDef (form : Form) : Shrinks (symbolDef form) := by
  refine shrinks_bind (shrinks_word16 _) fun _ => shrinks_bind (shrinks_word16 _) fun _ =>
    shrinks_bind (shrinks_word32 _) fun _ => ?_
  cases form with
  | first => exact shrinks_bind (shrinks_text _) fun _ => shrinks_pure _
  | second =>
    exact shrinks_bind (shrinks_word16 _) fun _ =>
      shrinks_bind (shrinks_times (shrinks_word32 _) _) fun _ =>
      shrinks_bind (shrinks_text _) fun _ => shrinks_bind (shrinks_text _) fun _ => shrinks_pure _

theorem shrinks_body (k : Kind) : Shrinks (body k) := by
  cases k with
  | name1 | name2 => exact shrinks_bind (shrinks_text _) fun _ => shrinks_pure _
  | incLine | endLine | setOverlay => exact shrinks_pure _
  | incLineByte => exact shrinks_bind (shrinks_byte _) fun _ => shrinks_pure _
  | incLineWord => exact shrinks_bind (shrinks_word16 _) fun _ => shrinks_pure _
  | setLine | funcEnd | blockStart | blockEnd =>
    exact shrinks_bind (shrinks_word32 _) fun _ => shrinks_pure _
  | setLineWithPath =>
    exact shrinks_bind (shrinks_word32 _) fun _ => shrinks_bind (shrinks_text _) fun _ =>
      shrinks_pure _
  | funcStart => exact shrinks_bind shrinks_functionStart fun _ => shrinks_pure _
  | def1 | def2 => exact shrinks_bind (shrinks_symbolDef _) fun _ => shrinks_pure _
  | overlay =>
    exact shrinks_bind (shrinks_word32 _) fun _ => shrinks_bind (shrinks_word32 _) fun _ =>
      shrinks_pure _

theorem shrinks_kind : Shrinks kind := by
  refine shrinks_bind (shrinks_byte _) fun code => ?_
  cases Kind.ofCode? code with
  | some k => exact shrinks_pure k
  | none => intro bs a rest h; cases h

theorem length_record {offset : Nat} {bs rest : List UInt8} {r : Record}
    (h : record offset bs = .ok (r, rest)) : rest.length < bs.length := by
  have hbody (value : UInt32) : Shrinks (do
      let k ← kind
      return ({ offset, value, body := ← body k } : Record)) :=
    shrinks_bind shrinks_kind fun k => shrinks_bind (shrinks_body k) fun _ => shrinks_pure _
  change (word32 "record value" bs).bind _ = _ at h
  cases hv : word32 "record value" bs with
  | error e => simp [hv, Except.bind] at h
  | ok p =>
    rw [hv] at h
    have := hbody p.1 h
    have := length_word32 hv
    omega

end

/-! ## Files -/

/-- The records in `bytes`, the first of which stands at `offset` and is
number `index`. -/
def records (offset index : Nat) (bytes : List UInt8) : Except FormatError (List Record) :=
  if bytes.isEmpty then .ok []
  else match h : record offset bytes with
    | .error cause => .error { offset, index, cause }
    | .ok (r, rest) =>
      (records (offset + (bytes.length - rest.length)) (index + 1) rest).map (r :: ·)
termination_by bytes.length
decreasing_by exact length_record h

def signature : List UInt8 := [0x4D, 0x4E, 0x44]

def header : Reader Header := do
  let found ← bytes "signature" signature.length
  if found ≠ signature then throw (.badSignature (Text.Utf8.decode found))
  let version ← byte "version"
  return { version, targetUnit := ← word32 "target unit" }

end Reader

def SymbolFile.decode (bytes : List UInt8) : Except FormatError SymbolFile :=
  if bytes.length < Header.length then
    .error { offset := 0, index := 0, cause := .shortHeader bytes.length }
  else match Reader.header bytes with
    | .error cause => .error { offset := 0, index := 0, cause }
    | .ok (header, rest) =>
      (Reader.records Header.length 0 rest).map fun records => { header, records }

end DebugSymbols
