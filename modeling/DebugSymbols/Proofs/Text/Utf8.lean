import DebugSymbols.Text.Utf8

/-!
# Reading valid UTF-8

On the UTF-8 of a text the byte machine gives the text back: each character is
read from its own bytes, and between characters nothing is owed.
-/

namespace DebugSymbols.Text.Utf8

def encode (s : String) : List UInt8 :=
  s.toUTF8.data.toList

def Valid (bytes : List UInt8) : Prop :=
  ∃ s, encode s = bytes

theorem encode_ofList (cs : List Char) : encode (String.ofList cs) = cs.flatMap String.utf8EncodeChar := by
  unfold encode
  rw [String.toUTF8_eq_toByteArray, String.toByteArray_ofList]
  exact List.toList_data_toByteArray

/-! ## Single bytes -/

theorem toNat_ofNat {n : Nat} (h : n < 256) : (UInt8.ofNat n).toNat = n := by
  rw [UInt8.toNat_ofNat']
  exact Nat.mod_eq_of_lt h

theorem next_ascii {n : Nat} (h : n < 0x80) : next none (UInt8.ofNat n) = ([Char.ofNat n], none) := by
  have hn := toNat_ofNat (n := n) (by omega)
  have hlt : UInt8.ofNat n < 0x80 := by
    rw [UInt8.lt_iff_toNat_lt, hn]
    exact h
  simp only [next, start, if_pos hlt, hn]

theorem next_lead {n : Nat} {p : Partial} (h : 0x80 ≤ n) (h' : n < 256) (hp : lead (UInt8.ofNat n) = some p) :
    next none (UInt8.ofNat n) = ([], some p) := by
  have hge : ¬UInt8.ofNat n < 0x80 := by
    rw [UInt8.lt_iff_toNat_lt, toNat_ofNat h']
    exact Nat.not_lt.mpr h
  simp only [next, start, if_neg hge, hp]

theorem next_last {p : Partial} {n : Nat} (hlow : p.low.toNat ≤ n) (hhigh : n ≤ p.high.toNat)
    (howed : p.owed = 1) :
    next (some p) (UInt8.ofNat n) = ([Char.ofNat (p.bits * 64 + (n - 0x80))], none) := by
  have hn := toNat_ofNat (n := n) (Nat.lt_of_le_of_lt hhigh p.high.toNat_lt)
  have hrange : p.low ≤ UInt8.ofNat n ∧ UInt8.ofNat n ≤ p.high := by
    rw [UInt8.le_iff_toNat_le, UInt8.le_iff_toNat_le, hn]
    exact ⟨hlow, hhigh⟩
  simp only [next, if_pos hrange, howed, hn, Nat.le_refl, if_true]

theorem next_inner {p : Partial} {n : Nat} (hlow : p.low.toNat ≤ n) (hhigh : n ≤ p.high.toNat)
    (howed : 1 < p.owed) :
    next (some p) (UInt8.ofNat n) = ([], some { bits := p.bits * 64 + (n - 0x80), owed := p.owed - 1 }) := by
  have hn := toNat_ofNat (n := n) (Nat.lt_of_le_of_lt hhigh p.high.toNat_lt)
  have hrange : p.low ≤ UInt8.ofNat n ∧ UInt8.ofNat n ≤ p.high := by
    rw [UInt8.le_iff_toNat_le, UInt8.le_iff_toNat_le, hn]
    exact ⟨hlow, hhigh⟩
  simp only [next, if_pos hrange, if_neg (Nat.not_le.mpr howed), hn]

/-! ## First bytes -/

theorem lead_two {n : Nat} (h : 0xC2 ≤ n) (h' : n ≤ 0xDF) :
    lead (UInt8.ofNat n) = some { bits := n - 0xC0, owed := 1 } := by
  have hn := toNat_ofNat (n := n) (by omega)
  simp only [lead, hn, if_pos (And.intro h h')]

/-- Three bytes: the range of the second leaves out overlong forms and surrogates. -/
theorem lead_three {n : Nat} (h : 0xE0 ≤ n) (h' : n ≤ 0xEF) : ∃ p, lead (UInt8.ofNat n) = some p ∧
    p.bits = n - 0xE0 ∧ p.owed = 2 ∧ p.low.toNat = (if n = 0xE0 then 0xA0 else 0x80) ∧
      p.high.toNat = if n = 0xED then 0x9F else 0xBF := by
  have hn := toNat_ofNat (n := n) (by omega)
  unfold lead
  simp only [hn]
  by_cases h₀ : n = 0xE0
  · subst h₀
    exact ⟨_, rfl, rfl, rfl, rfl, rfl⟩
  · by_cases h₁ : n = 0xED
    · subst h₁
      exact ⟨_, rfl, rfl, rfl, rfl, rfl⟩
    · rw [if_neg (by omega), if_neg h₀, if_neg h₁, if_pos (by omega), if_neg h₀, if_neg h₁]
      exact ⟨_, rfl, rfl, rfl, rfl, rfl⟩

/-- Four bytes: the range of the second leaves out overlong forms and what is
past the last character. -/
theorem lead_four {n : Nat} (h : 0xF0 ≤ n) (h' : n ≤ 0xF4) : ∃ p, lead (UInt8.ofNat n) = some p ∧
    p.bits = n - 0xF0 ∧ p.owed = 3 ∧ p.low.toNat = (if n = 0xF0 then 0x90 else 0x80) ∧
      p.high.toNat = if n = 0xF4 then 0x8F else 0xBF := by
  have hn := toNat_ofNat (n := n) (by omega)
  unfold lead
  simp only [hn]
  by_cases h₀ : n = 0xF0
  · subst h₀
    exact ⟨_, rfl, rfl, rfl, rfl, rfl⟩
  · by_cases h₁ : n = 0xF4
    · subst h₁
      exact ⟨_, rfl, rfl, rfl, rfl, rfl⟩
    · rw [if_neg (by omega), if_neg (by omega), if_neg (by omega), if_neg (by omega), if_neg h₀,
        if_pos (by omega), if_neg h₀, if_neg h₁]
      exact ⟨_, rfl, rfl, rfl, rfl, rfl⟩

/-! ## Characters -/

theorem decodeFrom_cons (p : Option Partial) (b : UInt8) (bs : List UInt8) :
    decodeFrom p (b :: bs) = (next p b).1 ++ decodeFrom (next p b).2 bs := by
  cases p <;> rfl

theorem decodeFrom_two {v : Nat} (h : 0x80 ≤ v) (h' : v ≤ 0x7FF) (bs : List UInt8) :
    decodeFrom none (UInt8.ofNat (v / 64 % 0x20 + 0xC0) :: UInt8.ofNat (v % 0x40 + 0x80) :: bs) =
      Char.ofNat v :: decodeFrom none bs := by
  have hlead := lead_two (n := v / 64 % 0x20 + 0xC0) (by omega) (by omega)
  have hbits : (v / 64 % 0x20 + 0xC0 - 0xC0) * 64 + (v % 0x40 + 0x80 - 0x80) = v := by omega
  have hlow : (0x80 : UInt8).toNat ≤ v % 0x40 + 0x80 := Nat.le_add_left _ _
  have hhigh : v % 0x40 + 0x80 ≤ (0xBF : UInt8).toNat := by
    show _ ≤ 0xBF
    omega
  rw [decodeFrom_cons, next_lead (by omega) (by omega) hlead, decodeFrom_cons, next_last hlow hhigh rfl, hbits]
  rfl

theorem decodeFrom_three {v : Nat} (h : 0x800 ≤ v) (h' : v ≤ 0xFFFF) (hs : v < 0xD800 ∨ 0xDFFF < v)
    (bs : List UInt8) :
    decodeFrom none (UInt8.ofNat (v / 4096 % 0x10 + 0xE0) :: UInt8.ofNat (v / 64 % 0x40 + 0x80) ::
      UInt8.ofNat (v % 0x40 + 0x80) :: bs) = Char.ofNat v :: decodeFrom none bs := by
  obtain ⟨p, hlead, hbits, howed, hlow, hhigh⟩ :=
    lead_three (n := v / 4096 % 0x10 + 0xE0) (by omega) (by omega)
  have hlow₁ : p.low.toNat ≤ v / 64 % 0x40 + 0x80 := by
    rw [hlow]
    split <;> omega
  have hhigh₁ : v / 64 % 0x40 + 0x80 ≤ p.high.toNat := by
    rw [hhigh]
    split <;> omega
  have hlow₂ : (0x80 : UInt8).toNat ≤ v % 0x40 + 0x80 := Nat.le_add_left _ _
  have hhigh₂ : v % 0x40 + 0x80 ≤ (0xBF : UInt8).toNat := by
    show _ ≤ 0xBF
    omega
  have hsum : (p.bits * 64 + (v / 64 % 0x40 + 0x80 - 0x80)) * 64 + (v % 0x40 + 0x80 - 0x80) = v := by
    rw [hbits]
    omega
  rw [decodeFrom_cons, next_lead (by omega) (by omega) hlead, decodeFrom_cons,
    next_inner hlow₁ hhigh₁ (by omega), decodeFrom_cons, next_last hlow₂ hhigh₂ (by rw [howed]), hsum]
  rfl

theorem decodeFrom_four {v : Nat} (h : 0x10000 ≤ v) (h' : v < 0x110000) (bs : List UInt8) :
    decodeFrom none (UInt8.ofNat (v / 262144 % 0x08 + 0xF0) :: UInt8.ofNat (v / 4096 % 0x40 + 0x80) ::
      UInt8.ofNat (v / 64 % 0x40 + 0x80) :: UInt8.ofNat (v % 0x40 + 0x80) :: bs) =
        Char.ofNat v :: decodeFrom none bs := by
  obtain ⟨p, hlead, hbits, howed, hlow, hhigh⟩ :=
    lead_four (n := v / 262144 % 0x08 + 0xF0) (by omega) (by omega)
  have hlow₁ : p.low.toNat ≤ v / 4096 % 0x40 + 0x80 := by
    rw [hlow]
    split <;> omega
  have hhigh₁ : v / 4096 % 0x40 + 0x80 ≤ p.high.toNat := by
    rw [hhigh]
    split <;> omega
  have hlow₂ : ∀ n : Nat, (0x80 : UInt8).toNat ≤ n % 0x40 + 0x80 := fun _ => Nat.le_add_left _ _
  have hhigh₂ : ∀ n : Nat, n % 0x40 + 0x80 ≤ (0xBF : UInt8).toNat := by
    intro n
    show _ ≤ 0xBF
    omega
  have howed₁ : 1 < p.owed - 1 := by omega
  have howed₂ : p.owed - 1 - 1 = 1 := by omega
  have hsum : ((p.bits * 64 + (v / 4096 % 0x40 + 0x80 - 0x80)) * 64 + (v / 64 % 0x40 + 0x80 - 0x80)) * 64 +
      (v % 0x40 + 0x80 - 0x80) = v := by
    rw [hbits]
    omega
  rw [decodeFrom_cons, next_lead (by omega) (by omega) hlead, decodeFrom_cons,
    next_inner hlow₁ hhigh₁ (by omega), decodeFrom_cons, next_inner (hlow₂ _) (hhigh₂ _) howed₁,
    decodeFrom_cons, next_last (hlow₂ _) (hhigh₂ _) howed₂, hsum]
  rfl

theorem toNat_char (c : Char) : c.toNat < 0xD800 ∨ 0xDFFF < c.toNat ∧ c.toNat < 0x110000 :=
  c.valid

theorem decodeFrom_utf8EncodeChar (c : Char) (bs : List UInt8) :
    decodeFrom none (String.utf8EncodeChar c ++ bs) = c :: decodeFrom none bs := by
  have hvalid := toNat_char c
  have hc : Char.ofNat c.toNat = c := Char.ofNat_toNat c
  have hval : c.val.toNat = c.toNat := rfl
  unfold String.utf8EncodeChar
  simp only [hval]
  generalize c.toNat = v at hvalid hc
  by_cases h₁ : v ≤ 0x7F
  · rw [if_pos h₁, List.singleton_append, decodeFrom_cons, next_ascii (by omega), hc]
    rfl
  · rw [if_neg h₁]
    by_cases h₂ : v ≤ 0x7FF
    · rw [if_pos h₂]
      have hdecode := decodeFrom_two (by omega) h₂ bs
      rw [hc] at hdecode
      exact hdecode
    · rw [if_neg h₂]
      by_cases h₃ : v ≤ 0xFFFF
      · rw [if_pos h₃]
        have hdecode := decodeFrom_three (by omega) h₃ (by omega) bs
        rw [hc] at hdecode
        exact hdecode
      · rw [if_neg h₃]
        have hdecode := decodeFrom_four (v := v) (by omega) (by omega) bs
        rw [hc] at hdecode
        exact hdecode

theorem decodeFrom_flatMap (cs : List Char) : decodeFrom none (cs.flatMap String.utf8EncodeChar) = cs := by
  induction cs with
  | nil => rfl
  | cons c cs ih => rw [List.flatMap_cons, decodeFrom_utf8EncodeChar, ih]

theorem decode_encode (s : String) : decode (encode s) = s := by
  obtain ⟨cs, rfl⟩ := String.exists_eq_ofList s
  unfold decode
  rw [encode_ofList, decodeFrom_flatMap]

theorem Valid.encode_decode {bytes : List UInt8} (h : Valid bytes) : encode (decode bytes) = bytes := by
  obtain ⟨s, rfl⟩ := h
  rw [decode_encode]

end DebugSymbols.Text.Utf8
