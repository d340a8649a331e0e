import DebugSymbols.Proofs.Stream.Encoding
import Mathlib.Algebra.Group.Nat.Defs

/-!
# Reading fields

A reader of a number succeeds on the bytes of the number and on no others, with
anything behind them. A reader of texts does where the bytes are valid UTF-8.
-/

namespace DebugSymbols.Reader

variable {α β : Type}

/-! ## Readers in sequence -/

theorem run_bind (r : Reader α) (f : α → Reader β) (bs : List UInt8) :
    (r >>= f) bs = (r bs).bind fun p => f p.1 p.2 := rfl

theorem run_pure (a : α) (bs : List UInt8) : (pure a : Reader α) bs = .ok (a, bs) := rfl

theorem ok_bind {γ ε : Type} (a : α) (f : α → Except ε γ) : (Except.ok a).bind f = f a := rfl

theorem bind_inv {r : Reader α} {f : α → Reader β} {bs rest : List UInt8} {b : β}
    (h : (r >>= f) bs = .ok (b, rest)) : ∃ a mid, r bs = .ok (a, mid) ∧ f a mid = .ok (b, rest) := by
  rw [run_bind] at h
  cases hr : r bs with
  | error e =>
    rw [hr] at h
    exact nomatch h
  | ok p =>
    rw [hr] at h
    exact ⟨p.1, p.2, rfl, h⟩

/-! ## Numbers -/

theorem toNat_join16 (b₀ b₁ : UInt8) :
    (b₀.toUInt16 ||| b₁.toUInt16 <<< 8).toNat = b₀.toNat + 256 * b₁.toNat := by
  have h₀ := b₀.toNat_lt
  have h₁ := b₁.toNat_lt
  have hshift : (b₁.toUInt16 <<< 8).toNat = 2 ^ 8 * b₁.toNat := by
    rw [UInt16.toNat_shiftLeft, UInt8.toNat_toUInt16]
    show b₁.toNat <<< 8 % 65536 = _
    rw [Nat.shiftLeft_eq]
    omega
  rw [UInt16.toNat_or, hshift, UInt8.toNat_toUInt16, Nat.or_comm, ← Nat.two_pow_add_eq_or_of_lt (by omega)]
  omega

theorem toNat_join32 {x s : UInt32} {k : Nat} (hx : x.toNat < 2 ^ k) (hs : s.toNat = k) (hk : k ≤ 24)
    (b : UInt8) :
    (x ||| b.toUInt32 <<< s).toNat = x.toNat + 2 ^ k * b.toNat := by
  have hb := b.toNat_lt
  have hpow : 2 ^ k ≤ 2 ^ 24 := Nat.pow_le_pow_right (by decide) hk
  have hfit : 2 ^ k * b.toNat < 2 ^ 32 := by
    have hmul := Nat.mul_le_mul hpow (Nat.le_of_lt_succ hb)
    omega
  have hshift : (b.toUInt32 <<< s).toNat = 2 ^ k * b.toNat := by
    rw [UInt32.toNat_shiftLeft, UInt8.toNat_toUInt32, hs, Nat.mod_eq_of_lt (show k < 32 by omega),
      Nat.shiftLeft_eq, Nat.mul_comm, Nat.mod_eq_of_lt hfit]
  rw [UInt32.toNat_or, hshift, Nat.or_comm, ← Nat.two_pow_add_eq_or_of_lt hx, Nat.add_comm]

theorem toNat_word32 (b₀ b₁ b₂ b₃ : UInt8) :
    (b₀.toUInt32 ||| b₁.toUInt32 <<< 8 ||| b₂.toUInt32 <<< 16 ||| b₃.toUInt32 <<< 24).toNat =
      b₀.toNat + 2 ^ 8 * b₁.toNat + 2 ^ 16 * b₂.toNat + 2 ^ 24 * b₃.toNat := by
  have h₀ := b₀.toNat_lt
  have h₁ := b₁.toNat_lt
  have h₂ := b₂.toNat_lt
  have hzero : b₀.toUInt32.toNat = b₀.toNat := UInt8.toNat_toUInt32 b₀
  have hone := toNat_join32 (x := b₀.toUInt32) (s := 8) (k := 8) (by omega) rfl (by decide) b₁
  have htwo := toNat_join32 (x := b₀.toUInt32 ||| b₁.toUInt32 <<< 8) (s := 16) (k := 16) (by omega) rfl
    (by decide) b₂
  have hthree := toNat_join32 (x := b₀.toUInt32 ||| b₁.toUInt32 <<< 8 ||| b₂.toUInt32 <<< 16) (s := 24) (k := 24)
    (by omega) rfl (by decide) b₃
  rw [hthree, htwo, hone, hzero]

theorem ofNat_eq_of_mod {n : Nat} {b : UInt8} (h : n % 256 = b.toNat) : UInt8.ofNat n = b := by
  apply UInt8.toNat_inj.mp
  rw [UInt8.toNat_ofNat']
  exact h

theorem byte_encode (what : String) (b : UInt8) (rest : List UInt8) :
    byte what (b :: rest) = .ok (b, rest) := rfl

theorem byte_inv {what : String} {bs rest : List UInt8} {b : UInt8} (h : byte what bs = .ok (b, rest)) :
    bs = b :: rest := by
  cases bs with
  | nil => exact nomatch h
  | cons c cs =>
    cases h
    rfl

theorem word16_encode (what : String) (w : UInt16) (rest : List UInt8) :
    word16 what (Encode.word16 w ++ rest) = .ok (w, rest) := by
  have hw := w.toNat_lt
  show Except.ok (_, _) = _
  congr 2
  apply UInt16.toNat_inj.mp
  rw [toNat_join16, UInt8.toNat_ofNat', UInt8.toNat_ofNat']
  omega

theorem word16_inv {what : String} {bs rest : List UInt8} {w : UInt16} (h : word16 what bs = .ok (w, rest)) :
    bs = Encode.word16 w ++ rest := by
  unfold word16 at h
  split at h
  · rename_i b₀ b₁ bs
    cases h
    have hw := toNat_join16 b₀ b₁
    have h₀ := b₀.toNat_lt
    have h₁ := b₁.toNat_lt
    unfold Encode.word16
    rw [hw, ofNat_eq_of_mod (b := b₀) (by omega), ofNat_eq_of_mod (b := b₁) (by omega)]
    rfl
  · exact nomatch h

theorem word32_encode (what : String) (w : UInt32) (rest : List UInt8) :
    word32 what (Encode.word32 w ++ rest) = .ok (w, rest) := by
  have hw := w.toNat_lt
  show Except.ok (_, _) = _
  congr 2
  apply UInt32.toNat_inj.mp
  rw [toNat_word32, UInt8.toNat_ofNat', UInt8.toNat_ofNat', UInt8.toNat_ofNat', UInt8.toNat_ofNat']
  omega

theorem word32_inv {what : String} {bs rest : List UInt8} {w : UInt32} (h : word32 what bs = .ok (w, rest)) :
    bs = Encode.word32 w ++ rest := by
  unfold word32 at h
  split at h
  · rename_i b₀ b₁ b₂ b₃ bs
    cases h
    have hw := toNat_word32 b₀ b₁ b₂ b₃
    have h₀ := b₀.toNat_lt
    have h₁ := b₁.toNat_lt
    have h₂ := b₂.toNat_lt
    have h₃ := b₃.toNat_lt
    unfold Encode.word32
    rw [hw, ofNat_eq_of_mod (b := b₀) (by omega), ofNat_eq_of_mod (b := b₁) (by omega),
      ofNat_eq_of_mod (b := b₂) (by omega), ofNat_eq_of_mod (b := b₃) (by omega)]
    rfl
  · exact nomatch h

theorem bytes_iff {what : String} {n : Nat} {bs found rest : List UInt8} :
    bytes what n bs = .ok (found, rest) ↔ found.length = n ∧ bs = found ++ rest := by
  unfold bytes
  by_cases hn : n ≤ bs.length
  · rw [if_pos hn]
    constructor
    · intro h
      cases h
      exact ⟨List.length_take_of_le hn, (List.take_append_drop n bs).symm⟩
    · intro h
      obtain ⟨rfl, rfl⟩ := h
      rw [List.take_left, List.drop_left]
  · rw [if_neg hn]
    constructor
    · exact fun h => nomatch h
    · intro h
      obtain ⟨rfl, rfl⟩ := h
      exact absurd (by simp) hn

theorem times_word32_iff {what : String} {n : Nat} {bs rest : List UInt8} {ws : List UInt32} :
    times (word32 what) n bs = .ok (ws, rest) ↔ ws.length = n ∧ bs = ws.flatMap Encode.word32 ++ rest := by
  induction n generalizing bs ws with
  | zero =>
    constructor
    · intro h
      cases h
      exact ⟨rfl, rfl⟩
    · intro h
      obtain ⟨hlength, rfl⟩ := h
      rw [List.eq_nil_of_length_eq_zero hlength]
      rfl
  | succ n ih =>
    constructor
    · intro h
      obtain ⟨w, mid, hw, h⟩ := bind_inv h
      obtain ⟨tail, mid', htail, h⟩ := bind_inv h
      cases h
      obtain ⟨hlength, rfl⟩ := ih.mp htail
      rw [word32_inv hw, List.flatMap_cons, List.append_assoc]
      exact ⟨congrArg (· + 1) hlength, rfl⟩
    · intro h
      obtain ⟨hlength, rfl⟩ := h
      cases ws with
      | nil => exact nomatch hlength
      | cons w ws =>
        have hhead := word32_encode what w (ws.flatMap Encode.word32 ++ rest)
        have htail := ih.mpr ⟨Nat.succ.inj hlength, rfl⟩
        show (word32 what >>= fun w => times (word32 what) n >>= fun ws => pure (w :: ws)) _ = _
        rw [run_bind, List.flatMap_cons, List.append_assoc, hhead, ok_bind, run_bind, htail, ok_bind]
        rfl

/-! ## Texts -/

theorem text_encode {what : String} {s : String} (h : TextFits s) (rest : List UInt8) :
    text what (Encode.text s ++ rest) = .ok (s, rest) := by
  have hlength : (UInt8.ofNat (Text.Utf8.encode s).length).toNat = (Text.Utf8.encode s).length := by
    unfold TextFits at h
    rw [UInt8.toNat_ofNat']
    omega
  have hbytes : bytes what (UInt8.ofNat (Text.Utf8.encode s).length).toNat (Text.Utf8.encode s ++ rest) =
      .ok (Text.Utf8.encode s, rest) := bytes_iff.mpr ⟨hlength.symm, rfl⟩
  show (byte what >>= fun n => bytes what n.toNat >>= fun raw => pure (Text.Utf8.decode raw)) _ = _
  rw [run_bind, Encode.text, List.cons_append, byte_encode, ok_bind, run_bind, hbytes, ok_bind,
    Text.Utf8.decode_encode]
  rfl

theorem text_inv {what : String} {bs rest : List UInt8} {s : String} (h : text what bs = .ok (s, rest)) :
    ∃ raw, (∀ n, rawTexts (n + 1) bs = raw :: rawTexts n rest) ∧
      (Text.Utf8.Valid raw → bs = Encode.text s ++ rest) := by
  obtain ⟨length, mid, hlength, h⟩ := bind_inv h
  obtain ⟨raw, mid', hraw, h⟩ := bind_inv h
  cases h
  obtain ⟨hcount, rfl⟩ := bytes_iff.mp hraw
  rw [byte_inv hlength]
  refine ⟨raw, fun n => ?_, fun hvalid => ?_⟩
  · rw [rawTexts, ← hcount, List.take_left, List.drop_left]
  · rw [Encode.text, hvalid.encode_decode, hcount, UInt8.ofNat_toNat]
    rfl

end DebugSymbols.Reader
