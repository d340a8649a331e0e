import DebugSymbols.Text.Digits
import Mathlib.Data.List.Induction
import Mathlib.Logic.Function.Basic

/-!
# Decimal digits

A number is read back from its digits, so no two numbers have the same ones.
Digits are read back from their number up to zeros before them.
-/

namespace DebugSymbols.Text

theorem toList_toString (n : Nat) : (toString n).toList = Nat.toDigits 10 n := by
  rw [Nat.toString_eq_ofList_toDigits, String.toList_ofList]

theorem decimal_eq_ofDigitChars (ds : List Char) : decimal ds = Nat.ofDigitChars 10 ds 0 :=
  Nat.ofDigitChars_eq_foldl.symm

theorem decimal_toDigits (n : Nat) : decimal (Nat.toDigits 10 n) = n := by
  rw [decimal_eq_ofDigitChars, Nat.ofDigitChars_ten_toDigits]

theorem toString_injective : Function.Injective (toString : Nat → String) := by
  intro m n h
  have hdigits := congrArg (fun s => decimal s.toList) h
  simpa only [toList_toString, decimal_toDigits] using hdigits

/-! ## Zeros before a number -/

theorem decimal_zeros_append (zeros : Nat) (ds : List Char) :
    decimal (List.replicate zeros '0' ++ ds) = decimal ds := by
  rw [decimal_eq_ofDigitChars, Nat.ofDigitChars_append, Nat.ofDigitChars_replicate_zero, Nat.mul_zero,
    ← decimal_eq_ofDigitChars]

theorem decimal_concat (ds : List Char) (c : Char) :
    decimal (ds ++ [c]) = 10 * decimal ds + (c.toNat - '0'.toNat) := by
  unfold decimal
  rw [List.foldl_append]
  rfl

theorem digitChar_of_isDigit {c : Char} (hc : c.isDigit = true) :
    c.toNat - '0'.toNat < 10 ∧ Nat.digitChar (c.toNat - '0'.toNat) = c := by
  have hrange : 48 ≤ c.toNat ∧ c.toNat ≤ 57 := by
    simpa [Char.isDigit, UInt32.le_iff_toNat_le] using hc
  have hzero : '0'.toNat = 48 := rfl
  have hlt : c.toNat - '0'.toNat < 10 := by omega
  refine ⟨hlt, Char.toNat_inj.mp ?_⟩
  rw [Nat.toNat_digitChar_of_lt_ten hlt]
  omega

theorem exists_zeros {ds : List Char} (hds : ∀ c ∈ ds, c.isDigit = true) (hne : ds ≠ []) :
    ∃ zeros, ds = List.replicate zeros '0' ++ Nat.toDigits 10 (decimal ds) := by
  induction ds using List.reverseRecOn with
  | nil => exact absurd rfl hne
  | append_singleton ds c ih =>
    obtain ⟨hds, hc⟩ := List.forall_mem_append.mp hds
    obtain ⟨hlt, hchar⟩ := digitChar_of_isDigit (hc c List.mem_cons_self)
    have hlast : Nat.toDigits 10 (c.toNat - '0'.toNat) = [c] := by
      rw [Nat.toDigits_of_lt_base hlt, hchar]
    by_cases hnil : ds = []
    · subst hnil
      exact ⟨0, by simpa [decimal] using hlast.symm⟩
    obtain ⟨zeros, hzeros⟩ := ih hds hnil
    rw [decimal_concat]
    by_cases hvalue : decimal ds = 0
    · -- all digits before the last one are zeros
      rw [hvalue] at hzeros ⊢
      refine ⟨zeros + 1, ?_⟩
      rw [Nat.mul_zero, Nat.zero_add, hlast, hzeros, List.replicate_succ']
      rfl
    · refine ⟨zeros, ?_⟩
      rw [← Nat.toDigits_append_toDigits (by decide) (Nat.pos_of_ne_zero hvalue) hlt, hlast, ← List.append_assoc,
        ← hzeros]

end DebugSymbols.Text
