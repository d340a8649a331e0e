import DebugSymbols.Proofs.Model.FreshNames
import DebugSymbols.Build.Reference

/-!
# Words

A text is clean if it has only letters and digits of ASCII and underscores.
Identifiers are clean, whatever they were made from, and so are the names and
tags made up from clean ones.
-/

namespace DebugSymbols

namespace Text

def IsWord (c : Char) : Prop :=
  ('a' ≤ c ∧ c ≤ 'z') ∨ ('A' ≤ c ∧ c ≤ 'Z') ∨ ('0' ≤ c ∧ c ≤ '9') ∨ c = '_'

instance (c : Char) : Decidable (IsWord c) :=
  inferInstanceAs (Decidable (_ ∨ _))

def Clean (s : String) : Prop :=
  ∀ c ∈ s.toList, IsWord c

instance (s : String) : Decidable (Clean s) :=
  List.decidableBAll IsWord s.toList

/-! ## Characters -/

theorem isWord_of_isDigit {c : Char} (h : c.isDigit = true) : IsWord c := by
  simp only [Char.isDigit, Bool.and_eq_true, decide_eq_true_eq] at h
  exact .inr (.inr (.inl h))

theorem isWord_of_isWordChar {c : Char} (h : isWordChar c = true) : IsWord c := by
  have hcases : ((c.isUpper || c.isLower) || c.isDigit || c == '_') = true := h
  simp only [Bool.or_eq_true, beq_iff_eq] at hcases
  rcases hcases with ((hupper | hlower) | hdigit) | hunderscore
  · exact .inr (.inl (of_decide_eq_true hupper))
  · obtain ⟨ha, hz⟩ := (Bool.and_eq_true _ _).mp hlower
    exact .inl ⟨of_decide_eq_true ha, of_decide_eq_true hz⟩
  · exact isWord_of_isDigit hdigit
  · exact .inr (.inr (.inr hunderscore))

theorem clean_identifier (name : String) : Clean (identifier name) := by
  intro c hc
  rw [identifier, String.toList_ofList] at hc
  obtain ⟨d, _, rfl⟩ := List.mem_map.mp hc
  by_cases hd : isWordChar d = true
  · rw [if_pos hd]
    exact isWord_of_isWordChar hd
  · rw [if_neg hd]
    decide

theorem Clean.append {s t : String} (hs : Clean s) (ht : Clean t) : Clean (s ++ t) := by
  intro c hc
  rw [String.toList_append] at hc
  rcases List.mem_append.mp hc with hc | hc
  · exact hs c hc
  · exact ht c hc

/-! ## Digits -/

theorem clean_toString (n : Nat) : Clean (toString n) := by
  intro c hc
  rw [toList_toString] at hc
  exact isWord_of_isDigit (Nat.isDigit_of_mem_toDigits (by decide) (by decide) hc)

theorem isWord_hexDigit {n : Nat} (h : n < 16) : IsWord (Nat.digitChar n).toUpper := by
  have hall : ∀ d ∈ List.range 16, IsWord (Nat.digitChar d).toUpper := by decide
  exact hall n (List.mem_range.mpr h)

theorem isWord_of_mem_toDigits (n : Nat) : ∀ c ∈ Nat.toDigits 16 n, IsWord c.toUpper := by
  induction n using Nat.strongRecOn with
  | _ n ih =>
    rw [Nat.toDigits_eq_if (by decide)]
    by_cases hn : n < 16
    · rw [if_pos hn]
      simpa using isWord_hexDigit hn
    · rw [if_neg hn]
      intro c hc
      rcases List.mem_append.mp hc with hc | hc
      · exact ih (n / 16) (by omega) c hc
      · rw [List.mem_singleton.mp hc]
        exact isWord_hexDigit (Nat.mod_lt n (by decide))

theorem clean_upperHex (width n : Nat) : Clean (upperHex width n) := by
  intro c hc
  rw [upperHex, String.toList_ofList, zeroFilled] at hc
  rcases List.mem_append.mp hc with hc | hc
  · rw [List.eq_of_mem_replicate hc]
    decide
  · obtain ⟨d, hd, rfl⟩ := List.mem_map.mp hc
    exact isWord_of_mem_toDigits n d hd

end Text

/-! ## Names and tags -/

open Text (Clean IsWord)

theorem clean_addressName {base : String} (h : Clean base) (addr : UInt32) (n : Nat) :
    Clean (addressName base addr n) := by
  have hnumbered : Clean (if n = 0 then "" else s!"_{n}") := by
    by_cases hn : n = 0
    · rw [if_pos hn]
      decide
    · rw [if_neg hn]
      exact Clean.append (by decide) (Text.clean_toString n)
  unfold addressName
  exact ((h.append (by decide)).append (Text.clean_upperHex 8 _)).append hnumbered

theorem clean_freshName {base : String} (h : Clean base) (taken : List String) (addr : UInt32) :
    Clean (freshName taken base addr) := by
  obtain ⟨n, _, _, hname⟩ := exists_endsAt_freshName taken base addr
  rw [hname]
  exact clean_addressName h addr n

namespace Tag

theorem clean_text_ofIdentifier {name : String} (h : Clean name) : Clean (ofIdentifier name).text := by
  rcases ofIdentifier_cases name with htag | ⟨n, htag⟩
  · rw [htag]
    exact h
  · rw [htag]
    show Clean ("_" ++ toString n.toNat ++ "fake")
    exact (Clean.append (by decide) (Text.clean_toString n.toNat)).append (by decide)

theorem clean_text_ofName (name : String) : Clean (ofName name).text :=
  clean_text_ofIdentifier (Text.clean_identifier name)

theorem clean_text_duplicate {tag : Tag} (h : Clean tag.text) {letter : Char} (hletter : IsWord letter) (index : Nat) :
    Clean (tag.duplicate letter index).text := by
  have hsingle : Clean (String.singleton letter) := by
    simpa [Clean] using hletter
  show Clean (tag.text ++ ("_duplicate_" ++ String.singleton letter ++ toString index))
  exact h.append ((Clean.append (by decide) hsingle).append (Text.clean_toString index))

theorem clean_text_duplicated {tag : Tag} (h : Clean tag.text) {letter : Char} (hletter : IsWord letter) (index : Nat) :
    ∀ n, Clean (tag.duplicated letter index n).text
  | 0 => clean_text_duplicate h hletter index
  | n + 1 => clean_text_duplicate (clean_text_duplicated h hletter index n) hletter index

theorem clean_text_freshTag {tag : Tag} (h : Clean tag.text) {letter : Char} (hletter : IsWord letter)
    (taken : List String) (index : Nat) : Clean (freshTag taken tag letter index).text := by
  obtain ⟨n, _, _, htag⟩ := exists_endsAt_freshTag taken tag letter index
  rw [htag]
  exact clean_text_duplicated h hletter index n

end Tag

end DebugSymbols
