import DebugSymbols.Model.FreshName
import DebugSymbols.Proofs.Text.Digits
import Mathlib.Data.List.TakeWhile
import Mathlib.Order.Monotone.Basic

/-!
# Tags and their texts

A tag of the stream can be read back from its text, so tags of the stream with
the same text are the same. Texts of the same tag are equal but for zeros before
a number. A duplicate of a tag is anonymous if the tag is.
-/

namespace DebugSymbols.Tag

/-! ## Tags of the stream -/

/-- The text of a tag of the compiler's, with zeros before its number. -/
def numberedText (zeros : Nat) (n : UInt32) : String :=
  "_" ++ String.ofList (List.replicate zeros '0') ++ toString n ++ "fake"

theorem fakeNumber?_eq_some_iff {rest : List Char} {n : UInt32} :
    fakeNumber? rest = some n ↔
      ∃ zeros, rest = List.replicate zeros '0' ++ Nat.toDigits 10 n.toNat ++ ['f', 'a', 'k', 'e'] := by
  unfold fakeNumber?
  constructor
  · intro h
    obtain ⟨⟨hne, hfake, hlt⟩, hn⟩ := Option.ite_none_right_eq_some.mp h
    obtain ⟨zeros, hzeros⟩ := Text.exists_zeros (fun c => List.mem_takeWhile_imp) hne
    have hvalue : n.toNat = Text.decimal (rest.takeWhile Char.isDigit) := by
      rw [← Option.some.inj hn, UInt32.toNat_ofNat_of_lt' hlt]
    refine ⟨zeros, ?_⟩
    rw [hvalue, ← hzeros, ← hfake, List.takeWhile_append_dropWhile]
  · rintro ⟨zeros, rfl⟩
    have hdigits : ∀ c ∈ List.replicate zeros '0' ++ Nat.toDigits 10 n.toNat, c.isDigit = true := by
      refine List.forall_mem_append.mpr ⟨fun c hc => ?_, fun c hc => ?_⟩
      · rw [List.eq_of_mem_replicate hc]
        rfl
      · exact Nat.isDigit_of_mem_toDigits (by decide) (by decide) hc
    have hne : List.replicate zeros '0' ++ Nat.toDigits 10 n.toNat ≠ [] :=
      List.append_ne_nil_of_right_ne_nil _ Nat.toDigits_ne_nil
    have htake : ['f', 'a', 'k', 'e'].takeWhile Char.isDigit = [] := by decide
    have hdrop : ['f', 'a', 'k', 'e'].dropWhile Char.isDigit = ['f', 'a', 'k', 'e'] := by decide
    rw [List.takeWhile_append_of_pos hdigits, List.dropWhile_append_of_pos hdigits, htake, hdrop, List.append_nil]
    dsimp only
    rw [Text.decimal_zeros_append, Text.decimal_toDigits, if_pos ⟨hne, rfl, n.toNat_lt⟩, UInt32.ofNat_toNat]

theorem toList_numberedText (zeros : Nat) (n : UInt32) :
    (numberedText zeros n).toList =
      '_' :: (List.replicate zeros '0' ++ Nat.toDigits 10 n.toNat ++ ['f', 'a', 'k', 'e']) := by
  show ("_" ++ String.ofList (List.replicate zeros '0') ++ toString n.toNat ++ "fake").toList = _
  simp

theorem ofIdentifier_cases (name : String) : ofIdentifier name = named name ∨ ∃ n, ofIdentifier name = anonymous n := by
  unfold ofIdentifier
  split
  · rename_i rest _
    cases fakeNumber? rest with
    | none => exact .inl rfl
    | some n => exact .inr ⟨n, rfl⟩
  · exact .inl rfl

/-- The number alone is kept, so that the zeros before it are lost. -/
theorem ofIdentifier_eq_anonymous_iff {name : String} {n : UInt32} :
    ofIdentifier name = anonymous n ↔ ∃ zeros, name = numberedText zeros n := by
  have htext : ∀ zeros, name = numberedText zeros n ↔ name.toList =
      '_' :: (List.replicate zeros '0' ++ Nat.toDigits 10 n.toNat ++ ['f', 'a', 'k', 'e']) := fun zeros => by
    rw [← String.toList_inj, toList_numberedText]
  simp only [htext]
  unfold ofIdentifier
  split
  · rename_i rest hrest
    rw [hrest]
    simp only [List.cons.injEq, true_and]
    rw [← fakeNumber?_eq_some_iff]
    cases fakeNumber? rest <;> simp
  · rename_i hrest
    constructor
    · exact fun h => nomatch h
    · exact fun ⟨_, h⟩ => absurd h (hrest _)

theorem numberedText_zero (n : UInt32) : numberedText 0 n = (anonymous n).text := rfl

theorem ofIdentifier_text_anonymous (n : UInt32) : ofIdentifier (anonymous n).text = anonymous n :=
  ofIdentifier_eq_anonymous_iff.mpr ⟨0, rfl⟩

/-- It is read back from its text, as the tags of the stream are. -/
def Plain (t : Tag) : Prop :=
  ofIdentifier t.text = t

theorem plain_ofIdentifier (name : String) : (ofIdentifier name).Plain := by
  unfold Plain
  obtain h | ⟨n, h⟩ := ofIdentifier_cases name
  · rw [h]
    exact h
  · rw [h]
    exact ofIdentifier_text_anonymous n

theorem Plain.eq_of_text {s t : Tag} (hs : s.Plain) (ht : t.Plain) (h : s.text = t.text) : s = t := by
  unfold Plain at hs ht
  rw [← hs, h, ht]

/-! ## Texts of one tag -/

theorem numberedText_injective (n : UInt32) : Function.Injective fun zeros => numberedText zeros n := by
  intro j k h
  have hlist := congrArg String.toList h
  simpa [toList_numberedText] using congrArg List.length hlist

theorem text_ofIdentifier_iff {name : String} :
    (ofIdentifier name).text = name ↔ ∀ zeros n, name ≠ numberedText (zeros + 1) n := by
  obtain h | ⟨n, h⟩ := ofIdentifier_cases name
  · refine iff_of_true (congrArg text h) fun zeros n hname => ?_
    rw [ofIdentifier_eq_anonymous_iff.mpr ⟨_, hname⟩] at h
    exact nomatch h
  · obtain ⟨zeros, rfl⟩ := ofIdentifier_eq_anonymous_iff.mp h
    rw [h, ← numberedText_zero, (numberedText_injective n).eq_iff]
    constructor
    · rintro rfl more m hmore
      have hm := ofIdentifier_eq_anonymous_iff.mpr ⟨_, hmore⟩
      obtain rfl := anonymous.inj (h.symm.trans hm)
      exact nomatch numberedText_injective n hmore
    · intro hne
      cases zeros with
      | zero => rfl
      | succ zeros => exact absurd rfl (hne zeros n)

/-- The texts are equal, or those of one number with zeros before it. -/
def Agree (name name' : String) : Prop :=
  name = name' ∨ ∃ n zeros zeros', name = numberedText zeros n ∧ name' = numberedText zeros' n

theorem ofIdentifier_eq_iff {name name' : String} : ofIdentifier name = ofIdentifier name' ↔ Agree name name' := by
  constructor
  · intro h
    obtain hname | ⟨n, hname⟩ := ofIdentifier_cases name
    · obtain hname' | ⟨n, hname'⟩ := ofIdentifier_cases name'
      · rw [hname, hname'] at h
        exact .inl (named.inj h)
      · rw [hname, hname'] at h
        exact nomatch h
    · obtain ⟨zeros, hzeros⟩ := ofIdentifier_eq_anonymous_iff.mp hname
      obtain ⟨zeros', hzeros'⟩ := ofIdentifier_eq_anonymous_iff.mp (h.symm.trans hname)
      exact .inr ⟨n, zeros, zeros', hzeros, hzeros'⟩
  · rintro (rfl | ⟨n, zeros, zeros', hzeros, hzeros'⟩)
    · rfl
    · rw [ofIdentifier_eq_anonymous_iff.mpr ⟨zeros, hzeros⟩, ofIdentifier_eq_anonymous_iff.mpr ⟨zeros', hzeros'⟩]

/-! ## Duplicates -/

theorem isAnonymous_duplicated (tag : Tag) (letter : Char) (index : Nat) :
    ∀ n, (tag.duplicated letter index n).isAnonymous = tag.isAnonymous
  | 0 => rfl
  | n + 1 => isAnonymous_duplicated tag letter index n

theorem length_text_duplicate (tag : Tag) (letter : Char) (index : Nat) :
    tag.text.length < (tag.duplicate letter index).text.length := by
  show tag.text.length < (tag.text ++ ("_duplicate_" ++ toString letter ++ toString index)).length
  have hsuffix : "_duplicate_".length = 11 := by decide
  rw [String.length_append, String.length_append, String.length_append, hsuffix]
  omega

theorem text_duplicated_injective (tag : Tag) (letter : Char) (index : Nat) :
    Function.Injective fun n => (tag.duplicated letter index n).text := by
  have hmono : StrictMono fun n => (tag.duplicated letter index n).text.length :=
    strictMono_nat_of_lt_succ fun n => length_text_duplicate (tag.duplicated letter index n) letter index
  exact fun m n h => hmono.injective (congrArg String.length h)

end DebugSymbols.Tag
