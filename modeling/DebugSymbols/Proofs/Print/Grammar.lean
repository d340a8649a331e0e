import DebugSymbols.Print.Declarator
import DebugSymbols.Text.Identifier

/-!
# The grammar of declarations

How C reads a declaration over the base types. The specifier comes first.
Brackets and parameter lists bind tighter than a star before them, and
parentheses group. What a declarator derives is listed from the name outwards.
-/

namespace DebugSymbols

/-! ## Tokens -/

inductive Token where
  | word (w : String)
  | mark (c : Char)
  deriving DecidableEq, Repr

namespace Text

def begun (w : List Char) : List Token :=
  if w = [] then [] else [.word (String.ofList w)]

/-- A character outside words. Blanks only separate. -/
def markOf (c : Char) : List Token :=
  if c.isWhitespace then [] else [.mark c]

/-- The tokens of a text that comes behind `w`, the beginning of a word. -/
def tokensFrom (w : List Char) : List Char → List Token
  | [] => begun w
  | c :: cs =>
    if isWordChar c then tokensFrom (w ++ [c]) cs
    else begun w ++ markOf c ++ tokensFrom [] cs

def tokens (text : String) : List Token :=
  tokensFrom [] text.toList

def IsIdentifier (name : String) : Prop :=
  name ≠ "" ∧ ∀ c ∈ name.toList, isWordChar c = true

instance (name : String) : Decidable (IsIdentifier name) :=
  decidable_of_iff (name ≠ "" ∧ name.toList.all isWordChar = true) (by simp [IsIdentifier])

/-- The word is the decimal spelling of a length. -/
def IsNumeral (w : String) (n : UInt32) : Prop :=
  (∀ c ∈ w.toList, c.isDigit = true) ∧ decimal w.toList = n.toNat

end Text

open Text

def BaseType.words : BaseType → List String
  | void => ["void"]
  | char => ["char"]
  | short => ["short"]
  | int => ["int"]
  | long => ["long"]
  | float => ["float"]
  | double => ["double"]
  | uchar => ["unsigned", "char"]
  | ushort => ["unsigned", "short"]
  | uint => ["unsigned", "int"]
  | ulong => ["unsigned", "long"]

/-! ## Derivations -/

inductive Derivation where
  | pointer
  | array (length : UInt32)
  | function (params : List Variable) (variadic : Bool)

def Derivation.apply : Derivation → CType → CType
  | pointer, t => .pointer t
  | array n, t => .array t n
  | function ps v, t => .function t ps v

/-- What a declaration in a parameter list says: nothing of addresses and sizes. -/
def textParam (t : CType) (name : String) : Variable :=
  { addr := 0, size := 0, storage := none, type := t, name }

/-! ## Phrases -/

namespace Grammar

mutual

/-- The tokens begin with a declarator of `name`; the last list is what is left. -/
inductive Declarator : List Token → String → List Derivation → List Token → Prop
  | pointer {ts rest : List Token} {name : String} {ds : List Derivation} :
      Declarator ts name ds rest → Declarator (.mark '*' :: ts) name (ds ++ [.pointer]) rest
  | name {ts rest : List Token} {name : String} {ds : List Derivation} :
      Suffixes ts ds rest → Declarator (.word name :: ts) name ds rest
  | group {ts us rest : List Token} {name : String} {ds es : List Derivation} :
      Declarator ts name ds (.mark ')' :: us) → Suffixes us es rest →
        Declarator (.mark '(' :: ts) name (ds ++ es) rest

inductive Suffixes : List Token → List Derivation → List Token → Prop
  | none {ts : List Token} : Suffixes ts [] ts
  | unsized {ts rest : List Token} {ds : List Derivation} :
      Suffixes ts ds rest → Suffixes (.mark '[' :: .mark ']' :: ts) (.array 0 :: ds) rest
  | sized {ts rest : List Token} {ds : List Derivation} {w : String} {n : UInt32} :
      IsNumeral w n → Suffixes ts ds rest →
        Suffixes (.mark '[' :: .word w :: .mark ']' :: ts) (.array n :: ds) rest
  | params {ts us rest : List Token} {ps : List Variable} {variadic : Bool} {ds : List Derivation} :
      Params ts ps variadic (.mark ')' :: us) → Suffixes us ds rest →
        Suffixes (.mark '(' :: ts) (.function ps variadic :: ds) rest

inductive Params : List Token → List Variable → Bool → List Token → Prop
  | none {ts : List Token} : Params ts [] false ts
  | some {ts rest : List Token} {ps : List Variable} {variadic : Bool} :
      ParamList ts ps variadic rest → Params ts ps variadic rest

inductive ParamList : List Token → List Variable → Bool → List Token → Prop
  | dots {ts : List Token} : ParamList (.mark '.' :: .mark '.' :: .mark '.' :: ts) [] true ts
  | last {ts rest : List Token} {name : String} {t : CType} :
      Declaration ts name t rest → ParamList ts [textParam t name] false rest
  | more {ts us rest : List Token} {name : String} {t : CType} {ps : List Variable} {variadic : Bool} :
      Declaration ts name t (.mark ',' :: us) → ParamList us ps variadic rest →
        ParamList ts (textParam t name :: ps) variadic rest

inductive Declaration : List Token → String → CType → List Token → Prop
  | specified {ts rest : List Token} {name : String} {ds : List Derivation} (b : BaseType) :
      Declarator ts name ds rest →
        Declaration (b.words.map .word ++ ts) name (ds.foldr Derivation.apply (.base b)) rest

end

end Grammar

/-- The whole text declares `name` with the type `t`. -/
def Declares (text : String) (name : String) (t : CType) : Prop :=
  Grammar.Declaration (tokens text) name t []

/-! ## No text has two readings -/

namespace Grammar

theorem eq_of_words_initial (b c : BaseType) : b.words.map Token.word <+: c.words.map Token.word → b = c := by
  cases b <;> cases c <;> decide

theorem words_append {b c : BaseType} {ts us : List Token}
    (h : b.words.map Token.word ++ ts = c.words.map Token.word ++ us) : b = c ∧ ts = us := by
  have hbc : b = c := by
    obtain hp | hp := List.prefix_or_prefix_of_prefix ⟨ts, h⟩ (List.prefix_append _ us)
    · exact eq_of_words_initial b c hp
    · exact (eq_of_words_initial c b hp).symm
  subst hbc
  exact ⟨rfl, List.append_cancel_left h⟩

theorem Declaration.exists_specified {us rest : List Token} {name : String} {t : CType}
    (h : Declaration us name t rest) :
    ∃ b ts ds, us = b.words.map Token.word ++ ts ∧ t = ds.foldr Derivation.apply (.base b) ∧
      Declarator ts name ds rest := by
  cases h with
  | specified b h => exact ⟨b, _, _, rfl, rfl, h⟩

theorem Declaration.exists_word {us rest : List Token} {name : String} {t : CType}
    (h : Declaration us name t rest) : ∃ w vs, us = .word w :: vs := by
  cases h with
  | specified b h => cases b <;> exact ⟨_, _, rfl⟩

def Closes (ts : List Token) : Prop :=
  ts.head? = some (.mark ')')

def NoSuffix (ts : List Token) : Prop :=
  ts.head? ≠ some (.mark '[') ∧ ts.head? ≠ some (.mark '(')

theorem Closes.noSuffix {ts : List Token} (h : Closes ts) : NoSuffix ts := by
  unfold Closes at h
  unfold NoSuffix
  rw [h]
  decide

theorem noSuffix_nil : NoSuffix [] := by
  simp [NoSuffix]

theorem closes_close (ts : List Token) : Closes (.mark ')' :: ts) := rfl

theorem noSuffix_comma (ts : List Token) : NoSuffix (.mark ',' :: ts) := by
  simp [NoSuffix]

theorem ParamList.not_closes {ts rest : List Token} {ps : List Variable} {variadic : Bool}
    (h : ParamList ts ps variadic rest) : ¬ Closes ts := by
  unfold Closes
  cases h with
  | dots => simp
  | last h =>
    obtain ⟨w, vs, rfl⟩ := h.exists_word
    simp
  | more h _ =>
    obtain ⟨w, vs, rfl⟩ := h.exists_word
    simp

-- By recursion on the first reading. What is left must begin with no suffix, since
-- a declarator may also be read as ending before one of its suffixes.
mutual

theorem Declarator.unique {ts rest : List Token} {name : String} {ds : List Derivation}
    (h : Declarator ts name ds rest) (hr : NoSuffix rest) {name' : String} {ds' : List Derivation}
    {rest' : List Token} (h' : Declarator ts name' ds' rest') (hr' : NoSuffix rest') :
    name = name' ∧ ds = ds' ∧ rest = rest' := by
  match h with
  | .pointer h =>
    cases h' with
    | pointer h' =>
      obtain ⟨rfl, rfl, rfl⟩ := h.unique hr h' hr'
      exact ⟨rfl, rfl, rfl⟩
  | .name h =>
    cases h' with
    | name h' =>
      obtain ⟨rfl, rfl⟩ := h.unique hr h' hr'
      exact ⟨rfl, rfl, rfl⟩
  | .group h hs =>
    cases h' with
    | group h' hs' =>
      obtain ⟨rfl, rfl, hrest⟩ := h.unique (closes_close _).noSuffix h' (closes_close _).noSuffix
      cases hrest
      obtain ⟨rfl, rfl⟩ := hs.unique hr hs' hr'
      exact ⟨rfl, rfl, rfl⟩
termination_by structural h

theorem Suffixes.unique {ts rest : List Token} {ds : List Derivation} (h : Suffixes ts ds rest)
    (hr : NoSuffix rest) {ds' : List Derivation} {rest' : List Token} (h' : Suffixes ts ds' rest')
    (hr' : NoSuffix rest') : ds = ds' ∧ rest = rest' := by
  match h with
  | .none =>
    cases h' with
    | none => exact ⟨rfl, rfl⟩
    | unsized _ => exact absurd rfl hr.1
    | sized _ _ => exact absurd rfl hr.1
    | params _ _ => exact absurd rfl hr.2
  | .unsized h =>
    cases h' with
    | none => exact absurd rfl hr'.1
    | unsized h' =>
      obtain ⟨rfl, rfl⟩ := h.unique hr h' hr'
      exact ⟨rfl, rfl⟩
  | .sized hn h =>
    cases h' with
    | none => exact absurd rfl hr'.1
    | sized hn' h' =>
      obtain ⟨rfl, rfl⟩ := h.unique hr h' hr'
      have hlength := UInt32.toNat_inj.mp (hn.2.symm.trans hn'.2)
      rw [hlength]
      exact ⟨rfl, rfl⟩
  | .params h hs =>
    cases h' with
    | none => exact absurd rfl hr'.2
    | params h' hs' =>
      obtain ⟨rfl, rfl, hrest⟩ := h.unique (closes_close _) h' (closes_close _)
      cases hrest
      obtain ⟨rfl, rfl⟩ := hs.unique hr hs' hr'
      exact ⟨rfl, rfl⟩
termination_by structural h

theorem Params.unique {ts rest : List Token} {ps : List Variable} {variadic : Bool}
    (h : Params ts ps variadic rest) (hr : Closes rest) {ps' : List Variable} {variadic' : Bool}
    {rest' : List Token} (h' : Params ts ps' variadic' rest') (hr' : Closes rest') :
    ps = ps' ∧ variadic = variadic' ∧ rest = rest' := by
  match h with
  | .none =>
    cases h' with
    | none => exact ⟨rfl, rfl, rfl⟩
    | some h' => exact absurd hr h'.not_closes
  | .some h =>
    cases h' with
    | none => exact absurd hr' h.not_closes
    | some h' => exact h.unique hr h' hr'
termination_by structural h

theorem ParamList.unique {ts rest : List Token} {ps : List Variable} {variadic : Bool}
    (h : ParamList ts ps variadic rest) (hr : Closes rest) {ps' : List Variable} {variadic' : Bool}
    {rest' : List Token} (h' : ParamList ts ps' variadic' rest') (hr' : Closes rest') :
    ps = ps' ∧ variadic = variadic' ∧ rest = rest' := by
  match h with
  | .dots =>
    cases h' with
    | dots => exact ⟨rfl, rfl, rfl⟩
    | last h' =>
      obtain ⟨w, vs, heq⟩ := h'.exists_word
      exact nomatch heq
    | more h' _ =>
      obtain ⟨w, vs, heq⟩ := h'.exists_word
      exact nomatch heq
  | .last h =>
    cases h' with
    | dots =>
      obtain ⟨w, vs, heq⟩ := h.exists_word
      exact nomatch heq
    | last h' =>
      obtain ⟨rfl, rfl, rfl⟩ := h.unique hr.noSuffix h' hr'.noSuffix
      exact ⟨rfl, rfl, rfl⟩
    | more h' _ =>
      obtain ⟨_, _, rfl⟩ := h.unique hr.noSuffix h' (noSuffix_comma _)
      exact nomatch hr
  | .more h hs =>
    cases h' with
    | dots =>
      obtain ⟨w, vs, heq⟩ := h.exists_word
      exact nomatch heq
    | last h' =>
      obtain ⟨_, _, rfl⟩ := h.unique (noSuffix_comma _) h' hr'.noSuffix
      exact nomatch hr'
    | more h' hs' =>
      obtain ⟨rfl, rfl, hrest⟩ := h.unique (noSuffix_comma _) h' (noSuffix_comma _)
      cases hrest
      obtain ⟨rfl, rfl, rfl⟩ := hs.unique hr hs' hr'
      exact ⟨rfl, rfl, rfl⟩
termination_by structural h

theorem Declaration.unique {ts rest : List Token} {name : String} {t : CType}
    (h : Declaration ts name t rest) (hr : NoSuffix rest) {name' : String} {t' : CType} {rest' : List Token}
    (h' : Declaration ts name' t' rest') (hr' : NoSuffix rest') : name = name' ∧ t = t' ∧ rest = rest' := by
  match h with
  | .specified b h =>
    obtain ⟨b', ts', ds', hts, rfl, h'⟩ := h'.exists_specified
    obtain ⟨rfl, rfl⟩ := words_append hts
    obtain ⟨rfl, rfl, rfl⟩ := h.unique hr h' hr'
    exact ⟨rfl, rfl, rfl⟩
termination_by structural h

end

end Grammar

end DebugSymbols
