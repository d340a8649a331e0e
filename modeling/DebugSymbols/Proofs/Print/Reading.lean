import DebugSymbols.Proofs.Print.Grammar
import DebugSymbols.Proofs.Text.Digits
import Mathlib.Data.List.Forall2

/-!
# Reading declarations back

`declare_iff_declares`: the printed declaration of a name reads as that name
with that type, and as nothing else.
-/

namespace DebugSymbols

open Text Grammar

/-! ## Tokens of what is printed -/

namespace Text

theorem tokensFrom_break {c : Char} (hc : isWordChar c = false) (cs : List Char) : ∀ w bs : List Char,
    tokensFrom w (bs ++ c :: cs) = tokensFrom w bs ++ (markOf c ++ tokensFrom [] cs)
  | w, [] => by simp [tokensFrom, hc]
  | w, b :: bs => by
    rw [List.cons_append, tokensFrom, tokensFrom]
    split
    · exact tokensFrom_break hc cs (w ++ [b]) bs
    · rw [tokensFrom_break hc cs [] bs]
      simp only [List.append_assoc]

theorem tokensFrom_word : ∀ w cs : List Char, (∀ c ∈ cs, isWordChar c = true) →
    tokensFrom w cs = begun (w ++ cs)
  | w, [], _ => by rw [List.append_nil, tokensFrom]
  | w, c :: cs, h => by
    rw [tokensFrom, if_pos (h c List.mem_cons_self),
      tokensFrom_word (w ++ [c]) cs fun d hd => h d (List.mem_cons_of_mem _ hd), List.append_assoc]
    rfl

theorem tokens_identifier {name : String} (h : IsIdentifier name) : tokens name = [.word name] := by
  have hne : name.toList ≠ [] := fun hnil => h.1 (String.toList_inj.mp hnil)
  unfold tokens
  rw [tokensFrom_word [] _ h.2, List.nil_append, begun, if_neg hne, String.ofList_toList]

theorem tokens_break {c : Char} (hc : isWordChar c = false) {text a b : String}
    (h : text.toList = a.toList ++ c :: b.toList) : tokens text = tokens a ++ (markOf c ++ tokens b) := by
  unfold tokens
  rw [h]
  exact tokensFrom_break hc b.toList [] a.toList

theorem tokens_specified (spec : String) {d : String} (hd : d ≠ "") :
    tokens (specified spec d) = tokens spec ++ tokens d := by
  unfold specified
  rw [if_neg (by simpa using hd)]
  exact tokens_break (c := ' ') (by decide) (by simp)

theorem tokens_star (d : String) : tokens ("*" ++ d) = Token.mark '*' :: tokens d :=
  tokens_break (c := '*') (a := "") (by decide) (by simp)

theorem tokens_comma (a b : String) : tokens (a ++ ", " ++ b) = tokens a ++ Token.mark ',' :: tokens b := by
  have hblank : tokens (" " ++ b) = tokens b := tokens_break (c := ' ') (a := "") (by decide) (by simp)
  have hcomma : tokens (a ++ ", " ++ b) = tokens a ++ Token.mark ',' :: tokens (" " ++ b) :=
    tokens_break (c := ',') (by decide) (by simp)
  rw [hcomma, hblank]

theorem tokens_parenthesized (a b : String) :
    tokens (a ++ ("(" ++ b ++ ")")) = tokens a ++ Token.mark '(' :: (tokens b ++ [Token.mark ')']) := by
  have hclose : tokens (b ++ ")") = tokens b ++ [Token.mark ')'] :=
    tokens_break (c := ')') (b := "") (by decide) (by simp)
  have hopen : tokens (a ++ ("(" ++ b ++ ")")) = tokens a ++ Token.mark '(' :: tokens (b ++ ")") :=
    tokens_break (c := '(') (by decide) (by simp)
  rw [hopen, hclose]

theorem tokens_bracketed (a b : String) :
    tokens (a ++ ("[" ++ b ++ "]")) = tokens a ++ Token.mark '[' :: (tokens b ++ [Token.mark ']']) := by
  have hclose : tokens (b ++ "]") = tokens b ++ [Token.mark ']'] :=
    tokens_break (c := ']') (b := "") (by decide) (by simp)
  have hopen : tokens (a ++ ("[" ++ b ++ "]")) = tokens a ++ Token.mark '[' :: tokens (b ++ "]") :=
    tokens_break (c := '[') (by decide) (by simp)
  rw [hopen, hclose]

theorem tokens_spelling (b : BaseType) : tokens b.spelling = b.words.map .word := by
  cases b <;> rfl

theorem isNumeral_toString (n : UInt32) : IsNumeral (toString n) n := by
  have htext : (toString n).toList = Nat.toDigits 10 n.toNat := toList_toString n.toNat
  unfold IsNumeral
  rw [htext]
  exact ⟨fun c hc => Nat.isDigit_of_mem_toDigits (by decide) (by decide) hc, decimal_toDigits n.toNat⟩

theorem tokens_toString (n : UInt32) : tokens (toString n) = [.word (toString n)] := by
  have htext : toString n = String.ofList (Nat.toDigits 10 n.toNat) := Nat.toString_eq_ofList_toDigits
  refine tokens_identifier ⟨fun hempty => ?_, fun c hc => ?_⟩
  · rw [htext] at hempty
    exact Nat.toDigits_ne_nil (String.ofList_eq_empty_iff.mp hempty)
  · unfold isWordChar Char.isAlphanum
    rw [(isNumeral_toString n).1 c hc, Bool.or_true, Bool.true_or]

end Text

/-! ## Printed phrases -/

/-- The text is a declarator whatever comes behind it. -/
def IsDeclarator (d name : String) (ds : List Derivation) : Prop :=
  ∀ rest, Declarator (tokens d ++ rest) name ds rest

/-- The text is a declarator with whatever suffixes come behind it. -/
def IsDirect (d name : String) (ds : List Derivation) : Prop :=
  ∀ ts es rest, Suffixes ts es rest → Declarator (tokens d ++ ts) name (ds ++ es) rest

def IsDeclaration (text name : String) (t : CType) : Prop :=
  ∀ rest, Declaration (tokens text ++ rest) name t rest

def IsParam (text : String) (p : Variable) : Prop :=
  IsDeclaration text p.name p.type ∧ p = textParam p.type p.name

def IsParams (text : String) (ps : List Variable) (variadic : Bool) : Prop :=
  ∀ rest, Params (tokens text ++ rest) ps variadic rest

variable {d name : String} {ds : List Derivation}

theorem isDirect_identifier (h : IsIdentifier name) : IsDirect name name [] := by
  intro ts es rest hs
  rw [tokens_identifier h]
  exact .name hs

theorem IsDirect.isDeclarator (h : IsDirect d name ds) : IsDeclarator d name ds := by
  intro rest
  have hnone := h rest [] rest .none
  rwa [List.append_nil] at hnone

theorem IsDirect.bracketed (h : IsDirect d name ds) (n : UInt32) :
    IsDirect (bracketed n d) name (ds ++ [Derivation.array n]) := by
  intro ts es rest hs
  rw [List.append_assoc]
  unfold DebugSymbols.bracketed
  by_cases hn : n = 0
  · subst hn
    have htokens : tokens (d ++ "[]") = tokens d ++ [Token.mark '[', Token.mark ']'] := tokens_bracketed d ""
    rw [if_pos rfl, htokens, List.append_assoc]
    exact h _ _ _ (.unsized hs)
  · rw [if_neg hn, tokens_bracketed, tokens_toString, List.append_assoc]
    exact h _ _ _ (.sized (isNumeral_toString n) hs)

theorem IsDirect.call (h : IsDirect d name ds) {text : String} {ps : List Variable} {variadic : Bool}
    (hps : IsParams text ps variadic) :
    IsDirect (d ++ ("(" ++ text ++ ")")) name (ds ++ [Derivation.function ps variadic]) := by
  intro ts es rest hs
  rw [tokens_parenthesized, List.append_assoc, List.append_assoc, List.cons_append, List.append_assoc]
  exact h _ _ _ (.params (hps _) hs)

theorem IsDeclarator.star (h : IsDeclarator d name ds) : IsDeclarator ("*" ++ d) name (ds ++ [Derivation.pointer]) := by
  intro rest
  rw [tokens_star]
  exact .pointer (h rest)

theorem IsDeclarator.group (h : IsDeclarator d name ds) : IsDirect ("(" ++ d ++ ")") name ds := by
  intro ts es rest hs
  have htokens : tokens ("(" ++ d ++ ")") = Token.mark '(' :: (tokens d ++ [Token.mark ')']) := by
    have hempty := tokens_parenthesized "" d
    rw [String.empty_append] at hempty
    exact hempty
  rw [htokens, List.cons_append, List.append_assoc]
  exact .group (h _) hs

theorem IsDeclarator.ne_empty (h : IsDeclarator d name ds) : d ≠ "" := by
  rintro rfl
  exact nomatch h []

theorem IsDeclarator.specified (h : IsDeclarator d name ds) (b : BaseType) :
    IsDeclaration (specified b.spelling d) name (ds.foldr Derivation.apply (.base b)) := by
  intro rest
  rw [tokens_specified _ h.ne_empty, tokens_spelling, List.append_assoc]
  exact .specified b (h rest)

/-! ## Parameter lists -/

def listed (texts : List String) (variadic : Bool) : List String :=
  if variadic then texts ++ ["..."] else texts

theorem listed_cons (text : String) (texts : List String) (variadic : Bool) :
    listed (text :: texts) variadic = text :: listed texts variadic := by
  cases variadic <;> rfl

theorem listed_eq_nil {texts : List String} {variadic : Bool} (h : listed texts variadic = []) :
    texts = [] ∧ variadic = false := by
  cases variadic with
  | true => exact absurd h (List.append_ne_nil_of_right_ne_nil _ (List.cons_ne_nil _ _))
  | false => exact ⟨h, rfl⟩

theorem paramList_listed {texts : List String} {ps : List Variable} (h : List.Forall₂ IsParam texts ps)
    {variadic : Bool} (hne : listed texts variadic ≠ []) (rest : List Token) :
    ParamList (tokens (", ".intercalate (listed texts variadic)) ++ rest) ps variadic rest := by
  induction h with
  | nil =>
    cases variadic with
    | false => exact absurd rfl hne
    | true => exact .dots
  | @cons text p texts ps hp hps ih =>
    obtain ⟨hp, heq⟩ := hp
    rw [listed_cons, heq]
    by_cases hlast : listed texts variadic = []
    · obtain ⟨rfl, rfl⟩ := listed_eq_nil hlast
      cases hps
      rw [hlast, String.intercalate_singleton]
      exact .last (hp rest)
    · rw [String.intercalate_cons_of_ne_nil hlast, tokens_comma, List.append_assoc, List.cons_append]
      exact .more (hp _) (ih hlast)

theorem isParams_listed {texts : List String} {ps : List Variable} (h : List.Forall₂ IsParam texts ps)
    (variadic : Bool) : IsParams (", ".intercalate (listed texts variadic)) ps variadic := by
  intro rest
  by_cases hne : listed texts variadic = []
  · obtain ⟨rfl, rfl⟩ := listed_eq_nil hne
    cases h
    exact .none
  · exact .some (paramList_listed h hne rest)

/-! ## Types over the base types -/

mutual

/-- Every name of a type in it is that of a base type. -/
def CType.OverBases : CType → Prop
  | .base _ => True
  | .pointer t => t.OverBases
  | .array t _ => t.OverBases
  | .function r ps _ => r.OverBases ∧ ParamsOverBases ps
  | _ => False

def ParamsOverBases : List (Decl CType) → Prop
  | [] => True
  | ⟨_, _, _, t, name⟩ :: ps => t.OverBases ∧ IsIdentifier name ∧ ParamsOverBases ps

end

mutual

/-- The type without what its text does not show of parameters. -/
def CType.bare : CType → CType
  | .pointer t => .pointer t.bare
  | .array t n => .array t.bare n
  | .function r ps v => .function r.bare (bareParams ps) v
  | t => t

def bareParams : List (Decl CType) → List (Decl CType)
  | [] => []
  | ⟨_, _, _, t, name⟩ :: ps => textParam t.bare name :: bareParams ps

end

/-- What `d` must be for `t` to go around it. -/
def CType.Fits (t : CType) (d name : String) (ds : List Derivation) : Prop :=
  match t with
  | .array _ _ => IsDirect d name ds
  | .function _ _ _ => IsDirect d name ds
  | _ => IsDeclarator d name ds

theorem IsDirect.fits (h : IsDirect d name ds) (t : CType) : t.Fits d name ds := by
  cases t with
  | array _ _ => exact h
  | function _ _ _ => exact h
  | _ => exact h.isDeclarator

theorem IsDeclarator.fits_starred (h : IsDeclarator d name ds) (t : CType) :
    t.Fits (starred t d) name (ds ++ [Derivation.pointer]) := by
  have hgroup : IsDirect ("(*" ++ d ++ ")") name (ds ++ [Derivation.pointer]) := by
    have hstar := h.star.group
    rw [← String.append_assoc] at hstar
    exact hstar
  cases t with
  | array _ _ => exact hgroup
  | function _ _ _ => exact hgroup
  | _ => exact h.star

mutual

/-- The induction is on the type, so that what has been printed around the name
grows from the outermost derivation to the innermost. -/
theorem isDeclaration_declare (s : Spelling) : ∀ t : CType, t.OverBases →
    ∀ {d name : String} {ds : List Derivation}, t.Fits d name ds →
      IsDeclaration (t.declare s d) name (ds.foldr Derivation.apply t.bare)
  | .base b, _, _, _, _, h => IsDeclarator.specified h b
  | .pointer t, ht, d, name, ds, h => by
    have hdeclarator : IsDeclarator d name ds := h
    have ih := isDeclaration_declare s t ht (hdeclarator.fits_starred t)
    rw [List.foldr_append] at ih
    exact ih
  | .array t n, ht, d, name, ds, h => by
    have hdirect : IsDirect d name ds := h
    have ih := isDeclaration_declare s t ht ((hdirect.bracketed n).fits t)
    rw [List.foldr_append] at ih
    exact ih
  | .function r ps v, ht, d, name, ds, h => by
    have hdirect : IsDirect d name ds := h
    have hparams := isParams_listed (isParam_declareParams s ps ht.2) v
    have ih := isDeclaration_declare s r ht.1 ((hdirect.call hparams).fits r)
    rw [List.foldr_append] at ih
    exact ih

theorem isParam_declareParams (s : Spelling) : ∀ ps : List (Decl CType), ParamsOverBases ps →
    List.Forall₂ IsParam (declareParams s ps) (bareParams ps)
  | [], _ => .nil
  | ⟨_, _, _, t, name⟩ :: ps, h => by
    have hdirect := isDirect_identifier h.2.1
    exact .cons ⟨isDeclaration_declare s t h.1 (hdirect.fits t), rfl⟩ (isParam_declareParams s ps h.2.2)

end

/-! ## Reading back -/

theorem IsDeclaration.declares_iff {text : String} {t : CType} (h : IsDeclaration text name t) (n : String)
    (u : CType) : Declares text n u ↔ n = name ∧ u = t := by
  have hself : Declares text name t := by
    have hall := h []
    rw [List.append_nil] at hall
    exact hall
  constructor
  · intro hread
    obtain ⟨hname, htype, _⟩ := hread.unique noSuffix_nil hself noSuffix_nil
    exact ⟨hname, htype⟩
  · rintro ⟨rfl, rfl⟩
    exact hself

theorem Arena.declare_iff_declares (a : Arena) {name : String} (hname : IsIdentifier name) :
    (∀ t : CType, t.OverBases → ∀ depth n u,
      Declares (a.declare t name depth) n u ↔ n = name ∧ u = t.bare) ∧
    ∀ s : Signature, s.type.OverBases → ∀ n u,
      Declares (a.declareFunction s name) n u ↔ n = name ∧ u = s.type.bare := by
  have hdeclare : ∀ t : CType, t.OverBases → ∀ depth n u,
      Declares (a.declare t name depth) n u ↔ n = name ∧ u = t.bare := by
    intro t ht depth n u
    have hfits := (isDirect_identifier hname).fits t
    exact (isDeclaration_declare (a.spelling [] depth) t ht hfits).declares_iff n u
  -- a function is declared as its type is
  exact ⟨hdeclare, fun s hs => hdeclare s.type hs 0⟩

def callbacks : CType :=
  .array (.pointer (.function (.base .void)
    [textParam (.pointer (.base .char)) "text", textParam (.array (.base .uint) 0) "args"] true)) 4

theorem declare_iff_declares_callbacks :
    ({} : Arena).declare callbacks "table" = "void (*table[4])(char *text, unsigned int args[], ...)" ∧
      Declares "void (*table[4])(char *text, unsigned int args[], ...)" "table" callbacks := by
  have htext : ({} : Arena).declare callbacks "table" =
      "void (*table[4])(char *text, unsigned int args[], ...)" := by
    decide +kernel
  have hname : ∀ name ∈ ["table", "text", "args"], IsIdentifier name := by
    decide +kernel
  have hbases : callbacks.OverBases :=
    ⟨trivial, trivial, hname "text" (by decide), trivial, hname "args" (by decide), trivial⟩
  have hread := (Arena.declare_iff_declares {} (hname "table" (by decide))).1 callbacks hbases 0 "table" callbacks
  rw [htext] at hread
  exact ⟨htext, hread.mpr ⟨rfl, rfl⟩⟩

end DebugSymbols
