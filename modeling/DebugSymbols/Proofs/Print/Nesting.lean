import DebugSymbols.Print.Declaration

/-!
# Printing without a measure

`Prints` has a rule for each clause by which declarations are printed and none
that counts how often: what it derives is what printing comes to if it ends at
all. It keeps the bodies that are written in place apart from the text around
them. Every list of pieces has one derivation, its text is what the program
prints, and no struct or union has its body within its own body.
-/

namespace DebugSymbols

open Text

/-! ## What is printed -/

/-- Text with the bodies in it that were written in place. -/
inductive Printed where
  | nil
  | text (s : String) (rest : Printed)
  | body (id : CompositeId) (inner rest : Printed)

namespace Printed

def ofText (s : String) : Printed :=
  .text s .nil

def append : Printed → Printed → Printed
  | nil, q => q
  | text s rest, q => .text s (rest.append q)
  | body id inner rest, q => .body id inner (rest.append q)

instance : Append Printed := ⟨append⟩

def plain : Printed → String
  | nil => ""
  | text s rest => s ++ rest.plain
  | body _ inner rest => inner.plain ++ rest.plain

def bodies : Printed → List CompositeId
  | nil => []
  | text _ rest => rest.bodies
  | body id inner rest => id :: inner.bodies ++ rest.bodies

/-- No body is within a body of the same struct or union. -/
def NestsOnce : Printed → Prop
  | nil => True
  | text _ rest => rest.NestsOnce
  | body id inner rest => id ∉ inner.bodies ∧ inner.NestsOnce ∧ rest.NestsOnce

@[simp] theorem nil_append (q : Printed) : nil ++ q = q := rfl

@[simp] theorem text_append (s : String) (p q : Printed) : text s p ++ q = text s (p ++ q) := rfl

@[simp] theorem body_append (id : CompositeId) (inner p q : Printed) :
    body id inner p ++ q = body id inner (p ++ q) := rfl

@[simp] theorem plain_ofText (s : String) : (ofText s).plain = s := by
  simp [ofText, plain]

@[simp] theorem plain_append (p q : Printed) : (p ++ q).plain = p.plain ++ q.plain := by
  induction p with
  | nil => simp [plain]
  | text s rest ih => simp [plain, ih, String.append_assoc]
  | body id inner rest _ ih => simp [plain, ih, String.append_assoc]

@[simp] theorem bodies_ofText (s : String) : (ofText s).bodies = [] := rfl

@[simp] theorem bodies_append (p q : Printed) : (p ++ q).bodies = p.bodies ++ q.bodies := by
  induction p with
  | nil => rfl
  | text s rest ih => simpa [bodies] using ih
  | body id inner rest _ ih => simp [bodies, ih]

@[simp] theorem nestsOnce_ofText (s : String) : (ofText s).NestsOnce := trivial

@[simp] theorem nestsOnce_append (p q : Printed) : (p ++ q).NestsOnce ↔ p.NestsOnce ∧ q.NestsOnce := by
  induction p with
  | nil => simp [NestsOnce]
  | text s rest ih => simpa [NestsOnce] using ih
  | body id inner rest _ ih => simp [NestsOnce, ih, and_assoc]

/-! ## Around a declarator -/

def specified (specifier declarator : Printed) : Printed :=
  if declarator.plain.isEmpty then specifier else specifier ++ .text " " declarator

def starred (target : CType) (declarator : Printed) : Printed :=
  match target with
  | .function .. | .array .. => ofText "(*" ++ declarator ++ ofText ")"
  | _ => ofText "*" ++ declarator

def bracketed (length : UInt32) (declarator : Printed) : Printed :=
  declarator ++ ofText (DebugSymbols.bracketed length "")

def parenthesized (declarator params : Printed) : Printed :=
  declarator ++ ofText "(" ++ params ++ ofText ")"

theorem plain_specified (s d : Printed) : (specified s d).plain = DebugSymbols.specified s.plain d.plain := by
  unfold specified DebugSymbols.specified
  split
  · rfl
  · simp [plain, String.append_assoc]

theorem plain_starred (t : CType) (d : Printed) : (d.starred t).plain = DebugSymbols.starred t d.plain := by
  cases t <;> simp [starred, DebugSymbols.starred, String.append_assoc]

theorem plain_bracketed (n : UInt32) (d : Printed) : (d.bracketed n).plain = DebugSymbols.bracketed n d.plain := by
  simp [bracketed, DebugSymbols.bracketed]

/-- It has no body within itself, and none of those in `within`. -/
structure Fresh (within : List CompositeId) (p : Printed) : Prop where
  nests : p.NestsOnce
  apart : ∀ id ∈ p.bodies, id ∉ within

section
variable {within : List CompositeId} {p q d s : Printed}

theorem Fresh.ofText (s : String) : (ofText s).Fresh within :=
  ⟨trivial, fun _ h => nomatch h⟩

theorem Fresh.append (hp : p.Fresh within) (hq : q.Fresh within) : (p ++ q).Fresh within := by
  refine ⟨(nestsOnce_append p q).mpr ⟨hp.nests, hq.nests⟩, fun id hid => ?_⟩
  rw [bodies_append] at hid
  exact (List.mem_append.mp hid).elim (hp.apart id) (hq.apart id)

theorem Fresh.body {id : CompositeId} {inner : Printed} (hid : id ∉ within) (h : inner.Fresh (id :: within)) :
    (Printed.body id inner .nil).Fresh within := by
  have hnot : id ∉ inner.bodies := fun hmem => h.apart id hmem List.mem_cons_self
  refine ⟨⟨hnot, h.nests, trivial⟩, fun i hi => ?_⟩
  simp only [bodies, List.append_nil, List.mem_cons] at hi
  obtain rfl | hi := hi
  · exact hid
  · exact fun hmem => h.apart i hi (List.mem_cons_of_mem _ hmem)

theorem Fresh.specified (hs : s.Fresh within) (hd : d.Fresh within) : (s.specified d).Fresh within := by
  unfold Printed.specified
  split
  · exact hs
  · exact hs.append ((Fresh.ofText " ").append hd)

theorem Fresh.starred (hd : d.Fresh within) (t : CType) : (d.starred t).Fresh within := by
  cases t with
  | array | function => exact ((Fresh.ofText _).append hd).append (.ofText _)
  | _ => exact (Fresh.ofText _).append hd

theorem Fresh.bracketed (hd : d.Fresh within) (n : UInt32) : (d.bracketed n).Fresh within :=
  hd.append (.ofText _)

theorem Fresh.parenthesized (hd : d.Fresh within) (hp : p.Fresh within) : (d.parenthesized p).Fresh within :=
  ((hd.append (.ofText _)).append hp).append (.ofText _)

end

end Printed

/-! ## What is to be printed -/

/-- Text, or a declarator with the type that is printed around it. -/
inductive Piece where
  | text (s : String)
  | declarator (depth : Nat) (t : CType) (d : Printed)

def Piece.named (depth : Nat) (t : CType) (name : String) : Piece :=
  .declarator depth t (.ofText name)

def commas : List Piece → List Piece
  | [] => []
  | [x] => [x]
  | x :: y :: xs => x :: .text ", " :: commas (y :: xs)

def paramPieces (depth : Nat) (params : List Variable) (variadic : Bool) : List Piece :=
  commas (params.map (fun p => .named depth p.type p.name) ++ if variadic then [.text "..."] else [])

def Field.pieces (depth : Nat) (x : Field) : List Piece :=
  [.named depth x.type x.name,
    .text ((if x.bitfield then ":" ++ toString x.size else "") ++ "; // offset: 0x" ++ upperHex 4 x.offset.toNat)]

def fieldLines (depth : Nat) (xs : List Field) : List Piece :=
  xs.flatMap fun x => .text (indent depth) :: (x.pieces depth ++ [.text "\n"])

namespace Arena

variable {a : Arena}

def bodyPieces (a : Arena) (id : CompositeId) (depth : Nat) : List Piece :=
  .text ((a.composite id).kind.keyword ++ " \x7b\n") ::
    (fieldLines (depth + 1) (a.composite id).fields ++ [.text (indent depth ++ "\x7d")])

/-- The specifier of a type that has one and is not written in place within these bodies. -/
def specifier? (a : Arena) (within : List CompositeId) : CType → Option String
  | .base b => some b.spelling
  | .enum id => some (a.enumName id)
  | .typedef id => some (a.typedef id).name
  | .composite _ id => if a.isInlined id = true ∧ id ∉ within then none else some (a.compositeName id)
  | _ => none

/-- The pieces come to `out` inside of the bodies `within`. -/
inductive Prints (a : Arena) : List CompositeId → List Piece → Printed → Prop
  | nil {within : List CompositeId} : Prints a within [] .nil
  | text {within : List CompositeId} {s : String} {ps : List Piece} {out : Printed} :
      Prints a within ps out → Prints a within (.text s :: ps) (.text s out)
  | pointer {within : List CompositeId} {depth : Nat} {t : CType} {d : Printed} {ps : List Piece} {out : Printed} :
      Prints a within (.declarator depth t (d.starred t) :: ps) out →
        Prints a within (.declarator depth (.pointer t) d :: ps) out
  | array {within : List CompositeId} {depth : Nat} {t : CType} {n : UInt32} {d : Printed} {ps : List Piece}
      {out : Printed} :
      Prints a within (.declarator depth t (d.bracketed n) :: ps) out →
        Prints a within (.declarator depth (.array t n) d :: ps) out
  | function {within : List CompositeId} {depth : Nat} {r : CType} {params : List Variable} {variadic : Bool}
      {d inner : Printed} {ps : List Piece} {out : Printed} :
      Prints a within (paramPieces depth params variadic) inner →
        Prints a within (.declarator depth r (d.parenthesized inner) :: ps) out →
          Prints a within (.declarator depth (.function r params variadic) d :: ps) out
  | named {within : List CompositeId} {depth : Nat} {t : CType} {s : String} {d : Printed} {ps : List Piece}
      {out : Printed} :
      a.specifier? within t = some s → Prints a within ps out →
        Prints a within (.declarator depth t d :: ps) ((Printed.ofText s).specified d ++ out)
  | inPlace {within : List CompositeId} {depth : Nat} {k : CompositeKind} {id : CompositeId} {d inner : Printed}
      {ps : List Piece} {out : Printed} :
      a.isInlined id = true → id ∉ within → Prints a (id :: within) (a.bodyPieces id depth) inner →
        Prints a within ps out →
          Prints a within (.declarator depth (.composite k id) d :: ps) ((Printed.body id inner .nil).specified d ++ out)

variable {within : List CompositeId} {ps : List Piece} {out : Printed}

/-! ## One derivation -/

theorem Prints.unique (h : a.Prints within ps out) : ∀ {out' : Printed}, a.Prints within ps out' → out' = out := by
  induction h with
  | nil =>
    intro out' h'
    cases h'
    rfl
  | text _ ih =>
    intro out' h'
    cases h' with
    | text h' => rw [ih h']
  | pointer _ ih =>
    intro out' h'
    cases h' with
    | pointer h' => exact ih h'
    | named hs => exact nomatch hs
  | array _ ih =>
    intro out' h'
    cases h' with
    | array h' => exact ih h'
    | named hs => exact nomatch hs
  | function _ _ ihparams ih =>
    intro out' h'
    cases h' with
    | function hparams h' =>
      rw [ihparams hparams] at h'
      exact ih h'
    | named hs => exact nomatch hs
  | named hs _ ih =>
    intro out' h'
    cases h' with
    | pointer => exact nomatch hs
    | array => exact nomatch hs
    | function => exact nomatch hs
    | named hs' h' =>
      rw [hs] at hs'
      cases hs'
      rw [ih h']
    | inPlace hin hnot =>
      rw [specifier?, if_pos ⟨hin, hnot⟩] at hs
      exact nomatch hs
  | inPlace hin hnot _ _ ihbody ih =>
    intro out' h'
    cases h' with
    | named hs =>
      rw [specifier?, if_pos ⟨hin, hnot⟩] at hs
      exact nomatch hs
    | inPlace _ _ hbody h' => rw [ihbody hbody, ih h']

/-! ## No body within itself -/

theorem eq_or_mem_of_mem_commas {x : Piece} {xs : List Piece} (h : x ∈ commas xs) : x = .text ", " ∨ x ∈ xs := by
  fun_induction commas xs with
  | case1 => exact .inr h
  | case2 y => exact .inr h
  | case3 y z xs ih =>
    obtain rfl | h := List.mem_cons.mp h
    · exact .inr List.mem_cons_self
    · obtain rfl | h := List.mem_cons.mp h
      · exact .inl rfl
      · exact (ih h).imp_right (List.mem_cons_of_mem _)

theorem eq_text_or_named_of_mem_paramPieces {depth : Nat} {variadic : Bool} {params : List Variable} {x : Piece}
    (h : x ∈ paramPieces depth params variadic) :
    (∃ s, x = .text s) ∨ ∃ p ∈ params, x = .named depth p.type p.name := by
  obtain rfl | h := eq_or_mem_of_mem_commas h
  · exact .inl ⟨_, rfl⟩
  · obtain h | h := List.mem_append.mp h
    · obtain ⟨p, hp, rfl⟩ := List.mem_map.mp h
      exact .inr ⟨p, hp, rfl⟩
    · cases variadic with
      | false => exact nomatch h
      | true => exact .inl ⟨_, List.mem_singleton.mp h⟩

def Plain (ps : List Piece) : Prop :=
  ∀ x ∈ ps, (∃ s, x = .text s) ∨ ∃ depth t name, x = .named depth t name

@[simp] theorem plain_nil : Plain [] := fun _ h => nomatch h

@[simp] theorem plain_text (s : String) : Plain (.text s :: ps) ↔ Plain ps := by
  simp [Plain]

@[simp] theorem plain_named (depth : Nat) (t : CType) (name : String) : Plain (.named depth t name :: ps) ↔ Plain ps := by
  simp only [Plain, List.forall_mem_cons, and_iff_right_iff_imp]
  exact fun _ => .inr ⟨depth, t, name, rfl⟩

@[simp] theorem plain_append (qs : List Piece) : Plain (ps ++ qs) ↔ Plain ps ∧ Plain qs :=
  List.forall_mem_append

@[simp] theorem plain_flatMap {α : Type} (f : α → List Piece) (xs : List α) :
    Plain (xs.flatMap f) ↔ ∀ x ∈ xs, Plain (f x) := by
  unfold Plain
  simp only [List.mem_flatMap]
  exact ⟨fun h x hx y hy => h y ⟨x, hx, hy⟩, fun h y ⟨x, hx, hy⟩ => h x hx y hy⟩

theorem plain_paramPieces (depth : Nat) (params : List Variable) (variadic : Bool) :
    Plain (paramPieces depth params variadic) := fun _ hx =>
  (eq_text_or_named_of_mem_paramPieces hx).imp_right fun ⟨p, _, hx⟩ => ⟨depth, p.type, p.name, hx⟩

@[simp] theorem plain_field (depth : Nat) (x : Field) : Plain (x.pieces depth) := by
  simp [Field.pieces]

@[simp] theorem plain_fieldLines (depth : Nat) (xs : List Field) : Plain (fieldLines depth xs) := by
  simp [fieldLines]

theorem plain_bodyPieces (id : CompositeId) (depth : Nat) : Plain (a.bodyPieces id depth) := by
  simp [bodyPieces]

def FreshPieces (within : List CompositeId) (ps : List Piece) : Prop :=
  ∀ depth t d, .declarator depth t d ∈ ps → d.Fresh within

theorem Plain.fresh (h : Plain ps) (within : List CompositeId) : FreshPieces within ps := by
  intro depth t d hd
  obtain ⟨s, hs⟩ | ⟨_, _, name, hs⟩ := h _ hd
  · exact nomatch hs
  · cases hs
    exact .ofText name

theorem FreshPieces.tail {x : Piece} (h : FreshPieces within (x :: ps)) : FreshPieces within ps :=
  fun depth t d hd => h depth t d (List.mem_cons_of_mem _ hd)

theorem FreshPieces.replace {depth : Nat} {t t' : CType} {d d' : Printed}
    (h : FreshPieces within (.declarator depth t d :: ps)) (hd' : d'.Fresh within) :
    FreshPieces within (.declarator depth t' d' :: ps) := by
  intro _ _ _ hmem
  obtain heq | hmem := List.mem_cons.mp hmem
  · cases heq
    exact hd'
  · exact h.tail _ _ _ hmem

/-- A body is only begun outside of its own, and what is within it begins none that is under way. -/
theorem Prints.fresh (h : a.Prints within ps out) (hps : FreshPieces within ps) : out.Fresh within := by
  induction h with
  | nil => exact ⟨trivial, fun _ h => nomatch h⟩
  | @text _ s _ _ _ ih => exact (Printed.Fresh.ofText s).append (ih hps.tail)
  | pointer _ ih => exact ih (hps.replace ((hps _ _ _ List.mem_cons_self).starred _))
  | array _ ih => exact ih (hps.replace ((hps _ _ _ List.mem_cons_self).bracketed _))
  | function _ _ ihparams ih =>
    have hparams := ihparams ((plain_paramPieces _ _ _).fresh _)
    exact ih (hps.replace ((hps _ _ _ List.mem_cons_self).parenthesized hparams))
  | named _ _ ih => exact ((Printed.Fresh.ofText _).specified (hps _ _ _ List.mem_cons_self)).append (ih hps.tail)
  | inPlace _ hnot _ _ ihbody ih =>
    have hbody := ihbody ((plain_bodyPieces _ _).fresh _)
    exact ((Printed.Fresh.body hnot hbody).specified (hps _ _ _ List.mem_cons_self)).append (ih hps.tail)

/-! ## Its text -/

def pieceText (a : Arena) (within : List CompositeId) : Piece → String
  | .text s => s
  | .declarator depth t d => t.declare (a.spelling within depth) d.plain

def piecesText (a : Arena) (within : List CompositeId) (ps : List Piece) : String :=
  String.join (ps.map (a.pieceText within))

@[simp] theorem piecesText_nil : a.piecesText within [] = "" := rfl

@[simp] theorem piecesText_cons (x : Piece) :
    a.piecesText within (x :: ps) = a.pieceText within x ++ a.piecesText within ps := by
  simp [piecesText]

@[simp] theorem piecesText_append (qs : List Piece) :
    a.piecesText within (ps ++ qs) = a.piecesText within ps ++ a.piecesText within qs := by
  simp [piecesText]

theorem piecesText_flatMap {α : Type} (f : α → List Piece) (xs : List α) :
    a.piecesText within (xs.flatMap f) = String.join (xs.map fun x => a.piecesText within (f x)) := by
  induction xs with
  | nil => rfl
  | cons x xs ih => simp [ih]

@[simp] theorem pieceText_text (s : String) : a.pieceText within (.text s) = s := rfl

@[simp] theorem pieceText_named (depth : Nat) (t : CType) (name : String) :
    a.pieceText within (.named depth t name) = t.declare (a.spelling within depth) name := by
  simp [Piece.named, pieceText]

theorem piecesText_commas (xs : List Piece) :
    a.piecesText within (commas xs) = ", ".intercalate (xs.map (a.pieceText within)) := by
  fun_induction commas xs with
  | case1 => rfl
  | case2 x => simp
  | case3 x y xs ih => simp [ih, String.append_assoc]

theorem declareParams_eq_map (s : Spelling) (params : List Variable) :
    declareParams s params = params.map fun p => p.type.declare s p.name := by
  induction params with
  | nil => rfl
  | cons p params ih => simp [declareParams, ih]

theorem piecesText_paramPieces (depth : Nat) (params : List Variable) (variadic : Bool) :
    "(" ++ a.piecesText within (paramPieces depth params variadic) ++ ")" =
      parameterList (declareParams (a.spelling within depth) params) variadic := by
  unfold paramPieces parameterList
  rw [piecesText_commas, declareParams_eq_map]
  cases variadic <;> simp [Function.comp_def]

theorem piecesText_field (depth : Nat) (x : Field) :
    a.piecesText within (x.pieces depth) = x.line (a.spelling within depth) := by
  simp [Field.pieces, Field.line, String.append_assoc]

theorem piecesText_fieldLines (depth : Nat) (xs : List Field) :
    a.piecesText within (fieldLines depth xs) =
      String.join (xs.map fun x => indent depth ++ x.line (a.spelling within depth) ++ "\n") := by
  unfold fieldLines
  rw [piecesText_flatMap]
  simp only [piecesText_cons, piecesText_append, piecesText_field, pieceText_text, piecesText_nil, String.append_empty,
    String.append_assoc]

theorem spelling_inPlace {id : CompositeId} (hin : a.isInlined id = true) (hnot : id ∉ within) (depth : Nat) :
    (a.spelling within depth).composite id = a.piecesText (id :: within) (a.bodyPieces id depth) := by
  have hcond : a.isInlined id = true ∧ within.contains id = false := ⟨hin, by simpa using hnot⟩
  rw [spelling]
  simp only [dif_pos hcond, bodyPieces, piecesText_cons, piecesText_append, piecesText_fieldLines, pieceText_text,
    piecesText_nil, String.append_empty, String.append_assoc]

theorem declare_specifier {t : CType} {s : String} (h : a.specifier? within t = some s) (depth : Nat)
    (declarator : String) : t.declare (a.spelling within depth) declarator = DebugSymbols.specified s declarator := by
  cases t with
  | base b =>
    cases h
    rfl
  | enum id | typedef id =>
    cases h
    rw [spelling]
    simp only [CType.declare]
  | composite k id =>
    by_cases hplace : a.isInlined id = true ∧ id ∉ within
    · rw [specifier?, if_pos hplace] at h
      exact nomatch h
    · rw [specifier?, if_neg hplace] at h
      cases h
      have hcond : ¬(a.isInlined id = true ∧ within.contains id = false) := by simpa using hplace
      rw [spelling]
      simp only [CType.declare, dif_neg hcond]
  | _ => exact nomatch h

theorem Prints.plain (h : a.Prints within ps out) : out.plain = a.piecesText within ps := by
  induction h with
  | nil => rfl
  | text _ ih => simp [Printed.plain, ih]
  | @pointer _ _ t d _ _ _ ih =>
    rw [ih, piecesText_cons, piecesText_cons]
    simp only [pieceText, CType.declare, Printed.plain_starred]
  | array _ ih =>
    rw [ih, piecesText_cons, piecesText_cons]
    simp only [pieceText, CType.declare, Printed.plain_bracketed]
  | function _ _ ihparams ih =>
    rw [ih, piecesText_cons, piecesText_cons]
    simp only [pieceText, CType.declare, Printed.parenthesized, Printed.plain_append, Printed.plain_ofText, ihparams,
      ← piecesText_paramPieces, String.append_assoc]
  | named hs _ ih =>
    rw [Printed.plain_append, Printed.plain_specified, ih, piecesText_cons, Printed.plain_ofText]
    simp only [pieceText, declare_specifier hs]
  | inPlace hin hnot _ _ ihbody ih =>
    rw [Printed.plain_append, Printed.plain_specified, ih, piecesText_cons]
    simp only [pieceText, CType.declare, spelling_inPlace hin hnot, Printed.plain, ihbody, String.append_empty]

/-! ## That there is one -/

/-- A piece is printed if what is behind it is. -/
def Ends (a : Arena) (within : List CompositeId) (x : Piece) : Prop :=
  ∀ ps out, a.Prints within ps out → ∃ out', a.Prints within (x :: ps) out'

theorem exists_prints_of_ends (h : ∀ x ∈ ps, a.Ends within x) : ∃ out, a.Prints within ps out := by
  induction ps with
  | nil => exact ⟨.nil, .nil⟩
  | cons x ps ih =>
    obtain ⟨out, hout⟩ := ih fun y hy => h y (List.mem_cons_of_mem _ hy)
    exact h x List.mem_cons_self ps out hout

theorem ends_text (s : String) : a.Ends within (.text s) := fun _ out h => ⟨.text s out, .text h⟩

theorem exists_prints_params {params : List Variable} (depth : Nat) (variadic : Bool)
    (h : ∀ p ∈ params, ∀ d, a.Ends within (.declarator depth p.type d)) :
    ∃ inner, a.Prints within (paramPieces depth params variadic) inner := by
  refine exists_prints_of_ends fun x hx => ?_
  obtain ⟨s, rfl⟩ | ⟨p, hp, rfl⟩ := eq_text_or_named_of_mem_paramPieces hx
  · exact ends_text s
  · exact h p hp _

theorem ends_specified {t : CType} {s : String} (h : a.specifier? within t = some s) (depth : Nat) (d : Printed) :
    a.Ends within (.declarator depth t d) := fun _ _ hout => ⟨_, .named h hout⟩

/-- Whatever stands in one more body is printed. -/
def BodiesEnd (a : Arena) (within : List CompositeId) : Prop :=
  ∀ id, a.isInlined id = true → id ∉ within → ∀ ps, ∃ out, a.Prints (id :: within) ps out

mutual

/-- By recursion on the type, where bodies in place can be printed. -/
theorem ends_declarator (hin : a.BodiesEnd within) :
    ∀ (t : CType) (depth : Nat) (d : Printed), a.Ends within (.declarator depth t d)
  | .base _, depth, d => ends_specified rfl depth d
  | .enum _, depth, d => ends_specified rfl depth d
  | .typedef _, depth, d => ends_specified rfl depth d
  | .pointer t, depth, d => fun ps out hout => by
    obtain ⟨out', h⟩ := ends_declarator hin t depth (d.starred t) ps out hout
    exact ⟨out', .pointer h⟩
  | .array t n, depth, d => fun ps out hout => by
    obtain ⟨out', h⟩ := ends_declarator hin t depth (d.bracketed n) ps out hout
    exact ⟨out', .array h⟩
  | .function r params variadic, depth, d => fun ps out hout => by
    obtain ⟨inner, hinner⟩ := exists_prints_params depth variadic fun p hp d => ends_params hin params p hp depth d
    obtain ⟨out', h⟩ := ends_declarator hin r depth (d.parenthesized inner) ps out hout
    exact ⟨out', .function hinner h⟩
  | .composite k id, depth, d => fun ps out hout => by
    by_cases hplace : a.isInlined id = true ∧ id ∉ within
    · obtain ⟨inner, hinner⟩ := hin id hplace.1 hplace.2 (a.bodyPieces id depth)
      exact ⟨_, .inPlace hplace.1 hplace.2 hinner hout⟩
    · have hspecified : a.specifier? within (.composite k id) = some (a.compositeName id) := if_neg hplace
      exact ends_specified hspecified depth d ps out hout

theorem ends_params (hin : a.BodiesEnd within) :
    ∀ (params : List Variable), ∀ p ∈ params, ∀ (depth : Nat) (d : Printed), a.Ends within (.declarator depth p.type d)
  | [], _, h => nomatch h
  | ⟨_, _, _, t, _⟩ :: params, p, h => fun depth d => by
    obtain rfl | h := List.mem_cons.mp h
    · exact ends_declarator hin t depth d
    · exact ends_params hin params p h depth d

end

/-- By induction on the number of structs and unions whose bodies have not been begun. -/
theorem exists_prints (a : Arena) (within : List CompositeId) (ps : List Piece) : ∃ out, a.Prints within ps out := by
  induction hn : a.unvisited within using Nat.strongRecOn generalizing within ps with
  | ind n ih =>
    have hin : a.BodiesEnd within := by
      intro id hin hnot ps
      have hid : within.contains id = false := by simpa using hnot
      have hlt := unvisited_cons_lt (isInlined_index_lt hin) hid
      exact ih _ (hn ▸ hlt) (id :: within) ps rfl
    refine exists_prints_of_ends fun x _ => ?_
    cases x with
    | text s => exact ends_text s
    | declarator depth t d => exact ends_declarator hin t depth d

end Arena

end DebugSymbols
