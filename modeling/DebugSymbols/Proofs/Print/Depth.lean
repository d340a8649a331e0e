import DebugSymbols.Print.Declarator
import DebugSymbols.Proofs.Model.CleanNames
import DebugSymbols.Proofs.Text.Lines

/-!
# Printing further in

What is printed at a greater depth is the same text with tabs put in behind its
line breaks: first around one declarator, then for the lines of fields, and from
these for the bodies that are written in place, by induction on how many may
still be begun.
-/

namespace DebugSymbols

open Text

/-! ## Around a declarator -/

theorem specified_indented (depth : Nat) (s d : String) :
    specified (indented depth s) (indented depth d) = indented depth (specified s d) := by
  have hblank : OneLine " " := by decide
  unfold specified
  rw [isEmpty_indented]
  split
  · rfl
  · rw [indented_append, indented_append, hblank.indented_eq]

theorem starred_indented (depth : Nat) (t : CType) (d : String) :
    starred t (indented depth d) = indented depth (starred t d) := by
  have hopen : OneLine "(*" := by decide
  have hclose : OneLine ")" := by decide
  have hstar : OneLine "*" := by decide
  cases t <;> simp only [starred, indented_append, hopen.indented_eq, hclose.indented_eq, hstar.indented_eq]

theorem bracketed_indented (depth : Nat) (n : UInt32) (d : String) :
    bracketed n (indented depth d) = indented depth (bracketed n d) := by
  have hlength : OneLine (if n = 0 then "[]" else "[" ++ toString n ++ "]") := by
    split
    · decide
    · have hopen : OneLine "[" := by decide
      exact (hopen.append (clean_toString n.toNat).oneLine).append (by decide)
  unfold bracketed
  rw [indented_append, hlength.indented_eq]

theorem parameterList_indented (depth : Nat) (params : List String) (variadic : Bool) :
    parameterList (params.map (indented depth)) variadic = indented depth (parameterList params variadic) := by
  have hopen : OneLine "(" := by decide
  have hcomma : OneLine ", " := by decide
  have hdots : OneLine "..." := by decide
  have hclose : OneLine ")" := by decide
  have hall : (if variadic then params ++ ["..."] else params).map (indented depth) =
      if variadic then params.map (indented depth) ++ ["..."] else params.map (indented depth) := by
    cases variadic with
    | false => rfl
    | true => simp [hdots.indented_eq]
  unfold parameterList
  rw [indented_append, indented_append, indented_intercalate hcomma, hall, hopen.indented_eq, hclose.indented_eq]

/-! ## Declarations and fields -/

def Spelling.indented (depth : Nat) (s : Spelling) : Spelling :=
  { composite := fun id => Text.indented depth (s.composite id)
    enum := fun id => Text.indented depth (s.enum id)
    typedef := fun id => Text.indented depth (s.typedef id) }

theorem BaseType.oneLine_spelling (b : BaseType) : OneLine b.spelling := by
  cases b <;> decide

mutual

theorem CType.declare_indented (depth : Nat) (s : Spelling) : ∀ t : CType, (∀ n ∈ t.paramNames, OneLine n) →
    ∀ d, t.declare (s.indented depth) (indented depth d) = indented depth (t.declare s d)
  | .base b, _, d => by
    rw [CType.declare, CType.declare, ← specified_indented, b.oneLine_spelling.indented_eq]
  | .pointer t, h, d => by
    rw [CType.declare, CType.declare, starred_indented]
    exact CType.declare_indented depth s t h _
  | .array t n, h, d => by
    rw [CType.declare, CType.declare, bracketed_indented]
    exact CType.declare_indented depth s t h _
  | .function r ps v, h, d => by
    obtain ⟨hr, hps⟩ := List.forall_mem_append.mp h
    rw [CType.declare, CType.declare, declareParams_indented depth s ps hps, parameterList_indented,
      ← indented_append]
    exact CType.declare_indented depth s r hr _
  | .composite _ id, _, d => by
    rw [CType.declare, CType.declare, ← specified_indented]
    rfl
  | .enum id, _, d => by
    rw [CType.declare, CType.declare, ← specified_indented]
    rfl
  | .typedef id, _, d => by
    rw [CType.declare, CType.declare, ← specified_indented]
    rfl

theorem declareParams_indented (depth : Nat) (s : Spelling) : ∀ ps : List (Decl CType),
    (∀ n ∈ declNames ps, OneLine n) →
      declareParams (s.indented depth) ps = (declareParams s ps).map (indented depth)
  | [], _ => rfl
  | ⟨_, _, _, t, name⟩ :: ps, h => by
    obtain ⟨hname, hrest⟩ := List.forall_mem_cons.mp h
    obtain ⟨ht, hps⟩ := List.forall_mem_append.mp hrest
    have hparam := CType.declare_indented depth s t ht name
    rw [OneLine.indented_eq hname] at hparam
    rw [declareParams, declareParams, List.map_cons, hparam, declareParams_indented depth s ps hps]

end

def Field.names (x : Field) : List String :=
  x.name :: x.type.paramNames

theorem Field.line_indented {x : Field} (h : ∀ n ∈ x.names, OneLine n) (depth : Nat) (s : Spelling) :
    x.line (s.indented depth) = indented depth (x.line s) := by
  obtain ⟨hname, htype⟩ := List.forall_mem_cons.mp h
  have hbits : OneLine (if x.bitfield then ":" ++ toString x.size else "") := by
    split
    · have hcolon : OneLine ":" := by decide
      exact hcolon.append (clean_toString x.size.toNat).oneLine
    · decide
  have hcomment : OneLine "; // offset: 0x" := by decide
  have hoffset : OneLine (upperHex 4 x.offset.toNat) := (clean_upperHex 4 _).oneLine
  have hdeclared := CType.declare_indented depth s x.type htype x.name
  rw [OneLine.indented_eq hname] at hdeclared
  unfold Field.line
  rw [indented_append, indented_append, indented_append, hdeclared, hbits.indented_eq, hcomment.indented_eq,
    hoffset.indented_eq]

/-! ## Names in the arena -/

/-- The names and tags that types are printed by, each on one line. -/
structure Arena.OneLineNames (a : Arena) : Prop where
  tags : ∀ c ∈ a.composites, OneLine c.tag.text
  fields : ∀ c ∈ a.composites, ∀ x ∈ c.fields, ∀ n ∈ x.names, OneLine n
  enumTags : ∀ e ∈ a.enums, OneLine e.tag.text
  typedefs : ∀ d ∈ a.typedefs, OneLine d.name

namespace Arena

theorem exists_of_soleAlias {a : Arena} {ids : List TypedefId} {d : Variable} (h : a.soleAlias ids = some d) :
    ∃ t, d = a.typedef t := by
  unfold soleAlias at h
  split at h
  · cases h
    exact ⟨_, rfl⟩
  · exact nomatch h

theorem compositeName_cases (a : Arena) (id : CompositeId) :
    (∃ t, a.compositeName id = (a.typedef t).name) ∨
      a.compositeName id = (a.composite id).kind.keyword ++ " " ++ (a.composite id).tag.text := by
  unfold compositeName
  split
  · rename_i d hd
    obtain ⟨t, rfl⟩ := exists_of_soleAlias (Option.filter_eq_some_iff.mp hd).1
    exact .inl ⟨t, rfl⟩
  · exact .inr rfl

theorem enumName_cases (a : Arena) (id : EnumId) :
    (∃ t, a.enumName id = (a.typedef t).name) ∨ a.enumName id = "enum " ++ (a.enumeration id).tag.text := by
  unfold enumName
  split
  · rename_i d hd
    obtain ⟨t, rfl⟩ := exists_of_soleAlias (Option.filter_eq_some_iff.mp hd).1
    exact .inl ⟨t, rfl⟩
  · exact .inr rfl

section
variable {a : Arena} (ha : a.OneLineNames)
include ha

theorem OneLineNames.typedef (id : TypedefId) : OneLine (a.typedef id).name :=
  forall_getD (P := fun d : Variable => OneLine d.name) ha.typedefs (by decide) id.index

theorem OneLineNames.compositeName (id : CompositeId) : OneLine (a.compositeName id) := by
  obtain ⟨t, h⟩ | h := a.compositeName_cases id
  · rw [h]
    exact ha.typedef t
  · have htag : OneLine (a.composite id).tag.text :=
      forall_getD (P := fun c : Composite => OneLine c.tag.text) ha.tags (by decide) id.index
    have hkeyword : OneLine (a.composite id).kind.keyword := by
      cases (a.composite id).kind <;> decide
    rw [h]
    exact (hkeyword.append (by decide)).append htag

theorem OneLineNames.enumName (id : EnumId) : OneLine (a.enumName id) := by
  obtain ⟨t, h⟩ | h := a.enumName_cases id
  · rw [h]
    exact ha.typedef t
  · have htag : OneLine (a.enumeration id).tag.text :=
      forall_getD (P := fun e : Enumeration => OneLine e.tag.text) ha.enumTags (by decide) id.index
    rw [h]
    exact OneLine.append (by decide) htag

theorem OneLineNames.field {id : CompositeId} {x : Field} (hx : x ∈ (a.composite id).fields) :
    ∀ n ∈ x.names, OneLine n :=
  ha.fields _ (composite_mem_of_field hx) x hx

end

end Arena

/-! ## Bodies in place -/

theorem indent_add (m n : Nat) : indent (m + n) = indent n ++ indent m := by
  unfold indent
  rw [Nat.add_comm, List.replicate_add, String.ofList_append]

theorem append_join_map (pad : String) (f : Field → String) (xs : List Field) :
    pad ++ String.join (xs.map fun x => f x ++ pad) = String.join (xs.map fun x => pad ++ f x) ++ pad := by
  induction xs with
  | nil => simp
  | cons x xs ih =>
    simp only [List.map_cons, String.join_cons, String.append_assoc]
    rw [ih]

def Composite.fieldLines (c : Composite) (s : Spelling) (depth : Nat) : String :=
  String.join (c.fields.map fun x => indent depth ++ x.line s ++ "\n")

/-- The body with its fields spelled by `s`, from the keyword to the brace that closes it at `depth`. -/
def Composite.body (c : Composite) (s : Spelling) (depth : Nat) : String :=
  c.kind.keyword ++ " \x7b\n" ++ c.fieldLines s (depth + 1) ++ indent depth ++ "\x7d"

section
variable {c : Composite} (h : ∀ x ∈ c.fields, ∀ n ∈ x.names, OneLine n) (s : Spelling) (m depth : Nat)
include h

/-- The tabs before the first line stand behind the brace above it, and those
behind the last line before the brace below it. -/
theorem Composite.fieldLines_indented :
    c.fieldLines (s.indented depth) (m + depth) ++ indent depth =
      indent depth ++ indented depth (c.fieldLines s m) := by
  have hbefore : ∀ x : Field, indent (m + depth) ++ x.line (s.indented depth) ++ "\n" =
      indent depth ++ (indent m ++ x.line (s.indented depth) ++ "\n") := by
    intro x
    rw [indent_add]
    simp only [String.append_assoc]
  have hbehind : c.fields.map (fun x => indented depth (indent m ++ x.line s ++ "\n")) =
      c.fields.map fun x => indent m ++ x.line (s.indented depth) ++ "\n" ++ indent depth := by
    refine List.map_congr_left fun x hx => ?_
    rw [indented_append, indented_append, (oneLine_indent m).indented_eq, indented_break,
      Field.line_indented (h x hx), ← String.append_assoc]
  unfold Composite.fieldLines
  simp only [indented_join, List.map_map, Function.comp_def, hbefore]
  rw [hbehind, append_join_map]

theorem Composite.body_indented : c.body (s.indented depth) (m + depth) = indented depth (c.body s m) := by
  have hkeyword : OneLine c.kind.keyword := by
    cases c.kind <;> decide
  have hopen : indented depth " \x7b\n" = " \x7b\n" ++ indent depth := by
    have hbrace : OneLine " \x7b" := by decide
    rw [show " \x7b\n" = " \x7b" ++ "\n" from rfl, indented_append, hbrace.indented_eq, indented_break,
      String.append_assoc]
  have hclose : OneLine "\x7d" := by decide
  calc c.body (s.indented depth) (m + depth)
      = c.kind.keyword ++ " \x7b\n" ++ (c.fieldLines (s.indented depth) (m + 1 + depth) ++ indent depth) ++
          indent m ++ "\x7d" := by
        rw [Composite.body, Nat.add_right_comm, indent_add m]
        simp only [String.append_assoc]
    _ = c.kind.keyword ++ (" \x7b\n" ++ indent depth) ++ indented depth (c.fieldLines s (m + 1)) ++
          indent m ++ "\x7d" := by
        rw [Composite.fieldLines_indented h]
        simp only [String.append_assoc]
    _ = indented depth (c.body s m) := by
        simp only [Composite.body, indented_append, hkeyword.indented_eq, hopen, (oneLine_indent m).indented_eq,
          hclose.indented_eq]

end

namespace Arena

variable {a : Arena} {visited : List CompositeId} {id : CompositeId}

theorem composite_spelling_of_inlined (h : a.isInlined id = true ∧ visited.contains id = false) (depth : Nat) :
    (a.spelling visited depth).composite id =
      (a.composite id).body (a.spelling (id :: visited) (depth + 1)) depth := by
  rw [spelling]
  exact dif_pos h

theorem composite_spelling_of_not_inlined (h : ¬ (a.isInlined id = true ∧ visited.contains id = false)) (depth : Nat) :
    (a.spelling visited depth).composite id = a.compositeName id := by
  rw [spelling]
  exact dif_neg h

theorem enum_spelling (a : Arena) (visited : List CompositeId) (depth : Nat) :
    (a.spelling visited depth).enum = a.enumName := by
  rw [spelling]

theorem typedef_spelling (a : Arena) (visited : List CompositeId) (depth : Nat) :
    (a.spelling visited depth).typedef = fun id => (a.typedef id).name := by
  rw [spelling]

/-- By induction on the number of structs and unions whose bodies have not been begun. -/
theorem spelling_indented (ha : a.OneLineNames) (visited : List CompositeId) (m depth : Nat) :
    a.spelling visited (m + depth) = (a.spelling visited m).indented depth := by
  induction hn : a.unvisited visited using Nat.strongRecOn generalizing visited m with
  | ind n ih =>
    have hcomposite : (a.spelling visited (m + depth)).composite =
        fun id => Text.indented depth ((a.spelling visited m).composite id) := by
      funext id
      by_cases hin : a.isInlined id = true ∧ visited.contains id = false
      · -- the fields are one level further in, whatever the level
        have hlt := unvisited_cons_lt (isInlined_index_lt hin.1) hin.2
        have hinner := ih _ (hn ▸ hlt) (id :: visited) (m + 1) rfl
        rw [composite_spelling_of_inlined hin, composite_spelling_of_inlined hin, Nat.add_right_comm, hinner]
        exact Composite.body_indented (fun x hx => ha.field hx) _ m depth
      · rw [composite_spelling_of_not_inlined hin, composite_spelling_of_not_inlined hin,
          (ha.compositeName id).indented_eq]
    have henum : (a.spelling visited (m + depth)).enum =
        fun id => Text.indented depth ((a.spelling visited m).enum id) := by
      rw [enum_spelling, enum_spelling]
      exact funext fun id => ((ha.enumName id).indented_eq depth).symm
    have htypedef : (a.spelling visited (m + depth)).typedef =
        fun id => Text.indented depth ((a.spelling visited m).typedef id) := by
      rw [typedef_spelling, typedef_spelling]
      exact funext fun id => ((ha.typedef id).indented_eq depth).symm
    unfold Spelling.indented
    rw [← hcomposite, ← henum, ← htypedef]

end Arena

end DebugSymbols
