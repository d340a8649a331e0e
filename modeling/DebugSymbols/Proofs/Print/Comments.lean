import DebugSymbols.Print.Declaration
import DebugSymbols.Proofs.Print.Depth
import DebugSymbols.Proofs.Text.Comments

/-!
# Comments in what is printed

From clean names come spaced texts, for declarations, the lines of fields and the
bodies in place within them: the only slashes are those of comments that go to
the end of a line.
-/

namespace DebugSymbols

open Text

/-! ## Around a declarator -/

section
variable {s d : String}

theorem spaced_specified (hs : Spaced s) (hd : Spaced d) : Spaced (specified s d) := by
  unfold specified
  split
  · exact hs
  · exact (hs.append (Lacks.spaced (by decide))).append hd

theorem spaced_starred (t : CType) (hd : Spaced d) : Spaced (starred t d) := by
  have hstar : Spaced "*" := Lacks.spaced (by decide)
  have hparens : Spaced ("(*" ++ d ++ ")") :=
    ((Lacks.spaced (by decide)).append hd).append (Lacks.spaced (by decide))
  cases t with
  | function => exact hparens
  | array => exact hparens
  | _ => exact hstar.append hd

theorem spaced_bracketed (n : UInt32) (hd : Spaced d) : Spaced (bracketed n d) := by
  refine hd.append ?_
  split
  · exact Lacks.spaced (by decide)
  · have hlength : Spaced (toString n) := (clean_toString n.toNat).spaced
    exact ((Lacks.spaced (by decide)).append hlength).append (Lacks.spaced (by decide))

theorem spaced_parameterList {params : List String} (h : ∀ p ∈ params, Spaced p) (variadic : Bool) :
    Spaced (parameterList params variadic) := by
  have hall : ∀ p ∈ (if variadic then params ++ ["..."] else params), Spaced p := by
    cases variadic with
    | false => exact h
    | true => exact List.forall_mem_append.mpr ⟨h, List.forall_mem_singleton.mpr (Lacks.spaced (by decide))⟩
  have hcomma : Spaced ", " := Lacks.spaced (by decide)
  have hlist := spaced_intercalate hcomma hall
  exact ((Lacks.spaced (by decide)).append hlist).append (Lacks.spaced (by decide))

end

/-! ## Declarations and fields -/

structure Spelling.Spaced (s : Spelling) : Prop where
  composite : ∀ id, Text.Spaced (s.composite id)
  enum : ∀ id, Text.Spaced (s.enum id)
  typedef : ∀ id, Text.Spaced (s.typedef id)

mutual

theorem CType.spaced_declare {s : Spelling} (hs : s.Spaced) : ∀ t : CType, (∀ n ∈ t.paramNames, Clean n) →
    ∀ {d}, Spaced d → Spaced (t.declare s d)
  | .base b, _, d, hd => by
    have hspelling : Spaced b.spelling := by cases b <;> exact Lacks.spaced (by decide)
    rw [CType.declare]
    exact spaced_specified hspelling hd
  | .pointer t, h, d, hd => by
    rw [CType.declare]
    exact CType.spaced_declare hs t h (spaced_starred t hd)
  | .array t n, h, d, hd => by
    rw [CType.declare]
    exact CType.spaced_declare hs t h (spaced_bracketed n hd)
  | .function r ps v, h, d, hd => by
    obtain ⟨hr, hps⟩ := List.forall_mem_append.mp h
    rw [CType.declare]
    exact CType.spaced_declare hs r hr (hd.append (spaced_parameterList (spaced_declareParams hs ps hps) v))
  | .composite _ id, _, d, hd => by
    rw [CType.declare]
    exact spaced_specified (hs.composite id) hd
  | .enum id, _, d, hd => by
    rw [CType.declare]
    exact spaced_specified (hs.enum id) hd
  | .typedef id, _, d, hd => by
    rw [CType.declare]
    exact spaced_specified (hs.typedef id) hd

theorem spaced_declareParams {s : Spelling} (hs : s.Spaced) : ∀ ps : List (Decl CType), (∀ n ∈ declNames ps, Clean n) →
    ∀ p ∈ declareParams s ps, Spaced p
  | [], _ => List.forall_mem_nil _
  | ⟨_, _, _, t, name⟩ :: ps, h => by
    obtain ⟨hname, hrest⟩ := List.forall_mem_cons.mp h
    obtain ⟨ht, hps⟩ := List.forall_mem_append.mp hrest
    rw [declareParams]
    exact List.forall_mem_cons.mpr ⟨CType.spaced_declare hs t ht hname.spaced, spaced_declareParams hs ps hps⟩

end

section
variable {s : Spelling} (hs : s.Spaced)
include hs

theorem Field.spaced_line {x : Field} (h : ∀ n ∈ x.names, Clean n) : Spaced (x.line s) := by
  obtain ⟨hname, htype⟩ := List.forall_mem_cons.mp h
  have hdeclared := CType.spaced_declare hs x.type htype (Clean.spaced hname)
  have hbits : Spaced (if x.bitfield then ":" ++ toString x.size else "") := by
    split
    · have hsize : Spaced (toString x.size) := (clean_toString x.size.toNat).spaced
      exact (Lacks.spaced (by decide)).append hsize
    · exact SpacedChars.nil
  have hcomment : Spaced ("; " ++ ("// " ++ "offset: 0x")) :=
    (Lacks.spaced (by decide)).append (spaced_comment (Lacks.spaced (by decide)))
  exact ((hdeclared.append hbits).append hcomment).append (clean_upperHex 4 _).spaced

theorem Composite.spaced_body {c : Composite} (h : ∀ x ∈ c.fields, ∀ n ∈ x.names, Clean n) (depth : Nat) :
    Spaced (c.body s depth) := by
  have hkeyword : Spaced c.kind.keyword := by cases c.kind <;> exact Lacks.spaced (by decide)
  have hlines : Spaced (c.fieldLines s (depth + 1)) := by
    refine spaced_join (List.forall_mem_map.mpr fun x hx => ?_)
    exact ((spaced_indent _).append (Field.spaced_line hs (h x hx))).append (Lacks.spaced (by decide))
  exact (((hkeyword.append (Lacks.spaced (by decide))).append hlines).append (spaced_indent _)).append
    (Lacks.spaced (by decide))

end

/-! ## Names in the arena -/

/-- The names and tags that definitions are printed with, those of parameters included. -/
structure Arena.CleanNames (a : Arena) : Prop where
  tags : ∀ c ∈ a.composites, Clean c.tag.text
  fields : ∀ c ∈ a.composites, ∀ x ∈ c.fields, ∀ n ∈ x.names, Clean n
  enumTags : ∀ e ∈ a.enums, Clean e.tag.text
  members : ∀ e ∈ a.enums, ∀ m ∈ e.members, Clean m.name
  typedefs : ∀ d ∈ a.typedefs, ∀ n ∈ d.name :: d.type.paramNames, Clean n

namespace Arena.CleanNames

variable {a : Arena} (ha : a.CleanNames)
include ha

theorem compositeTag (id : CompositeId) : Clean (a.composite id).tag.text :=
  forall_getD (P := fun c : Composite => Clean c.tag.text) ha.tags (by decide) id.index

theorem enumTag (id : EnumId) : Clean (a.enumeration id).tag.text :=
  forall_getD (P := fun e : Enumeration => Clean e.tag.text) ha.enumTags (by decide) id.index

theorem typedef (id : TypedefId) : ∀ n ∈ (a.typedef id).name :: (a.typedef id).type.paramNames, Clean n :=
  forall_getD (P := fun d : Variable => ∀ n ∈ d.name :: d.type.paramNames, Clean n) ha.typedefs (by decide) id.index

theorem typedefName (id : TypedefId) : Clean (a.typedef id).name :=
  ha.typedef id _ List.mem_cons_self

theorem spaced_compositeName (id : CompositeId) : Spaced (a.compositeName id) := by
  obtain ⟨t, h⟩ | h := a.compositeName_cases id
  · rw [h]
    exact (ha.typedefName t).spaced
  · have hkeyword : Spaced (a.composite id).kind.keyword := by
      cases (a.composite id).kind <;> exact Lacks.spaced (by decide)
    rw [h]
    exact (hkeyword.append (Lacks.spaced (by decide))).append (ha.compositeTag id).spaced

theorem spaced_enumName (id : EnumId) : Spaced (a.enumName id) := by
  obtain ⟨t, h⟩ | h := a.enumName_cases id
  · rw [h]
    exact (ha.typedefName t).spaced
  · rw [h]
    exact Spaced.append (Lacks.spaced (by decide)) (ha.enumTag id).spaced

theorem field {id : CompositeId} {x : Field} (hx : x ∈ (a.composite id).fields) : ∀ n ∈ x.names, Clean n :=
  ha.fields _ (composite_mem_of_field hx) x hx

theorem member {id : EnumId} {m : Member} (hm : m ∈ (a.enumeration id).members) : Clean m.name :=
  forall_getD (P := fun e : Enumeration => ∀ m ∈ e.members, Clean m.name) ha.members (List.forall_mem_nil _) id.index
    m hm

/-- By induction on the number of structs and unions whose bodies have not been begun. -/
theorem spaced_spelling (visited : List CompositeId) (depth : Nat) : (a.spelling visited depth).Spaced := by
  induction hn : a.unvisited visited using Nat.strongRecOn generalizing visited depth with
  | ind n ih =>
    refine ⟨fun id => ?_, fun id => ?_, fun id => ?_⟩
    · by_cases hin : a.isInlined id = true ∧ visited.contains id = false
      · have hlt := unvisited_cons_lt (isInlined_index_lt hin.1) hin.2
        have hinner := ih _ (hn ▸ hlt) (id :: visited) (depth + 1) rfl
        rw [composite_spelling_of_inlined hin]
        exact Composite.spaced_body hinner (fun x hx => ha.field hx) depth
      · rw [composite_spelling_of_not_inlined hin]
        exact ha.spaced_compositeName id
    · rw [enum_spelling]
      exact ha.spaced_enumName id
    · rw [typedef_spelling]
      exact (ha.typedefName id).spaced

/-! ## Variables and fields -/

theorem spaced_declare {t : CType} {name : String} (h : ∀ n ∈ name :: t.paramNames, Clean n) (depth : Nat) :
    Spaced (a.declare t name depth) := by
  obtain ⟨hname, ht⟩ := List.forall_mem_cons.mp h
  exact t.spaced_declare (ha.spaced_spelling [] depth) ht (Clean.spaced hname)

theorem spaced_fieldLine {x : Field} (h : ∀ n ∈ x.names, Clean n) (depth : Nat) : Spaced (a.fieldLine x depth) :=
  Field.spaced_line (ha.spaced_spelling [] depth) h

end Arena.CleanNames

theorem lacks_registerName (n : UInt32) : Lacks '/' (registerName n) := by
  have hnames : ∀ s ∈ registerNames, Lacks '/' s := by decide
  have hnumber : Lacks '/' s!"${n}" := Lacks.append (s := "$") (by decide) ((clean_toString n.toNat).lacks (by decide))
  unfold registerName
  obtain hmem | hdefault := Arena.getD_mem_or registerNames n.toNat s!"${n}"
  · exact hnames _ hmem
  · rw [hdefault]
    exact hnumber

theorem lacks_placeComment {v : Variable} : ∀ c ∈ (placeComment v).toList, Lacks '/' c := by
  have haddress : Lacks '/' s!"address: 0x{upperHex 8 v.addr.toNat}" :=
    Lacks.append (s := "address: 0x") (by decide) ((clean_upperHex 8 _).lacks (by decide))
  have hoffset : Lacks '/' s!"address: {v.addr.toInt32.toInt}" :=
    Lacks.append (s := "address: ") (by decide) (lacks_toString_int _)
  have hregister : Lacks '/' s!"register: {registerName v.addr}" :=
    Lacks.append (s := "register: ") (by decide) (lacks_registerName _)
  unfold placeComment
  split
  · exact List.forall_mem_singleton.mpr hregister
  · split
    · exact List.forall_mem_nil _
    · split
      · exact List.forall_mem_singleton.mpr haddress
      · exact List.forall_mem_singleton.mpr hoffset

theorem lacks_sizeComment (size : UInt32) : ∀ c ∈ (sizeComment size).toList, Lacks '/' c := by
  unfold sizeComment
  split
  · exact List.forall_mem_nil _
  · exact List.forall_mem_singleton.mpr
      (Lacks.append (s := "size: 0x") (by decide) ((clean_upperHex 1 _).lacks (by decide)))

theorem spaced_commentLines {pad : String} (hpad : Spaced pad) {comments : List String}
    (h : ∀ c ∈ comments, Lacks '/' c) : Spaced (commentLines pad comments) := by
  refine spaced_join (List.forall_mem_map.mpr fun c hc => ?_)
  have hcomment : Spaced ("// " ++ c) := spaced_comment (h c hc).spaced
  have hline := (hpad.append hcomment).append (Lacks.spaced (s := "\n") (by decide))
  simpa only [String.append_assoc] using hline

theorem Arena.CleanNames.spaced_variableText {a : Arena} (ha : a.CleanNames) {v : Variable}
    (h : ∀ n ∈ v.name :: v.type.paramNames, Clean n) (depth : Nat) : Spaced (a.variableText depth v) := by
  have hpad := spaced_indent depth
  have hstorage : Spaced (v.storage.elim "" fun c => c.keyword ++ " ") := by
    cases v.storage with
    | none => exact SpacedChars.nil
    | some c => cases c <;> exact Lacks.spaced (by decide)
  have hcomments := spaced_commentLines hpad
    (List.forall_mem_append.mpr ⟨lacks_placeComment (v := v), lacks_sizeComment v.size⟩)
  exact (((hcomments.append hpad).append hstorage).append (ha.spaced_declare h depth)).append
    (Lacks.spaced (by decide))

end DebugSymbols
