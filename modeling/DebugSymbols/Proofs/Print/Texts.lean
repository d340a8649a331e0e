import DebugSymbols.Proofs.Print.Comments
import DebugSymbols.Proofs.Print.Items

/-!
# Texts of definitions

What the text of a struct, union, enum or typedef is, line by line, and what of
it is outside comments.
-/

namespace DebugSymbols

open Text

namespace Arena

/-- The line that begins a body and the one that ends it. A typedef is part of
them where the type has no other. -/
inductive Frames (a : Arena) (keyword : String) (tag : Tag) : List TypedefId → String → String → Prop
  | plain {ids : List TypedefId} (h : ids.length ≠ 1) :
      Frames a keyword tag ids (keyword ++ " " ++ tag.text ++ " \x7b\n") "\x7d;\n"
  | pointer {id : TypedefId} (hp : (a.typedef id).type.isPointer = true) :
      Frames a keyword tag [id] ("typedef " ++ keyword ++ " " ++ tag.text ++ " \x7b\n")
        ("\x7d *" ++ (a.typedef id).name ++ ";\n")
  | named {id : TypedefId} (hp : (a.typedef id).type.isPointer = false) (ht : tag.isAnonymous = false) :
      Frames a keyword tag [id] ("typedef " ++ keyword ++ " " ++ tag.text ++ " \x7b\n")
        ("\x7d " ++ (a.typedef id).name ++ ";\n")
  | unnamed {id : TypedefId} (hp : (a.typedef id).type.isPointer = false) (ht : tag.isAnonymous = true) :
      Frames a keyword tag [id] ("typedef " ++ keyword ++ " \x7b\n") ("\x7d " ++ (a.typedef id).name ++ ";\n")

/-- The text of an item: a body with a line for each field or member, in comment
marks if it is a struct or union without fields, or the line of a typedef. -/
inductive Renders (a : Arena) : Item → String → Prop
  | fields {id : CompositeId} {c : Composite} {head close : String} (hc : a.composite id = c) (hf : c.fields ≠ [])
      (hframe : a.Frames c.kind.keyword c.tag c.aliases head close) :
      Renders a (.composite id) ("// size: 0x" ++ upperHex 1 c.size.toNat ++ "\n" ++ head ++
        String.join (c.fields.map fun x => "\t" ++ (a.declare x.type x.name 1 ++
          (if x.bitfield then ":" ++ toString x.size else "") ++
            "; // offset: 0x" ++ upperHex 4 x.offset.toNat) ++ "\n") ++ close ++ "\n")
  | noFields {id : CompositeId} {c : Composite} {head close : String} (hc : a.composite id = c) (hf : c.fields = [])
      (hframe : a.Frames c.kind.keyword c.tag c.aliases head close) :
      Renders a (.composite id)
        ("/*\n" ++ ("// size: 0x" ++ upperHex 1 c.size.toNat ++ "\n" ++ head ++ close) ++ "*/\n\n")
  | members {id : EnumId} {e : Enumeration} {head close : String} {ms : List Member} {width : Nat}
      (he : a.enumeration id = e) (hframe : a.Frames "enum" e.tag e.aliases head close) (hperm : ms.Perm e.members)
      (hsorted : ms.Pairwise fun m n => m.value < n.value ∨ m.value = n.value ∧ m.name ≤ n.name)
      (hfits : ∀ m ∈ ms, m.name.utf8ByteSize ≤ width) (hleast : ∀ w, (∀ m ∈ ms, m.name.utf8ByteSize ≤ w) → width ≤ w) :
      Renders a (.enum id) (head ++
        String.join (ms.map fun m => "\t" ++ (m.name ++ String.ofList (List.replicate (width - m.name.length) ' ')) ++
          " = " ++ toString m.value.toInt ++ ",\n") ++ close ++ "\n")
  | typedef {id : TypedefId} : Renders a (.typedef id)
      ("typedef " ++ a.declare (a.typedef id).type (a.typedef id).name ++ ";\n")
  | blank : Renders a .blank "\n"

/-! ## Items and their texts -/

variable {a : Arena}

theorem frames_body (a : Arena) (keyword : String) (tag : Tag) (ids : List TypedefId) :
    a.Frames keyword tag ids (Overlay.bodyHead keyword tag (a.soleAlias ids))
      (Overlay.bodyClose (a.soleAlias ids)) := by
  match ids with
  | [] => exact .plain (by simp)
  | i :: j :: ids => exact .plain (by simp)
  | [id] =>
    unfold soleAlias Overlay.bodyHead Overlay.bodyClose
    cases hp : (a.typedef id).type.isPointer with
    | true =>
      have hframe : a.Frames keyword tag [id] _ _ := .pointer hp
      simpa [hp] using hframe
    | false =>
      cases ht : tag.isAnonymous with
      | true =>
        have hframe : a.Frames keyword tag [id] _ _ := .unnamed hp ht
        simpa [hp, ht] using hframe
      | false =>
        have hframe : a.Frames keyword tag [id] _ _ := .named hp ht
        simpa [hp, ht] using hframe

theorem le_foldl_max {α : Type} (f : α → Nat) (xs : List α) (w n : Nat) :
    xs.foldl (fun w x => max w (f x)) w ≤ n ↔ w ≤ n ∧ ∀ x ∈ xs, f x ≤ n := by
  induction xs generalizing w with
  | nil => simp
  | cons x xs ih =>
    rw [List.foldl_cons, ih, Nat.max_le, List.forall_mem_cons, and_assoc]

theorem before_iff (m n : Member) :
    m.before n = true ↔ m.value < n.value ∨ m.value = n.value ∧ m.name ≤ n.name := by
  simp [Member.before]

theorem sorted_sortedMembers (e : Enumeration) :
    e.sortedMembers.Pairwise fun m n => m.value < n.value ∨ m.value = n.value ∧ m.name ≤ n.name := by
  refine (List.pairwise_mergeSort (fun l m n hlm hmn => ?_) (fun m n => ?_) e.members).imp fun h =>
    (before_iff _ _).mp h
  · rw [before_iff, Int32.lt_iff_toInt_lt] at *
    rcases hlm with hlm | ⟨hlm, hnames⟩
    · rcases hmn with hmn | ⟨hmn, _⟩
      · exact .inl (Int.lt_trans hlm hmn)
      · exact .inl (hmn ▸ hlm)
    · rw [hlm]
      exact hmn.imp_right fun ⟨hvalue, hmn⟩ => ⟨hvalue, String.le_trans hnames hmn⟩
  · rw [Bool.or_eq_true, before_iff, before_iff, Int32.lt_iff_toInt_lt, Int32.lt_iff_toInt_lt]
    rcases Int.lt_trichotomy m.value.toInt n.value.toInt with hlt | heq | hgt
    · exact .inl (.inl hlt)
    · have hvalue := Int32.toInt_inj.mp heq
      exact (String.le_total m.name n.name).imp (fun h => .inr ⟨hvalue, h⟩) fun h => .inr ⟨hvalue.symm, h⟩
    · exact .inr (.inl hgt)

theorem renders_itemText (a : Arena) (item : Item) : a.Renders item (Overlay.itemText a item) := by
  cases item with
  | composite id =>
    have hframe := a.frames_body (a.composite id).kind.keyword (a.composite id).tag (a.composite id).aliases
    unfold Overlay.itemText Overlay.compositeText
    dsimp only
    by_cases hf : (a.composite id).fields = []
    · rw [if_pos (List.isEmpty_iff.mpr hf), hf, List.map_nil]
      simpa [String.append_assoc] using Renders.noFields rfl hf hframe
    · rw [if_neg (by simpa using hf)]
      exact Renders.fields rfl hf hframe
  | enum id =>
    have hframe := a.frames_body "enum" (a.enumeration id).tag (a.enumeration id).aliases
    have hwidth := le_foldl_max (fun m : Member => m.name.utf8ByteSize) (a.enumeration id).sortedMembers 0
    exact .members rfl hframe (List.mergeSort_perm _ _) (sorted_sortedMembers _) ((hwidth _).mp (Nat.le_refl _)).2
      fun w hw => (hwidth w).mpr ⟨Nat.zero_le w, hw⟩
  | typedef id => exact .typedef
  | blank => exact .blank

theorem renders_types (o : Overlay) :
    ∃ texts, o.types = String.join texts ∧ List.Forall₂ o.arena.Renders (o.typeItems {}).2 texts := by
  refine ⟨(o.typeItems {}).2.map (Overlay.itemText o.arena), rfl, ?_⟩
  exact List.forall₂_map_right_iff.mpr (List.forall₂_same.mpr fun item _ => o.arena.renders_itemText item)

/-! ## Outside comments -/

section
variable {keyword : String} {tag : Tag} {ids : List TypedefId} {head close : String}

theorem Frames.lacks (ha : a.CleanNames) (hk : Clean keyword) (ht : Clean tag.text)
    (h : a.Frames keyword tag ids head close) : Lacks '/' head ∧ ∃ line, close = line ++ "\n" ∧ Lacks '/' line := by
  have hkeyword : Lacks '/' keyword := hk.lacks (by decide)
  have htag : Lacks '/' tag.text := ht.lacks (by decide)
  have hname (id : TypedefId) : Lacks '/' (a.typedef id).name := (ha.typedefName id).lacks (by decide)
  have hopen : Lacks '/' " \x7b\n" := by decide
  have hspace : Lacks '/' " " := by decide
  have htypedef : Lacks '/' "typedef " := by decide
  have hbrace : Lacks '/' "\x7d " := by decide
  have hstar : Lacks '/' "\x7d *" := by decide
  have hend : Lacks '/' ";" := by decide
  have hclose (s : String) : s ++ ";\n" = s ++ ";" ++ "\n" := by
    rw [String.append_assoc]
    rfl
  cases h with
  | plain h => exact ⟨((hkeyword.append hspace).append htag).append hopen, "\x7d;", rfl, by decide⟩
  | pointer hp =>
    exact ⟨(((htypedef.append hkeyword).append hspace).append htag).append hopen, _, hclose _,
      (hstar.append (hname _)).append hend⟩
  | named hp ht =>
    exact ⟨(((htypedef.append hkeyword).append hspace).append htag).append hopen, _, hclose _,
      (hbrace.append (hname _)).append hend⟩
  | unnamed hp ht =>
    exact ⟨(htypedef.append hkeyword).append hopen, _, hclose _, (hbrace.append (hname _)).append hend⟩

end

theorem clean_keyword (kind : CompositeKind) : Clean kind.keyword := by
  cases kind <;> decide

theorem spaced_sizeLine (size : UInt32) : Spaced ("// size: 0x" ++ upperHex 1 size.toNat ++ "\n") := by
  have hsize : Spaced ("// " ++ "size: 0x") := spaced_comment (Lacks.spaced (by decide))
  exact (hsize.append (clean_upperHex 1 _).spaced).append (Lacks.spaced (by decide))

theorem lacks_memberLine {m : Member} (hm : Clean m.name) (width : Nat) :
    Lacks '/' ("\t" ++ padded width m.name ++ " = " ++ toString m.value.toInt ++ ",\n") := by
  have hpadded : Lacks '/' (padded width m.name) := by
    refine (hm.lacks (by decide)).append fun hmem => ?_
    rw [String.toList_ofList] at hmem
    exact absurd (List.eq_of_mem_replicate hmem) (by decide)
  exact (((Lacks.append (by decide) hpadded).append (by decide)).append (lacks_toString_int _)).append (by decide)

theorem Renders.uncommented_eq (ha : a.CleanNames) {item : Item} {text : String} (h : a.Renders item text)
    (hfields : ∀ i, item = .composite i → (a.composite i).fields ≠ []) : uncommented text = text := by
  have hbreak : Lacks '/' "\n" := by decide
  refine Spaced.uncommented_eq ?_
  cases h with
  | @fields id c head close hc hf hframe =>
    subst hc
    obtain ⟨hhead, line, rfl, hline⟩ := hframe.lacks ha (clean_keyword _) (ha.compositeTag id)
    have hlines : Spaced (String.join ((a.composite id).fields.map fun x => "\t" ++ a.fieldLine x 1 ++ "\n")) := by
      refine spaced_join (List.forall_mem_map.mpr fun x hx => ?_)
      exact (Spaced.append (Lacks.spaced (by decide)) (ha.spaced_fieldLine (ha.field hx) 1)).append hbreak.spaced
    have hframed := ((spaced_sizeLine (a.composite id).size).append hhead.spaced).append hlines
    exact (hframed.append (hline.append hbreak).spaced).append hbreak.spaced
  | noFields hc hf => exact absurd hf (hc ▸ hfields _ rfl)
  | @members id e head close ms width he hframe hperm =>
    subst he
    obtain ⟨hhead, line, rfl, hline⟩ := hframe.lacks ha (by decide) (ha.enumTag id)
    have hlines : Spaced (String.join (ms.map fun m =>
        "\t" ++ padded width m.name ++ " = " ++ toString m.value.toInt ++ ",\n")) := by
      refine spaced_join (List.forall_mem_map.mpr fun m hm => Lacks.spaced (lacks_memberLine ?_ width))
      exact ha.member (hperm.subset hm)
    exact ((hhead.spaced.append hlines).append (hline.append hbreak).spaced).append hbreak.spaced
  | @typedef id =>
    have htypedef : Lacks '/' "typedef " := by decide
    have hend : Lacks '/' ";\n" := by decide
    exact (htypedef.spaced.append (ha.spaced_declare (ha.typedef id) 0)).append hend.spaced
  | blank => exact hbreak.spaced

theorem Renders.uncommented_noFields (ha : a.CleanNames) {i : CompositeId} {text : String}
    (h : a.Renders (.composite i) text) (hfields : (a.composite i).fields = []) : uncommented text = "\n\n" := by
  cases h with
  | fields hc hf => exact absurd hfields (hc ▸ hf)
  | @noFields id c head close hc hf hframe =>
    subst hc
    obtain ⟨hhead, line, rfl, hline⟩ := hframe.lacks ha (clean_keyword _) (ha.compositeTag i)
    have hstar : Lacks '*' ("// size: 0x" ++ upperHex 1 (a.composite i).size.toNat ++ "\n") :=
      (Lacks.append (by decide) ((clean_upperHex 1 _).lacks (by decide))).append (by decide)
    have hcomment := uncommented_comment hstar (hhead.append hline)
    simpa only [String.append_assoc] using hcomment

/-! ## Closing names -/

theorem Frames.closing {keyword : String} {tag : Tag} {id : TypedefId} {head close : String}
    (h : a.Frames keyword tag [id] head close) : EndsLine head ∧ close =
      "\x7d " ++ (if (a.typedef id).type.isPointer then "*" else "") ++ (a.typedef id).name ++ ";\n" := by
  have hopen : EndsLine " \x7b\n" := ⟨" \x7b", rfl⟩
  cases h with
  | plain h => exact absurd rfl h
  | pointer hp => exact ⟨hopen.append _, by rw [hp]; rfl⟩
  | named hp => exact ⟨hopen.append _, by simp [hp]⟩
  | unnamed hp => exact ⟨hopen.append _, by simp [hp]⟩

theorem Renders.closing {item : Item} {text : String} {id : TypedefId} (h : a.Renders item text)
    (hid : id ∈ a.closes item) (hfields : ∀ i, item = .composite i → (a.composite i).fields ≠ []) :
    ∃ body, text = body ++ "\n" ++
      ("\x7d " ++ (if (a.typedef id).type.isPointer then "*" else "") ++ (a.typedef id).name ++ ";\n") ++ "\n" := by
  cases h with
  | @fields i c head close hc hf hframe =>
    subst hc
    have haliases : (a.composite i).aliases = [id] := mem_closing.mp hid
    rw [haliases] at hframe
    obtain ⟨hhead, rfl⟩ := hframe.closing
    have hlines : ∀ l ∈ (a.composite i).fields.map fun x => "\t" ++ a.fieldLine x 1 ++ "\n", EndsLine l :=
      List.forall_mem_map.mpr fun x _ => endsLine_break _
    obtain ⟨body, hbody⟩ :=
      (hhead.append ("// size: 0x" ++ upperHex 1 (a.composite i).size.toNat ++ "\n")).append_join hlines
    refine ⟨body, ?_⟩
    rw [← hbody]
    rfl
  | noFields hc hf => exact absurd hf (hc ▸ hfields _ rfl)
  | @members i e head close ms width he hframe =>
    subst he
    have haliases : (a.enumeration i).aliases = [id] := mem_closing.mp hid
    rw [haliases] at hframe
    obtain ⟨hhead, rfl⟩ := hframe.closing
    have hend : EndsLine ",\n" := ⟨",", rfl⟩
    obtain ⟨body, hbody⟩ := hhead.append_join (List.forall_mem_map.mpr fun m _ => hend.append _)
    refine ⟨body, ?_⟩
    rw [← hbody]
  | typedef => exact nomatch hid
  | blank => exact nomatch hid

end Arena

end DebugSymbols
