import DebugSymbols.Proofs.Build.Content
import DebugSymbols.Proofs.Build.Spans

/-!
# Excerpts of a stream

What a step takes may be put elsewhere without line records and records about
overlays, and with anything behind it: the step does the same and takes what is
left of its records. A span has such records only where it is skipped.
-/

namespace DebugSymbols

def contentOf (n : Nat) (rest : List Record) : List Record :=
  (rest.take n).filter Record.isContent

/-! ## Up to a closing record -/

section
variable {closes : Record → Bool} {rest : List Record}

theorem exists_take_closing (h : rest.any closes) :
    ∃ r tail, closes r = true ∧ rest = rest.takeWhile (!closes ·) ++ r :: tail ∧
      rest.take ((rest.takeWhile (!closes ·)).length + 1) = rest.takeWhile (!closes ·) ++ [r] := by
  obtain ⟨r, tail, hr, heq⟩ := exists_closing h
  refine ⟨r, tail, hr, heq, ?_⟩
  generalize rest.takeWhile (!closes ·) = inner at heq ⊢
  subst heq
  simp [List.take_append, List.take_of_length_le]

theorem exists_contentOf (hcloses : ∀ r, closes r = true → r.isContent = true) (h : rest.any closes) :
    ∃ r tail, closes r = true ∧ rest = rest.takeWhile (!closes ·) ++ r :: tail ∧
      contentOf ((rest.takeWhile (!closes ·)).length + 1) rest =
        (rest.takeWhile (!closes ·)).filter Record.isContent ++ [r] := by
  obtain ⟨r, tail, hr, heq, htake⟩ := exists_take_closing h
  refine ⟨r, tail, hr, heq, ?_⟩
  unfold contentOf
  rw [htake, List.filter_append, List.filter_cons_of_pos (hcloses r hr), List.filter_nil]

theorem takeWhile_filter_append (rest : List Record) {r : Record} (hr : closes r = true) (more : List Record) :
    ((rest.takeWhile (!closes ·)).filter Record.isContent ++ [r] ++ more).takeWhile (!closes ·) =
      (rest.takeWhile (!closes ·)).filter Record.isContent := by
  have hopen : ∀ q ∈ (rest.takeWhile (!closes ·)).filter Record.isContent, (!closes q) = true := by
    intro q hq
    rw [not_closes_of_mem (List.mem_filter.mp hq).1]
    rfl
  rw [List.append_assoc, List.takeWhile_append_of_pos hopen]
  simp [hr]

end

namespace Action

variable {ε σ α β : Type}

/-- Where it succeeds it does the same with only the content of what it takes. -/
def Excerpts (m : List Record → Action ε σ Nat) : Prop :=
  ∀ rest more s n, (m rest s).result = .ok n →
    m (contentOf n rest ++ more) s = { m rest s with result := .ok (contentOf n rest).length }

theorem forall_of_overRecords {f : β → Record → Action Complaint σ β} {P : Record → Prop}
    (h : ∀ b r s b', (f b r s).result = .ok b' → P r) {rs : List Record} :
    ∀ {index b s b'}, (overRecords f index b rs s).result = .ok b' → ∀ r ∈ rs, P r := by
  induction rs with
  | nil => exact fun _ _ hr => nomatch hr
  | cons r rs ih =>
    intro index b s b' hok q hq
    obtain ⟨c, hc, hrest⟩ := exists_of_bind_ok hok
    obtain rfl | hq := List.mem_cons.mp hq
    · exact h b q s c (ok_of_mapError hc)
    · exact ih hrest q hq

namespace Excerpts

theorem bind {m : Action ε σ α} {f : α → List Record → Action ε σ Nat} (h : ∀ a, Excerpts (f a)) :
    Excerpts fun rest => m >>= fun a => f a rest := by
  intro rest more s n hn
  obtain ⟨a, ha, hf⟩ := exists_of_bind_ok hn
  have heq := h a rest more _ n hf
  dsimp only
  rw [bind_run_of_ok ha, bind_run_of_ok ha, heq]

theorem single (m : Action ε σ Unit) : Excerpts fun _ => do m; return 0 := by
  intro rest more s n hn
  obtain ⟨_, hm, hzero⟩ := exists_of_bind_ok hn
  cases hzero
  dsimp only
  rw [bind_run_of_ok hm]
  rfl

theorem of_fails {m : Action ε σ Nat} (h : ∀ s n, (m s).result ≠ .ok n) : Excerpts fun _ => m :=
  fun _ _ s n hn => absurd hn (h s n)

theorem upTo (closes : Record → Bool) (hcloses : ∀ r, closes r = true → r.isContent = true)
    (body : List Record → Action ε σ Unit) {unclosed : Action ε σ Nat}
    (hbody : ∀ rest more s, rest.any closes → (body rest s).result = .ok () →
      body (contentOf ((rest.takeWhile (!closes ·)).length + 1) rest ++ more) s = body rest s)
    (hfail : ∀ s n, (unclosed s).result ≠ .ok n) :
    Excerpts fun rest =>
      body rest >>= fun _ =>
        if (rest.takeWhile (!closes ·)).length < rest.length then pure ((rest.takeWhile (!closes ·)).length + 1)
        else unclosed := by
  intro rest more s n hn
  obtain ⟨⟨⟩, hok, hend⟩ := exists_of_bind_ok hn
  by_cases hlt : (rest.takeWhile (!closes ·)).length < rest.length
  · rw [if_pos hlt] at hend
    cases hend
    have hany := length_takeWhile_lt_iff.mp hlt
    obtain ⟨r, tail, hr, heq, hcontent⟩ := exists_contentOf hcloses hany
    have hthin := takeWhile_filter_append rest hr more
    rw [← hcontent] at hthin
    have hsame := hbody rest more s hany hok
    have hok' := hok
    rw [← hsame] at hok'
    dsimp only
    rw [bind_run_of_ok hok', bind_run_of_ok hok, hthin, hsame, if_pos hlt, hcontent]
    simp [pure_run]
  · rw [if_neg hlt] at hend
    exact absurd hend (hfail _ n)

end Excerpts

end Action

namespace Overlay

open DebugSymbols.Action (Excerpts exists_of_bind_ok forall_of_overRecords)

theorem isContent_of_endsMembers {r : Record} (h : r.endsMembers = true) : r.isContent = true := by
  unfold Record.endsMembers at h
  unfold Record.isContent
  split at h
  · rename_i hbody
    rw [hbody]
  · exact nomatch h

theorem isContent_of_endsFunction {r : Record} (h : r.endsFunction = true) : r.isContent = true := by
  unfold Record.endsFunction at h
  unfold Record.isContent
  split at h
  · rename_i hbody
    rw [hbody]
  · exact nomatch h

/-! ## Members -/

theorem excerpts_members (head : Record) (enclosing : Enclosing) (tag : Tag)
    {member : Record → Action Complaint Overlay Unit}
    (hmember : ∀ r o, (member r o).result = .ok () → r.isContent = true) :
    Excerpts (members head enclosing tag member) := by
  refine .upTo Record.endsMembers (fun _ => isContent_of_endsMembers)
    (fun rest => Action.overRecords (fun _ => member) 1 () (rest.takeWhile (!·.endsMembers))) ?_ ?_
  · intro rest more o hany hok
    have hinner : ∀ r ∈ rest.takeWhile (!·.endsMembers), r.isContent = true :=
      forall_of_overRecords (fun _ r o _ h => hmember r o h) hok
    obtain ⟨r, tail, hr, _, hcontent⟩ := exists_contentOf (fun _ => isContent_of_endsMembers) hany
    rw [hcontent, takeWhile_filter_append rest hr, List.filter_eq_self.mpr hinner]
  · exact fun _ _ h => nomatch h

theorem isContent_of_compositeMember {kind : CompositeKind} {tag : Tag} {id : CompositeId} (r : Record) (o : Overlay)
    (h : (compositeMember kind tag id r o).result = .ok ()) : r.isContent = true := by
  unfold compositeMember at h
  unfold Record.isContent
  cases hbody : r.body with
  | line _ | overlay _ _ | setOverlay =>
    rw [hbody] at h
    exact nomatch h
  | _ => rfl

theorem isContent_of_enumMember {tag : Tag} {id : EnumId} (r : Record) (o : Overlay)
    (h : (enumMember tag id r o).result = .ok ()) : r.isContent = true := by
  unfold enumMember at h
  unfold Record.isContent
  cases hbody : r.body with
  | line _ | overlay _ _ | setOverlay =>
    rw [hbody] at h
    exact nomatch h
  | _ => rfl

theorem excerpts_compositeRun (kind : CompositeKind) (head : Record) (d : SymbolDef) :
    Excerpts (compositeRun kind head d) :=
  .bind fun _ => .bind fun _ => excerpts_members head _ _ isContent_of_compositeMember

theorem excerpts_enumRun (head : Record) (d : SymbolDef) : Excerpts (enumRun head d) :=
  .bind fun _ => .bind fun _ => excerpts_members head _ _ isContent_of_enumMember

/-! ## Function spans -/

theorem isContent_of_bodyRecord {f : Nat} {start : FunctionStart} {opened opened' : List Nat} {r : Record}
    {o : Overlay} (h : (bodyRecord f start opened r o).result = .ok opened') : r.isContent = true := by
  unfold bodyRecord at h
  unfold Record.isContent
  cases hbody : r.body with
  | line _ | overlay _ _ | setOverlay =>
    rw [hbody] at h
    exact nomatch h
  | _ => rfl

theorem findSome?_functionEnd? {inner : List Record} (hinner : ∀ r ∈ inner, r.endsFunction = false) {r : Record}
    (hr : r.endsFunction = true) (more : List Record) :
    (inner ++ r :: more).findSome? Record.functionEnd? = r.functionEnd? := by
  have hnone : inner.findSome? Record.functionEnd? = none := by
    refine List.findSome?_eq_none_iff.mpr fun q hq => ?_
    have hq := hinner q hq
    rw [← isSome_functionEnd?] at hq
    simpa using hq
  have hsome : r.functionEnd?.isSome := by rwa [isSome_functionEnd?]
  obtain ⟨line, hline⟩ := Option.isSome_iff_exists.mp hsome
  rw [List.findSome?_append, hnone, List.findSome?_cons, hline]
  rfl

theorem excerpts_functionSpan (head : Record) (start : FunctionStart) : Excerpts (functionSpan head start) := by
  refine .bind fun f => .bind fun o => ?_
  simp only [isSome_findSome?_functionEnd?]
  by_cases hbody : (o.func f).hasBody = true
  · simp only [if_pos hbody]
    refine .upTo Record.endsFunction (fun _ => isContent_of_endsFunction)
      (fun _ => Action.report (.repeatedBody (o.func f).name head.value)) ?_ ?_
    · exact fun _ _ _ _ _ => rfl
    · exact fun _ _ h => nomatch h
  · simp only [if_neg hbody]
    refine .upTo Record.endsFunction (fun _ => isContent_of_endsFunction)
      (fun rest =>
        recordBody f start head.value (rest.takeWhile (!·.endsFunction)) (rest.findSome? Record.functionEnd?)) ?_ ?_
    · intro rest more o hany hok
      obtain ⟨_, _, hrest⟩ := exists_of_bind_ok hok
      obtain ⟨_, hrecords, _⟩ := exists_of_bind_ok hrest
      have hinner : ∀ r ∈ rest.takeWhile (!·.endsFunction), r.isContent = true :=
        forall_of_overRecords (fun _ _ _ _ h => isContent_of_bodyRecord h) hrecords
      obtain ⟨r, tail, hr, heq, hcontent⟩ := exists_contentOf (fun _ => isContent_of_endsFunction) hany
      have hopen : ∀ q ∈ rest.takeWhile (!·.endsFunction), q.endsFunction = false := fun _ => not_closes_of_mem
      have hline : rest.findSome? Record.functionEnd? = r.functionEnd? := by
        rw [heq, findSome?_functionEnd? hopen hr]
      rw [hcontent, takeWhile_filter_append rest hr, List.filter_eq_self.mpr hinner, List.append_assoc,
        List.singleton_append, findSome?_functionEnd? hopen hr, hline]
    · exact fun _ _ h => nomatch h

/-! ## Top level -/

theorem excerpts_definition (head : Record) (d : SymbolDef) : Excerpts (definition head d) := by
  unfold definition
  dsimp only
  split
  · exact .single _
  · exact .single _
  · exact excerpts_compositeRun .struct head d
  · exact excerpts_compositeRun .union head d
  · exact excerpts_enumRun head d
  · exact .single _
  · exact .single _
  all_goals exact .of_fails fun _ _ h => by cases h

theorem excerpts_contentStep (head : Record) : Excerpts (contentStep head) := by
  unfold contentStep
  split
  · exact .single _
  · exact excerpts_functionSpan head _
  · exact excerpts_definition head _
  · exact .of_fails fun _ _ h => by cases h

end Overlay

/-! ## What runs of members take -/

def Action.TakesContent {ε σ : Type} (m : List Record → Action ε σ Nat) : Prop :=
  ∀ rest s n, (m rest s).result = .ok n → ∀ r ∈ rest.take n, r.isContent = true

namespace Action.TakesContent

variable {ε σ α : Type}

theorem bind {m : Action ε σ α} {f : α → List Record → Action ε σ Nat} (h : ∀ a, TakesContent (f a)) :
    TakesContent fun rest => m >>= fun a => f a rest := by
  intro rest s n hn
  obtain ⟨a, _, hf⟩ := exists_of_bind_ok hn
  exact h a rest _ n hf

theorem single (m : Action ε σ Unit) : TakesContent fun _ => do m; return 0 := by
  intro rest s n hn
  obtain ⟨_, _, hzero⟩ := exists_of_bind_ok hn
  cases hzero
  simp

theorem of_fails {m : Action ε σ Nat} (h : ∀ s n, (m s).result ≠ .ok n) : TakesContent fun _ => m :=
  fun _ s n hn => absurd hn (h s n)

end Action.TakesContent

namespace Overlay

open DebugSymbols.Action (TakesContent exists_of_bind_ok forall_of_overRecords)

theorem takesContent_members (head : Record) (enclosing : Enclosing) (tag : Tag)
    {member : Record → Action Complaint Overlay Unit}
    (hmember : ∀ r o, (member r o).result = .ok () → r.isContent = true) :
    TakesContent (members head enclosing tag member) := by
  intro rest o n hn
  obtain ⟨_, hok, hend⟩ := exists_of_bind_ok hn
  have hinner : ∀ r ∈ rest.takeWhile (!·.endsMembers), r.isContent = true :=
    forall_of_overRecords (fun _ r o _ h => hmember r o h) hok
  by_cases hlt : (rest.takeWhile (!·.endsMembers)).length < rest.length
  · rw [if_pos hlt] at hend
    cases hend
    obtain ⟨last, _, hlast, _, htake⟩ := exists_take_closing (length_takeWhile_lt_iff.mp hlt)
    intro r hr
    rw [htake] at hr
    obtain hr | hr := List.mem_append.mp hr
    · exact hinner r hr
    · rw [List.mem_singleton.mp hr]
      exact isContent_of_endsMembers hlast
  · rw [if_neg hlt] at hend
    exact nomatch hend

theorem takesContent_definition (head : Record) (d : SymbolDef) : TakesContent (definition head d) := by
  have hcomposite : ∀ kind, TakesContent (compositeRun kind head d) := fun kind =>
    .bind fun _ => .bind fun _ => takesContent_members head _ _ isContent_of_compositeMember
  have henum : TakesContent (enumRun head d) :=
    .bind fun _ => .bind fun _ => takesContent_members head _ _ isContent_of_enumMember
  unfold definition
  dsimp only
  split
  · exact .single _
  · exact .single _
  · exact hcomposite .struct
  · exact hcomposite .union
  · exact henum
  · exact .single _
  · exact .single _
  all_goals exact .of_fails fun _ _ h => by cases h

end Overlay

end DebugSymbols
