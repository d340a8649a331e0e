import DebugSymbols.Proofs.Build.Ordered
import DebugSymbols.Proofs.Build.Visits

/-!
# Forward references

`forwardReferences`: where one run defines a struct or union, every reference to
its tag comes to the same entry, before the run, in it and after it, if no
reference asks for another size.
-/

namespace DebugSymbols

theorem CompositeKind.baseCode_inj {k k' : CompositeKind} (h : k.baseCode = k'.baseCode) : k = k' := by
  cases k <;> cases k' <;> first | rfl | exact nomatch h

namespace Overlay

variable {kind : CompositeKind} {tag : Tag} {n : UInt32} {w : Filling} {ls : List Lookup} {o o' : Overlay}

/-- There is no entry of the tag, or one that waits for a run of size `n`. -/
def Awaits (kind : CompositeKind) (tag : Tag) (n : UInt32) (o : Overlay) : Prop :=
  (o.composites kind).groups.get tag = [] ∨
    ∃ id, (o.composites kind).groups.get tag = [id] ∧ id.index < o.arena.composites.length ∧
      ((o.arena.composite id).size = 0 ∨ (o.arena.composite id).size = n) ∧ (o.arena.composite id).fields = []

/-- The one entry of the tag is `id`, with the size `n` and the fields `xs`. -/
structure Defines (kind : CompositeKind) (tag : Tag) (n : UInt32) (id : CompositeId) (xs : List Field) (o : Overlay) :
    Prop where
  group : (o.composites kind).groups.get tag = [id]
  inArena : id.index < o.arena.composites.length
  size : (o.arena.composite id).size = n
  fields : (o.arena.composite id).fields = xs

def FillsOther (kind : CompositeKind) (tag : Tag) (w : Filling) (o : Overlay) : Prop :=
  ∀ i, w.composite = some i → i.index < o.arena.composites.length ∧ i ∉ (o.composites kind).groups.get tag

/-! ## Lookups -/

theorem Extends.group_eq (h : Extends w ls o o') {id : CompositeId} (hg : (o.composites kind).groups.get tag = [id]) :
    (o'.composites kind).groups.get tag = [id] := by
  rw [h.kept kind tag (by rw [hg]; exact List.cons_ne_nil _ _), hg]

theorem Extends.awaits (h : Extends w ls o o') (hw : FillsOther kind tag w o)
    (hls : ∀ size, Mentions ls kind tag size → size = 0 ∨ size = n) (ho : Awaits kind tag n o) :
    Awaits kind tag n o' := by
  obtain hnone | ⟨id, hg, hlt, hsize, hfields⟩ := ho
  · obtain hnone' | ⟨id, size, hg, hle, hhead, hmention⟩ := h.added kind tag hnone
    · exact .inl hnone'
    · -- a new entry has the size that is asked for
      obtain ⟨hlt, _⟩ := List.getElem?_eq_some_iff.mp hhead
      rw [List.length_map] at hlt
      rw [getElem?_heads hlt] at hhead
      have hother : w.composite ≠ some id := fun hi => Nat.not_lt_of_le hle (hw id hi).1
      have hsize : (o'.arena.composite id).size = size := congrArg (·.2.2) (Option.some.inj hhead)
      refine .inr ⟨id, hg, hlt, hsize ▸ hls size hmention, ?_⟩
      rw [h.fields id hother, Arena.composite_of_le hle]
      rfl
  · have hother : w.composite ≠ some id := fun hi => (hw id hi).2 (by rw [hg]; exact List.mem_singleton_self id)
    have hsame : (o'.arena.composite id).size = (o.arena.composite id).size := congrArg (·.2.2) (h.head_eq hlt)
    refine .inr ⟨id, h.group_eq hg, Nat.lt_of_lt_of_le hlt h.length_le, ?_, ?_⟩
    · rw [hsame]
      exact hsize
    · rw [h.fields id hother, hfields]

theorem Extends.defines (h : Extends w ls o o') (hw : FillsOther kind tag w o) {id : CompositeId} {xs : List Field}
    (ho : Defines kind tag n id xs o) : Defines kind tag n id xs o' where
  group := h.group_eq ho.group
  inArena := Nat.lt_of_lt_of_le ho.inArena h.length_le
  size := by
    rw [← ho.size]
    exact congrArg (·.2.2) (h.head_eq ho.inArena)
  fields := by
    have hother : w.composite ≠ some id := fun hi =>
      (hw id hi).2 (by rw [ho.group]; exact List.mem_singleton_self id)
    rw [h.fields id hother, ho.fields]

theorem exists_of_refersTo {l : Lookup} (h : l.RefersTo kind tag) {t : CType} (ht : l.outcome.result = .ok t) :
    ∃ id ∈ (l.after.composites kind).groups.get tag,
      t = (CType.composite kind id).derive l.d.word.modifiers l.d.dims := by
  obtain ⟨hbase, rfl⟩ := h
  obtain ⟨base, hrefers, rfl⟩ := (leads_refer (P := fun _ => True) l.d l.overlay trivial).2 t ht
  cases hrefers with
  | scalar hb =>
    rw [hbase] at hb
    cases kind <;> exact nomatch hb
  | null hb =>
    rw [hbase] at hb
    cases kind <;> exact nomatch hb
  | enum hb =>
    rw [hbase] at hb
    cases kind <;> exact nomatch hb
  | @composite k id size hb hs hid =>
    obtain rfl := CompositeKind.baseCode_inj (hb.symm.trans hbase)
    exact ⟨id, hid, rfl⟩

/-! ## Steps that do not open the tag -/

structure SameEntry (kind : CompositeKind) (tag : Tag) (o o' : Overlay) : Prop where
  group : (o'.composites kind).groups.get tag = (o.composites kind).groups.get tag
  length_le : o.arena.composites.length ≤ o'.arena.composites.length
  entry : ∀ id ∈ (o.composites kind).groups.get tag, o'.arena.composite id = o.arena.composite id

theorem SameEntry.awaits (h : SameEntry kind tag o o') (ho : Awaits kind tag n o) : Awaits kind tag n o' := by
  obtain hnone | ⟨id, hg, hlt, hempty⟩ := ho
  · exact .inl (h.group.trans hnone)
  · refine .inr ⟨id, h.group.trans hg, Nat.lt_of_lt_of_le hlt h.length_le, ?_⟩
    rw [h.entry id (by rw [hg]; exact List.mem_singleton_self id)]
    exact hempty

theorem SameEntry.defines (h : SameEntry kind tag o o') {id : CompositeId} {xs : List Field}
    (ho : Defines kind tag n id xs o) : Defines kind tag n id xs o' := by
  have hentry := h.entry id (by rw [ho.group]; exact List.mem_singleton_self id)
  exact ⟨h.group.trans ho.group, Nat.lt_of_lt_of_le ho.inArena h.length_le, hentry ▸ ho.size, hentry ▸ ho.fields⟩

section
variable {head : Record} {rest : List Record}

theorem contentStep_other (rest : List Record) (ho : o.Indexed) (hother : head.openedSize? kind tag = none) :
    ∃ w opened, SameEntry kind tag o opened ∧ FillsOther kind tag w opened ∧
      Trace w opened (lookups head rest o) (contentStep head rest o).state := by
  cases (contentStep_changes head rest ho).1 with
  | looks h => exact ⟨{}, o, ⟨rfl, Nat.le_refl _, fun _ _ => rfl⟩, (fun _ hi => nomatch hi), h⟩
  | @composite k form d id opened hbody hclass hopens hfills =>
    have hne : ¬ (kind = k ∧ tag = .ofName d.name) := by
      rintro ⟨rfl, rfl⟩
      rw [Record.openedSize?_eq hbody hclass] at hother
      exact nomatch hother
    have hnot := hopens.notMem ho hne
    refine ⟨_, opened, ⟨hopens.group_eq hne, hopens.length_le, fun j hj => hopens.other ?_⟩, ?_, hfills.trace⟩
    · rintro rfl
      exact hnot hj
    · rintro i ⟨⟩
      rw [hopens.group_eq hne]
      exact ⟨(hopens.opened ho).1, hnot⟩
  | @enum form d id opened hbody hclass hopens hfills =>
    have hnone : lookups head rest o = [] := by rw [(contentStep_enum rest hbody hclass).2]
    rw [hnone]
    have hgroup : (opened.composites kind).groups.get tag = (o.composites kind).groups.get tag := by
      cases hopens with
      | found => rfl
      | new => rw [composites_addEnum]
    refine ⟨{ enum := some id }, opened, ⟨hgroup, ?_, fun j _ => ?_⟩, (fun _ hi => nomatch hi), hfills.trace⟩
    · rw [hopens.composites_eq]
    · unfold Arena.composite
      rw [hopens.composites_eq]

/-- The references of the step ask for `n` or for any size. -/
def AsksFor (kind : CompositeKind) (tag : Tag) (n : UInt32) (ls : List Lookup) : Prop :=
  ∀ l ∈ ls, l.RefersTo kind tag → l.d.referencedSize = .ok 0 ∨ l.d.referencedSize = .ok n

theorem AsksFor.size_eq (h : AsksFor kind tag n ls) {size : UInt32} (hm : Mentions ls kind tag size) :
    size = 0 ∨ size = n := by
  obtain ⟨l, hl, hrefers, hsize⟩ := hm
  have hasks := h l hl hrefers
  rw [hsize] at hasks
  exact hasks.imp Except.ok.inj Except.ok.inj

theorem awaits_contentStep (ho : o.Indexed) (hother : head.openedSize? kind tag = none)
    (hls : AsksFor kind tag n (lookups head rest o)) (ha : Awaits kind tag n o) :
    Awaits kind tag n (contentStep head rest o).state ∧
      ∀ l ∈ lookups head rest o, Awaits kind tag n l.after ∧
        ∀ id, (l.after.composites kind).groups.get tag = [id] →
          ((contentStep head rest o).state.composites kind).groups.get tag = [id] := by
  obtain ⟨w, opened, hsame, hw, htrace⟩ := contentStep_other rest ho hother
  have hopened := hsame.awaits ha
  refine ⟨htrace.extends.awaits hw (fun _ => hls.size_eq) hopened, fun l hl => ?_⟩
  obtain ⟨hbefore, hafter⟩ := htrace.around hl
  exact ⟨hbefore.awaits hw (fun _ => hls.size_eq) hopened, fun id => hafter.group_eq⟩

theorem defines_contentStep (ho : o.Indexed) (hother : head.openedSize? kind tag = none) {id : CompositeId}
    {xs : List Field} (hd : Defines kind tag n id xs o) :
    Defines kind tag n id xs (contentStep head rest o).state ∧
      ∀ l ∈ lookups head rest o, (l.after.composites kind).groups.get tag = [id] := by
  obtain ⟨w, opened, hsame, hw, htrace⟩ := contentStep_other rest ho hother
  have hopened := hsame.defines hd
  exact ⟨htrace.extends.defines hw hopened, fun l hl => (htrace.around hl).1.group_eq hopened.group⟩

theorem group_contentStep (ho : o.Indexed) (hother : head.openedSize? kind tag = none) {id : CompositeId}
    (hg : (o.composites kind).groups.get tag = [id]) :
    ((contentStep head rest o).state.composites kind).groups.get tag = [id] := by
  obtain ⟨w, opened, hsame, _, htrace⟩ := contentStep_other rest ho hother
  exact htrace.extends.group_eq (hsame.group.trans hg)

/-! ## The run -/

theorem Opens.group_of_awaits {id : CompositeId} (h : Opens kind tag n o id o') (ha : Awaits kind tag n o) :
    (o'.composites kind).groups.get tag = [id] ∧
      ∀ j, (o.composites kind).groups.get tag = [j] → j = id := by
  cases h with
  | found hid hf hs =>
    rw [composites_modifyArena]
    obtain hnone | ⟨j, hg, _⟩ := ha
    · rw [hnone] at hid
      exact nomatch hid
    · rw [hg] at hid ⊢
      rw [List.mem_singleton.mp hid]
      exact ⟨rfl, fun i hi => (List.cons.inj hi).1.symm⟩
  | new hnot =>
    obtain hnone | ⟨j, hg, _, hsize, hfields⟩ := ha
    · rw [composites_addComposite, if_pos rfl]
      refine ⟨?_, fun i hi => ?_⟩
      · show ((o.composites kind).groups.add tag _).get tag = _
        rw [Groups.get_add, if_pos rfl, hnone]
        rfl
      · rw [hnone] at hi
        exact nomatch hi
    · obtain ⟨hne, hne'⟩ := hnot j (by rw [hg]; exact List.mem_singleton_self j) hfields
      exact absurd hsize (not_or.mpr ⟨hne', hne⟩)

theorem run_contentStep (ho : o.Indexed) (hopen : head.openedSize? kind tag = some n) {m : Nat}
    (hok : (contentStep head rest o).result = .ok m) (ha : Awaits kind tag n o) :
    ∃ id xs, Defines kind tag n id xs (contentStep head rest o).state ∧
      (lookups head rest o).map Lookup.record = rest.takeWhile (!·.endsMembers) ∧
      List.Forall₂ (MakesField kind) (lookups head rest o) xs ∧
      (∀ j, (o.composites kind).groups.get tag = [j] → j = id) ∧
      ∀ l ∈ lookups head rest o, (l.after.composites kind).groups.get tag = [id] := by
  obtain ⟨id, opened, hopens, hfills⟩ := contentStep_fills hopen ho hok
  obtain ⟨hlt, hhead, _⟩ := hopens.opened ho
  obtain ⟨hgroup, honly⟩ := hopens.group_of_awaits ha
  obtain ⟨made, _, hmakes, hdone⟩ := hfills.fields
  obtain ⟨rfl, hrecords⟩ := hdone m hok
  have he := hfills.trace.extends
  refine ⟨id, _, ⟨he.group_eq hgroup, Nat.lt_of_lt_of_le hlt he.length_le, ?_, rfl⟩, hrecords, hmakes, honly,
    fun l hl => (hfills.trace.around hl).1.group_eq hgroup⟩
  exact congrArg (·.2.2) ((he.head_eq hlt).trans hhead)

end

end Overlay

namespace Builder

open Overlay (AsksFor Awaits Defines MakesField)
open Relation (ReflTransGen)

variable {kind : CompositeKind} {tag : Tag} {n : UInt32}

theorem exists_split_of_filter {α : Type} {p : α → Bool} {l : List α} {a : α} (h : l.filter p = [a]) :
    ∃ front back, l = front ++ a :: back ∧ p a = true ∧ (∀ x ∈ front, p x = false) ∧ ∀ x ∈ back, p x = false := by
  obtain ⟨front, back, rfl, hfront, ha, hback⟩ := List.filter_eq_cons_iff.mp h
  refine ⟨front, back, rfl, ha, fun x hx => ?_, fun x hx => ?_⟩
  · simpa using hfront x hx
  · simpa using List.filter_eq_nil_iff.mp hback x hx

theorem awaits_new (k : Nat) : Awaits kind tag n (({} : Builder).overlayAt k) := by
  left
  cases k <;> cases kind <;> rfl

/-! ## Away from the run -/

section
variable {b c : Builder} {k : Nat} {ss : List Step}

theorem Path.awaits (h : Path b ss c) (hb : ReflTransGen Edit {} b)
    (hother : ∀ s ∈ ss, s.before.current = k → s.head.openedSize? kind tag = none)
    (hasks : ∀ s ∈ ss, s.before.current = k → AsksFor kind tag n s.lookups)
    (ha : Awaits kind tag n (b.overlayAt k)) : Awaits kind tag n (c.overlayAt k) := by
  refine h.keeps (fun hsame ha => ?_) hb (fun s hs hk hreached ha => ?_) ha
  · unfold Awaits
    rw [composites_eq_of_unplaced hsame, arena_eq_of_unplaced hsame]
    exact ha
  · exact (Overlay.awaits_contentStep (indexed_of_edits hreached _) (hother s hs hk) (hasks s hs hk) ha).1

theorem Path.defines (h : Path b ss c) (hb : ReflTransGen Edit {} b)
    (hother : ∀ s ∈ ss, s.before.current = k → s.head.openedSize? kind tag = none) {id : CompositeId} {xs : List Field}
    (hd : Defines kind tag n id xs (b.overlayAt k)) : Defines kind tag n id xs (c.overlayAt k) := by
  refine h.keeps (fun hsame hd => ?_) hb (fun s hs hk hreached hd => ?_) hd
  · have harena := arena_eq_of_unplaced hsame
    exact ⟨composites_eq_of_unplaced hsame kind ▸ hd.group, harena ▸ hd.inArena, harena ▸ hd.size, harena ▸ hd.fields⟩
  · exact (Overlay.defines_contentStep (indexed_of_edits hreached _) (hother s hs hk) hd).1

theorem Path.group_eq (h : Path b ss c) (hb : ReflTransGen Edit {} b)
    (hother : ∀ s ∈ ss, s.before.current = k → s.head.openedSize? kind tag = none) {id : CompositeId}
    (hg : ((b.overlayAt k).composites kind).groups.get tag = [id]) :
    ((c.overlayAt k).composites kind).groups.get tag = [id] := by
  refine h.keeps (I := fun o => (o.composites kind).groups.get tag = [id]) (fun hsame hg => ?_) hb
    (fun s hs hk hreached hg => ?_) hg
  · rw [composites_eq_of_unplaced hsame kind]
    exact hg
  · exact Overlay.group_contentStep (indexed_of_edits hreached _) (hother s hs hk) hg

theorem Path.group_of_lookup (h : Path b ss c) (hb : ReflTransGen Edit {} b)
    (hother : ∀ s ∈ ss, s.before.current = k → s.head.openedSize? kind tag = none)
    (hasks : ∀ s ∈ ss, s.before.current = k → AsksFor kind tag n s.lookups)
    (ha : Awaits kind tag n (b.overlayAt k)) {s : Step} (hs : s ∈ ss) (hk : s.before.current = k) {l : Lookup}
    (hl : l ∈ s.lookups) {j : CompositeId} (hj : j ∈ (l.after.composites kind).groups.get tag) :
    ((c.overlayAt k).composites kind).groups.get tag = [j] := by
  obtain ⟨front, back, rfl⟩ := List.append_of_mem hs
  obtain ⟨hfront, hback⟩ := h.split
  have hreached : ReflTransGen Edit {} s.before := hb.trans ((h.edits (inRange_of_edits hb inRange_new)).2 s hs).1
  have hbefore := hfront.awaits hb (fun t ht => hother t (List.mem_append_left _ ht))
    (fun t ht => hasks t (List.mem_append_left _ ht)) ha
  rw [← hk, ← currentOverlay_eq] at hbefore
  obtain ⟨hlookup, hafter⟩ := (Overlay.awaits_contentStep (indexed_of_edits hreached _) (hother s hs hk)
    (hasks s hs hk) hbefore).2 l hl
  have hgroup : (l.after.composites kind).groups.get tag = [j] := by
    obtain hnone | ⟨id, hid, _⟩ := hlookup
    · rw [hnone] at hj
      exact nomatch hj
    · rw [hid] at hj ⊢
      rw [List.mem_singleton.mp hj]
  have hstep : ((s.after.overlayAt k).composites kind).groups.get tag = [j] := by
    rw [← hk, (Step.visit hreached (Step.isContent_of_lookup hl)).1]
    exact hafter j hgroup
  exact hback.group_eq (Step.reached hreached)
    (fun t ht => hother t (List.mem_append_right _ (List.mem_cons_of_mem s ht))) hstep

theorem Path.group_of_later_lookup (h : Path b ss c) (hb : ReflTransGen Edit {} b)
    (hother : ∀ s ∈ ss, s.before.current = k → s.head.openedSize? kind tag = none) {id : CompositeId} {xs : List Field}
    (hd : Defines kind tag n id xs (b.overlayAt k)) {s : Step} (hs : s ∈ ss) (hk : s.before.current = k) {l : Lookup}
    (hl : l ∈ s.lookups) : (l.after.composites kind).groups.get tag = [id] := by
  obtain ⟨front, back, rfl⟩ := List.append_of_mem hs
  have hreached : ReflTransGen Edit {} s.before := hb.trans ((h.edits (inRange_of_edits hb inRange_new)).2 s hs).1
  have hbefore := h.split.1.defines hb (fun t ht => hother t (List.mem_append_left _ ht)) hd
  rw [← hk] at hbefore
  exact (Overlay.defines_contentStep (indexed_of_edits hreached _) (hother s hs hk) hbefore).2 l hl

/-- Up to the run the entry waits, the run fills it in, and from there it stays as it is. -/
theorem Path.filled {front back : List Step} {run : Step} (h : Path {} (front ++ run :: back) c)
    (hok : ∀ s ∈ front ++ run :: back, ∃ m, s.outcome.result = .ok m)
    (hat : run.before.current = k) (hopen : run.head.openedSize? kind tag = some n)
    (hfront : ∀ s ∈ front, s.before.current = k → s.head.openedSize? kind tag = none)
    (hback : ∀ s ∈ back, s.before.current = k → s.head.openedSize? kind tag = none)
    (hasks : ∀ s ∈ front ++ run :: back, s.before.current = k → AsksFor kind tag n s.lookups) :
    ∃ id xs, Defines kind tag n id xs (c.overlayAt k) ∧ run.lookups.map Lookup.record = run.inner ∧
      List.Forall₂ (MakesField kind) run.lookups xs ∧
      ∀ s ∈ front ++ run :: back, s.before.current = k →
        ∀ l ∈ s.lookups, ∀ j ∈ (l.after.composites kind).groups.get tag, j = id := by
  obtain ⟨hbefore, hafter⟩ := h.split
  have hreached : ReflTransGen Edit {} run.before := (hbefore.edits inRange_new).1
  have hasksFront : ∀ s ∈ front, s.before.current = k → AsksFor kind tag n s.lookups := fun s hs =>
    hasks s (List.mem_append_left _ hs)
  have hawaits : Awaits kind tag n run.before.currentOverlay := by
    rw [currentOverlay_eq, hat]
    exact hbefore.awaits .refl hfront hasksFront (awaits_new k)
  have hcontent : run.head.isContent = true := by
    obtain ⟨form, d, hbody, _⟩ := Record.exists_of_openedSize? hopen
    unfold Record.isContent
    rw [hbody]
  obtain ⟨hstate, hresult⟩ := Step.visit hreached hcontent
  obtain ⟨m, hm⟩ := hok run (List.mem_append_right _ List.mem_cons_self)
  obtain ⟨id, xs, hdefines, hrecords, hmakes, honly, hinside⟩ :=
    Overlay.run_contentStep (indexed_of_edits hreached _) hopen (hresult.symm.trans hm) hawaits
  rw [← currentOverlay_eq, ← hstate, hat] at hdefines
  refine ⟨id, xs, hafter.defines (Step.reached hreached) hback hdefines, hrecords, hmakes, ?_⟩
  intro s hs hhere l hl j hj
  obtain hs | hs := List.mem_append.mp hs
  · refine honly j ?_
    rw [hat]
    exact hbefore.group_of_lookup .refl hfront hasksFront (awaits_new k) hs hhere hl hj
  · obtain rfl | hs := List.mem_cons.mp hs
    · rw [hinside l hl] at hj
      exact List.mem_singleton.mp hj
    · rw [hafter.group_of_later_lookup (Step.reached hreached) hback hdefines hs hhere hl] at hj
      exact List.mem_singleton.mp hj

end

/-- The one run of a tag defines the only entry of that tag, and each reference,
before the run, in it or behind it, comes to that entry, where all of them ask
for the size of the run or for none. -/
theorem forwardReferences {records : List Record} {overlays : List Overlay} (h : (build records).result = .ok overlays)
    {o : Overlay} (ho : o ∈ overlays) {run : Step}
    (hrun : (visits o.id records).filter (fun s => (s.head.openedSize? kind tag).isSome) = [run])
    (hsize : run.head.openedSize? kind tag = some n)
    (hrefs : ∀ s ∈ visits o.id records, ∀ l ∈ s.lookups, l.RefersTo kind tag →
      l.d.referencedSize = .ok 0 ∨ l.d.referencedSize = .ok n) :
    ∃ id, id.index < o.arena.composites.length ∧
      (∀ j, j.index < o.arena.composites.length →
        ((o.arena.composite j).kind = kind ∧ (o.arena.composite j).tag = tag ↔ j = id)) ∧
      (o.arena.composite id).size = n ∧
      run.lookups.map Lookup.record = run.inner ∧
      List.Forall₂ (MakesField kind) run.lookups (o.arena.composite id).fields ∧
      ∀ s ∈ visits o.id records, ∀ l ∈ s.lookups, l.RefersTo kind tag →
        l.outcome.result = .ok ((CType.composite kind id).derive l.d.word.modifiers l.d.dims) := by
  obtain ⟨hok, rfl⟩ := walk_of_build h
  obtain ⟨k, hk⟩ := List.mem_iff_getElem?.mp ho
  have hlast : (walk records {}).state.overlayAt k = o := by
    unfold overlayAt
    rw [List.getD_eq_getElem?_getD, hk]
    rfl
  have hpath : Path {} (steps {} records) (walk records {}).state := path_steps 0 records {}
  obtain ⟨hedits, hmiddle⟩ := hpath.edits inRange_new
  have hresults := steps_ok 0 records {} hok
  rw [visits_eq hk] at hrun hrefs ⊢
  rw [List.filter_filter] at hrun
  have hasks : ∀ s ∈ steps {} records, s.before.current = k → AsksFor kind tag n s.lookups := fun s hs hhere =>
    hrefs s (List.mem_filter.mpr ⟨hs, decide_eq_true hhere⟩)
  obtain ⟨front, back, hsteps, hvisit, hfront, hback⟩ := exists_split_of_filter hrun
  have hother : ∀ s : Step, ((s.head.openedSize? kind tag).isSome && decide (s.before.current = k)) = false →
      s.before.current = k → s.head.openedSize? kind tag = none := by
    intro s hs hhere
    simpa [hhere] using hs
  have hat : run.before.current = k := by simpa [hsize] using hvisit
  rw [hsteps] at hpath hmiddle hresults hasks ⊢
  obtain ⟨id, xs, hdefines, hrecords, hmakes, hfound⟩ := hpath.filled hresults hat hsize
    (fun s hs => hother s (hfront s hs)) (fun s hs => hother s (hback s hs)) hasks
  rw [hlast] at hdefines
  have hsound : o.Sound := forall_overlays_of_edits Overlay.sound_new (fun _ _ h => h.sound) hedits o ho
  refine ⟨id, hdefines.inArena, fun j hj => ?_, hdefines.size, hrecords, hdefines.fields ▸ hmakes, ?_⟩
  · have hgroup : j ∈ (o.composites kind).groups.get tag ↔ _ := hsound.ordered.mem_group_iff hsound.indexed
    rw [hdefines.group, List.mem_singleton] at hgroup
    exact ⟨fun hkindTag => hgroup.mpr ⟨hj, hkindTag⟩, fun heq => (hgroup.mp heq).2⟩
  · intro s hs l hl hrefers
    obtain ⟨hs, hhere⟩ := List.mem_filter.mp hs
    obtain ⟨m, hm⟩ := hresults s hs
    obtain ⟨t, ht⟩ := Step.lookup_ok (hmiddle s hs).1 hm hl
    obtain ⟨j, hj, rfl⟩ := Overlay.exists_of_refersTo hrefers ht
    rwa [hfound s hs (of_decide_eq_true hhere) l hl j hj] at ht

def listEntry (value : UInt32) (symbolClass : SymbolClass) (bits : UInt16) (size : UInt32) (name tag : String) :
    Record :=
  { offset := 0, value, body := .definition .second { symbolClass, word := ⟨bits⟩, size, tag, name } }

def listPointer : Record :=
  listEntry 16 .external 24 0 "head" "list"

def listRun : Step where
  before := (walk [listPointer] {}).state
  head := listEntry 0 .structTag 8 8 "list" ""
  rest := [listEntry 0 .structMember 24 8 "next" "list", listEntry 4 .structMember 4 4 "value" "",
    listEntry 8 .endOfStruct 0 8 "eos" "list", listEntry 20 .external 8 8 "first" "list"]

def forwardList : List Record :=
  listPointer :: listRun.head :: listRun.rest

def forwardOverlay : Overlay :=
  (afterWalks [forwardList]).currentOverlay

theorem forwardReferences_list :
    (visits forwardOverlay.id forwardList).map (fun s =>
        (s.lookups.filter (·.RefersTo .struct (.ofName "list"))).length) = [1, 1, 1] ∧
      ∃ id, (forwardOverlay.arena.composite id).size = 8 ∧
        ∀ s ∈ visits forwardOverlay.id forwardList, ∀ l ∈ s.lookups, l.RefersTo .struct (.ofName "list") →
          l.outcome.result = .ok ((CType.composite .struct id).derive l.d.word.modifiers l.d.dims) := by
  have hbuild : (build forwardList).result = .ok [forwardOverlay] := by decide +kernel
  have hopen : listRun.head.openedSize? .struct (.ofName "list") = some 8 := by decide +kernel
  obtain ⟨id, _, _, hsize, _, _, hrefs⟩ :=
    forwardReferences hbuild List.mem_cons_self (by decide +kernel) hopen (by decide +kernel)
  exact ⟨by decide +kernel, id, hsize, hrefs⟩

end Builder

end DebugSymbols
