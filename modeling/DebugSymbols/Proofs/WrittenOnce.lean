import DebugSymbols.Proofs.Build.Visits

/-!
# Bodies are written once

`bodies_writtenOnce`: whatever is walked, and wherever a walk fails, a struct or
union gets all its fields in one step, which takes a run of its kind and tag. It
never loses or changes one, and its size is settled with them. An enum gets all
its members in one step.
-/

namespace DebugSymbols

/-! ## What may become of an entry -/

structure Composite.Settles (c c' : Composite) : Prop where
  kind : c'.kind = c.kind
  tag : c'.tag = c.tag
  size : c.size ≠ 0 → c'.size = c.size
  fields : c.fields <+: c'.fields
  filled : c.fields ≠ [] → c'.fields = c.fields ∧ c'.size = c.size

structure Enumeration.Settles (e e' : Enumeration) : Prop where
  tag : e'.tag = e.tag
  members : e.members <+: e'.members
  filled : e.members ≠ [] → e'.members = e.members

theorem Composite.Settles.trans {a b c : Composite} (h : a.Settles b) (h' : b.Settles c) : a.Settles c where
  kind := h'.kind.trans h.kind
  tag := h'.tag.trans h.tag
  size ha := (h'.size (h.size ha ▸ ha)).trans (h.size ha)
  fields := h.fields.trans h'.fields
  filled ha := by
    obtain ⟨hfields, hsize⟩ := h.filled ha
    obtain ⟨hfields', hsize'⟩ := h'.filled (hfields ▸ ha)
    exact ⟨hfields'.trans hfields, hsize'.trans hsize⟩

theorem Enumeration.Settles.trans {a b c : Enumeration} (h : a.Settles b) (h' : b.Settles c) : a.Settles c where
  tag := h'.tag.trans h.tag
  members := h.members.trans h'.members
  filled ha := (h'.filled (h.filled ha ▸ ha)).trans (h.filled ha)

theorem Composite.settles_of_eq {c c' : Composite} (hhead : c'.head = c.head) (hfields : c'.fields = c.fields) :
    c.Settles c' where
  kind := congrArg Prod.fst hhead
  tag := congrArg (·.2.1) hhead
  size _ := congrArg (·.2.2) hhead
  fields := hfields ▸ List.prefix_rfl
  filled _ := ⟨hfields, congrArg (·.2.2) hhead⟩

theorem Enumeration.settles_of_eq {e e' : Enumeration} (htag : e'.tag = e.tag) (hmembers : e'.members = e.members) :
    e.Settles e' where
  tag := htag
  members := hmembers ▸ List.prefix_rfl
  filled _ := hmembers

namespace Overlay

structure Settles (o o' : Overlay) : Prop where
  compositeCount : o.arena.composites.length ≤ o'.arena.composites.length
  enumCount : o.arena.enums.length ≤ o'.arena.enums.length
  composite : ∀ id, id.index < o.arena.composites.length → (o.arena.composite id).Settles (o'.arena.composite id)
  enum : ∀ id, id.index < o.arena.enums.length → (o.arena.enumeration id).Settles (o'.arena.enumeration id)

variable {o o' o'' : Overlay} {w : Filling} {ls : List Lookup}

theorem settles_of_arena_eq (h : o'.arena = o.arena) : Settles o o' where
  compositeCount := by rw [h]
  enumCount := by rw [h]
  composite id _ := by
    rw [h]
    exact Composite.settles_of_eq rfl rfl
  enum id _ := by
    rw [h]
    exact Enumeration.settles_of_eq rfl rfl

theorem Settles.trans (h : Settles o o') (h' : Settles o' o'') : Settles o o'' where
  compositeCount := Nat.le_trans h.compositeCount h'.compositeCount
  enumCount := Nat.le_trans h.enumCount h'.enumCount
  composite id hid := (h.composite id hid).trans (h'.composite id (Nat.lt_of_lt_of_le hid h.compositeCount))
  enum id hid := (h.enum id hid).trans (h'.enum id (Nat.lt_of_lt_of_le hid h.enumCount))

/-! ## One step -/

theorem Extends.settles (h : Extends w ls o o') {id : CompositeId} (hid : id.index < o.arena.composites.length)
    (hw : w.composite ≠ some id) : (o.arena.composite id).Settles (o'.arena.composite id) :=
  Composite.settles_of_eq (h.head_eq hid) (h.fields id hw)

theorem Extends.settles_enum (h : Extends w ls o o') {id : EnumId} (hid : id.index < o.arena.enums.length)
    (hw : w.enum ≠ some id) : (o.arena.enumeration id).Settles (o'.arena.enumeration id) :=
  Enumeration.settles_of_eq (h.tag_eq hid) (h.members id hw)

theorem settles_contentStep (head : Record) (rest : List Record) (ho : o.Indexed) :
    Settles o (contentStep head rest o).state := by
  cases (contentStep_changes head rest ho).1 with
  | looks h =>
    have he := h.extends
    exact ⟨he.length_le, he.enums_length_le, fun id hid => he.settles hid (nomatch ·),
      fun id hid => he.settles_enum hid (nomatch ·)⟩
  | @composite kind form d i opened hbody hclass hopens hfills =>
    have he := hfills.trace.extends
    refine ⟨Nat.le_trans hopens.length_le he.length_le, hopens.enums_eq ▸ he.enums_length_le, fun id hid => ?_,
      fun id hid => ?_⟩
    · by_cases heq : id = i
      · subst heq
        -- what is filled in has no fields yet, and keeps the size that it has
        obtain ⟨hlt, hhead, _⟩ := hopens.opened ho
        obtain ⟨hfields, hsize⟩ := hopens.before
        have hmem := hopens.mem_of_lt hid
        have hafter := (he.head_eq hlt).trans hhead
        have hkind := (ho.composite_mem kind id ((ho.composites kind).mem_listed hmem)).2
        have htag := (ho.composites kind).key_of_mem hmem
        refine ⟨?_, ?_, fun hz => ?_, ?_, fun hne => absurd hfields hne⟩
        · rw [hkind]
          exact congrArg Prod.fst hafter
        · rw [htag]
          exact congrArg (·.2.1) hafter
        · rw [hsize.resolve_right hz]
          exact congrArg (·.2.2) hafter
        · rw [hfields]
          exact List.nil_prefix
      · rw [← hopens.other heq]
        exact he.settles (Nat.lt_of_lt_of_le hid hopens.length_le) fun h => heq (Option.some.inj h).symm
    · have hsame : opened.arena.enumeration id = o.arena.enumeration id := by
        unfold Arena.enumeration
        rw [hopens.enums_eq]
      rw [← hsame]
      exact he.settles_enum (hopens.enums_eq ▸ hid) (nomatch ·)
  | @enum form d i opened hbody hclass hopens hfills =>
    have he := hfills.trace.extends
    refine ⟨hopens.composites_eq ▸ he.length_le, Nat.le_trans hopens.length_le he.enums_length_le, fun id hid => ?_,
      fun id hid => ?_⟩
    · have hsame : opened.arena.composite id = o.arena.composite id := by
        unfold Arena.composite
        rw [hopens.composites_eq]
      rw [← hsame]
      exact he.settles (hopens.composites_eq ▸ hid) (nomatch ·)
    · by_cases heq : id = i
      · subst heq
        obtain ⟨hlt, htag, _⟩ := hopens.opened ho
        have hmembers := hopens.before
        have hkey := ho.enums.key_of_mem (hopens.mem_of_lt hid)
        refine ⟨?_, ?_, fun hne => absurd hmembers hne⟩
        · rw [hkey]
          exact (he.tag_eq hlt).trans htag
        · rw [hmembers]
          exact List.nil_prefix
      · rw [← hopens.other heq]
        exact he.settles_enum (Nat.lt_of_lt_of_le hid hopens.length_le) fun h => heq (Option.some.inj h).symm

end Overlay

namespace Builder

open Relation (ReflTransGen)

/-! ## Builders -/

def Settles (b b' : Builder) : Prop :=
  ∀ k, (b.overlayAt k).Settles (b'.overlayAt k)

namespace Step

variable {s : Step} {k : Nat}

theorem settles (s : Step) (h : ReflTransGen Edit {} s.before) : s.before.Settles s.after := by
  intro k
  by_cases hvisit : s.head.isContent = true ∧ s.before.current = k
  · obtain ⟨hhead, rfl⟩ := hvisit
    show Overlay.Settles _ ((step s.head s.rest s.before).state.overlayAt _)
    rw [overlayAt_step hhead s.rest (inRange_of_edits h inRange_new)]
    exact Overlay.settles_contentStep s.head s.rest (indexed_of_edits h _)
  · exact Overlay.settles_of_arena_eq
      (arena_eq_of_unplaced (unplaced_step (fun hhead hk => hvisit ⟨hhead, hk⟩) s.rest))

/-! ## Steps that write -/

def WritesFields (s : Step) (k : Nat) (id : CompositeId) : Prop :=
  ((s.after.overlayAt k).arena.composite id).fields ≠ ((s.before.overlayAt k).arena.composite id).fields

def WritesMembers (s : Step) (k : Nat) (id : EnumId) : Prop :=
  ((s.after.overlayAt k).arena.enumeration id).members ≠ ((s.before.overlayAt k).arena.enumeration id).members

/-- The step is a run of the kind and tag of `c`, in the overlay in position `k`.
The fields of `c` are its members, up to the one that fails. -/
structure FillsFields (s : Step) (k : Nat) (c : Composite) : Prop where
  current : s.before.current = k
  opens : s.head.openedSize? c.kind c.tag = some c.size
  fields : ∃ made, made <+: s.lookups ∧ List.Forall₂ (Overlay.MakesField c.kind) made c.fields ∧
    ∀ n, s.outcome.result = .ok n → made = s.lookups ∧ made.map Lookup.record = s.inner

structure FillsMembers (s : Step) (k : Nat) (e : Enumeration) : Prop where
  current : s.before.current = k
  opens : s.head.opensEnum e.tag = true
  members : ∃ made, made <+: s.inner ∧ List.Forall₂ Overlay.MakesMember made e.members ∧
    ∀ n, s.outcome.result = .ok n → made = s.inner

theorem fillsFields (hs : ReflTransGen Edit {} s.before) {id : CompositeId} (h : s.WritesFields k id) :
    ((s.before.overlayAt k).arena.composite id).fields = [] ∧
      s.FillsFields k ((s.after.overlayAt k).arena.composite id) := by
  unfold WritesFields at h
  obtain ⟨hhead, rfl⟩ := visits_of_ne fun heq => h (by rw [heq])
  have ho : s.before.currentOverlay.Indexed := indexed_of_edits hs s.before.current
  obtain ⟨hafter, hresult⟩ := visit hs hhead
  rw [hafter] at h ⊢
  rw [← currentOverlay_eq] at h ⊢
  cases (Overlay.contentStep_changes s.head s.rest ho).1 with
  | looks ht => exact absurd (ht.extends.fields id (nomatch ·)) h
  | @composite kind form d i opened hbody hclass hopens hfills =>
    have he := hfills.trace.extends
    by_cases heq : id = i
    · subst heq
      obtain ⟨hlt, hopened, _⟩ := hopens.opened ho
      have hhead := (he.head_eq hlt).trans hopened
      obtain ⟨made, hprefix, hmakes, hdone⟩ := hfills.fields
      generalize (Overlay.contentStep s.head s.rest s.before.currentOverlay).state.arena.composite id = c
        at hhead hmakes ⊢
      obtain ⟨rfl, htag, hsize⟩ : c.kind = kind ∧ c.tag = .ofName d.name ∧ c.size = d.size :=
        ⟨congrArg Prod.fst hhead, congrArg (·.2.1) hhead, congrArg (·.2.2) hhead⟩
      refine ⟨hopens.before.1, rfl, ?_, made, hprefix, hmakes, fun n hn => hdone n (hresult ▸ hn)⟩
      rw [htag, hsize]
      exact Record.openedSize?_eq hbody hclass
    · refine absurd ?_ h
      rw [he.fields id fun h => heq (Option.some.inj h).symm, hopens.other heq]
  | @enum form d i opened hbody hclass hopens hfills =>
    refine absurd ?_ h
    rw [hfills.trace.extends.fields id (nomatch ·)]
    unfold Arena.composite
    rw [hopens.composites_eq]

theorem fillsMembers (hs : ReflTransGen Edit {} s.before) {id : EnumId} (h : s.WritesMembers k id) :
    ((s.before.overlayAt k).arena.enumeration id).members = [] ∧
      s.FillsMembers k ((s.after.overlayAt k).arena.enumeration id) := by
  unfold WritesMembers at h
  obtain ⟨hhead, rfl⟩ := visits_of_ne fun heq => h (by rw [heq])
  have ho : s.before.currentOverlay.Indexed := indexed_of_edits hs s.before.current
  obtain ⟨hafter, hresult⟩ := visit hs hhead
  rw [hafter] at h ⊢
  rw [← currentOverlay_eq] at h ⊢
  cases (Overlay.contentStep_changes s.head s.rest ho).1 with
  | looks ht => exact absurd (ht.extends.members id (nomatch ·)) h
  | @composite kind form d i opened hbody hclass hopens hfills =>
    refine absurd ?_ h
    rw [hfills.trace.extends.members id (nomatch ·)]
    unfold Arena.enumeration
    rw [hopens.enums_eq]
  | @enum form d i opened hbody hclass hopens hfills =>
    have he := hfills.trace.extends
    by_cases heq : id = i
    · subst heq
      obtain ⟨hlt, hopened, _⟩ := hopens.opened ho
      have htag := (he.tag_eq hlt).trans hopened
      obtain ⟨made, hprefix, hmakes, hdone⟩ := hfills.members
      refine ⟨hopens.before, rfl, ?_, made, hprefix, hmakes, fun n hn => hdone n (hresult ▸ hn)⟩
      rw [htag]
      exact Record.opensEnum_eq hbody hclass
    · refine absurd ?_ h
      rw [he.members id fun h => heq (Option.some.inj h).symm, hopens.other heq]

theorem WritesFields.not_later {t : Step} (hs : ReflTransGen Edit {} s.before) (ht : ReflTransGen Edit {} t.before)
    (hst : s.after.Settles t.before) {id : CompositeId} (h : s.WritesFields k id) : ¬ t.WritesFields k id := by
  intro h'
  obtain ⟨hempty, _⟩ := fillsFields hs h
  obtain ⟨hempty', _⟩ := fillsFields ht h'
  have hne : ((s.after.overlayAt k).arena.composite id).fields ≠ [] := fun hnil => h (hnil.trans hempty.symm)
  have hlt : id.index < (s.after.overlayAt k).arena.composites.length :=
    Nat.lt_of_not_le fun hle => hne (by rw [Arena.composite_of_le hle]; rfl)
  exact hne ((((hst k).composite id hlt).filled hne).1.symm.trans hempty')

theorem WritesMembers.not_later {t : Step} (hs : ReflTransGen Edit {} s.before) (ht : ReflTransGen Edit {} t.before)
    (hst : s.after.Settles t.before) {id : EnumId} (h : s.WritesMembers k id) : ¬ t.WritesMembers k id := by
  intro h'
  obtain ⟨hempty, _⟩ := fillsMembers hs h
  obtain ⟨hempty', _⟩ := fillsMembers ht h'
  have hne : ((s.after.overlayAt k).arena.enumeration id).members ≠ [] := fun hnil => h (hnil.trans hempty.symm)
  have hlt : id.index < (s.after.overlayAt k).arena.enums.length :=
    Nat.lt_of_not_le fun hle => hne (by rw [Arena.enumeration_of_le hle]; rfl)
  exact hne ((((hst k).enum id hlt).filled hne).symm.trans hempty')

end Step

/-! ## Histories -/

theorem Settles.trans {b b' b'' : Builder} (h : Settles b b') (h' : Settles b' b'') : Settles b b'' := fun k =>
  (h k).trans (h' k)

/-- From each builder on the way through any walks to the later ones the entries
settle. One step writes all fields of a struct or union, a run of its kind and
tag, and one all members of an enum. -/
theorem bodies_writtenOnce (chunks : List (List Record)) :
    Path {} (history {} chunks) (afterWalks chunks) ∧
      (({} : Builder) :: (history {} chunks).map Step.after).Pairwise Settles ∧
      (∀ s ∈ history {} chunks, ∀ k,
        (∀ id, s.WritesFields k id → s.FillsFields k ((s.after.overlayAt k).arena.composite id)) ∧
        ∀ id, s.WritesMembers k id → s.FillsMembers k ((s.after.overlayAt k).arena.enumeration id)) ∧
      (history {} chunks).Pairwise fun s t => ∀ k,
        (∀ id, ¬ (s.WritesFields k id ∧ t.WritesFields k id)) ∧
        ∀ id, ¬ (s.WritesMembers k id ∧ t.WritesMembers k id) := by
  have hpath := path_history chunks
  have hreached : ∀ s ∈ history {} chunks, ReflTransGen Edit {} s.before := fun s hs =>
    ((hpath.edits inRange_new).2 s hs).1
  have hsettles : ∀ s ∈ history {} chunks, s.before.Settles s.after := fun s hs => s.settles (hreached s hs)
  have hrefl : ∀ b : Builder, Settles b b := fun b k => Overlay.settles_of_arena_eq rfl
  refine ⟨hpath, hpath.pairwise (fun h h' => h.trans h') hsettles, fun s hs k => ⟨fun id h => ?_, fun id h => ?_⟩, ?_⟩
  · exact (Step.fillsFields (hreached s hs) h).2
  · exact (Step.fillsMembers (hreached s hs) h).2
  · have hlater := (hpath.pairwise_steps hrefl (fun h h' => h.trans h') hsettles).2
    refine hlater.imp_of_mem fun {s t} hs ht hst k => ⟨fun id h => ?_, fun id h => ?_⟩
    · exact h.1.not_later (hreached s hs) (hreached t ht) hst h.2
    · exact h.1.not_later (hreached s hs) (hreached t ht) hst h.2

end Builder

end DebugSymbols
