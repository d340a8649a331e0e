import DebugSymbols.Proofs.Build.Filling
import DebugSymbols.Proofs.Build.History
import DebugSymbols.Proofs.Build.Names

/-!
# Visits

The steps that are taken while one overlay is the current one. They alone change
what is in it, and each does to it what its record says.
-/

namespace DebugSymbols.Builder

open Relation (ReflTransGen)

variable {b b' c : Builder} {k : Nat}

theorem arena_eq_of_unplaced {o o' : Overlay} (h : o'.unplaced = o.unplaced) : o'.arena = o.arena := by
  show o'.unplaced.arena = o.unplaced.arena
  rw [h]

theorem composites_eq_of_unplaced {o o' : Overlay} (h : o'.unplaced = o.unplaced) (kind : CompositeKind) :
    o'.composites kind = o.composites kind := by
  have hstructs : o'.unplaced.structs = o.unplaced.structs := by rw [h]
  have hunions : o'.unplaced.unions = o.unplaced.unions := by rw [h]
  cases kind
  · exact hstructs
  · exact hunions

theorem overlayAt_of_edits {I : Overlay → Prop} (hnew : ∀ id addr length, I { id, addr, length })
    (hedit : ∀ o o', o.Edit o' → I o → I o') (h : ReflTransGen Edit {} b) (k : Nat) : I (b.overlayAt k) := by
  unfold overlayAt
  obtain hmem | hdefault := Arena.getD_mem_or b.overlays k default
  · exact forall_overlays_of_edits hnew hedit h _ hmem
  · rw [hdefault]
    exact hnew 0 0 0

theorem indexed_of_edits (h : ReflTransGen Edit {} b) (k : Nat) : (b.overlayAt k).Indexed :=
  overlayAt_of_edits Overlay.indexed_new (fun _ _ h => h.indexed) h k

theorem namesGrouped_of_edits (h : ReflTransGen Edit {} b) (k : Nat) : (b.overlayAt k).NamesGrouped :=
  overlayAt_of_edits Overlay.namesGrouped_new (fun _ _ h => h.namesGrouped) h k

namespace Step

variable {s : Step}

def lookups (s : Step) : List Lookup :=
  Overlay.lookups s.head s.rest s.before.currentOverlay

def inner (s : Step) : List Record :=
  s.rest.takeWhile (!·.endsMembers)

theorem visits_of_ne (h : (s.after.overlayAt k).arena ≠ (s.before.overlayAt k).arena) :
    s.head.isContent = true ∧ s.before.current = k := by
  by_contra hvisit
  exact h (arena_eq_of_unplaced (unplaced_step (fun hhead hk => hvisit ⟨hhead, hk⟩) s.rest))

theorem reached (hs : ReflTransGen Edit {} s.before) : ReflTransGen Edit {} s.after :=
  hs.trans (leads_step s.head s.rest s.before (inRange_of_edits hs inRange_new)).1

theorem visit (hs : ReflTransGen Edit {} s.before) (hhead : s.head.isContent = true) :
    s.after.overlayAt s.before.current = (Overlay.contentStep s.head s.rest s.before.currentOverlay).state ∧
      s.outcome.result = (Overlay.contentStep s.head s.rest s.before.currentOverlay).result := by
  refine ⟨overlayAt_step hhead s.rest (inRange_of_edits hs inRange_new), ?_⟩
  unfold outcome
  rw [step_of_isContent hhead]
  rfl

theorem visit_span (hs : ReflTransGen Edit {} s.before) {start : FunctionStart}
    (hhead : s.head.body = .functionStart start) :
    s.after.overlayAt s.before.current =
        (Overlay.functionSpan s.head start s.rest s.before.currentOverlay).state ∧
      s.outcome.result = (Overlay.functionSpan s.head start s.rest s.before.currentOverlay).result := by
  rw [← Overlay.contentStep_of_start hhead]
  exact visit hs (isContent_of_start hhead)

theorem isContent_of_lookup {l : Lookup} (hl : l ∈ s.lookups) : s.head.isContent = true := by
  unfold lookups Overlay.lookups at hl
  unfold Record.isContent
  cases hbody : s.head.body <;> rw [hbody] at hl <;> first | rfl | exact nomatch hl

theorem lookup_ok (hs : ReflTransGen Edit {} s.before) {n : Nat} (hok : s.outcome.result = .ok n) {l : Lookup}
    (hl : l ∈ s.lookups) : ∃ t, l.outcome.result = .ok t := by
  rw [(visit hs (isContent_of_lookup hl)).2] at hok
  exact (Overlay.contentStep_changes s.head s.rest (indexed_of_edits hs _)).2 n hok l hl

end Step

/-- What every visit keeps, whatever the place of the overlay, holds to the end of the path. -/
theorem Path.keeps {I : Overlay → Prop} (hplace : ∀ {o o' : Overlay}, o'.unplaced = o.unplaced → I o → I o')
    {ss : List Step} (h : Path b ss c) (hb : ReflTransGen Edit {} b)
    (hstep : ∀ s ∈ ss, s.before.current = k → ReflTransGen Edit {} s.before →
      I s.before.currentOverlay → I (Overlay.contentStep s.head s.rest s.before.currentOverlay).state)
    (hI : I (b.overlayAt k)) : I (c.overlayAt k) := by
  induction h with
  | nil => exact hI
  | @cons s ss c _ ih =>
    refine ih (Step.reached hb) (fun t ht => hstep t (List.mem_cons_of_mem s ht)) ?_
    by_cases hvisit : s.head.isContent = true ∧ s.before.current = k
    · obtain ⟨hhead, rfl⟩ := hvisit
      rw [(Step.visit hb hhead).1]
      exact hstep s List.mem_cons_self rfl hb hI
    · exact hplace (unplaced_step (fun hhead hk => hvisit ⟨hhead, hk⟩) s.rest) hI

/-! ## Numbers of overlays -/

theorem Edit.ids_prefix (h : Edit b b') (hb : b.InRange) : b.overlays.map (·.id) <+: b'.overlays.map (·.id) := by
  cases h with
  | overlay h => exact ids_setCurrentOverlay hb h ▸ List.prefix_rfl
  | source s => exact List.prefix_rfl
  | newOverlay addr length h =>
    simp only [appendOverlay, List.map_append]
    exact List.prefix_append _ _
  | switch h => exact List.prefix_rfl

theorem ids_prefix_of_edits (h : ReflTransGen Edit b b') (hb : b.InRange) :
    b.overlays.map (·.id) <+: b'.overlays.map (·.id) := by
  induction h with
  | refl => exact List.prefix_rfl
  | tail hedits h ih => exact ih.trans (h.ids_prefix (inRange_of_edits hedits hb))

theorem currentOverlay_id_iff (h : ReflTransGen Edit b c) (hb : b.InRange) (hc : c.Numbered) {o : Overlay}
    (ho : c.overlays[k]? = some o) : b.currentOverlay.id = o.id ↔ b.current = k := by
  have hcurrent : (c.overlays.map (·.id))[b.current]? = some b.currentOverlay.id := by
    obtain ⟨more, hmore⟩ := ids_prefix_of_edits h hb
    rw [← hmore, List.getElem?_append_left (by simpa using hb.current), List.getElem?_map]
    simp [currentOverlay, List.getElem?_eq_getElem hb.current]
  have hk : (c.overlays.map (·.id))[k]? = some o.id := by
    rw [List.getElem?_map, ho]
    rfl
  constructor
  · intro hid
    rw [hid] at hcurrent
    obtain ⟨hlt, _⟩ := List.getElem?_eq_some_iff.mp hcurrent
    exact (List.getElem?_inj hlt hc.distinct).mp (hcurrent.trans hk.symm)
  · intro heq
    rw [heq, hk] at hcurrent
    exact (Option.some.inj hcurrent).symm

/-! ## The visits to an overlay -/

/-- The steps that are taken while the overlay of that number is the current one. -/
def visits (id : UInt32) (records : List Record) : List Step :=
  (steps {} records).filter (·.before.currentOverlay.id = id)

theorem visits_eq {records : List Record} {o : Overlay} (ho : (walk records {}).state.overlays[k]? = some o) :
    visits o.id records = (steps {} records).filter (·.before.current = k) := by
  have hpath : Path {} (steps {} records) (walk records {}).state := path_steps 0 records {}
  obtain ⟨hedits, hmem⟩ := hpath.edits inRange_new
  have hnumbered := numbered_of_edits hedits inRange_new numbered_new
  refine List.filter_congr fun s hs => ?_
  obtain ⟨hreached, hahead⟩ := hmem s hs
  have hrange : s.before.InRange := inRange_of_edits hreached inRange_new
  exact decide_eq_decide.mpr (currentOverlay_id_iff hahead hrange hnumbered ho)

end DebugSymbols.Builder
