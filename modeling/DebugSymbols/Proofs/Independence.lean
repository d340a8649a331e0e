import DebugSymbols.Proofs.Build.Excerpts
import DebugSymbols.Proofs.Build.Visits
import DebugSymbols.Proofs.Merge

/-!
# Overlays as separate namespaces

`build_excerpt`: an overlay comes from the records that are visited while it is
the current one, and from nothing else. Taken out of the stream, without line
records and records about overlays, they build the same overlay on their own.
-/

namespace DebugSymbols.Builder

open DebugSymbols.Action (exists_of_bind_ok ok_of_mapError)
open Relation (ReflTransGen)

/-- What the step takes, without line records and records about overlays. -/
def Step.content (s : Step) : List Record :=
  s.taken.filter Record.isContent

/-- What is visited while the overlay of that number is the current one. -/
def excerpt (id : UInt32) (records : List Record) : List Record :=
  (visits id records).flatMap Step.content

def excerptAt (k : Nat) (b : Builder) (records : List Record) : List Record :=
  ((steps b records).filter (·.before.current = k)).flatMap Step.content

/-! ## The content of a step -/

section
variable {b : Builder} {head : Record} {rest : List Record}

theorem content_of_isContent (h : head.isContent = true) {n : Nat} (hn : (step head rest b).result = .ok n) :
    (⟨b, head, rest⟩ : Step).content = head :: contentOf n rest := by
  unfold Step.content Step.taken Step.outcome
  dsimp only
  rw [hn]
  exact List.filter_cons_of_pos h

theorem content_eq_nil (h : head.isContent = false) : (⟨b, head, rest⟩ : Step).content = [] := by
  unfold Step.content Step.taken Step.outcome
  dsimp only
  cases hresult : (step head rest b).result with
  | error e => rfl
  | ok n =>
    have htaken : ∀ r ∈ head :: rest.take n, r.isContent = false := by
      by_cases hline : head.isLine = true
      · rw [step_of_isLine hline] at hresult
        obtain ⟨_, _, hn⟩ := exists_of_bind_ok hresult
        cases hn
        rw [cons_take_lineRun hline]
        exact fun r hr => isContent_of_isLine (isLine_of_mem_lineRun r hr)
      · have hn : n = 0 := by
          unfold step at hresult
          unfold Record.isContent at h
          unfold Record.isLine at hline
          cases hbody : head.body with
          | overlay _ _ =>
            rw [hbody] at hresult
            obtain ⟨_, _, hzero⟩ := exists_of_bind_ok hresult
            cases hzero
            rfl
          | setOverlay =>
            rw [hbody] at hresult
            obtain ⟨_, _, hzero⟩ := exists_of_bind_ok hresult
            cases hzero
            rfl
          | line _ =>
            rw [hbody] at hline
            exact absurd rfl hline
          | _ =>
            rw [hbody] at h
            exact nomatch h
        rw [hn]
        simpa using h
    exact List.filter_eq_nil_iff.mpr fun r hr => by simp [htaken r hr]

end

/-! ## A builder beside the other -/

/-- `c` has one overlay, the one that `b` has in position `k` but for its place. -/
structure Mirrors (k : Nat) (b c : Builder) : Prop where
  current : c.current = 0
  overlay : ∃ o, c.overlays = [o] ∧ o.unplaced = (b.overlayAt k).unplaced

variable {k : Nat} {b b' c : Builder}

theorem Mirrors.of_unplaced_eq (h : Mirrors k b c) (hb : (b'.overlayAt k).unplaced = (b.overlayAt k).unplaced) :
    Mirrors k b' c where
  current := h.current
  overlay := by
    obtain ⟨o, ho, heq⟩ := h.overlay
    exact ⟨o, ho, heq.trans hb.symm⟩

/-- A step in the overlay does the same beside it, with the content of what it
takes in front of anything else. -/
theorem Mirrors.after_step (h : Mirrors k b c) (hb : b.InRange) (hk : b.current = k) {head : Record}
    (hhead : head.isContent = true) {rest : List Record} {n : Nat} (hn : (step head rest b).result = .ok n)
    (more : List Record) :
    (step head (contentOf n rest ++ more) c).result = .ok (contentOf n rest).length ∧
      Mirrors k (step head rest b).state (step head (contentOf n rest ++ more) c).state := by
  obtain ⟨o, ho, heq⟩ := h.overlay
  have hcurrent : c.currentOverlay = o := by
    unfold currentOverlay
    rw [h.current, ho]
    rfl
  rw [step_of_isContent hhead] at hn ⊢
  rw [step_of_isContent hhead]
  have hthin := Overlay.excerpts_contentStep head rest more b.currentOverlay n hn
  rw [currentOverlay_eq, hk] at hthin
  obtain ⟨hresult, hstate⟩ := Overlay.unplaced_contentStep head (contentOf n rest ++ more) o (b.overlayAt k) heq
  rw [hthin] at hresult hstate
  refine ⟨?_, h.current, (Overlay.contentStep head (contentOf n rest ++ more) o).state, ?_, ?_⟩
  · show (Overlay.contentStep head (contentOf n rest ++ more) c.currentOverlay).result = _
    rw [hcurrent, hresult]
  · show c.overlays.set c.current (Overlay.contentStep head (contentOf n rest ++ more) c.currentOverlay).state = _
    rw [ho, h.current, hcurrent]
    rfl
  · show _ = ((b.setCurrentOverlay _).overlayAt k).unplaced
    rw [overlayAt_setCurrentOverlay, if_pos ⟨hk.symm, hk ▸ hb.current⟩, hstate, currentOverlay_eq, hk]

theorem Mirrors.after_walk (i : Nat) (rs : List Record) (h : Mirrors k b c) (hb : b.InRange)
    (hok : (walkFrom i rs b).result = .ok ()) (j : Nat) :
    (walkFrom j (excerptAt k b rs) c).result = .ok () ∧
      Mirrors k (walkFrom i rs b).state (walkFrom j (excerptAt k b rs) c).state := by
  fun_induction walkFrom i rs generalizing b c j with
  | case1 i =>
    unfold excerptAt
    rw [steps, List.filter_nil, List.flatMap_nil, walkFrom]
    exact ⟨rfl, h⟩
  | case2 i r rs ih =>
    obtain ⟨n, hlocated, hrest⟩ := exists_of_bind_ok hok
    have hn := ok_of_mapError hlocated
    have hafter := inRange_of_edits (leads_step r rs b hb).1 hb
    have hsplit : excerptAt k b (r :: rs) =
        (if b.current = k then (⟨b, r, rs⟩ : Step).content else []) ++
          excerptAt k (step r rs b).state (rs.drop n) := by
      unfold excerptAt
      rw [steps, hn]
      dsimp only
      rw [List.filter_cons]
      split <;> simp_all
    rw [Action.bind_run_of_ok hlocated, hsplit]
    by_cases hvisit : b.current = k ∧ r.isContent = true
    · rw [if_pos hvisit.1, content_of_isContent hvisit.2 hn, List.cons_append, walkFrom_cons]
      obtain ⟨hresult, hmirrors⟩ :=
        h.after_step hb hvisit.1 hvisit.2 hn (excerptAt k (step r rs b).state (rs.drop n))
      have hagain : ((step r (contentOf n rs ++ excerptAt k (step r rs b).state (rs.drop n))).mapError
          (·.shift j) c).result = .ok (contentOf n rs).length := Action.mapError_of_ok hresult _
      rw [Action.bind_run_of_ok hagain, List.drop_left]
      exact ih n hmirrors hafter hrest _
    · have hskip : (if b.current = k then (⟨b, r, rs⟩ : Step).content else []) = [] := by
        split
        · rename_i hk
          exact content_eq_nil (Bool.eq_false_iff.mpr fun hr => hvisit ⟨hk, hr⟩)
        · rfl
      rw [hskip, List.nil_append]
      exact ih n (h.of_unplaced_eq (unplaced_step (fun hr hk => hvisit ⟨hk, hr⟩) rs)) hafter hrest j

theorem excerpt_eq {records : List Record} {o : Overlay} (ho : (walk records {}).state.overlays[k]? = some o) :
    excerpt o.id records = excerptAt k {} records := by
  unfold excerpt excerptAt
  rw [visits_eq ho]

/-! ## Building from the excerpt -/

/-- The excerpt for an overlay builds it alone, but for its place and lines. So
it is the same in every stream that has the same excerpt for it. -/
theorem build_excerpt {records : List Record} {overlays : List Overlay} (h : (build records).result = .ok overlays)
    {o : Overlay} (ho : o ∈ overlays) :
    (∃ o', (build (excerpt o.id records)).result = .ok [o'] ∧ o'.id = 0 ∧ o'.unplaced = o.unplaced) ∧
      ∀ records' overlays', (build records').result = .ok overlays' → ∀ o' ∈ overlays',
        excerpt o'.id records' = excerpt o.id records → o'.unplaced = o.unplaced := by
  have halone : ∀ records overlays, (build records).result = .ok overlays → ∀ o ∈ overlays,
      ∃ o', (build (excerpt o.id records)).result = .ok [o'] ∧ o'.id = 0 ∧ o'.unplaced = o.unplaced := by
    intro records overlays h o ho
    obtain ⟨hok, rfl⟩ := walk_of_build h
    obtain ⟨k, hk⟩ := List.mem_iff_getElem?.mp ho
    have hstart : Mirrors k {} {} := by
      refine ⟨rfl, _, rfl, ?_⟩
      cases k <;> rfl
    obtain ⟨hok', hmirrors⟩ := hstart.after_walk 0 records inRange_new hok 0
    obtain ⟨o', ho', heq⟩ := hmirrors.overlay
    have hreached := (path_steps 0 (excerptAt k {} records) {}).edits inRange_new
    have hids := ids_prefix_of_edits hreached.1 inRange_new
    rw [ho'] at hids
    rw [excerpt_eq hk, build_result]
    refine ⟨o', ?_, ?_, ?_⟩
    · show (walkFrom 0 (excerptAt k {} records) {}).result.map _ = _
      rw [hok']
      exact congrArg Except.ok ho'
    · exact (List.cons_prefix_cons.mp hids).1.symm
    · rw [heq]
      show (((walkFrom 0 records {}).state.overlays.getD k default)).unplaced = _
      rw [List.getD_eq_getElem?_getD, show (walkFrom 0 records {}).state.overlays[k]? = some o from hk]
      rfl
  obtain ⟨p, hp, hid, heq⟩ := halone records overlays h o ho
  refine ⟨⟨p, hp, hid, heq⟩, fun records' overlays' h' o' ho' hsame => ?_⟩
  obtain ⟨p', hp', _, heq'⟩ := halone records' overlays' h' o' ho'
  rw [hsame, hp] at hp'
  cases hp'
  exact heq'.symm.trans heq

def spanStart : Record :=
  { offset := 0
    value := 16
    body := .functionStart
      { frameRegister := 29, frameSize := 0, returnRegister := 31, mask := 0, maskOffset := 0, line := 3,
        path := "f.c", name := "f" } }

def spanEnd : Record :=
  { offset := 0, value := 20, body := .functionEnd 2 }

/-- A struct of the resident program and one of a region, a switch between that
one and its variable, and a switch in a span that is skipped. -/
def switching : List Record :=
  let record (value : UInt32) (body : Body) : Record := { offset := 0, value, body }
  [record 64 (.overlay 32 5)] ++ Overlay.structCopy ++
    [record 5 .setOverlay] ++ Overlay.structCopy.take 3 ++
    [record 0 (.line (.setWithPath 7 "f.c")), spanStart, spanEnd, spanStart, record 0 .setOverlay, spanEnd] ++
    [record 0 .setOverlay, record 9 (.symbol .first "g"), record 5 .setOverlay] ++ Overlay.structCopy.drop 3

theorem build_excerpt_switching :
    excerpt 5 switching = Overlay.structCopy.take 3 ++
        [spanStart, spanEnd, spanStart, spanEnd] ++
        Overlay.structCopy.drop 3 ∧
      (build switching).result = .ok (afterWalks [switching]).overlays ∧
      ((afterWalks [switching]).overlayAt 1).id = 5 ∧
      (∃ o', (build (excerpt ((afterWalks [switching]).overlayAt 1).id switching)).result = .ok [o'] ∧ o'.id = 0 ∧
        o'.unplaced = ((afterWalks [switching]).overlayAt 1).unplaced) ∧
      ∀ records' overlays', (build records').result = .ok overlays' → ∀ o' ∈ overlays',
        excerpt o'.id records' = excerpt ((afterWalks [switching]).overlayAt 1).id switching →
          o'.unplaced = ((afterWalks [switching]).overlayAt 1).unplaced := by
  have hbuild : (build switching).result = .ok (afterWalks [switching]).overlays := by decide +kernel
  exact ⟨by decide +kernel, hbuild, by decide +kernel, build_excerpt hbuild (by decide +kernel)⟩

end DebugSymbols.Builder
