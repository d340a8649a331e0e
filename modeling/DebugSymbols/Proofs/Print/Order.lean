import DebugSymbols.Proofs.Containment
import DebugSymbols.Proofs.Print.Items

/-!
# The order of bodies

A list of tasks is worked off depth first. `Works` is `Writes` with all that one
body embeds as a run of its own, before the body. A body comes after every other
that it needs, also where it needs it through some that are written in place,
unless a struct or union contains itself.
-/

namespace DebugSymbols

def Task.target? : Task → Option CompositeId
  | .define id => some id
  | .passThrough id => some id
  | _ => none

namespace Arena

/-! ## Runs within runs -/

inductive Works (a : Arena) : List Task → Progress → Progress → List Item → Prop
  | nil {p : Progress} : Works a [] p p []
  | skip {t : Task} {ts : List Task} {p q : Progress} {is : List Item} :
      p.Has t → Works a ts p q is → Works a (t :: ts) p q is
  | define {id : CompositeId} {ts : List Task} {p m q : Progress} {is js : List Item} :
      id ∉ p.composites → Works a (a.embedded id) { p with composites := id :: p.composites } m is →
        Works a ts { m with closing := closing (a.composite id).aliases ++ m.closing } q js →
          Works a (.define id :: ts) p q (is ++ .composite id :: js)
  | passThrough {id : CompositeId} {ts : List Task} {p m q : Progress} {is js : List Item} :
      id ∉ p.composites → Works a (a.embedded id) { p with composites := id :: p.composites } m is →
        Works a ts m q js → Works a (.passThrough id :: ts) p q (is ++ js)
  | close {id : CompositeId} {ts : List Task} {p q : Progress} {is : List Item} :
      Works a ts { p with closing := closing (a.composite id).aliases ++ p.closing } q is →
        Works a (.close id :: ts) p q (.composite id :: is)
  | defineEnum {id : EnumId} {ts : List Task} {p q : Progress} {is : List Item} :
      id ∉ p.enums →
        Works a ts
          { p with enums := id :: p.enums, closing := closing (a.enumeration id).aliases ++ p.closing } q is →
          Works a (.defineEnum id :: ts) p q (.enum id :: is)

variable {a : Arena}

theorem Works.split {ts rest : List Task} {p q : Progress} {is : List Item} (h : Works a (ts ++ rest) p q is) :
    ∃ m js ks, Works a ts p m js ∧ Works a rest m q ks ∧ is = js ++ ks := by
  induction ts generalizing p is with
  | nil => exact ⟨p, [], is, .nil, h, rfl⟩
  | cons t ts ih =>
    cases h with
    | skip hp h =>
      obtain ⟨m, js, ks, hts, hrest, rfl⟩ := ih h
      exact ⟨m, js, ks, .skip hp hts, hrest, rfl⟩
    | define hp hin h =>
      obtain ⟨m, js, ks, hts, hrest, rfl⟩ := ih h
      exact ⟨m, _, ks, .define hp hin hts, hrest, by simp⟩
    | passThrough hp hin h =>
      obtain ⟨m, js, ks, hts, hrest, rfl⟩ := ih h
      exact ⟨m, _, ks, .passThrough hp hin hts, hrest, by simp⟩
    | close h =>
      obtain ⟨m, js, ks, hts, hrest, rfl⟩ := ih h
      exact ⟨m, _, ks, .close hts, hrest, rfl⟩
    | defineEnum hp h =>
      obtain ⟨m, js, ks, hts, hrest, rfl⟩ := ih h
      exact ⟨m, _, ks, .defineEnum hp hts, hrest, rfl⟩

theorem Writes.works {ts : List Task} {p q : Progress} {is : List Item} (h : Writes a ts p q is) :
    Works a ts p q is := by
  induction h with
  | nil => exact .nil
  | skip hp _ ih => exact .skip hp ih
  | define hp _ ih =>
    obtain ⟨m, js, ks, hin, hrest, rfl⟩ := ih.split
    cases hrest with
    | skip hhas => exact nomatch hhas
    | close hrest => exact .define hp hin hrest
  | passThrough hp _ ih =>
    obtain ⟨m, js, ks, hin, hrest, rfl⟩ := ih.split
    exact .passThrough hp hin hrest
  | close _ ih => exact .close ih
  | defineEnum hp _ ih => exact .defineEnum hp ih

/-! ## What a body needs -/

theorem mem_embedded_of_held {r i : CompositeId} (h : i ∈ (a.composite r).held) :
    (if a.isInlined i then Task.passThrough i else .define i) ∈ a.embedded r := by
  obtain ⟨x, hx, hi⟩ := List.mem_filterMap.mp h
  refine List.mem_filterMap.mpr ⟨x, hx, ?_⟩
  unfold CType.heldComposite? at hi
  unfold embedded?
  cases hstrip : x.type.stripArrays with
  | composite kind j =>
    rw [hstrip] at hi
    cases hi
    rfl
  | _ =>
    rw [hstrip] at hi
    exact nomatch hi

theorem held_of_mem_embedded {r i : CompositeId} {t : Task} (h : t ∈ a.embedded r) (ht : t.target? = some i) :
    i ∈ (a.composite r).held := by
  obtain ⟨x, hx, ⟨kind, j, hstrip, rfl⟩ | ⟨j, _, rfl⟩⟩ := exists_of_mem_embedded h
  · have hij : j = i := by
      split at ht <;> exact Option.some.inj ht
    refine List.mem_filterMap.mpr ⟨x, hx, ?_⟩
    unfold CType.heldComposite?
    rw [hstrip, hij]
  · exact nomatch ht

/-- `s` has a body of its own, and `r` holds it or holds one written in place
that needs it. -/
inductive Needs (a : Arena) : CompositeId → CompositeId → Prop
  | held {r s : CompositeId} : s ∈ (a.composite r).held → a.isInlined s = false → Needs a r s
  | within {r i s : CompositeId} :
      i ∈ (a.composite r).held → a.isInlined i = true → Needs a i s → Needs a r s

/-! ## The order -/

def Ready (a : Arena) (is : List Item) (id : CompositeId) : Prop :=
  ∀ s, a.Needs id s → .composite s ∈ is

structure Done (a : Arena) (is : List Item) (id : CompositeId) : Prop where
  ready : a.Ready is id
  written : a.isInlined id = false → .composite id ∈ is

theorem Done.mono {is js : List Item} (h : is ⊆ js) {id : CompositeId} (hd : a.Done is id) : a.Done js id :=
  ⟨fun s hs => h (hd.ready s hs), fun hin => h (hd.written hin)⟩

/-- What the bodies among `is` need is in front of them or in `before`. -/
def InOrder (a : Arena) (before is : List Item) : Prop :=
  ∀ front id back, is = front ++ Item.composite id :: back → a.Ready (before ++ front) id

theorem InOrder.nil (before : List Item) : a.InOrder before [] := by
  intro front id back h
  simp at h

theorem InOrder.append {before is js : List Item} (his : a.InOrder before is)
    (hjs : a.InOrder (before ++ is) js) : a.InOrder before (is ++ js) := by
  intro front id back h
  obtain ⟨more, rfl, hmore⟩ | ⟨more, rfl, hmore⟩ := List.append_eq_append_iff.mp h
  · rw [← List.append_assoc]
    exact hjs more id back hmore
  · cases more with
    | nil =>
      have hready := hjs [] id back (by simpa using hmore.symm)
      simpa using hready
    | cons i more =>
      obtain ⟨rfl, -⟩ := List.cons_eq_cons.mp hmore
      exact his front id more rfl

theorem InOrder.cons {before is : List Item} {i : Item} (hi : ∀ id, i = .composite id → a.Ready before id)
    (his : a.InOrder (before ++ [i]) is) : a.InOrder before (i :: is) := by
  intro front id back h
  cases front with
  | nil =>
    rw [List.append_nil]
    exact hi id (List.cons_eq_cons.mp h).1
  | cons j front =>
    obtain ⟨rfl, htail⟩ := List.cons_eq_cons.mp h
    simpa using his front id back htail

/-- Tasks that are still to be started, none of them on the way back to what is
under way. -/
structure Pending (a : Arena) (underWay : CompositeId → Prop) (ts : List Task) : Prop where
  close : ∀ id, .close id ∉ ts
  passes : a.PassesInlined ts
  avoids : ∀ t ∈ ts, ∀ id, t.target? = some id → ∀ u, underWay u →
    ¬ Relation.ReflTransGen (fun r s => s ∈ (a.composite r).held) id u

def Settled (a : Arena) (underWay : CompositeId → Prop) (p : Progress) (is : List Item) : Prop :=
  ∀ id ∈ p.composites, underWay id ∨ a.Done is id

theorem Pending.tail {underWay : CompositeId → Prop} {t : Task} {ts : List Task} (h : a.Pending underWay (t :: ts)) :
    a.Pending underWay ts where
  close id hid := h.close id (List.mem_cons_of_mem _ hid)
  passes id hid := h.passes id (List.mem_cons_of_mem _ hid)
  avoids u hu := h.avoids u (List.mem_cons_of_mem _ hu)

theorem Pending.embedded (hacyclic : ∀ id, ¬ Relation.TransGen (fun r s => s ∈ (a.composite r).held) id id)
    {underWay : CompositeId → Prop} {t : Task} {ts : List Task} (h : a.Pending underWay (t :: ts)) {id : CompositeId}
    (ht : t.target? = some id) : a.Pending (fun u => u = id ∨ underWay u) (a.embedded id) where
  close := close_notMem_embedded id
  passes := passesInlined_embedded id
  avoids := by
    intro t' ht' i hi u hu hpath
    have hheld := held_of_mem_embedded ht' hi
    obtain rfl | hu := hu
    · exact hacyclic u (.head' hheld hpath)
    · exact h.avoids t List.mem_cons_self id ht u hu (.head hheld hpath)

theorem ready_of_done_embedded {is : List Item} {id : CompositeId}
    (h : ∀ t ∈ a.embedded id, ∀ i, t.target? = some i → a.Done is i) : a.Ready is id := by
  have hheld : ∀ i ∈ (a.composite id).held, a.Done is i := by
    intro i hi
    refine h _ (mem_embedded_of_held hi) i ?_
    split <;> rfl
  intro s hs
  cases hs with
  | held hs hin => exact (hheld s hs).written hin
  | within hi _ hs => exact (hheld _ hi).ready s hs

theorem Settled.visit {underWay : CompositeId → Prop} {p : Progress} {is : List Item} (h : a.Settled underWay p is)
    (id : CompositeId) :
    a.Settled (fun u => u = id ∨ underWay u) { p with composites := id :: p.composites } is := by
  intro i hi
  obtain rfl | hi := List.mem_cons.mp hi
  · exact .inl (.inl rfl)
  · exact (h i hi).imp_left .inr

theorem Settled.leave {underWay : CompositeId → Prop} {p : Progress} {is js : List Item} {id : CompositeId}
    (h : a.Settled (fun u => u = id ∨ underWay u) p is) (hsub : is ⊆ js) (hid : a.Done js id) :
    a.Settled underWay p js := by
  intro i hi
  obtain (rfl | hunder) | hdone := h i hi
  · exact .inr hid
  · exact .inl hunder
  · exact .inr (hdone.mono hsub)

/-- A run finishes what its tasks are about, and what it writes is in order. The
induction is on the run; what is under way is met by none of the tasks below it,
for it would then contain itself. -/
theorem Works.inOrder (hacyclic : ∀ id, ¬ Relation.TransGen (fun r s => s ∈ (a.composite r).held) id id)
    {ts : List Task} {p q : Progress} {is : List Item} (h : Works a ts p q is) {underWay : CompositeId → Prop}
    (hts : a.Pending underWay ts) (before : List Item) (hsettled : a.Settled underWay p before) :
    a.Settled underWay q (before ++ is) ∧ a.InOrder before is ∧
      ∀ t ∈ ts, ∀ id, t.target? = some id → a.Done (before ++ is) id := by
  induction h generalizing underWay before with
  | nil => exact ⟨by simpa using hsettled, .nil before, fun _ ht => nomatch ht⟩
  | @skip t ts p q is hp _ ih =>
    obtain ⟨hq, horder, hdone⟩ := ih hts.tail before hsettled
    refine ⟨hq, horder, fun u hu id hid => ?_⟩
    obtain rfl | hu := List.mem_cons.mp hu
    · have hvisited : id ∈ p.composites := by
        cases u <;> cases hid <;> exact hp
      obtain hunder | hid' := hsettled id hvisited
      · exact absurd .refl (hts.avoids u List.mem_cons_self id hid id hunder)
      · exact hid'.mono (List.subset_append_left _ _)
    · exact hdone u hu id hid
  | @define id ts p m q is js hp _ _ ihin ih =>
    obtain ⟨hm, horder, hin⟩ := ihin (hts.embedded hacyclic rfl) before (hsettled.visit id)
    have hready : a.Ready (before ++ is) id := ready_of_done_embedded hin
    have hid : a.Done (before ++ is ++ [Item.composite id]) id :=
      ⟨fun s hs => List.mem_append_left _ (hready s hs), fun _ => List.mem_append_right _ (List.mem_singleton_self _)⟩
    obtain ⟨hq, hrest, hdone⟩ := ih hts.tail _ (hm.leave (List.subset_append_left _ _) hid)
    have hsplit : before ++ is ++ [Item.composite id] ++ js = before ++ (is ++ Item.composite id :: js) := by simp
    rw [hsplit] at hq hdone
    refine ⟨hq, horder.append (.cons ?_ hrest), fun u hu i hi => ?_⟩
    · rintro _ ⟨⟩
      exact hready
    · obtain rfl | hu := List.mem_cons.mp hu
      · cases hi
        exact hid.mono (by simp)
      · exact hdone u hu i hi
  | @passThrough id ts p m q is js hp _ _ ihin ih =>
    obtain ⟨hm, horder, hin⟩ := ihin (hts.embedded hacyclic rfl) before (hsettled.visit id)
    have hinlined := hts.passes id List.mem_cons_self
    have hid : a.Done (before ++ is) id :=
      ⟨ready_of_done_embedded hin, fun hnot => absurd hinlined (Bool.eq_false_iff.mp hnot)⟩
    obtain ⟨hq, hrest, hdone⟩ := ih hts.tail _ (hm.leave (List.Subset.refl _) hid)
    rw [List.append_assoc] at hq hdone
    refine ⟨hq, horder.append hrest, fun u hu i hi => ?_⟩
    obtain rfl | hu := List.mem_cons.mp hu
    · cases hi
      exact hid.mono (by simp)
    · exact hdone u hu i hi
  | @close id _ _ _ _ _ _ => exact absurd List.mem_cons_self (hts.close id)
  | @defineEnum id ts p q is hp _ ih =>
    obtain ⟨hq, hrest, hdone⟩ := ih hts.tail (before ++ [.enum id])
      fun i hi => (hsettled i hi).imp_right fun h => h.mono (List.subset_append_left _ _)
    rw [List.append_assoc] at hq hdone
    refine ⟨hq, .cons (fun _ h => nomatch h) hrest, fun u hu i hi => ?_⟩
    obtain rfl | hu := List.mem_cons.mp hu
    · exact nomatch hi
    · exact hdone u hu i hi

/-! ## How often -/

theorem Works.count_le {ts : List Task} {p q : Progress} {is : List Item} (h : Works a ts p q is)
    (hclose : ∀ id, .close id ∉ ts) (id : CompositeId) :
    is.count (.composite id) + (if id ∈ p.composites then 1 else 0) ≤ if id ∈ q.composites then 1 else 0 := by
  induction h with
  | nil => simp
  | skip _ _ ih => exact ih fun i hi => hclose i (List.mem_cons_of_mem _ hi)
  | @define i ts p m q is js hp _ _ ihin ih =>
    have hin := ihin (close_notMem_embedded i)
    have hrest := ih fun i hi => hclose i (List.mem_cons_of_mem _ hi)
    dsimp only at hin hrest
    rw [List.count_append, List.count_cons]
    by_cases hi : i = id
    · subst hi
      simp only [List.mem_cons, true_or, if_true] at hin
      have hle : (if i ∈ m.composites then 1 else 0) ≤ 1 := by split <;> simp
      simp only [hp, if_false, beq_self_eq_true, if_true]
      omega
    · simp only [List.mem_cons, Ne.symm hi, false_or] at hin
      simp only [beq_iff_eq, Item.composite.injEq, hi, if_false]
      omega
  | @passThrough i ts p m q is js hp _ _ ihin ih =>
    have hin := ihin (close_notMem_embedded i)
    have hrest := ih fun i hi => hclose i (List.mem_cons_of_mem _ hi)
    dsimp only at hin
    rw [List.count_append]
    have hmono : (if id ∈ p.composites then 1 else 0) ≤ if id ∈ i :: p.composites then 1 else 0 := by
      by_cases hid : id ∈ p.composites <;> simp [hid]
    omega
  | @close i _ _ _ _ _ _ => exact absurd List.mem_cons_self (hclose i)
  | defineEnum _ _ ih =>
    rw [List.count_cons_of_ne (by simp)]
    exact ih fun i hi => hclose i (List.mem_cons_of_mem _ hi)

end Arena

end DebugSymbols
