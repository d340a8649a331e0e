import DebugSymbols.Model.Rename
import DebugSymbols.Proofs.Model.Collisions
import DebugSymbols.Proofs.Model.Entries
import DebugSymbols.Proofs.Model.FreshNames

/-!
# Giving names

`Gives xs r r'`: what renaming does from `r` to `r'` is to give each of `xs` a
name or tag that was not taken, and that none of the others gets. Each of the
three passes of renaming gives names to what collides in it.
-/

namespace DebugSymbols

/-- What goes by a name or by a tag of its own. -/
inductive Entity where
  | var (i : Nat)
  | func (i : Nat)
  | composite (id : CompositeId)
  | enum (id : EnumId)
  deriving DecidableEq

namespace Overlay

/-- The tag of an entity. A name is a tag that a person wrote. -/
def label (o : Overlay) : Entity → Tag
  | .var i => .named (o.var i).name
  | .func i => .named (o.func i).name
  | .composite id => (o.arena.composite id).tag
  | .enum id => (o.arena.enumeration id).tag

def Has (o : Overlay) : Entity → Prop
  | .var i => i < o.vars.length
  | .func i => i < o.funcs.length
  | .composite id => id.index < o.arena.composites.length
  | .enum id => id.index < o.arena.enums.length

variable (o : Overlay)

theorem label_modifyVar {i : Nat} (hi : i < o.vars.length) (name : String) (x : Entity) :
    (o.modifyVar i fun v => { v with name }).label x = if x = .var i then .named name else o.label x := by
  cases x with
  | var j =>
    simp only [label, var, modifyVar, List.getD_eq_getElem?_getD, Arena.getD_modify, Entity.var.injEq]
    by_cases hij : i = j
    · subst hij
      simp [hi]
    · simp [hij, Ne.symm hij]
  | _ => rfl

theorem label_modifyFunc {i : Nat} (hi : i < o.funcs.length) (name : String) (x : Entity) :
    (o.modifyFunc i fun f => { f with name }).label x = if x = .func i then .named name else o.label x := by
  cases x with
  | func j =>
    simp only [label, func, modifyFunc, List.getD_eq_getElem?_getD, Arena.getD_modify, Entity.func.injEq]
    by_cases hij : i = j
    · subst hij
      simp [hi]
    · simp [hij, Ne.symm hij]
  | _ => rfl

theorem label_modifyComposite {id : CompositeId} (hid : id.index < o.arena.composites.length) (tag : Tag) (x : Entity) :
    (o.modifyArena (·.modifyComposite id fun c => { c with tag })).label x =
      if x = .composite id then tag else o.label x := by
  cases x with
  | composite j =>
    simp only [label, modifyArena, Arena.composite_modifyComposite, Entity.composite.injEq]
    by_cases hij : id = j
    · subst hij
      simp [hid]
    · simp [hij, Ne.symm hij]
  | _ => rfl

theorem label_modifyEnum {id : EnumId} (hid : id.index < o.arena.enums.length) (tag : Tag) (x : Entity) :
    (o.modifyArena (·.modifyEnum id fun e => { e with tag })).label x =
      if x = .enum id then tag else o.label x := by
  cases x with
  | enum j =>
    simp only [label, modifyArena, Arena.enumeration_modifyEnum, Entity.enum.injEq]
    by_cases hij : id = j
    · subst hij
      simp [hid]
    · simp [hij, Ne.symm hij]
  | _ => rfl

end Overlay

/-! ## Runs of names -/

structure Gives (xs : List Entity) (r r' : Renaming) : Prop where
  has : ∀ x, r'.overlay.Has x ↔ r.overlay.Has x
  others : ∀ x ∉ xs, r'.overlay.label x = r.overlay.label x
  fresh : ∀ x ∈ xs, (r'.overlay.label x).text ∉ r.taken
  apart : ∀ x ∈ xs, ∀ y ∈ xs, (r'.overlay.label x).text = (r'.overlay.label y).text → x = y
  taken : ∀ s, s ∈ r'.taken ↔ s ∈ r.taken ∨ ∃ x ∈ xs, (r'.overlay.label x).text = s
  anonymous : ∀ x, (r'.overlay.label x).isAnonymous = (r.overlay.label x).isAnonymous
  count : r'.count = r.count + xs.length

namespace Gives

variable {xs ys : List Entity} {r r' r'' : Renaming}

theorem refl (r : Renaming) : Gives [] r r where
  has _ := Iff.rfl
  others _ _ := rfl
  fresh _ hx := nomatch hx
  apart _ hx := nomatch hx
  taken s := by simp
  anonymous _ := rfl
  count := rfl

theorem trans (h : Gives xs r r') (h' : Gives ys r' r'') (hd : ∀ x ∈ xs, x ∉ ys) : Gives (xs ++ ys) r r'' := by
  have hkept : ∀ x ∈ xs, r''.overlay.label x = r'.overlay.label x := fun x hx => h'.others x (hd x hx)
  -- what came first is taken when the others get theirs
  have hcross : ∀ x ∈ xs, ∀ y ∈ ys, (r''.overlay.label x).text ≠ (r''.overlay.label y).text := by
    intro x hx y hy heq
    have hgiven : (r''.overlay.label y).text ∈ r'.taken := by
      refine (h.taken _).mpr (.inr ⟨x, hx, ?_⟩)
      rw [← hkept x hx, heq]
    exact h'.fresh y hy hgiven
  constructor
  · exact fun x => (h'.has x).trans (h.has x)
  · intro x hx
    rw [List.mem_append, not_or] at hx
    rw [h'.others x hx.2, h.others x hx.1]
  · intro x hx
    rcases List.mem_append.mp hx with hx | hx
    · rw [hkept x hx]
      exact h.fresh x hx
    · exact fun hold => h'.fresh x hx ((h.taken _).mpr (.inl hold))
  · intro x hx y hy heq
    rcases List.mem_append.mp hx with hx | hx <;> rcases List.mem_append.mp hy with hy | hy
    · rw [hkept x hx, hkept y hy] at heq
      exact h.apart x hx y hy heq
    · exact absurd heq (hcross x hx y hy)
    · exact absurd heq.symm (hcross y hy x hx)
    · exact h'.apart x hx y hy heq
  · intro s
    rw [h'.taken, h.taken, or_assoc]
    have hfirst : (∃ x ∈ xs, (r'.overlay.label x).text = s) ↔ ∃ x ∈ xs, (r''.overlay.label x).text = s :=
      exists_congr fun x => and_congr_right fun hx => by rw [hkept x hx]
    rw [hfirst, ← exists_or]
    simp only [List.mem_append, or_and_right]
  · exact fun x => (h'.anonymous x).trans (h.anonymous x)
  · rw [h'.count, h.count, List.length_append, Nat.add_assoc]

theorem single {x : Entity} {fresh : Tag} (hhas : ∀ y, r'.overlay.Has y ↔ r.overlay.Has y)
    (hlabel : ∀ y, r'.overlay.label y = if y = x then fresh else r.overlay.label y) (hfresh : fresh.text ∉ r.taken)
    (htaken : r'.taken = fresh.text :: r.taken) (hcount : r'.count = r.count + 1)
    (hanonymous : fresh.isAnonymous = (r.overlay.label x).isAnonymous) : Gives [x] r r' := by
  have hx : r'.overlay.label x = fresh := by rw [hlabel, if_pos rfl]
  constructor
  · exact hhas
  · intro y hy
    rw [hlabel, if_neg (by simpa using hy)]
  · intro y hy
    rw [List.mem_singleton.mp hy, hx]
    exact hfresh
  · intro y hy z hz _
    rw [List.mem_singleton.mp hy, List.mem_singleton.mp hz]
  · intro s
    rw [htaken, List.mem_cons]
    simp only [List.mem_singleton, exists_eq_left, hx]
    rw [or_comm, eq_comm]
  · intro y
    rw [hlabel]
    by_cases hy : y = x
    · rw [if_pos hy, hy]
      exact hanonymous
    · rw [if_neg hy]
  · exact hcount

/-- Names are given one after another: if `p` holds of an item its entity gets
one, and else nothing happens. The items stand for different entities. -/
theorem foldl {ι : Type} (is : List ι) (rename : Renaming → ι → Renaming) (entity : ι → Entity) (p : ι → Bool) :
    ∀ r : Renaming, (is.map entity).Nodup →
      (∀ i ∈ is, ∀ r' : Renaming, (r'.overlay.Has (entity i) ↔ r.overlay.Has (entity i)) →
        r'.overlay.label (entity i) = r.overlay.label (entity i) →
        if p i then Gives [entity i] r' (rename r' i) else rename r' i = r') →
      Gives ((is.filter p).map entity) r (is.foldl rename r) := by
  induction is with
  | nil => exact fun r _ _ => refl r
  | cons i is ih =>
    intro r hnd hstep
    rw [List.map_cons, List.nodup_cons] at hnd
    have hne : ∀ j ∈ is, entity j ≠ entity i := fun j hj heq => hnd.1 (List.mem_map.mpr ⟨j, hj, heq⟩)
    have hfirst := hstep i List.mem_cons_self r Iff.rfl rfl
    rw [List.foldl_cons]
    by_cases hp : p i = true
    · rw [if_pos hp] at hfirst
      rw [List.filter_cons_of_pos hp, List.map_cons]
      have hrest : Gives ((is.filter p).map entity) (rename r i) (is.foldl rename (rename r i)) := by
        refine ih _ hnd.2 fun j hj r' hhas hlabel => ?_
        refine hstep j (List.mem_cons_of_mem _ hj) r' (hhas.trans (hfirst.has _)) (hlabel.trans ?_)
        exact hfirst.others _ (by simpa using hne j hj)
      have hapart : ∀ x ∈ [entity i], x ∉ (is.filter p).map entity := by
        intro x hx hmem
        rw [List.mem_singleton.mp hx] at hmem
        obtain ⟨j, hj, heq⟩ := List.mem_map.mp hmem
        exact hne j (List.mem_filter.mp hj).1 heq
      exact hfirst.trans hrest hapart
    · rw [if_neg hp] at hfirst
      rw [List.filter_cons_of_neg hp, hfirst]
      exact ih r hnd.2 fun j hj => hstep j (List.mem_cons_of_mem _ hj)

end Gives

end DebugSymbols
