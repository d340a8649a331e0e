import DebugSymbols.Proofs.Model.Merging
import DebugSymbols.Proofs.Model.Passes
import DebugSymbols.Proofs.Model.Renaming
import DebugSymbols.Proofs.Text.Words

/-!
# Clean names

Merging gives no names and renaming makes them up from those there are, so where
all names and tags are clean they stay so.
-/

namespace DebugSymbols

open Text (Clean IsWord)

structure Function.CleanNames (f : Function) : Prop where
  name : Clean f.name
  params : ∀ p ∈ f.signature.params, Clean p.name
  locals : ∀ b ∈ f.blocks, ∀ v ∈ b.locals, Clean v.name

structure Composite.CleanNames (c : Composite) : Prop where
  tag : Clean c.tag.text
  fields : ∀ x ∈ c.fields, Clean x.name

structure Enumeration.CleanNames (e : Enumeration) : Prop where
  tag : Clean e.tag.text
  members : ∀ m ∈ e.members, Clean m.name

/-! ## Names in types -/

mutual

/-- The names of the parameters of the functions in a type, at any depth. -/
def CType.paramNames : CType → List String
  | .pointer t => t.paramNames
  | .array t _ => t.paramNames
  | .function r ps _ => r.paramNames ++ declNames ps
  | _ => []

def declNames : List (Decl CType) → List String
  | [] => []
  | ⟨_, _, _, t, name⟩ :: ps => name :: (t.paramNames ++ declNames ps)

end

mutual

theorem CType.paramNames_renumber (f : Renumbering) : ∀ t : CType, (t.renumber f).paramNames = t.paramNames
  | .base b => rfl
  | .pointer t => CType.paramNames_renumber f t
  | .array t n => CType.paramNames_renumber f t
  | .function r ps v => by
    simp only [CType.renumber, CType.paramNames, CType.paramNames_renumber f r, declNames_renumber f ps]
  | .composite k i => rfl
  | .enum i => rfl
  | .typedef i => rfl

theorem declNames_renumber (f : Renumbering) :
    ∀ ps : List (Decl CType), declNames (renumberParams f ps) = declNames ps
  | [] => rfl
  | ⟨a, s, c, t, n⟩ :: ps => by
    simp only [renumberParams, declNames, CType.paramNames_renumber f t, declNames_renumber f ps]

end

/-! ## Names in overlays -/

theorem forall_getD {α : Type} {P : α → Prop} {l : List α} {d : α} (hl : ∀ a ∈ l, P a) (hd : P d) (i : Nat) :
    P (l.getD i d) := by
  rcases Arena.getD_mem_or l i d with hmem | hdefault
  · exact hl _ hmem
  · rw [hdefault]
    exact hd

theorem forall_mem_modify {α : Type} {P : α → Prop} {l : List α} {i : Nat} {f : α → α} (hl : ∀ a ∈ l, P a)
    (hf : ∀ a, P a → P (f a)) : ∀ a ∈ l.modify i f, P a := by
  intro a ha
  rcases mem_of_modify ha with ha | ⟨b, hb, rfl⟩
  · exact hl a ha
  · exact hf b (hl b hb)

namespace Overlay

/-- The names of all that is declared or defined in the overlay are clean, and its
tags as they are written. -/
structure CleanNames (o : Overlay) : Prop where
  vars : ∀ v ∈ o.vars, Clean v.name
  funcs : ∀ f ∈ o.funcs, f.CleanNames
  typedefs : ∀ d ∈ o.arena.typedefs, Clean d.name
  composites : ∀ c ∈ o.arena.composites, c.CleanNames
  enums : ∀ e ∈ o.arena.enums, e.CleanNames

namespace CleanNames

variable {o o' : Overlay}

/-! ## Entries -/

theorem var (h : o.CleanNames) (i : Nat) : Clean (o.var i).name :=
  forall_getD (P := fun v : Variable => Clean v.name) h.vars (by decide) i

theorem func (h : o.CleanNames) (i : Nat) : (o.func i).CleanNames :=
  forall_getD h.funcs ⟨by decide, List.forall_mem_nil _, List.forall_mem_nil _⟩ i

theorem composite (h : o.CleanNames) (id : CompositeId) : (o.arena.composite id).CleanNames :=
  forall_getD h.composites ⟨by decide, List.forall_mem_nil _⟩ id.index

theorem enumeration (h : o.CleanNames) (id : EnumId) : (o.arena.enumeration id).CleanNames :=
  forall_getD h.enums ⟨by decide, List.forall_mem_nil _⟩ id.index

/-! ## Changes -/

theorem of_same (h : o.CleanNames) (hv : o'.vars = o.vars) (hf : o'.funcs = o.funcs) (ha : o'.arena = o.arena) :
    o'.CleanNames := by
  obtain ⟨vars, funcs, typedefs, composites, enums⟩ := h
  constructor <;> simpa only [hv, hf, ha]

theorem modifyVar (h : o.CleanNames) (i : Nat) {f : Variable → Variable}
    (hf : ∀ v, Clean v.name → Clean (f v).name) : (o.modifyVar i f).CleanNames :=
  { h with vars := forall_mem_modify h.vars hf }

theorem modifyFunc (h : o.CleanNames) (i : Nat) {f : Function → Function}
    (hf : ∀ fn, fn.CleanNames → (f fn).CleanNames) : (o.modifyFunc i f).CleanNames :=
  { h with funcs := forall_mem_modify h.funcs hf }

theorem modifyComposite (h : o.CleanNames) (id : CompositeId) {f : Composite → Composite}
    (hf : ∀ c, c.CleanNames → (f c).CleanNames) : (o.modifyArena (·.modifyComposite id f)).CleanNames :=
  { h with composites := forall_mem_modify h.composites hf }

theorem modifyEnum (h : o.CleanNames) (id : EnumId) {f : Enumeration → Enumeration}
    (hf : ∀ e, e.CleanNames → (f e).CleanNames) : (o.modifyArena (·.modifyEnum id f)).CleanNames :=
  { h with enums := forall_mem_modify h.enums hf }

/-! ## Additions -/

theorem addVar (h : o.CleanNames) {v : Variable} (hv : Clean v.name) : (o.addVar v).CleanNames :=
  { h with vars := List.forall_mem_append.mpr ⟨h.vars, List.forall_mem_singleton.mpr hv⟩ }

theorem addFuncAs (h : o.CleanNames) (name : String) {f : Function} (hf : f.CleanNames) :
    (o.addFuncAs name f).CleanNames :=
  { h with funcs := List.forall_mem_append.mpr ⟨h.funcs, List.forall_mem_singleton.mpr hf⟩ }

theorem pushTypedef (h : o.CleanNames) {d : Variable} (hd : Clean d.name) :
    (o.modifyArena (·.pushTypedef d)).CleanNames :=
  { h with typedefs := List.forall_mem_append.mpr ⟨h.typedefs, List.forall_mem_singleton.mpr hd⟩ }

theorem addTypedef (h : o.CleanNames) {d : Variable} (hd : Clean d.name) : (o.addTypedef d).CleanNames :=
  (h.pushTypedef hd).of_same rfl rfl rfl

theorem addEnum (h : o.CleanNames) {e : Enumeration} (he : e.CleanNames) : (o.addEnum e).CleanNames :=
  { h with enums := List.forall_mem_append.mpr ⟨h.enums, List.forall_mem_singleton.mpr he⟩ }

theorem addComposite (h : o.CleanNames) {c : Composite} (hc : c.CleanNames) : (o.addComposite c).CleanNames := by
  have hpush : (o.modifyArena (·.pushComposite c)).CleanNames :=
    { h with composites := List.forall_mem_append.mpr ⟨h.composites, List.forall_mem_singleton.mpr hc⟩ }
  exact hpush.of_same (vars_addComposite o c) (funcs_addComposite o c) (arena_addComposite o c)

/-! ## Merging -/

theorem of_redirected (h : o.CleanNames) {f : Renumbering} (hr : Redirected f o o') : o'.CleanNames where
  vars := by
    rw [hr.vars, List.forall_mem_map]
    exact h.vars
  funcs := by
    rw [hr.funcs, List.forall_mem_map]
    intro fn hfn
    obtain ⟨hname, hparams, hlocals⟩ := h.funcs fn hfn
    refine ⟨hname, List.forall_mem_map.mpr hparams, List.forall_mem_map.mpr fun b hb => ?_⟩
    exact List.forall_mem_map.mpr (hlocals b hb)
  typedefs := by
    rw [hr.typedefs, List.forall_mem_map]
    exact h.typedefs
  composites := by
    intro c hc
    have hdef : c.definition ∈ o'.arena.composites.map (·.definition) := List.mem_map.mpr ⟨c, hc, rfl⟩
    rw [hr.composites] at hdef
    obtain ⟨d, hd, heq⟩ := List.mem_map.mp hdef
    have htag := congrArg Composite.tag heq
    have hfields : d.fields.map (Field.renumber f) = c.fields := congrArg Composite.fields heq
    obtain ⟨hclean, hnames⟩ := h.composites d hd
    refine ⟨htag ▸ hclean, ?_⟩
    rw [← hfields, List.forall_mem_map]
    exact hnames
  enums := by
    intro e he
    have hdef : e.definition ∈ o'.arena.enums.map (·.definition) := List.mem_map.mpr ⟨e, he, rfl⟩
    rw [hr.enums] at hdef
    obtain ⟨d, hd, heq⟩ := List.mem_map.mp hdef
    have htag := congrArg Enumeration.tag heq
    have hmembers := congrArg Enumeration.members heq
    obtain ⟨hclean, hnames⟩ := h.enums d hd
    exact ⟨htag ▸ hclean, hmembers ▸ hnames⟩

/-! ## Renaming -/

section
variable {r : Renaming}

theorem renameVar (h : r.overlay.CleanNames) (i : Nat) : (r.var i).overlay.CleanNames :=
  h.modifyVar i fun _ _ => clean_freshName (h.var i) _ _

theorem renameFunc (h : r.overlay.CleanNames) (key : String) (i : Nat) : (r.func key i).overlay.CleanNames := by
  unfold Renaming.func
  by_cases hkey : (r.overlay.func i).name = key
  · rw [if_pos hkey]
    have hclean : Clean key := hkey ▸ (h.func i).name
    exact h.modifyFunc i fun _ hf => { hf with name := clean_freshName hclean _ _ }
  · rw [if_neg hkey]
    exact h

variable {tag : Tag} (htag : Clean tag.text)
include htag

theorem renameComposite (h : r.overlay.CleanNames) (kind : CompositeKind) (entry : CompositeId × Nat) :
    (r.composite kind.letter tag entry).overlay.CleanNames := by
  have hletter : IsWord kind.letter := by cases kind <;> decide
  exact h.modifyComposite entry.1 fun _ hc => { hc with tag := Tag.clean_text_freshTag htag hletter _ _ }

theorem renameEnum (h : r.overlay.CleanNames) (entry : EnumId × Nat) : (r.enum tag entry).overlay.CleanNames :=
  h.modifyEnum entry.1 fun _ he => { he with tag := Tag.clean_text_freshTag htag (by decide) _ _ }

end

theorem foldl {ι : Type} {rename : Renaming → ι → Renaming} {is : List ι} {r : Renaming} (h : r.overlay.CleanNames)
    (hrename : ∀ r : Renaming, r.overlay.CleanNames → ∀ i ∈ is, (rename r i).overlay.CleanNames) :
    (is.foldl rename r).overlay.CleanNames :=
  List.foldlRecOn (motive := fun r : Renaming => r.overlay.CleanNames) is rename h hrename

theorem renameCollisions {ι : Type} {rename : Tag → Renaming → ι × Nat → Renaming} {groups : Groups Tag ι}
    {is : List ι} {key : ι → Tag} (hg : groups.Cut is key) (hkey : ∀ i, Clean (key i).text)
    (hrename : ∀ {tag r} entry, Clean tag.text → r.overlay.CleanNames → (rename tag r entry).overlay.CleanNames)
    {r : Renaming} (h : r.overlay.CleanNames) : (Renaming.collisions rename groups r).overlay.CleanNames := by
  rw [collisions_eq]
  refine foldl h fun r hr c hc => ?_
  have hclean : Clean c.1.text := (hg.of_mem_colliding hc).2 ▸ hkey c.2.1
  exact hrename c.2 hclean hr

theorem renameVars (h : o.CleanNames) : o.renameVars.overlay.CleanNames := by
  rw [renameVars_eq]
  exact foldl h fun _ hr i _ => hr.renameVar i

theorem renameFuncs (h : o.CleanNames) : o.renameFuncs.overlay.CleanNames := by
  unfold Overlay.renameFuncs
  rw [collisions_eq]
  exact foldl h fun _ hr c _ => hr.renameFunc c.1 c.2.1

theorem renameTags (h : o.CleanNames) (hg : o.TagsGrouped) : o.renameTags.overlay.CleanNames := by
  have hcomposites : ∀ (kind : CompositeKind) {r : Renaming}, r.overlay.CleanNames →
      (Renaming.collisions (Renaming.composite kind.letter) (o.composites kind).groups r).overlay.CleanNames :=
    fun kind _ => renameCollisions (hg.composites kind) (fun id => (h.composite id).tag)
      fun entry htag hr => hr.renameComposite htag kind entry
  have hboth := hcomposites .union (hcomposites .struct (r := { overlay := o, taken := o.tagTexts }) h)
  exact renameCollisions hg.enums (fun id => (h.enumeration id).tag)
    (fun entry htag hr => hr.renameEnum htag entry) hboth

theorem rename (h : o.CleanNames) (hg : o.TagsGrouped) : o.rename.1.CleanNames := by
  obtain ⟨vs, hvs⟩ := exists_vars_of_renames (renames_renameVars o)
  obtain ⟨fs, hfs⟩ := exists_funcs_of_renames (renames_renameFuncs o.renameVars.overlay)
  have hgrouped : o.renameVars.overlay.renameFuncs.overlay.TagsGrouped := by
    rw [hfs, hvs]
    exact hg.congr (fun kind => by cases kind <;> rfl) rfl rfl
  exact (h.renameVars.renameFuncs.renameTags hgrouped).of_same rfl rfl rfl

end CleanNames

end Overlay

end DebugSymbols
