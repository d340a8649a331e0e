import DebugSymbols.Proofs.Build.Sizes
import DebugSymbols.Proofs.Merge
import DebugSymbols.Proofs.Model.Renaming
import DebugSymbols.SymbolTable

/-!
# Recorded sizes

`sizesExact_of_produced`: whatever was filled in, merged or renamed since, a
declaration that was recorded with a size has the size of its type.
-/

namespace DebugSymbols

namespace Overlay

variable {o o' : Overlay}

/-! ## After merging and renaming -/

theorem keepsSizes_merge (ho : o.Indexed) : KeepsSizes o.canon o o.merge.1 where
  composite id _ := by
    have hmerged := (merge_merged ho).redirected.compositeLikeness (o.canon.composite id)
    exact congrArg (·.2.2.1) (hmerged.trans (likeness_canon ho id))
  null id hid := by
    rw [canon_null ho hid, (merge_merged ho).redirected.nullTypedef]
    exact hid

theorem nullSettled_merge (ho : o.Indexed) (hn : o.NullSettled) : o.merge.1.NullSettled := by
  have hr := (merge_merged ho).redirected
  intro id hid
  rw [hr.nullTypedef] at hid
  obtain ⟨hlt, hbool⟩ := hn id hid
  rw [hr.typedefCount, hr.typedef, hbool]
  exact ⟨hlt, rfl⟩

theorem sizesAgree_merge (ho : o.Indexed) (hs : o.SizesAgree) : o.merge.1.SizesAgree where
  null := nullSettled_merge ho hs.null
  stored t size hstores := by
    obtain ⟨s, hold, rfl⟩ := (merge_merged ho).redirected.stores hstores
    exact (hs.stored s size hold).renumber (keepsSizes_merge ho) hs.null (nullSettled_merge ho hs.null)

theorem SameTypes.sizesAgree (h : SameTypes o o') (hs : o.SizesAgree) : o'.SizesAgree := by
  have hkeeps : KeepsSizes {} o o' := ⟨fun id _ => h.size id, fun id hid => h.nullTypedef.trans hid⟩
  have hnull : o'.NullSettled := hs.null.of_eq h.typedefs h.nullTypedef
  refine ⟨hnull, fun t size hstores => ?_⟩
  have hagrees := (hs.stored t size (h.stores hstores)).renumber hkeeps hs.null hnull
  rwa [CType.renumber_id] at hagrees

/-! ## All overlays -/

/-- An overlay of a builder after any walks, failed ones included, or of a
finished table. -/
inductive Produced : Overlay → Prop
  | walked {o : Overlay} (chunks : List (List Record)) (h : o ∈ (Builder.afterWalks chunks).overlays) :
      Produced o
  | finished {o : Overlay} (file : SymbolFile) {table : SymbolTable}
      (h : (SymbolTable.ofFile file).value = .ok table) (ho : o ∈ table.overlays) : Produced o

theorem sizesAgree_afterWalks (chunks : List (List Record)) :
    ∀ o ∈ (Builder.afterWalks chunks).overlays, o.SizesAgree :=
  Builder.forall_overlays_afterWalks sizesAgree_new (fun _ _ h => h.sizesAgree) chunks

theorem mem_ofFile {file : SymbolFile} {table : SymbolTable} (h : (SymbolTable.ofFile file).value = .ok table)
    (ho : o ∈ table.overlays) : ∃ b ∈ (Builder.afterWalks [file.records]).overlays, o = b.merge.1.rename.1 := by
  unfold SymbolTable.ofFile at h
  dsimp only at h
  cases hb : (Builder.build file.records).result with
  | error e =>
    rw [hb] at h
    exact nomatch h
  | ok overlays =>
    rw [hb] at h
    cases h
    rw [Builder.overlays_of_build hb, List.map_map] at ho
    obtain ⟨b, hmem, heq⟩ := List.mem_map.mp ho
    exact ⟨b, hmem, heq.symm⟩

theorem Produced.sizesAgree (h : o.Produced) : o.SizesAgree := by
  cases h with
  | walked chunks h => exact sizesAgree_afterWalks chunks o h
  | finished file h ho =>
    obtain ⟨b, hb, rfl⟩ := mem_ofFile h ho
    have hmerged := sizesAgree_merge (Builder.indexed_afterWalks _ b hb).1 (sizesAgree_afterWalks _ b hb)
    exact (sameTypes_rename b.merge.1).sizesAgree hmerged

/-- A size other than zero is the computable size of the type. -/
def SizeExact (o : Overlay) (t : CType) (size : UInt32) : Prop :=
  size ≠ 0 → ∀ c, o.arena.size? t = some c → size = c

structure SizesExact (o : Overlay) : Prop where
  vars : ∀ v ∈ o.vars, o.SizeExact v.type v.size
  typedefs : ∀ d ∈ o.arena.typedefs, o.SizeExact d.type d.size
  params : ∀ f ∈ o.funcs, ∀ p ∈ f.signature.params, o.SizeExact p.type p.size
  locals : ∀ f ∈ o.funcs, ∀ b ∈ f.blocks, ∀ v ∈ b.locals, o.SizeExact v.type v.size
  fields : ∀ c ∈ o.arena.composites, ∀ x ∈ c.fields, x.bitfield = false → o.SizeExact x.type x.size

theorem sizesExact_of_produced (h : o.Produced) : o.SizesExact := by
  have hexact : ∀ t size, o.Stores t (some size) → o.SizeExact t size := fun t size hs hz =>
    (h.sizesAgree.stored t size hs hz).2
  constructor
  · exact fun v hv => hexact _ _ (.var hv)
  · exact fun d hd => hexact _ _ (.typedef hd)
  · exact fun f hf p hp => hexact _ _ (.func hf (.param hp))
  · exact fun f hf b hb v hv => hexact _ _ (.func hf (.blockLocal hb hv))
  · intro c hc x hx hbit
    have hsize : x.byteSize? = some x.size := by
      unfold Field.byteSize?
      rw [hbit]
      rfl
    exact hexact _ _ (hsize ▸ .composite hc (.field hx))

theorem sizesExact_twoCopies :
    twoCopies.vars.map (fun v => (v.size, twoCopies.arena.size? v.type)) = [(4, some 4), (4, some 4)] ∧
      twoCopies.SizesExact :=
  ⟨by decide +kernel, sizesExact_of_produced (.walked [structCopy ++ structCopy] (by decide +kernel))⟩

end Overlay

end DebugSymbols
