import DebugSymbols.Proofs.Build.CleanNames
import DebugSymbols.Proofs.Sizes
import DebugSymbols.Proofs.UniqueNames

/-!
# Finished overlays

What the lists of an overlay are like once it has been merged and renamed: they
name nothing twice, and all that a type refers to is in them. Its names are clean.
-/

namespace DebugSymbols.Overlay

structure Closed (o : Overlay) : Prop where
  composites : ∀ kind, (o.composites kind).listed.Nodup
  kind : ∀ kind, ∀ id ∈ (o.composites kind).listed, (o.arena.composite id).kind = kind
  enums : o.enums.listed.Nodup
  typedefs : o.typedefs.listed.Nodup
  null : ∀ id ∈ o.typedefs.listed, o.nullTypedef ≠ some id
  handles : o.HandlesListed

variable {o o' : Overlay}

theorem closed_merge (ho : o.Indexed) (hl : o.HandlesListed) : o.merge.1.Closed where
  composites kind := by
    rw [composites_merge ho]
    exact (ho.composites kind).nodup.filter _
  kind kind id hid := by
    rw [composites_merge ho] at hid
    rw [(merge_merged ho).redirected.kind]
    exact (ho.composite_mem kind id (List.mem_filter.mp hid).1).2
  enums := by
    rw [(merge_merged ho).enums]
    exact ho.enums.nodup.filter _
  typedefs := by
    rw [(merge_merged ho).typedefs]
    exact ho.typedefs.nodup.filter _
  null id hid := by
    rw [(merge_merged ho).typedefs] at hid
    rw [(merge_merged ho).redirected.nullTypedef]
    exact (ho.typedef_mem id (List.mem_filter.mp hid).1).2
  handles := handlesListed_merge ho hl

theorem SameLists.lists (h : SameLists o o') (hn : o'.nullTypedef = o.nullTypedef) {t : CType} (ht : o.Lists t) :
    o'.Lists t :=
  ht.mono (fun kind => by rw [h.composites kind]; exact fun _ h => h) (by rw [h.enums]; exact fun _ h => h)
    (by rw [h.typedefs]; exact fun _ h => h) fun id hid => by rw [hn, hid]

theorem Closed.rename (h : o.Closed) : o.rename.1.Closed where
  composites kind := by
    rw [(sameLists_rename o).composites]
    exact h.composites kind
  kind kind id hid := by
    rw [(sameLists_rename o).composites] at hid
    rw [(sameLists_rename o).kind]
    exact h.kind kind id hid
  enums := by
    rw [(sameLists_rename o).enums]
    exact h.enums
  typedefs := by
    rw [(sameLists_rename o).typedefs]
    exact h.typedefs
  null id hid := by
    rw [(sameLists_rename o).typedefs] at hid
    rw [(sameTypes_rename o).nullTypedef]
    exact h.null id hid
  handles t z hs i hi :=
    (sameLists_rename o).lists (sameTypes_rename o).nullTypedef (h.handles t z ((sameTypes_rename o).stores hs) i hi)

theorem closed_of_mem {file : SymbolFile} {table : SymbolTable} (h : (SymbolTable.ofFile file).value = .ok table)
    (ho : o ∈ table.overlays) : o.Closed := by
  obtain ⟨b, hb, rfl⟩ := mem_ofFile h ho
  obtain ⟨hi, hl⟩ := Builder.indexed_afterWalks [file.records] b hb
  exact (closed_merge hi hl).rename

theorem clean_of_mem {file : SymbolFile} {table : SymbolTable} (h : (SymbolTable.ofFile file).value = .ok table)
    (ho : o ∈ table.overlays) : o.CleanNames ∧ o.Unnamed := by
  obtain ⟨b, hb, rfl⟩ := mem_ofFile h ho
  have hsound : b.Sound := Builder.forall_overlays_afterWalks sound_new (fun _ _ he => he.sound) _ b hb
  have hclean : b.CleanNames := Builder.forall_overlays_afterWalks cleanNames_new (fun _ _ he => he.cleanNames) _ b hb
  have hunnamed : b.Unnamed := Builder.forall_overlays_afterWalks unnamed_new (fun _ _ he => he.unnamed) _ b hb
  have hmerged : b.merge.1.CleanNames := hclean.of_redirected (merge_merged hsound.indexed).redirected
  exact ⟨hmerged.rename (hsound.renamable.tags.merge hsound.indexed), (hunnamed.merge hsound.indexed).rename⟩

theorem cleanArena_of_mem {file : SymbolFile} {table : SymbolTable}
    (h : (SymbolTable.ofFile file).value = .ok table) (ho : o ∈ table.overlays) : o.arena.CleanNames :=
  (clean_of_mem h ho).1.arena (clean_of_mem h ho).2

end DebugSymbols.Overlay
