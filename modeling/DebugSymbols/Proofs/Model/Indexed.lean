import DebugSymbols.Proofs.Model.Grouping
import DebugSymbols.Proofs.Model.Stored

/-!
# Indexed overlays

Every list of an overlay names distinct entries of the arena and stands beside
its groups. The null base type alone is in no list. The handles in stored types
are those of listed entries and of the null base type.
-/

namespace DebugSymbols.Overlay

structure Indexed (o : Overlay) : Prop where
  composites : ∀ kind, (o.composites kind).Indexes fun id => (o.arena.composite id).tag
  composite_mem : ∀ kind, ∀ id ∈ (o.composites kind).listed,
    id.index < o.arena.composites.length ∧ (o.arena.composite id).kind = kind
  enums : o.enums.Indexes fun id => (o.arena.enumeration id).tag
  enum_mem : ∀ id ∈ o.enums.listed, id.index < o.arena.enums.length
  typedefs : o.typedefs.Indexes fun id => (o.arena.typedef id).name
  typedef_mem : ∀ id ∈ o.typedefs.listed, id.index < o.arena.typedefs.length ∧ o.nullTypedef ≠ some id
  null_mem : ∀ id, o.nullTypedef = some id → id.index < o.arena.typedefs.length

def Lists (o : Overlay) : CType → Prop
  | .composite k i => i ∈ (o.composites k).listed
  | .enum i => i ∈ o.enums.listed
  | .typedef i => i ∈ o.typedefs.listed ∨ o.nullTypedef = some i
  | _ => True

instance (o : Overlay) : (t : CType) → Decidable (o.Lists t)
  | .composite k i => inferInstanceAs (Decidable (i ∈ (o.composites k).listed))
  | .enum i => inferInstanceAs (Decidable (i ∈ o.enums.listed))
  | .typedef i => inferInstanceAs (Decidable (i ∈ o.typedefs.listed ∨ o.nullTypedef = some i))
  | .base _ => .isTrue trivial
  | .pointer _ => .isTrue trivial
  | .array _ _ => .isTrue trivial
  | .function _ _ _ => .isTrue trivial

def HandlesListed (o : Overlay) : Prop :=
  ∀ t z, o.Stores t z → ∀ h ∈ t.handles, o.Lists h

variable {o o' : Overlay}

theorem Lists.mono {t : CType} (ht : o.Lists t)
    (hc : ∀ kind, (o.composites kind).listed ⊆ (o'.composites kind).listed)
    (he : o.enums.listed ⊆ o'.enums.listed) (htd : o.typedefs.listed ⊆ o'.typedefs.listed)
    (hn : ∀ id, o.nullTypedef = some id → o'.nullTypedef = some id) : o'.Lists t := by
  cases t with
  | composite k i => exact hc k ht
  | enum i => exact he ht
  | typedef i =>
    obtain ht | ht := ht
    · exact .inl (htd ht)
    · exact .inr (hn i ht)
  | _ => trivial

end DebugSymbols.Overlay
