import DebugSymbols.Build.Reference
import DebugSymbols.Proofs.Print.Grammar

/-!
# Spines

What a type derives from what, from the outside in. `derive_spine`: modifiers
and dimensions come out in the order in which they went in, and nothing else
stands between them and the base.
-/

namespace DebugSymbols

/-! ## Reading and building -/

/-- The outermost `n` derivations, or as many as there are, and what is under them. -/
def CType.peel : Nat → CType → List Derivation × CType
  | n + 1, .pointer t => (.pointer :: (t.peel n).1, (t.peel n).2)
  | n + 1, .array t length => (.array length :: (t.peel n).1, (t.peel n).2)
  | n + 1, .function r ps variadic => (.function ps variadic :: (r.peel n).1, (r.peel n).2)
  | _, t => ([], t)

theorem CType.peel_foldr (base : CType) (ds : List Derivation) :
    (ds.foldr Derivation.apply base).peel ds.length = (ds, base) := by
  induction ds with
  | nil => rfl
  | cons d ds ih => cases d <;> simp [Derivation.apply, peel, ih]

namespace Derivation

def modifier : Derivation → Modifier
  | pointer => .pointer
  | array _ => .array
  | function _ _ => .function

def length? : Derivation → Option UInt32
  | array n => some n
  | _ => none

/-- A function of no parameters, and not of any number of them either. -/
def Bare : Derivation → Prop
  | function ps variadic => ps = [] ∧ variadic = false
  | _ => True

end Derivation

/-- The derivations that modifiers stand for; the arrays take the dimensions. -/
def spine : List Modifier → List UInt32 → List Derivation
  | [], _ => []
  | .pointer :: ms, dims => .pointer :: spine ms dims
  | .function :: ms, dims => .function [] false :: spine ms dims
  | .array :: ms, dims => .array (dims.headD 0) :: spine ms dims.tail

theorem CType.derive_eq_foldr (base : CType) : ∀ (mods : List Modifier) (dims : List UInt32),
    base.derive mods dims = (spine mods dims).foldr Derivation.apply base
  | [], _ => rfl
  | .pointer :: ms, dims => by
    rw [derive_pointer, derive_eq_foldr base ms dims]
    rfl
  | .function :: ms, dims => by
    rw [derive_function, derive_eq_foldr base ms dims]
    rfl
  | .array :: ms, dims => by
    rw [derive_array, derive_eq_foldr base ms dims.tail]
    rfl

/-! ## What the spine says -/

theorem map_modifier_spine : ∀ (mods : List Modifier) (dims : List UInt32),
    (spine mods dims).map Derivation.modifier = mods
  | [], _ => rfl
  | .pointer :: ms, dims => congrArg (Modifier.pointer :: ·) (map_modifier_spine ms dims)
  | .function :: ms, dims => congrArg (Modifier.function :: ·) (map_modifier_spine ms dims)
  | .array :: ms, dims => congrArg (Modifier.array :: ·) (map_modifier_spine ms dims.tail)

theorem map_getD_range_succ (n : Nat) (dims : List UInt32) :
    (List.range (n + 1)).map (dims.getD · 0) = dims.headD 0 :: (List.range n).map (dims.tail.getD · 0) := by
  rw [List.range_succ_eq_map, List.map_cons, List.map_map]
  cases dims <;> rfl

theorem lengths_spine : ∀ (mods : List Modifier) (dims : List UInt32),
    (spine mods dims).filterMap Derivation.length? = (List.range (mods.count .array)).map (dims.getD · 0)
  | [], _ => rfl
  | .pointer :: ms, dims => lengths_spine ms dims
  | .function :: ms, dims => lengths_spine ms dims
  | .array :: ms, dims => by
    rw [List.count_cons_self, map_getD_range_succ, ← lengths_spine ms dims.tail]
    rfl

theorem bare_of_mem_spine : ∀ (mods : List Modifier) (dims : List UInt32), ∀ d ∈ spine mods dims, d.Bare
  | [], _ => fun _ hd => nomatch hd
  | .pointer :: ms, dims => List.forall_mem_cons.mpr ⟨trivial, bare_of_mem_spine ms dims⟩
  | .function :: ms, dims => List.forall_mem_cons.mpr ⟨⟨rfl, rfl⟩, bare_of_mem_spine ms dims⟩
  | .array :: ms, dims => List.forall_mem_cons.mpr ⟨trivial, bare_of_mem_spine ms dims.tail⟩

/-- Arrays for which no dimension is left have no length, and dimensions for which
no array is left make no difference. -/
theorem CType.derive_spine (base : CType) (mods : List Modifier) (dims : List UInt32) :
    ∃ ds, (base.derive mods dims).peel mods.length = (ds, base) ∧ ds.map Derivation.modifier = mods ∧
      ds.filterMap Derivation.length? = (List.range (mods.count .array)).map (dims.getD · 0) ∧
      ∀ d ∈ ds, d.Bare := by
  have hlength : (spine mods dims).length = mods.length := by
    have hmap := congrArg List.length (map_modifier_spine mods dims)
    rwa [List.length_map] at hmap
  refine ⟨spine mods dims, ?_, map_modifier_spine mods dims, lengths_spine mods dims, bare_of_mem_spine mods dims⟩
  rw [derive_eq_foldr, ← hlength, peel_foldr]

/-- `int *(*name[2])()[]`, where the last array has no dimension left. -/
example : (CType.base .int).derive [.array, .pointer, .function, .array, .pointer] [2] =
    .array (.pointer (.function (.array (.pointer (.base .int)) 0) [] false)) 2 := rfl

end DebugSymbols
