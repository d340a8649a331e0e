import DebugSymbols.Model.Merge
import DebugSymbols.Proofs.Model.Entries

/-!
# Stored types

`o.Stores t size?`: the type `t` stands somewhere in the overlay, as that of a
variable, typedef, parameter, local or member, or as a function's result. With
it goes the recorded size in bytes, where there is one; bit fields and results
have none.
-/

namespace DebugSymbols

/-- The size in bytes; that of a bit field counts bits. -/
def Field.byteSize? (x : Field) : Option UInt32 :=
  if x.bitfield then none else some x.size

inductive Composite.Stores (c : Composite) : CType → Option UInt32 → Prop
  | field {x} (hx : x ∈ c.fields) : Stores c x.type x.byteSize?

inductive Function.Stores (f : Function) : CType → Option UInt32 → Prop
  | result : Stores f f.signature.result none
  | param {p} (hp : p ∈ f.signature.params) : Stores f p.type (some p.size)
  | blockLocal {b v} (hb : b ∈ f.blocks) (hv : v ∈ b.locals) : Stores f v.type (some v.size)

inductive Overlay.Stores (o : Overlay) : CType → Option UInt32 → Prop
  | var {v} (hv : v ∈ o.vars) : Stores o v.type (some v.size)
  | typedef {d} (hd : d ∈ o.arena.typedefs) : Stores o d.type (some d.size)
  | func {f t z} (hf : f ∈ o.funcs) (hs : f.Stores t z) : Stores o t z
  | composite {c t z} (hc : c ∈ o.arena.composites) (hs : c.Stores t z) : Stores o t z

theorem Overlay.not_stores_new (id addr length : UInt32) {t : CType} {z : Option UInt32} :
    ¬Overlay.Stores { id, addr, length } t z := by
  intro hs
  cases hs with
  | var hv => exact nomatch hv
  | typedef hd => exact nomatch hd
  | func hf => exact nomatch hf
  | composite hc => exact nomatch hc

/-! ## Parameters and locals -/

theorem Function.mem_params_addParam {f : Function} {p q : Variable} (h : q ∈ (f.addParam p).signature.params) :
    q ∈ f.signature.params ∨ q = p := by
  simp only [Function.addParam, Signature.addParam] at h
  split at h
  · exact .inl h
  · exact (List.mem_append.mp h).imp_right List.mem_singleton.mp

theorem Block.mem_locals_addLocal {b : Block} {v w : Variable} (h : w ∈ (b.addLocal v).locals) :
    w ∈ b.locals ∨ w = v := by
  unfold Block.addLocal at h
  split at h
  · exact .inl h
  · exact (List.mem_append.mp h).imp_right List.mem_singleton.mp

/-! ## What a change may add -/

section
variable {N : CType → Option UInt32 → Prop}

theorem Overlay.Stores.of_parts {o o' : Overlay} {t : CType} {z : Option UInt32} (h : o'.Stores t z)
    (hv : ∀ v ∈ o'.vars, v ∈ o.vars ∨ N v.type (some v.size))
    (ht : ∀ d ∈ o'.arena.typedefs, d ∈ o.arena.typedefs ∨ N d.type (some d.size))
    (hf : ∀ f ∈ o'.funcs, ∀ t z, f.Stores t z → (∃ g ∈ o.funcs, g.Stores t z) ∨ N t z)
    (hc : ∀ c ∈ o'.arena.composites, ∀ t z, c.Stores t z →
      (∃ d ∈ o.arena.composites, d.Stores t z) ∨ N t z) :
    o.Stores t z ∨ N t z := by
  cases h with
  | var h =>
    rcases hv _ h with h | h
    · exact .inl (.var h)
    · exact .inr h
  | typedef h =>
    rcases ht _ h with h | h
    · exact .inl (.typedef h)
    · exact .inr h
  | func h hs =>
    rcases hf _ h _ _ hs with ⟨g, hg, hs⟩ | h
    · exact .inl (.func hg hs)
    · exact .inr h
  | composite h hs =>
    rcases hc _ h _ _ hs with ⟨d, hd, hs⟩ | h
    · exact .inl (.composite hd hs)
    · exact .inr h

theorem Overlay.Stores.of_same {o o' : Overlay} {t : CType} {z : Option UInt32} (h : o'.Stores t z)
    (hv : o'.vars = o.vars) (ht : o'.arena.typedefs = o.arena.typedefs) (hf : o'.funcs = o.funcs)
    (hc : o'.arena.composites = o.arena.composites) : o.Stores t z := by
  cases h with
  | var h => exact .var (hv ▸ h)
  | typedef h => exact .typedef (ht ▸ h)
  | func h hs => exact .func (hf ▸ h) hs
  | composite h hs => exact .composite (hc ▸ h) hs

theorem mem_of_modify {α : Type} {l : List α} {i : Nat} {f : α → α} {a : α} (h : a ∈ l.modify i f) :
    a ∈ l ∨ ∃ b ∈ l, a = f b := by
  obtain ⟨j, hj⟩ := List.mem_iff_getElem?.mp h
  rw [List.getElem?_modify] at hj
  by_cases hij : i = j
  · simp only [hij, ite_true, Option.map_eq_map, Option.map_eq_some_iff] at hj
    obtain ⟨b, hb, rfl⟩ := hj
    exact .inr ⟨b, List.mem_of_getElem? hb, rfl⟩
  · simp only [hij, ite_false, Option.map_eq_map, Option.map_id_fun', id] at hj
    exact .inl (List.mem_of_getElem? hj)

theorem stores_modify {α : Type} {S : α → CType → Option UInt32 → Prop} {l : List α} {i : Nat} {f : α → α}
    (h : ∀ a ∈ l, ∀ t z, S (f a) t z → S a t z ∨ N t z) :
    ∀ a ∈ l.modify i f, ∀ t z, S a t z → (∃ b ∈ l, S b t z) ∨ N t z := by
  intro a ha t z hs
  rcases mem_of_modify ha with ha | ⟨b, hb, rfl⟩
  · exact .inl ⟨a, ha, hs⟩
  · rcases h b hb t z hs with hs | hn
    · exact .inl ⟨b, hb, hs⟩
    · exact .inr hn

theorem stores_concat {α : Type} {S : α → CType → Option UInt32 → Prop} {l : List α} {a : α}
    (h : ∀ t z, S a t z → N t z) :
    ∀ b ∈ l ++ [a], ∀ t z, S b t z → (∃ b ∈ l, S b t z) ∨ N t z := by
  intro b hb t z hs
  rcases List.mem_append.mp hb with hb | hb
  · exact .inl ⟨b, hb, hs⟩
  · rw [List.mem_singleton.mp hb] at hs
    exact .inr (h t z hs)

theorem stores_same {α : Type} {S : α → CType → Option UInt32 → Prop} {l : List α} :
    ∀ a ∈ l, ∀ t z, S a t z → (∃ b ∈ l, S b t z) ∨ N t z := fun a ha _ _ hs =>
  .inl ⟨a, ha, hs⟩

theorem mem_concat_or {l : List Variable} {v : Variable} (h : N v.type (some v.size)) :
    ∀ w ∈ l ++ [v], w ∈ l ∨ N w.type (some w.size) := by
  intro w hw
  rcases List.mem_append.mp hw with hw | hw
  · exact .inl hw
  · rw [List.mem_singleton.mp hw]
    exact .inr h

theorem Composite.Stores.of_fields {c d : Composite} {t : CType} {z : Option UInt32} (h : c.Stores t z)
    (hf : ∀ x ∈ c.fields, x ∈ d.fields ∨ N x.type x.byteSize?) : d.Stores t z ∨ N t z := by
  cases h with
  | field hx =>
    rcases hf _ hx with hx | hn
    · exact .inl (.field hx)
    · exact .inr hn

theorem Function.Stores.of_parts {f g : Function} {t : CType} {z : Option UInt32} (h : f.Stores t z)
    (hr : f.signature.result = g.signature.result)
    (hp : ∀ p ∈ f.signature.params, p ∈ g.signature.params ∨ N p.type (some p.size))
    (hb : ∀ b ∈ f.blocks, ∀ v ∈ b.locals,
      (∃ c ∈ g.blocks, v ∈ c.locals) ∨ N v.type (some v.size)) : g.Stores t z ∨ N t z := by
  cases h with
  | result => rw [hr]; exact .inl .result
  | param h =>
    rcases hp _ h with h | hn
    · exact .inl (.param h)
    · exact .inr hn
  | blockLocal h hv =>
    rcases hb _ h _ hv with ⟨c, hc, hv⟩ | hn
    · exact .inl (.blockLocal hc hv)
    · exact .inr hn

end

/-! ## Handles in types -/

mutual

/-- The structs, unions, enums and typedefs that a type names, at any depth. -/
def CType.handles : CType → List CType
  | .base _ => []
  | .pointer t => t.handles
  | .array t _ => t.handles
  | .function r ps _ => r.handles ++ paramHandles ps
  | .composite k i => [.composite k i]
  | .enum i => [.enum i]
  | .typedef i => [.typedef i]

def paramHandles : List (Decl CType) → List CType
  | [] => []
  | ⟨_, _, _, t, _⟩ :: ps => t.handles ++ paramHandles ps

end

theorem CType.handles_stripArrays : ∀ t : CType, t.stripArrays.handles = t.handles
  | .array t _ => handles_stripArrays t
  | .base _ => rfl
  | .pointer _ => rfl
  | .function _ _ _ => rfl
  | .composite _ _ => rfl
  | .enum _ => rfl
  | .typedef _ => rfl

mutual

theorem CType.handles_renumber (f : Renumbering) :
    ∀ t : CType, (t.renumber f).handles = t.handles.map (·.renumber f)
  | .base b => rfl
  | .pointer t => CType.handles_renumber f t
  | .array t n => CType.handles_renumber f t
  | .function r ps v => by
    simp only [CType.renumber, CType.handles, List.map_append, CType.handles_renumber f r,
      paramHandles_renumber f ps]
  | .composite k i => rfl
  | .enum i => rfl
  | .typedef i => rfl

theorem paramHandles_renumber (f : Renumbering) :
    ∀ ps : List (Decl CType), paramHandles (renumberParams f ps) = (paramHandles ps).map (·.renumber f)
  | [] => rfl
  | ⟨a, s, c, t, n⟩ :: ps => by
    simp only [renumberParams, paramHandles, List.map_append, CType.handles_renumber f t,
      paramHandles_renumber f ps]

end

end DebugSymbols
