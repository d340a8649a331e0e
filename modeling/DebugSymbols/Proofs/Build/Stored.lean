import DebugSymbols.Proofs.Build.Edits
import DebugSymbols.Proofs.Model.Stored

/-!
# What edits store

`Edit.stores_cases`: a type stored after an edit was stored before it or comes
from the definition that the edit takes in.
-/

namespace DebugSymbols

/-! ## Derived types -/

theorem CType.handles_derive (base : CType) : ∀ (mods : List Modifier) (dims : List UInt32),
    (base.derive mods dims).handles = base.handles
  | [], _ => rfl
  | .pointer :: ms, dims => by
    rw [derive_pointer]
    exact CType.handles_derive base ms dims
  | .function :: ms, dims => by
    simp only [derive_function, CType.handles, paramHandles, List.append_nil, CType.handles_derive base ms dims]
  | .array :: ms, dims => by
    rw [derive_array]
    exact CType.handles_derive base ms dims.tail

namespace Overlay

variable {o o' : Overlay} {t : CType} {z : Option UInt32}

theorem RefersBase.ne_function {d : SymbolDef} {base r : CType} {ps : List Variable} {v : Bool}
    (h : o.RefersBase d base) : base ≠ .function r ps v := by
  cases h <;> exact fun h => nomatch h

theorem Refers.params_eq_nil {d : SymbolDef} {r : CType} {ps : List Variable} {v : Bool}
    (h : o.Refers d (.function r ps v)) : ps = [] := by
  obtain ⟨base, hb, ht⟩ := h
  rcases hm : d.word.modifiers with _ | ⟨m, ms⟩
  · rw [hm] at ht
    exact absurd ht.symm hb.ne_function
  · rw [hm] at ht
    cases m <;> simp at ht
    exact ht.2.1

theorem addGlobal_cases {d : SymbolDef} {v : Variable} (h : o.Declared d v) :
    o.addGlobal v = o.addVar v ∨
      ∃ result variadic, v.type = .function result [] variadic ∧
        o.addGlobal v = o.addFunc { addr := v.addr, size := v.size, name := v.name,
                                    signature := { result, params := [], variadic } } := by
  unfold addGlobal
  split
  · rename_i r ps variadic ht
    have hrefers := h.refers
    rw [ht] at hrefers
    cases hrefers.params_eq_nil
    exact .inr ⟨r, variadic, ht, rfl⟩
  · exact .inl rfl

/-! ## New types -/

inductive Fresh (o : Overlay) : CType → Option UInt32 → Prop
  | declared {d v} (h : o.Declared d v) : Fresh o v.type (some v.size)
  | field {d x} (h : o.DeclaredField d x) : Fresh o x.type x.byteSize?
  | result {d v r ps variadic} (h : o.Declared d v) (ht : v.type = .function r ps variadic) : Fresh o r none
  | null : Fresh o boolTypedef.type (some boolTypedef.size)
  | placeholder : Fresh o (.base .void) none

theorem stores_addGlobal {d : SymbolDef} {v : Variable} (h : o.Declared d v)
    (hs : (o.addGlobal v).Stores t z) : o.Stores t z ∨ o.Fresh t z := by
  obtain heq | ⟨r, variadic, ht, heq⟩ := addGlobal_cases h <;> rw [heq] at hs
  · exact hs.of_parts (mem_concat_or (.declared h)) (fun _ hd => .inl hd) stores_same stores_same
  · refine hs.of_parts (fun _ hv => .inl hv) (fun _ hd => .inl hd) (stores_concat ?_) stores_same
    intro t z hf
    cases hf with
    | result => exact .result h ht
    | param hp => exact nomatch hp
    | blockLocal hb => exact nomatch hb

theorem stores_addTypedef {d : SymbolDef} {v : Variable} (h : o.Declared d v)
    (hs : (o.addTypedef v).Stores t z) : o.Stores t z ∨ o.Fresh t z :=
  hs.of_parts (fun _ hv => .inl hv) (mem_concat_or (.declared h)) stores_same stores_same

theorem stores_modifyComposite {id : CompositeId} {f : Composite → Composite}
    (hf : ∀ c, (f c).fields = c.fields)
    (hs : (o.modifyArena (·.modifyComposite id f)).Stores t z) : o.Stores t z := by
  have hold : o.Stores t z ∨ False := by
    refine hs.of_parts (N := fun _ _ => False) (fun _ hv => .inl hv) (fun _ hd => .inl hd) stores_same
      (stores_modify ?_)
    intro c _ t z hc
    exact hc.of_fields (N := fun _ _ => False) fun x hx => .inl (hf c ▸ hx)
  exact hold.resolve_right (·.elim)

theorem stores_addAlias {new : TypedefId} {target : CType} (hs : (o.addAlias new target).Stores t z) :
    o.Stores t z := by
  cases target with
  | composite k id =>
    exact stores_modifyComposite (f := fun c => { c with aliases := c.aliases ++ [new] }) (fun _ => rfl) hs
  | enum id => exact hs.of_same rfl rfl rfl rfl
  | _ => exact hs

theorem Stores.of_addLine {l : Line} (hs : (o.addLine l).Stores t z) : o.Stores t z :=
  hs.of_same rfl rfl rfl rfl

theorem stores_modifyFunc {i : Nat} {f : Function → Function} (hs : (o.modifyFunc i f).Stores t z)
    (hf : ∀ g : Function, (f g).signature.result = g.signature.result ∧
      (∀ p ∈ (f g).signature.params, p ∈ g.signature.params ∨ o.Fresh p.type (some p.size)) ∧
      ∀ b ∈ (f g).blocks, ∀ v ∈ b.locals,
        (∃ c ∈ g.blocks, v ∈ c.locals) ∨ o.Fresh v.type (some v.size)) : o.Stores t z ∨ o.Fresh t z :=
  hs.of_parts (fun _ hv => .inl hv) (fun _ hd => .inl hd)
    (stores_modify fun g _ _ _ hg => hg.of_parts (hf g).1 (hf g).2.1 (hf g).2.2) stores_same

theorem locals_modify {bs : List Block} {i : Nat} {f : Block → Block}
    (hf : ∀ b, ∀ v ∈ (f b).locals, v ∈ b.locals ∨ o.Fresh v.type (some v.size)) :
    ∀ b ∈ bs.modify i f, ∀ v ∈ b.locals, (∃ c ∈ bs, v ∈ c.locals) ∨ o.Fresh v.type (some v.size) := by
  intro b hb v hv
  rcases mem_of_modify hb with hb | ⟨c, hc, rfl⟩
  · exact .inl ⟨b, hb, hv⟩
  · rcases hf c v hv with hv | hn
    · exact .inl ⟨c, hc, hv⟩
    · exact .inr hn

theorem stores_addScoped {d : SymbolDef} {v : Variable} (h : o.Declared d v) {f : Nat} {opened : List Nat}
    (hs : (addScoped f opened v o).Stores t z) : o.Stores t z ∨ o.Fresh t z := by
  cases opened with
  | nil =>
    refine stores_modifyFunc hs fun g => ⟨?_, fun p hp => ?_, fun b hb v hv => .inl ⟨b, hb, hv⟩⟩
    · simp only [Function.addParam, Signature.addParam]
      split <;> rfl
    · rcases Function.mem_params_addParam hp with hp | rfl
      · exact .inl hp
      · exact .inr (.declared h)
  | cons block outer =>
    refine stores_modifyFunc hs fun g => ⟨rfl, fun p hp => .inl hp, ?_⟩
    refine locals_modify fun b w hw => ?_
    rcases Block.mem_locals_addLocal hw with hw | rfl
    · exact .inl hw
    · exact .inr (.declared h)

theorem stores_addPlaceholder {name : String} {addr : UInt32}
    (hs : (o.addPlaceholder name addr).Stores t z) : o.Stores t z ∨ o.Fresh t z := by
  refine hs.of_parts (fun _ hv => .inl hv) (fun _ hd => .inl hd) (stores_concat ?_) stores_same
  intro t z hf
  cases hf with
  | result => exact .placeholder
  | param hp => exact nomatch hp
  | blockLocal hb => exact nomatch hb

theorem Edit.stores_cases (h : o.Edit o') (hs : o'.Stores t z) : o.Stores t z ∨ o.Fresh t z := by
  cases h with
  | newComposite kind name size =>
    refine hs.of_parts ?_ ?_ ?_ ?_
    · exact fun v hv => .inl (by simpa using hv)
    · exact fun d hd => .inl (by simpa [Arena.pushComposite] using hd)
    · rw [funcs_addComposite]
      exact stores_same
    · rw [arena_addComposite]
      refine stores_concat fun t z hc => ?_
      cases hc with
      | field hx => cases hx
  | newEnum name => exact .inl (hs.of_same rfl rfl rfl rfl)
  | newNull => exact hs.of_parts (fun _ hv => .inl hv) (mem_concat_or .null) stores_same stores_same
  | use id byPointer =>
    refine .inl (stores_modifyComposite (f := (·.used byPointer)) (fun c => ?_) hs)
    cases byPointer <;> rfl
  | @fill _ size => exact .inl (stores_modifyComposite (f := fun c => { c with size }) (fun _ => rfl) hs)
  | global h => exact stores_addGlobal h hs
  | typedef h => exact stores_addTypedef h hs
  | newAlias h => exact stores_addTypedef h (stores_addAlias hs)
  | field id h =>
    refine hs.of_parts (fun _ hv => .inl hv) (fun _ hd => .inl hd) stores_same
      (stores_modify fun c _ t z hc => ?_)
    refine hc.of_fields fun x hx => ?_
    rcases List.mem_append.mp hx with hx | hx
    · exact .inl hx
    · rw [List.mem_singleton.mp hx]
      exact .inr (.field h)
  | member id value name => exact .inl (hs.of_same rfl rfl rfl rfl)
  | placeholder name addr => exact stores_addPlaceholder hs
  | startBody f start addr =>
    exact stores_modifyFunc hs.of_addLine fun g =>
      ⟨rfl, fun p hp => .inl hp, fun b hb v hv => .inl ⟨b, hb, hv⟩⟩
  | openBlock f start depth addr line =>
    refine stores_modifyFunc hs.of_addLine fun g => ⟨rfl, fun p hp => .inl hp, fun b hb v hv => ?_⟩
    rcases List.mem_append.mp hb with hb | hb
    · exact .inl ⟨b, hb, hv⟩
    · rw [List.mem_singleton.mp hb] at hv
      cases hv
  | closeBlock f start block addr line =>
    refine stores_modifyFunc hs.of_addLine fun g => ⟨rfl, fun p hp => .inl hp, ?_⟩
    exact locals_modify fun b v hv => .inl hv
  | addScoped f opened h => exact stores_addScoped h hs
  | endBody f line =>
    exact stores_modifyFunc hs fun g => ⟨rfl, fun p hp => .inl hp, fun b hb v hv => .inl ⟨b, hb, hv⟩⟩
  | symbol s => exact .inl (hs.of_same rfl rfl rfl rfl)
  | line l => exact .inl hs.of_addLine

end Overlay

end DebugSymbols
