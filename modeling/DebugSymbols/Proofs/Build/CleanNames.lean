import DebugSymbols.Proofs.Build.Visits
import DebugSymbols.Proofs.Print.Braces

/-!
# Names that are built

Every name that an edit brings in is an identifier or made from one, and no type
names the parameters of a function. So whatever texts the records hold, all names
are clean.
-/

namespace DebugSymbols

open Text (Clean)

theorem Function.CleanNames.addParam {f : Function} (h : f.CleanNames) {p : Variable} (hp : Clean p.name) :
    (f.addParam p).CleanNames := by
  refine ⟨h.name, fun q hq => ?_, h.locals⟩
  rcases Function.mem_params_addParam hq with hq | rfl
  · exact h.params q hq
  · exact hp

theorem Function.CleanNames.addLocal {f : Function} (h : f.CleanNames) (block : Nat) {v : Variable}
    (hv : Clean v.name) : (f.modifyBlock block (·.addLocal v)).CleanNames := by
  refine ⟨h.name, h.params, forall_mem_modify h.locals fun b hb w hw => ?_⟩
  rcases Block.mem_locals_addLocal hw with hw | rfl
  · exact hb w hw
  · exact hv

theorem CType.paramNames_derive (base : CType) : ∀ (mods : List Modifier) (dims : List UInt32),
    (base.derive mods dims).paramNames = base.paramNames
  | [], _ => rfl
  | .pointer :: ms, dims => by
    rw [derive_pointer]
    exact CType.paramNames_derive base ms dims
  | .function :: ms, dims => by
    simp only [derive_function, CType.paramNames, declNames, List.append_nil, CType.paramNames_derive base ms dims]
  | .array :: ms, dims => by
    rw [derive_array]
    exact CType.paramNames_derive base ms dims.tail

namespace Overlay

variable {o o' : Overlay}

/-! ## What is built -/

theorem cleanNames_new (id addr length : UInt32) : CleanNames { id, addr, length } where
  vars _ hv := nomatch hv
  funcs _ hf := nomatch hf
  typedefs _ hd := nomatch hd
  composites _ hc := nomatch hc
  enums _ he := nomatch he

theorem Declared.clean_name {d : SymbolDef} {v : Variable} (h : o.Declared d v) : Clean v.name :=
  h.name ▸ Text.clean_identifier d.name

namespace CleanNames

variable (h : o.CleanNames)
include h

theorem addGlobal {d : SymbolDef} {v : Variable} (hv : o.Declared d v) : (o.addGlobal v).CleanNames := by
  have hname := hv.clean_name
  obtain heq | ⟨r, variadic, _, heq⟩ := addGlobal_cases hv <;> rw [heq]
  · exact h.addVar hname
  · exact h.addFuncAs v.name ⟨hname, List.forall_mem_nil _, List.forall_mem_nil _⟩

theorem addAlias (new : TypedefId) (target : CType) : (o.addAlias new target).CleanNames := by
  cases target with
  | composite kind id => exact h.modifyComposite id fun _ hc => ⟨hc.tag, hc.fields⟩
  | enum id => exact h.modifyEnum id fun _ he => ⟨he.tag, he.members⟩
  | _ => exact h

theorem addPlaceholder {name : String} (hname : Clean name) (addr : UInt32) :
    (o.addPlaceholder name addr).CleanNames := by
  refine h.addFuncAs name ⟨?_, List.forall_mem_nil _, List.forall_mem_nil _⟩
  show Clean (if o.funcNames.get name = [] then name else freshName o.functionNames name addr)
  split
  · exact hname
  · exact clean_freshName hname _ _

theorem addScoped {d : SymbolDef} {v : Variable} (hv : o.Declared d v) (f : Nat) (opened : List Nat) :
    (Overlay.addScoped f opened v o).CleanNames := by
  cases opened with
  | nil => exact h.modifyFunc f fun _ hf => hf.addParam hv.clean_name
  | cons block outer => exact h.modifyFunc f fun _ hf => hf.addLocal block hv.clean_name

theorem addLine (l : Line) : (o.addLine l).CleanNames :=
  h.of_same rfl rfl rfl

end CleanNames

theorem Edit.cleanNames (he : o.Edit o') (h : o.CleanNames) : o'.CleanNames := by
  cases he with
  | newComposite kind name size => exact h.addComposite ⟨Tag.clean_text_ofName name, List.forall_mem_nil _⟩
  | newEnum name => exact h.addEnum ⟨Tag.clean_text_ofName name, List.forall_mem_nil _⟩
  | newNull =>
    have hbool : Clean boolTypedef.name := by decide
    exact (h.pushTypedef hbool).of_same rfl rfl rfl
  | use id byPointer => exact h.modifyComposite id fun _ hc => by cases byPointer <;> exact ⟨hc.tag, hc.fields⟩
  | fill => exact h.modifyComposite _ fun _ hc => ⟨hc.tag, hc.fields⟩
  | global hv => exact h.addGlobal hv
  | typedef hv => exact h.addTypedef hv.clean_name
  | newAlias hv => exact (h.addTypedef hv.clean_name).addAlias _ _
  | field id hx =>
    have hname : Clean _ := hx.name ▸ Text.clean_identifier _
    exact h.modifyComposite id fun _ hc =>
      ⟨hc.tag, List.forall_mem_append.mpr ⟨hc.fields, List.forall_mem_singleton.mpr hname⟩⟩
  | member id value name =>
    have hname := Text.clean_identifier name
    exact h.modifyEnum id fun _ he =>
      ⟨he.tag, List.forall_mem_append.mpr ⟨he.members, List.forall_mem_singleton.mpr hname⟩⟩
  | placeholder name addr => exact h.addPlaceholder (Text.clean_identifier name) addr
  | startBody f =>
    refine CleanNames.addLine ?_ _
    exact h.modifyFunc f fun _ hf => ⟨hf.name, hf.params, hf.locals⟩
  | openBlock f =>
    refine CleanNames.addLine ?_ _
    refine h.modifyFunc f fun _ hf => ⟨hf.name, hf.params, ?_⟩
    exact List.forall_mem_append.mpr ⟨hf.locals, List.forall_mem_singleton.mpr (List.forall_mem_nil _)⟩
  | closeBlock f start block =>
    refine CleanNames.addLine ?_ _
    exact h.modifyFunc f fun _ hf => ⟨hf.name, hf.params, forall_mem_modify hf.locals fun _ hb => hb⟩
  | addScoped f opened hv => exact h.addScoped hv f opened
  | endBody f => exact h.modifyFunc f fun _ hf => ⟨hf.name, hf.params, hf.locals⟩
  | symbol => exact h.of_same rfl rfl rfl
  | line l => exact h.addLine l

/-! ## Parameters in types -/

theorem RefersBase.paramNames_eq_nil {d : SymbolDef} {base : CType} (h : o.RefersBase d base) :
    base.paramNames = [] := by
  cases h <;> rfl

theorem Refers.paramNames_eq_nil {d : SymbolDef} {t : CType} (h : o.Refers d t) : t.paramNames = [] := by
  obtain ⟨base, hbase, rfl⟩ := h
  rw [CType.paramNames_derive]
  exact hbase.paramNames_eq_nil

theorem Fresh.paramNames_eq_nil {t : CType} {z : Option UInt32} (h : o.Fresh t z) : t.paramNames = [] := by
  cases h with
  | declared h => exact h.refers.paramNames_eq_nil
  | field h => exact h.refers.paramNames_eq_nil
  | result h ht =>
    have hnone := h.refers.paramNames_eq_nil
    rw [ht] at hnone
    exact (List.append_eq_nil_iff.mp hnone).1
  | null => rfl
  | placeholder => rfl

/-- No type in the overlay names the parameters of a function. -/
def Unnamed (o : Overlay) : Prop :=
  ∀ t z, o.Stores t z → t.paramNames = []

theorem unnamed_new (id addr length : UInt32) : Unnamed { id, addr, length } :=
  fun _ _ hs => absurd hs (not_stores_new id addr length)

theorem Edit.unnamed (he : o.Edit o') (h : o.Unnamed) : o'.Unnamed := by
  intro t z hs
  obtain hs | hs := he.stores_cases hs
  · exact h t z hs
  · exact hs.paramNames_eq_nil

theorem Unnamed.merge (h : o.Unnamed) (ho : o.Indexed) : o.merge.1.Unnamed := by
  intro t z hs
  obtain ⟨s, hold, rfl⟩ := (merge_merged ho).redirected.stores hs
  rw [CType.paramNames_renumber]
  exact h s z hold

theorem Unnamed.rename (h : o.Unnamed) : o.rename.1.Unnamed :=
  fun t z hs => h t z ((sameTypes_rename o).stores hs)

/-! ## Names in types and on their own -/

theorem clean_paramNames_of_unnamed (h : o.Unnamed) {t : CType} {z : Option UInt32} (hs : o.Stores t z) {name : String}
    (hname : Clean name) : ∀ n ∈ name :: t.paramNames, Clean n := by
  rw [h t z hs]
  exact List.forall_mem_singleton.mpr hname

theorem CleanNames.arena (h : o.CleanNames) (hu : o.Unnamed) : o.arena.CleanNames where
  tags c hc := (h.composites c hc).tag
  fields c hc x hx := clean_paramNames_of_unnamed hu (.composite hc (.field hx)) ((h.composites c hc).fields x hx)
  enumTags e he := (h.enums e he).tag
  members e he := (h.enums e he).members
  typedefs d hd := clean_paramNames_of_unnamed hu (.typedef hd) (h.typedefs d hd)

theorem CleanNames.locals (h : o.CleanNames) (hu : o.Unnamed) (i : Nat) : ∀ b ∈ (o.func i).blocks, b.CleanLocals := by
  refine forall_getD (P := fun f : Function => ∀ b ∈ f.blocks, b.CleanLocals) (fun f hf b hb v hv => ?_)
    (List.forall_mem_nil _) i
  exact clean_paramNames_of_unnamed hu (.func hf (.blockLocal hb hv)) ((h.funcs f hf).locals b hb v hv)

end Overlay

end DebugSymbols
