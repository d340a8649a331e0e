import DebugSymbols.Proofs.Build.Indexed
import DebugSymbols.Proofs.Model.FunctionNames

/-!
# Names while building

Variables and functions are grouped by name as they come. A function keeps the
name that it was grouped under, or has one that was made from it and from its
address. No two parameters of a function share a name, and no two locals of a
block. Tags are those of the stream.
-/

namespace DebugSymbols

/-- The function goes by `name`, or by one made from it and from its address. -/
def Function.NamedFrom (f : Function) (name : String) : Prop :=
  f.name = name ∨ ∃ n, f.name = addressName name f.addr n

structure Function.NamesDistinct (f : Function) : Prop where
  params : (f.signature.params.map (·.name)).Nodup
  locals : ∀ b ∈ f.blocks, (b.locals.map (·.name)).Nodup

theorem nodup_names_concat {vs : List Variable} {v : Variable} (h : (vs.map (·.name)).Nodup)
    (hv : vs.any (·.name == v.name) = false) : ((vs ++ [v]).map (·.name)).Nodup := by
  rw [List.map_append, List.nodup_append]
  refine ⟨h, List.pairwise_singleton _ _, fun n hn m hm => ?_⟩
  obtain ⟨w, hw, rfl⟩ := List.mem_map.mp hn
  rw [List.map_singleton, List.mem_singleton] at hm
  rw [hm]
  simpa using List.any_eq_false.mp hv w hw

theorem Block.nodup_addLocal {b : Block} (h : (b.locals.map (·.name)).Nodup) (v : Variable) :
    ((b.addLocal v).locals.map (·.name)).Nodup := by
  unfold Block.addLocal
  by_cases hv : b.locals.any (·.name == v.name) = true
  · rw [if_pos hv]
    exact h
  · rw [if_neg hv]
    exact nodup_names_concat h (Bool.eq_false_iff.mpr hv)

/-! ## Changes of a function -/

structure KeepsNames (g : Function → Function) : Prop where
  name : ∀ f, (g f).name = f.name
  addr : ∀ f, (g f).addr = f.addr
  distinct : ∀ f, f.NamesDistinct → (g f).NamesDistinct

namespace KeepsNames

theorem of_eq {g : Function → Function} (hname : ∀ f, (g f).name = f.name) (haddr : ∀ f, (g f).addr = f.addr)
    (hsig : ∀ f, (g f).signature = f.signature) (hblocks : ∀ f, (g f).blocks = f.blocks) : KeepsNames g where
  name := hname
  addr := haddr
  distinct f hf := ⟨by rw [hsig]; exact hf.params, by rw [hblocks]; exact hf.locals⟩

theorem addParam (v : Variable) : KeepsNames (·.addParam v) where
  name _ := rfl
  addr _ := rfl
  distinct f hf := by
    refine ⟨?_, hf.locals⟩
    unfold Function.addParam Signature.addParam
    by_cases hv : f.signature.params.any (·.name == v.name) = true
    · rw [if_pos hv]
      exact hf.params
    · rw [if_neg hv]
      exact nodup_names_concat hf.params (Bool.eq_false_iff.mpr hv)

theorem modifyBlock {i : Nat} {g : Block → Block}
    (hg : ∀ b, (b.locals.map (·.name)).Nodup → ((g b).locals.map (·.name)).Nodup) :
    KeepsNames (·.modifyBlock i g) where
  name _ := rfl
  addr _ := rfl
  distinct f hf := by
    refine ⟨hf.params, fun b hb => ?_⟩
    obtain hb | ⟨c, hc, rfl⟩ := mem_of_modify hb
    · exact hf.locals b hb
    · exact hg c (hf.locals c hc)

theorem newBlock {b : Block} (hb : b.locals = []) :
    KeepsNames fun f => { f with blocks := f.blocks ++ [b] } where
  name _ := rfl
  addr _ := rfl
  distinct f hf := by
    refine ⟨hf.params, fun c hc => ?_⟩
    obtain hc | hc := List.mem_append.mp hc
    · exact hf.locals c hc
    · rw [List.mem_singleton.mp hc, hb]
      exact List.nodup_nil

end KeepsNames

namespace Overlay

variable {o o' : Overlay}

/-! ## What an edit does to variables and functions -/

structure SameDecls (o o' : Overlay) : Prop where
  vars : o'.vars = o.vars
  funcs : o'.funcs = o.funcs
  varNames : o'.varNames = o.varNames
  funcNames : o'.funcNames = o.funcNames

theorem exists_addGlobal {d : SymbolDef} {v : Variable} (h : o.Declared d v) :
    o.addGlobal v = o.addVar v ∨
      ∃ f : Function, f.NamesDistinct ∧ o.addGlobal v = o.addFunc f := by
  obtain heq | ⟨r, variadic, _, heq⟩ := addGlobal_cases h
  · exact .inl heq
  · refine .inr ⟨_, ?_, heq⟩
    exact ⟨List.nodup_nil, fun _ hb => nomatch hb⟩

/-- The function may come under `name`: it goes by it or, where others came under it
before, by a new name made from it. -/
def Admits (o : Overlay) (name : String) (f : Function) : Prop :=
  f.name = name ∨ o.funcNames.get name ≠ [] ∧ f.name ∉ o.functionNames ∧ ∃ n, f.name = addressName name f.addr n

theorem Admits.namedFrom {name : String} {f : Function} (h : o.Admits name f) : f.NamedFrom name := by
  obtain h | ⟨_, _, h⟩ := h
  · exact .inl h
  · exact .inr h

theorem exists_addPlaceholder (o : Overlay) (name : String) (addr : UInt32) :
    ∃ f : Function, o.Admits name f ∧ f.NamesDistinct ∧ o.addPlaceholder name addr = o.addFuncAs name f := by
  refine ⟨{ addr, size := 0, name := _, signature := { result := .base .void } }, ?_,
    ⟨List.nodup_nil, fun _ hb => nomatch hb⟩, rfl⟩
  by_cases hget : o.funcNames.get name = []
  · exact .inl (if_pos hget)
  · obtain ⟨n, _, hends, hfresh⟩ := exists_endsAt_freshName o.functionNames name addr
    refine .inr ⟨hget, ?_, n, (if_neg hget).trans hfresh⟩
    show (if o.funcNames.get name = [] then name else freshName o.functionNames name addr) ∉ o.functionNames
    rw [if_neg hget]
    exact freshName_notMem _ _ _

theorem Edit.decls_cases (h : o.Edit o') :
    SameDecls o o' ∨
      (∃ v, SameDecls (o.addVar v) o') ∨
      (∃ name, ∃ f : Function, o.Admits name f ∧ f.NamesDistinct ∧ SameDecls (o.addFuncAs name f) o') ∨
      ∃ i g, KeepsNames g ∧ SameDecls (o.modifyFunc i g) o' := by
  cases h with
  | newComposite kind name size => cases kind <;> exact .inl ⟨rfl, rfl, rfl, rfl⟩
  | global h =>
    obtain heq | ⟨f, hf, heq⟩ := exists_addGlobal h
    · rw [heq]
      exact .inr (.inl ⟨_, rfl, rfl, rfl, rfl⟩)
    · rw [heq]
      exact .inr (.inr (.inl ⟨f.name, f, .inl rfl, hf, rfl, rfl, rfl, rfl⟩))
  | @newAlias d v h hnew =>
    generalize aliasTarget v.type = target
    cases target <;> exact .inl ⟨rfl, rfl, rfl, rfl⟩
  | placeholder name addr =>
    obtain ⟨f, hname, hf, heq⟩ := exists_addPlaceholder o (Text.identifier name) addr
    rw [heq]
    exact .inr (.inr (.inl ⟨_, f, hname, hf, rfl, rfl, rfl, rfl⟩))
  | startBody f start addr =>
    have hkeeps : KeepsNames fun fn => { fn with path := start.path, lineStart := start.line } :=
      .of_eq (fun _ => rfl) (fun _ => rfl) (fun _ => rfl) fun _ => rfl
    exact .inr (.inr (.inr ⟨f, _, hkeeps, rfl, rfl, rfl, rfl⟩))
  | openBlock f start depth addr line =>
    have hkeeps := KeepsNames.newBlock (b := { lineStart := line, depth }) rfl
    exact .inr (.inr (.inr ⟨f, _, hkeeps, rfl, rfl, rfl, rfl⟩))
  | closeBlock f start block addr line =>
    have hkeeps := KeepsNames.modifyBlock (i := block) (g := fun b => { b with lineEnd := line, closed := true })
      fun _ h => h
    exact .inr (.inr (.inr ⟨f, _, hkeeps, rfl, rfl, rfl, rfl⟩))
  | @addScoped d v f opened h =>
    cases opened with
    | nil => exact .inr (.inr (.inr ⟨f, _, .addParam v, rfl, rfl, rfl, rfl⟩))
    | cons block outer =>
      have hkeeps := KeepsNames.modifyBlock (i := block) (g := (·.addLocal v)) fun _ h => Block.nodup_addLocal h v
      exact .inr (.inr (.inr ⟨f, _, hkeeps, rfl, rfl, rfl, rfl⟩))
  | endBody f line =>
    have hkeeps : KeepsNames fun fn => { fn with lineEnd := line } :=
      .of_eq (fun _ => rfl) (fun _ => rfl) (fun _ => rfl) fun _ => rfl
    exact .inr (.inr (.inr ⟨f, _, hkeeps, rfl, rfl, rfl, rfl⟩))
  | _ => exact .inl ⟨rfl, rfl, rfl, rfl⟩

/-! ## The names are kept -/

structure NamesGrouped (o : Overlay) : Prop where
  vars : o.varNames = .ofList (fun i => (o.var i).name) (List.range o.vars.length)
  funcs : ∃ key : Nat → String, o.FuncsKeyed key ∧ ∀ i < o.funcs.length, (o.func i).NamedFrom (key i)
  distinct : ∀ f ∈ o.funcs, f.NamesDistinct

theorem namesGrouped_new (id addr length : UInt32) : NamesGrouped { id, addr, length } where
  vars := rfl
  funcs :=
    have hnone : ∀ {p : Nat → Prop}, ∀ i < 0, p i := fun i hi => absurd hi (Nat.not_lt_zero i)
    ⟨fun _ => "", ⟨rfl, hnone, hnone⟩, hnone⟩
  distinct _ hf := nomatch hf

theorem NamesGrouped.of_sameDecls (h : o.NamesGrouped) (hs : SameDecls o o') : o'.NamesGrouped := by
  refine ⟨?_, ?_, ?_⟩
  · unfold var
    rw [hs.varNames, hs.vars]
    exact h.vars
  · obtain ⟨key, hkey, hnamed⟩ := h.funcs
    have hfunc : ∀ i, o'.func i = o.func i := fun i => by
      unfold func
      rw [hs.funcs]
    refine ⟨key, hkey.congr hs.funcNames (congrArg List.length hs.funcs) fun i => by rw [hfunc], fun i hi => ?_⟩
    rw [hs.funcs] at hi
    rw [hfunc]
    exact hnamed i hi
  · rw [hs.funcs]
    exact h.distinct

theorem NamesGrouped.addVar (h : o.NamesGrouped) (v : Variable) : (o.addVar v).NamesGrouped where
  vars := by
    have hold : ∀ i ∈ List.range o.vars.length, (o.var i).name = ((o.addVar v).var i).name := by
      intro i hi
      have hne := Nat.ne_of_lt (List.mem_range.mp hi)
      simp [var, Overlay.addVar, List.getD_eq_getElem?_getD, Arena.getD_concat, hne]
    have hnew : ((o.addVar v).var o.vars.length).name = v.name := by
      simp [var, Overlay.addVar, List.getD_eq_getElem?_getD]
    show o.varNames.add v.name o.vars.length = .ofList _ (List.range (o.vars ++ [v]).length)
    rw [List.length_append, List.length_singleton, List.range_succ, Groups.ofList_concat, h.vars,
      Groups.ofList_congr hold, hnew]
  funcs := by
    obtain ⟨key, hkey, hnamed⟩ := h.funcs
    exact ⟨key, hkey.congr rfl rfl fun _ => rfl, hnamed⟩
  distinct := h.distinct

theorem func_addFuncAs_of_lt {i : Nat} (hi : i < o.funcs.length) (name : String) (f : Function) :
    (o.addFuncAs name f).func i = o.func i := by
  simp [func, Overlay.addFuncAs, List.getD_eq_getElem?_getD, Arena.getD_concat, Nat.ne_of_lt hi]

theorem func_addFuncAs_length (o : Overlay) (name : String) (f : Function) :
    (o.addFuncAs name f).func o.funcs.length = f := by
  simp [func, Overlay.addFuncAs, List.getD_eq_getElem?_getD]

theorem length_addFuncAs (o : Overlay) (name : String) (f : Function) :
    (o.addFuncAs name f).funcs.length = o.funcs.length + 1 :=
  List.length_append

theorem Admits.ne_name {name : String} {f : Function} (h : o.Admits name f) (hne : f.name ≠ name) {i : Nat}
    (hi : i < o.funcs.length) : f.name ≠ (o.func i).name := by
  intro heq
  obtain hname | ⟨_, hnotMem, _⟩ := h
  · exact hne hname
  · exact hnotMem (List.mem_append_right _ (List.mem_map.mpr ⟨o.func i, o.func_mem hi, heq.symm⟩))

theorem FuncsKeyed.addFuncAs {key : Nat → String} (h : o.FuncsKeyed key) {name : String} {f : Function}
    (hf : o.Admits name f) :
    (o.addFuncAs name f).FuncsKeyed fun i => if i = o.funcs.length then name else key i := by
  have hkey : ∀ i < o.funcs.length, (if i = o.funcs.length then name else key i) = key i := fun i hi =>
    if_neg (Nat.ne_of_lt hi)
  have hlast := func_addFuncAs_length o name f
  constructor
  · show o.funcNames.add name o.funcs.length = .ofList _ (List.range (o.funcs ++ [f]).length)
    rw [List.length_append, List.length_singleton, List.range_succ, Groups.ofList_concat, h.groups, if_pos rfl]
    congr 1
    exact Groups.ofList_congr fun i hi => (hkey i (List.mem_range.mp hi)).symm
  · intro i hi hfirst
    rw [length_addFuncAs] at hi
    rcases Nat.lt_succ_iff_lt_or_eq.mp hi with hi | rfl
    · rw [func_addFuncAs_of_lt hi, hkey i hi]
      refine h.first i hi fun j hj => ?_
      have hne := hfirst j hj
      rwa [hkey i hi, hkey j (Nat.lt_trans hj hi)] at hne
    · rw [hlast, if_pos rfl]
      obtain hname | ⟨hget, _, _⟩ := hf
      · exact hname
      · -- another function has come under this name before
        obtain ⟨j, hj⟩ := List.exists_mem_of_ne_nil _ hget
        obtain ⟨hj, hkj⟩ := h.cut.mem_get.mp hj
        have hj := List.mem_range.mp hj
        have hne := hfirst j hj
        rw [hkey j hj, if_pos rfl] at hne
        exact absurd hkj hne
  · intro i hi j hj hni hnj heq
    rw [length_addFuncAs] at hi hj
    rcases Nat.lt_succ_iff_lt_or_eq.mp hi with hi | rfl <;> rcases Nat.lt_succ_iff_lt_or_eq.mp hj with hj | rfl
    · rw [func_addFuncAs_of_lt hi, hkey i hi] at hni
      rw [func_addFuncAs_of_lt hj, hkey j hj] at hnj
      rw [func_addFuncAs_of_lt hi, func_addFuncAs_of_lt hj] at heq
      exact h.apart i hi j hj hni hnj heq
    · rw [hlast, if_pos rfl] at hnj
      rw [func_addFuncAs_of_lt hi, hlast] at heq
      exact absurd heq.symm (hf.ne_name hnj hi)
    · rw [hlast, if_pos rfl] at hni
      rw [func_addFuncAs_of_lt hj, hlast] at heq
      exact absurd heq (hf.ne_name hni hj)
    · rfl

theorem NamesGrouped.addFuncAs (h : o.NamesGrouped) {name : String} {f : Function} (hname : o.Admits name f)
    (hf : f.NamesDistinct) : (o.addFuncAs name f).NamesGrouped where
  vars := h.vars
  funcs := by
    obtain ⟨key, hkey, hnamed⟩ := h.funcs
    refine ⟨_, hkey.addFuncAs hname, fun i hi => ?_⟩
    rw [length_addFuncAs] at hi
    rcases Nat.lt_succ_iff_lt_or_eq.mp hi with hi | rfl
    · rw [func_addFuncAs_of_lt hi, if_neg (Nat.ne_of_lt hi)]
      exact hnamed i hi
    · rw [func_addFuncAs_length, if_pos rfl]
      exact hname.namedFrom
  distinct g hg := by
    obtain hg | hg := List.mem_append.mp hg
    · exact h.distinct g hg
    · rw [List.mem_singleton.mp hg]
      exact hf

theorem func_modifyFunc (o : Overlay) (g : Function → Function) (i j : Nat) :
    (o.modifyFunc i g).func j = if i = j ∧ j < o.funcs.length then g (o.func j) else o.func j := by
  simp [func, Overlay.modifyFunc, List.getD_eq_getElem?_getD, Arena.getD_modify]

theorem NamesGrouped.modifyFunc (h : o.NamesGrouped) {g : Function → Function} (hg : KeepsNames g) (i : Nat) :
    (o.modifyFunc i g).NamesGrouped where
  vars := h.vars
  funcs := by
    obtain ⟨key, hkey, hnamed⟩ := h.funcs
    have hlength : (o.modifyFunc i g).funcs.length = o.funcs.length := List.length_modify _ _ _
    have hsame : ∀ j, ((o.modifyFunc i g).func j).name = (o.func j).name ∧
        ((o.modifyFunc i g).func j).addr = (o.func j).addr := by
      intro j
      rw [func_modifyFunc]
      split
      · exact ⟨hg.name _, hg.addr _⟩
      · exact ⟨rfl, rfl⟩
    refine ⟨key, hkey.congr rfl hlength fun j => (hsame j).1, fun j hj => ?_⟩
    rw [hlength] at hj
    unfold Function.NamedFrom
    rw [(hsame j).1, (hsame j).2]
    exact hnamed j hj
  distinct f hf := by
    obtain hf | ⟨f₀, hf₀, rfl⟩ := mem_of_modify hf
    · exact h.distinct f hf
    · exact hg.distinct f₀ (h.distinct f₀ hf₀)

theorem Edit.namesGrouped (h : o.Edit o') (ho : o.NamesGrouped) : o'.NamesGrouped := by
  obtain hs | ⟨v, hs⟩ | ⟨name, f, hname, hf, hs⟩ | ⟨i, g, hg, hs⟩ := h.decls_cases
  · exact ho.of_sameDecls hs
  · exact (ho.addVar v).of_sameDecls hs
  · exact (ho.addFuncAs hname hf).of_sameDecls hs
  · exact (ho.modifyFunc hg i).of_sameDecls hs

/-! ## Tags -/

theorem tagsPlain_new (id addr length : UInt32) : TagsPlain { id, addr, length } where
  composites _ := Tag.plain_ofIdentifier ""
  enums _ := Tag.plain_ofIdentifier ""

theorem TagsPlain.of_sameHeads (h : o.TagsPlain) (hs : SameHeads o o') : o'.TagsPlain where
  composites id := by
    rw [hs.tag]
    exact h.composites id
  enums id := by
    rw [hs.enumTag]
    exact h.enums id

theorem TagsPlain.addComposite (h : o.TagsPlain) {c : Composite} (hc : c.tag.Plain) :
    (o.addComposite c).TagsPlain where
  composites id := by
    rw [arena_addComposite, Arena.composite_pushComposite]
    split
    · exact hc
    · exact h.composites id
  enums id := by
    rw [arena_addComposite]
    exact h.enums id

theorem TagsPlain.addEnum (h : o.TagsPlain) {e : Enumeration} (he : e.tag.Plain) : (o.addEnum e).TagsPlain where
  composites := h.composites
  enums id := by
    show ((o.arena.pushEnum e).enumeration id).tag.Plain
    rw [Arena.enumeration_pushEnum]
    split
    · exact he
    · exact h.enums id

theorem Edit.tagsPlain (h : o.Edit o') (ho : o.TagsPlain) : o'.TagsPlain := by
  obtain hs | ⟨c, hc, hs⟩ | ⟨e, he, hs⟩ | ⟨_, hs⟩ | ⟨v, hs⟩ := h.heads_cases
  · exact ho.of_sameHeads hs
  · exact (ho.addComposite hc).of_sameHeads hs
  · exact (ho.addEnum he).of_sameHeads hs
  · have hnull : o.withNull.TagsPlain := ⟨ho.composites, ho.enums⟩
    exact hnull.of_sameHeads hs
  · have htypedef : (o.addTypedef v).TagsPlain := ⟨ho.composites, ho.enums⟩
    exact htypedef.of_sameHeads hs

end Overlay

end DebugSymbols
