import DebugSymbols.Proofs.Build.Content
import DebugSymbols.Proofs.Build.Names
import DebugSymbols.Proofs.Build.Spans
import Mathlib.Data.List.Find

/-!
# Functions while building

A definition may add a function and changes none. A function span changes one
function, the one that it finds or makes, and only if that has no body yet. So
what is written of a body stays as it is.
-/

namespace DebugSymbols

/-- Says where the function is, so that it is seen to have a body. -/
def FunctionStart.isPlaced (start : FunctionStart) : Bool :=
  start.line != 0 || start.path != ""

namespace Overlay

open DebugSymbols.Action (Leads exists_of_bind_ok)
open Relation (ReflTransGen)

variable {o o' o'' : Overlay} {f i : Nat} {name : String} {addr : UInt32}

/-! ## Groups of functions -/

theorem NamesGrouped.lt_of_mem (h : o.NamesGrouped) (hi : i ∈ o.funcNames.get name) : i < o.funcs.length := by
  obtain ⟨key, hkey, _⟩ := h.funcs
  exact List.mem_range.mp (hkey.cut.mem_get.mp hi).1

theorem NamesGrouped.name_unique {other : String} (h : o.NamesGrouped) (hi : i ∈ o.funcNames.get name)
    (hother : i ∈ o.funcNames.get other) : name = other := by
  obtain ⟨key, hkey, _⟩ := h.funcs
  exact (hkey.cut.mem_get.mp hi).2.symm.trans (hkey.cut.mem_get.mp hother).2

theorem func_of_le (h : o.funcs.length ≤ i) : o.func i = default := by
  simp [func, List.getD_eq_getElem?_getD, List.getElem?_eq_none h]

theorem lt_of_hasBody (h : (o.func i).hasBody = true) : i < o.funcs.length := by
  by_contra hle
  rw [func_of_le (Nat.le_of_not_lt hle)] at h
  exact nomatch h

/-! ## Added functions -/

/-- Functions without a body may have come, and are last in their groups. -/
structure AddsFuncs (o o' : Overlay) : Prop where
  funcs : ∃ more : List Function, o'.funcs = o.funcs ++ more ∧ ∀ f ∈ more, f.hasBody = false
  groups : ∀ name, o.funcNames.get name <+: o'.funcNames.get name
  lines : o'.lines = o.lines

theorem SameCode.addsFuncs (h : o.SameCode o') : o.AddsFuncs o' where
  funcs := ⟨[], by rw [h.funcs, List.append_nil], fun _ hf => nomatch hf⟩
  groups _ := h.funcNames ▸ List.prefix_rfl
  lines := h.lines

theorem AddsFuncs.refl (o : Overlay) : o.AddsFuncs o :=
  SameCode.addsFuncs ⟨rfl, rfl, rfl⟩

theorem AddsFuncs.trans (h : o.AddsFuncs o') (h' : o'.AddsFuncs o'') : o.AddsFuncs o'' where
  funcs := by
    obtain ⟨more, hmore, hnone⟩ := h.funcs
    obtain ⟨more', hmore', hnone'⟩ := h'.funcs
    refine ⟨more ++ more', by rw [hmore', hmore, List.append_assoc], fun f hf => ?_⟩
    exact (List.mem_append.mp hf).elim (hnone f) (hnone' f)
  groups name := (h.groups name).trans (h'.groups name)
  lines := h'.lines.trans h.lines

theorem AddsFuncs.of_steps (h : ReflTransGen AddsFuncs o o') : o.AddsFuncs o' := by
  induction h with
  | refl => exact .refl o
  | tail _ h ih => exact ih.trans h

theorem addsFuncs_addFuncAs (o : Overlay) (name : String) {g : Function} (hg : g.hasBody = false) :
    o.AddsFuncs (o.addFuncAs name g) where
  funcs := ⟨[g], rfl, fun f hf => by rwa [List.mem_singleton.mp hf]⟩
  groups other := by
    show _ <+: (o.funcNames.add name o.funcs.length).get other
    rw [Groups.get_add]
    split
    · rename_i heq
      subst heq
      exact List.prefix_append _ _
    · exact List.prefix_rfl
  lines := rfl

theorem addsFuncs_addPlaceholder (o : Overlay) (name : String) (addr : UInt32) :
    o.AddsFuncs (o.addPlaceholder name addr) :=
  addsFuncs_addFuncAs o name rfl

theorem addsFuncs_addGlobal (o : Overlay) (v : Variable) : o.AddsFuncs (o.addGlobal v) := by
  unfold addGlobal
  split
  · exact addsFuncs_addFuncAs o _ rfl
  · exact SameCode.addsFuncs ⟨rfl, rfl, rfl⟩

theorem AddsFuncs.func_eq (h : o.AddsFuncs o') (hi : i < o.funcs.length) : o'.func i = o.func i := by
  obtain ⟨more, hmore, _⟩ := h.funcs
  simp [func, List.getD_eq_getElem?_getD, hmore, List.getElem?_append_left hi]

theorem AddsFuncs.length_le (h : o.AddsFuncs o') : o.funcs.length ≤ o'.funcs.length := by
  obtain ⟨more, hmore, _⟩ := h.funcs
  rw [hmore, List.length_append]
  exact Nat.le_add_right _ _

theorem AddsFuncs.hasBody_eq (h : o.AddsFuncs o') (i : Nat) : (o'.func i).hasBody = (o.func i).hasBody := by
  by_cases hi : i < o.funcs.length
  · rw [h.func_eq hi]
  · obtain ⟨more, hmore, hnone⟩ := h.funcs
    rw [func_of_le (Nat.le_of_not_lt hi)]
    have hat : o'.funcs[i]? = more[i - o.funcs.length]? := by
      rw [hmore, List.getElem?_append_right (Nat.le_of_not_lt hi)]
    cases hget : o'.funcs[i]? with
    | none => simp [func, List.getD_eq_getElem?_getD, hget]
    | some f =>
      simp only [func, List.getD_eq_getElem?_getD, hget, Option.getD_some]
      exact hnone f (List.mem_of_getElem? (hat ▸ hget))

theorem addsFuncs_definition (head : Record) (d : SymbolDef) (rest : List Record) (o : Overlay) :
    o.AddsFuncs (definition head d rest o).state := by
  have htypes : ∀ {α ε : Type} {P : Overlay → Prop} {Q : α → Overlay → Prop} {m : Action ε Overlay α},
      Leads TypeEdit P m Q → Leads AddsFuncs P m Q := fun h => h.mono fun _ _ h => h.sameCode.addsFuncs
  have hsingle : ∀ {m : Action Complaint Overlay Unit}, (Leads AddsFuncs (fun _ => True) m fun _ _ => True) →
      Leads AddsFuncs (fun _ => True) (do m.locate head 0; return 0 : Action Inconsistency Overlay Nat)
        fun _ _ => True := fun h => .bind (.locate h) fun _ => .pure fun _ h => h
  have hglobal : ∀ storage, Leads AddsFuncs (fun _ => True) (global head.value storage d) fun _ _ => True :=
    fun storage => .bind (htypes (leads_declare _ _ d)) fun v =>
      .modify_step (fun o _ => addsFuncs_addGlobal o v) fun _ _ => trivial
  suffices h : Leads AddsFuncs (fun _ => True) (definition head d rest) fun _ _ => True from
    .of_steps (h o trivial).1
  unfold definition
  dsimp only
  split
  · exact hsingle (hglobal _)
  · exact hsingle (hglobal _)
  · exact htypes (leads_compositeRun .struct head d rest)
  · exact htypes (leads_compositeRun .union head d rest)
  · exact htypes (leads_enumRun head d rest)
  · exact hsingle (htypes (leads_typedef _ d))
  · exact hsingle .report
  all_goals exact .locate .fail

/-! ## Changes of one function -/

/-- Of the functions only number `f` may have changed, and not in its address.
Lines may have come. -/
structure ChangesFunc (f : Nat) (o o' : Overlay) : Prop where
  count : o'.funcs.length = o.funcs.length
  funcNames : o'.funcNames = o.funcNames
  other : ∀ i, i ≠ f → o'.func i = o.func i
  addr : (o'.func f).addr = (o.func f).addr
  lines : o.lines <+: o'.lines

structure InBody (f : Nat) (o o' : Overlay) : Prop extends ChangesFunc f o o' where
  path : (o'.func f).path = (o.func f).path
  lineStart : (o'.func f).lineStart = (o.func f).lineStart

theorem ChangesFunc.refl (f : Nat) (o : Overlay) : ChangesFunc f o o :=
  ⟨rfl, rfl, fun _ _ => rfl, rfl, List.prefix_rfl⟩

theorem ChangesFunc.trans (h : ChangesFunc f o o') (h' : ChangesFunc f o' o'') : ChangesFunc f o o'' where
  count := h'.count.trans h.count
  funcNames := h'.funcNames.trans h.funcNames
  other i hi := (h'.other i hi).trans (h.other i hi)
  addr := h'.addr.trans h.addr
  lines := h.lines.trans h'.lines

theorem InBody.of_steps (h : ReflTransGen (InBody f) o o') : InBody f o o' := by
  induction h with
  | refl => exact ⟨.refl f o, rfl, rfl⟩
  | tail _ h ih => exact ⟨ih.toChangesFunc.trans h.toChangesFunc, h.path.trans ih.path, h.lineStart.trans ih.lineStart⟩

theorem changesFunc_modifyFunc (o : Overlay) {g : Function → Function} (hg : ∀ fn, (g fn).addr = fn.addr) :
    ChangesFunc f o (o.modifyFunc f g) where
  count := List.length_modify _ _ _
  funcNames := rfl
  other i hi := by rw [func_modifyFunc, if_neg fun h => hi h.1.symm]
  addr := by
    rw [func_modifyFunc]
    split
    · exact hg _
    · rfl
  lines := List.prefix_rfl

theorem inBody_modifyFunc (o : Overlay) {g : Function → Function} (haddr : ∀ fn, (g fn).addr = fn.addr)
    (hpath : ∀ fn, (g fn).path = fn.path) (hline : ∀ fn, (g fn).lineStart = fn.lineStart) :
    InBody f o (o.modifyFunc f g) := by
  refine ⟨changesFunc_modifyFunc o haddr, ?_, ?_⟩ <;> rw [func_modifyFunc] <;> split
  · exact hpath _
  · rfl
  · exact hline _
  · rfl

theorem SameCode.inBody (h : o.SameCode o') : InBody f o o' := by
  have hfunc : ∀ i, o'.func i = o.func i := fun i => by
    unfold func
    rw [h.funcs]
  have hchanges : ChangesFunc f o o' :=
    ⟨by rw [h.funcs], h.funcNames, fun i _ => hfunc i, by rw [hfunc], h.lines ▸ List.prefix_rfl⟩
  exact ⟨hchanges, by rw [hfunc], by rw [hfunc]⟩

theorem sameCode_localDecl (addr : UInt32) (d : SymbolDef) (o : Overlay) :
    o.SameCode (localDecl addr d o).state :=
  .of_edits (leads_localDecl (P := fun _ => True) addr d o trivial).1

theorem ChangesFunc.addLine (h : ChangesFunc f o o') (l : Line) : ChangesFunc f o (o'.addLine l) :=
  ⟨h.count, h.funcNames, h.other, h.addr, h.lines.trans (List.prefix_append _ _)⟩

theorem InBody.addLine (h : InBody f o o') (l : Line) : InBody f o (o'.addLine l) :=
  ⟨h.toChangesFunc.addLine l, h.path, h.lineStart⟩

theorem inBody_openBlock (start : FunctionStart) (depth : Nat) (addr line : UInt32) (o : Overlay) :
    InBody f o (openBlock f start depth addr line o) := by
  apply InBody.addLine
  exact inBody_modifyFunc o (fun _ => rfl) (fun _ => rfl) fun _ => rfl

theorem inBody_closeBlock (start : FunctionStart) (block : Nat) (addr line : UInt32) (o : Overlay) :
    InBody f o (closeBlock f start block addr line o) := by
  apply InBody.addLine
  exact inBody_modifyFunc o (fun _ => rfl) (fun _ => rfl) fun _ => rfl

theorem inBody_addScoped (opened : List Nat) (v : Variable) (o : Overlay) : InBody f o (addScoped f opened v o) := by
  cases opened
  · exact inBody_modifyFunc o (fun _ => rfl) (fun _ => rfl) fun _ => rfl
  · exact inBody_modifyFunc o (fun _ => rfl) (fun _ => rfl) fun _ => rfl

theorem inBody_bodyRecord (f : Nat) (start : FunctionStart) (opened : List Nat) (r : Record) :
    Leads (InBody f) (fun _ => True) (bodyRecord f start opened r) fun _ _ => True := by
  have hstep : ∀ {P : Overlay → Prop} {g : Overlay → Overlay} (next : List Nat), (∀ o, InBody f o (g o)) →
      Leads (InBody f) P (do Action.modify g; return next : Action Complaint Overlay (List Nat))
        fun _ _ => True := fun next h =>
    .bind (Q := fun _ _ => True) (.modify_step (fun o _ => h o) fun _ _ => trivial) fun _ => .pure fun _ h => h
  unfold bodyRecord
  split
  · exact .read_bind fun o _ => hstep _ (inBody_openBlock start _ _ _)
  · split
    · exact .fail
    · exact hstep _ (inBody_closeBlock start _ _ _)
  · refine .bind (Q := fun _ _ => True) ?_ fun v => hstep _ (inBody_addScoped opened v)
    exact ((leads_localDecl r.value _).mono fun _ _ h => h.sameCode.inBody).weaken (fun _ h => h) fun _ _ _ => trivial
  · exact .fail

theorem bodyRecord_cases {start : FunctionStart} {opened opened' : List Nat} {r : Record}
    (h : (bodyRecord f start opened r o).result = .ok opened') :
    (∃ line, r.body = .blockStart line ∧ opened' = (o.func f).blocks.length :: opened ∧
        (bodyRecord f start opened r o).state = openBlock f start opened.length r.value line o) ∨
      (∃ line b, r.body = .blockEnd line ∧ opened = b :: opened' ∧
        (bodyRecord f start opened r o).state = closeBlock f start b r.value line o) ∨
      ∃ form d v, r.body = .definition form d ∧ (localDecl r.value d o).result = .ok v ∧ opened' = opened ∧
        (bodyRecord f start opened r o).state = addScoped f opened v (localDecl r.value d o).state := by
  unfold bodyRecord at h ⊢
  cases hbody : r.body with
  | blockStart line =>
    rw [hbody] at h
    cases h
    exact .inl ⟨line, rfl, rfl, rfl⟩
  | blockEnd line =>
    rw [hbody] at h
    cases opened with
    | nil => exact nomatch h
    | cons b outer =>
      cases h
      exact .inr (.inl ⟨line, b, rfl, rfl, rfl⟩)
  | definition form d =>
    rw [hbody] at h
    obtain ⟨v, hv, hrest⟩ := exists_of_bind_ok h
    cases hrest
    refine .inr (.inr ⟨form, d, v, rfl, hv, rfl, ?_⟩)
    exact congrArg Outcome.state (Action.bind_run_of_ok hv)
  | _ =>
    rw [hbody] at h
    exact nomatch h

theorem recordBody_changes (start : FunctionStart) (addr : UInt32) (inner : List Record) (line : Option UInt32)
    (hf : f < o.funcs.length) :
    ChangesFunc f o (recordBody f start addr inner line o).state ∧
      ((recordBody f start addr inner line o).state.func f).path = start.path ∧
      ((recordBody f start addr inner line o).state.func f).lineStart = start.line ∧
      o.lines ++ [{ addr, path := start.path, line := start.line }] <+:
        (recordBody f start addr inner line o).state.lines := by
  rw [recordBody_eq]
  have hrest : Leads (InBody f) (fun _ => True)
      (do let _ ← Action.overRecords (bodyRecord f start) 1 [] inner
          Action.modify (endBody? f line)) fun _ _ => True := by
    refine .bind (.overRecords (J := fun _ _ => True) (inBody_bodyRecord f start) inner 1 []) fun _ => ?_
    cases line with
    | some line =>
      exact .modify_step (fun o _ => inBody_modifyFunc o (fun _ => rfl) (fun _ => rfl) fun _ => rfl) fun _ _ => trivial
    | none => exact .pure fun _ h => h
  have hbody := InBody.of_steps (hrest (startBody f start addr o) trivial).1
  have hbegun : (startBody f start addr o).func f = { o.func f with path := start.path, lineStart := start.line } :=
    (func_modifyFunc o _ f f).trans (if_pos ⟨rfl, hf⟩)
  have hstart : ChangesFunc f o (startBody f start addr o) := by
    apply ChangesFunc.addLine
    exact changesFunc_modifyFunc o fun _ => rfl
  refine ⟨hstart.trans hbody.toChangesFunc, hbody.path.trans ?_, hbody.lineStart.trans ?_, hbody.lines⟩
  · rw [hbegun]
  · rw [hbegun]

theorem recordBody_ok {start : FunctionStart} {inner : List Record} {line : Option UInt32}
    (h : (recordBody f start addr inner line o).result = .ok ()) :
    ∃ opened, (Action.overRecords (bodyRecord f start) 1 [] inner (startBody f start addr o)).result = .ok opened ∧
      (recordBody f start addr inner line o).state =
        endBody? f line (Action.overRecords (bodyRecord f start) 1 [] inner (startBody f start addr o)).state := by
  obtain ⟨_, _, h⟩ := exists_of_bind_ok h
  obtain ⟨opened, hrun, _⟩ := exists_of_bind_ok h
  refine ⟨opened, hrun, ?_⟩
  cases line with
  | none => exact congrArg Outcome.state (Action.bind_run_of_ok hrun)
  | some line => exact congrArg Outcome.state (Action.bind_run_of_ok hrun)

theorem length_startBody (o : Overlay) (f : Nat) (start : FunctionStart) (addr : UInt32) :
    (startBody f start addr o).funcs.length = o.funcs.length :=
  List.length_modify _ _ _

theorem length_overRecords (o : Overlay) (f : Nat) (start : FunctionStart) (opened : List Nat) (i : Nat)
    (rs : List Record) :
    (Action.overRecords (bodyRecord f start) i opened rs o).state.funcs.length = o.funcs.length := by
  have hbody := Leads.overRecords (J := fun _ _ => True) (inBody_bodyRecord f start) rs i opened
  exact (InBody.of_steps (hbody o trivial).1).count

/-! ## Finding a function -/

/-- The first function that came under the name and is at the address. -/
def function? (o : Overlay) (name : String) (addr : UInt32) : Option Nat :=
  (o.funcNames.get name).find? fun i => (o.func i).addr == addr

theorem function?_spec (ho : o.NamesGrouped) (h : o.function? name addr = some f) :
    f ∈ o.funcNames.get name ∧ f < o.funcs.length ∧ (o.func f).addr = addr := by
  have hmem := List.mem_of_find?_eq_some h
  have haddr := List.find?_some h
  exact ⟨hmem, ho.lt_of_mem hmem, by simpa using haddr⟩

theorem locateFunction_of_some {ε : Type} (h : o.function? name addr = some f) :
    locateFunction (ε := ε) name addr o = ⟨.ok f, o, []⟩ := by
  unfold function? at h
  simp only [locateFunction, Action.bind_run, Action.read, h, Action.pure_run, List.append_nil]

theorem locateFunction_of_none {ε : Type} (h : o.function? name addr = none) :
    locateFunction (ε := ε) name addr o =
      ⟨.ok o.funcs.length, o.addPlaceholder name addr, [.missingFunction name]⟩ := by
  unfold function? at h
  simp only [locateFunction, Action.bind_run, Action.read, h, Action.report, Action.modify, Action.pure_run,
    List.append_nil, List.nil_append]

theorem func_addPlaceholder (o : Overlay) (name : String) (addr : UInt32) :
    ((o.addPlaceholder name addr).func o.funcs.length).addr = addr ∧
      ((o.addPlaceholder name addr).func o.funcs.length).signature.params = [] ∧
      ((o.addPlaceholder name addr).func o.funcs.length).blocks = [] := by
  unfold addPlaceholder
  simp only [func_addFuncAs_length, and_self]

theorem function?_addPlaceholder (ho : o.NamesGrouped) (h : o.function? name addr = none) :
    (o.addPlaceholder name addr).function? name addr = some o.funcs.length := by
  have hget : (o.addPlaceholder name addr).funcNames.get name = o.funcNames.get name ++ [o.funcs.length] := by
    show (o.funcNames.add name o.funcs.length).get name = _
    rw [Groups.get_add, if_pos rfl]
  have hbefore : (o.funcNames.get name).find? (fun i => ((o.addPlaceholder name addr).func i).addr == addr) = none := by
    rw [List.find?_eq_none]
    intro i hi
    have hold := List.find?_eq_none.mp h i hi
    rwa [(addsFuncs_addPlaceholder o name addr).func_eq (ho.lt_of_mem hi)]
  unfold function?
  rw [hget, List.find?_append, hbefore]
  simp [(func_addPlaceholder o name addr).1]

theorem ChangesFunc.function?_eq (h : ChangesFunc f o o') (name : String) (addr : UInt32) :
    o'.function? name addr = o.function? name addr := by
  have haddr : ∀ i, (o'.func i).addr = (o.func i).addr := fun i => by
    by_cases hi : i = f
    · rw [hi, h.addr]
    · rw [h.other i hi]
  simp only [Overlay.function?, h.funcNames, haddr]

/-! ## Function spans -/

def withFunction (o : Overlay) (name : String) (addr : UInt32) : Overlay :=
  if (o.function? name addr).isSome then o else o.addPlaceholder name addr

theorem withFunction_of_some (h : o.function? name addr = some f) : o.withFunction name addr = o := by
  simp [withFunction, h]

theorem addsFuncs_withFunction (o : Overlay) (name : String) (addr : UInt32) :
    o.AddsFuncs (o.withFunction name addr) := by
  unfold withFunction
  split
  · exact .refl o
  · exact addsFuncs_addPlaceholder o name addr

theorem exists_function?_withFunction (ho : o.NamesGrouped) (name : String) (addr : UInt32) :
    ∃ f, (o.withFunction name addr).function? name addr = some f ∧ f < (o.withFunction name addr).funcs.length ∧
      ∀ {ε : Type}, (locateFunction (ε := ε) name addr o).result = .ok f ∧
        (locateFunction (ε := ε) name addr o).state = o.withFunction name addr := by
  cases hf : o.function? name addr with
  | some f =>
    rw [withFunction_of_some hf]
    refine ⟨f, hf, (function?_spec ho hf).2.1, ?_⟩
    simp [locateFunction_of_some hf]
  | none =>
    have hwith : o.withFunction name addr = o.addPlaceholder name addr := by simp [withFunction, hf]
    rw [hwith]
    refine ⟨o.funcs.length, function?_addPlaceholder ho hf, ?_, ?_⟩
    · simp [addPlaceholder, length_addFuncAs]
    · simp [locateFunction_of_none hf]

def repeats (o : Overlay) (name : String) (addr : UInt32) : Bool :=
  (o.function? name addr).any fun f => (o.func f).hasBody

theorem withFunction_of_repeats (h : o.repeats name addr = true) : o.withFunction name addr = o := by
  unfold repeats at h
  cases hfound : o.function? name addr with
  | some f => exact withFunction_of_some hfound
  | none => simp [hfound] at h

theorem hasBody_withFunction (ho : o.NamesGrouped) (hf : (o.withFunction name addr).function? name addr = some f) :
    ((o.withFunction name addr).func f).hasBody = o.repeats name addr := by
  unfold repeats
  cases hfound : o.function? name addr with
  | some g =>
    rw [withFunction_of_some hfound] at hf ⊢
    cases hfound.symm.trans hf
    rfl
  | none =>
    have hmade : o.withFunction name addr = o.addPlaceholder name addr := by simp [withFunction, hfound]
    rw [hmade, function?_addPlaceholder ho hfound] at hf
    cases hf
    rw [hmade, (addsFuncs_addPlaceholder o name addr).hasBody_eq, func_of_le (Nat.le_refl _)]
    rfl

def spanResult (head : Record) (start : FunctionStart) (rest : List Record) : Except Inconsistency Nat :=
  if (rest.findSome? Record.functionEnd?).isSome then .ok ((rest.takeWhile (!·.endsFunction)).length + 1)
  else .error (Complaint.located { name := start.name, cause := .unterminated .function } head 0)

theorem spanResult_of_ok {head : Record} {start : FunctionStart} {rest : List Record} {n : Nat}
    (h : (functionSpan head start rest o).result = .ok n) : spanResult head start rest = .ok n := by
  obtain ⟨f, _, h⟩ := exists_of_bind_ok h
  obtain ⟨o₁, _, h⟩ := exists_of_bind_ok h
  dsimp only at h
  unfold spanResult
  by_cases hend : (rest.findSome? Record.functionEnd?).isSome = true
  · simp only [hend, if_true] at h ⊢
    split at h
    · obtain ⟨_, _, h⟩ := exists_of_bind_ok h
      exact h
    · obtain ⟨_, _, h⟩ := exists_of_bind_ok h
      exact h
  · simp only [hend, Bool.false_eq_true, if_false] at h
    split at h
    · obtain ⟨_, _, h⟩ := exists_of_bind_ok h
      exact nomatch h
    · obtain ⟨_, _, h⟩ := exists_of_bind_ok h
      exact nomatch h

section
variable {head : Record} {start : FunctionStart} {o₁ : Overlay} (ho : o.NamesGrouped)
  (ho₁ : o.withFunction (Text.identifier start.name) head.value = o₁)
  (hf : o₁.function? (Text.identifier start.name) head.value = some f)
include ho ho₁ hf

theorem functionSpan_repeated (hbody : (o₁.func f).hasBody = true) (rest : List Record) :
    (functionSpan head start rest o).state = o₁ ∧
      (functionSpan head start rest o).result = spanResult head start rest := by
  obtain ⟨f', hf', _, hlocate⟩ := exists_function?_withFunction ho (Text.identifier start.name) head.value
  rw [ho₁] at hf' hlocate
  cases hf.symm.trans hf'
  unfold functionSpan spanResult
  rw [Action.bind_run_of_ok hlocate.1, hlocate.2]
  simp only [Action.bind_run, Action.read, hbody, if_true, Action.report]
  split
  · exact ⟨rfl, rfl⟩
  · exact ⟨rfl, rfl⟩

theorem functionSpan_recorded (hbody : (o₁.func f).hasBody = false) (rest : List Record) :
    let out := recordBody f start head.value (rest.takeWhile (!·.endsFunction)) (rest.findSome? Record.functionEnd?) o₁
    (functionSpan head start rest o).state = out.state ∧
      (functionSpan head start rest o).result = out.result.bind fun _ => spanResult head start rest := by
  obtain ⟨f', hf', _, hlocate⟩ := exists_function?_withFunction ho (Text.identifier start.name) head.value
  rw [ho₁] at hf' hlocate
  cases hf.symm.trans hf'
  unfold functionSpan spanResult
  rw [Action.bind_run_of_ok hlocate.1, hlocate.2]
  simp only [Action.bind_run, Action.read, hbody, Bool.false_eq_true, if_false]
  rcases recordBody f start head.value _ _ o₁ with ⟨e | u, s, es⟩
  · exact ⟨rfl, rfl⟩
  · dsimp only
    split
    · exact ⟨rfl, rfl⟩
    · exact ⟨rfl, rfl⟩

theorem recordBody_ok_of_functionSpan (hbody : (o₁.func f).hasBody = false) {rest : List Record} {n : Nat}
    (h : (functionSpan head start rest o).result = .ok n) :
    (recordBody f start head.value (rest.takeWhile (!·.endsFunction)) (rest.findSome? Record.functionEnd?) o₁).result =
      .ok () := by
  rw [(functionSpan_recorded ho ho₁ hf hbody rest).2] at h
  revert h
  cases (recordBody f start head.value _ _ _).result with
  | error e => exact fun h => nomatch h
  | ok u => exact fun _ => rfl

end

/-! ## Bodies are kept -/

/-- Functions may have come and bodies may have been written, but none anew. -/
structure KeepsBodies (o o' : Overlay) : Prop where
  count : o.funcs.length ≤ o'.funcs.length
  groups : ∀ name, o.funcNames.get name <+: o'.funcNames.get name
  addr : ∀ i < o.funcs.length, (o'.func i).addr = (o.func i).addr
  body : ∀ i, (o.func i).hasBody = true → o'.func i = o.func i

theorem AddsFuncs.keepsBodies (h : o.AddsFuncs o') : o.KeepsBodies o' where
  count := h.length_le
  groups := h.groups
  addr i hi := by rw [h.func_eq hi]
  body i hi := h.func_eq (lt_of_hasBody hi)

theorem ChangesFunc.keepsBodies (h : ChangesFunc f o o') (hf : (o.func f).hasBody = false) : o.KeepsBodies o' where
  count := Nat.le_of_eq h.count.symm
  groups _ := h.funcNames ▸ List.prefix_rfl
  addr i _ := by
    by_cases hi : i = f
    · rw [hi, h.addr]
    · rw [h.other i hi]
  body i hi := h.other i fun heq => by simp [heq, hf] at hi

theorem KeepsBodies.trans (h : o.KeepsBodies o') (h' : o'.KeepsBodies o'') : o.KeepsBodies o'' where
  count := Nat.le_trans h.count h'.count
  groups name := (h.groups name).trans (h'.groups name)
  addr i hi := (h'.addr i (Nat.lt_of_lt_of_le hi h.count)).trans (h.addr i hi)
  body i hi := by
    have heq := h.body i hi
    rw [h'.body i (by rwa [heq]), heq]

theorem KeepsBodies.hasBody (h : o.KeepsBodies o') (hi : (o.func i).hasBody = true) : (o'.func i).hasBody = true := by
  rwa [h.body i hi]

theorem KeepsBodies.function? (h : o.KeepsBodies o') (ho : o.NamesGrouped)
    (hf : o.function? name addr = some f) : o'.function? name addr = some f := by
  obtain ⟨more, hmore⟩ := h.groups name
  have hsame : (o.funcNames.get name).find? (fun i => (o'.func i).addr == addr) = some f := by
    rw [← hf]
    unfold Overlay.function?
    apply List.find?_congr
    intro i hi
    rw [h.addr i (ho.lt_of_mem hi)]
  unfold Overlay.function?
  rw [← hmore, List.find?_append, hsame, Option.some_or]

/-- A span of a function that has a body changes nothing. Any other begins a body
where its start says, and leaves the other functions alone. -/
theorem functionSpan_cases (ho : o.NamesGrouped) (head : Record) (start : FunctionStart) (rest : List Record) :
    ∃ f, (functionSpan head start rest o).state.function? (Text.identifier start.name) head.value = some f ∧
      (o.function? (Text.identifier start.name) head.value = some f ∧ (o.func f).hasBody = true ∧
          (functionSpan head start rest o).state = o ∨
        ∃ o₁, o.AddsFuncs o₁ ∧ (o₁.func f).hasBody = false ∧
          ChangesFunc f o₁ (functionSpan head start rest o).state ∧
          ((functionSpan head start rest o).state.func f).path = start.path ∧
          ((functionSpan head start rest o).state.func f).lineStart = start.line ∧
          o₁.lines.length < (functionSpan head start rest o).state.lines.length) := by
  obtain ⟨f, hf, hlt, _⟩ := exists_function?_withFunction ho (Text.identifier start.name) head.value
  have hwith := addsFuncs_withFunction o (Text.identifier start.name) head.value
  refine ⟨f, ?_⟩
  by_cases hbody : ((o.withFunction (Text.identifier start.name) head.value).func f).hasBody = true
  · have hself := withFunction_of_repeats ((hasBody_withFunction ho hf).symm.trans hbody)
    have hstate := (functionSpan_repeated ho rfl hf hbody rest).1
    rw [hself] at hf hbody hstate
    rw [hstate]
    exact ⟨hf, .inl ⟨hf, hbody, rfl⟩⟩
  · rw [Bool.not_eq_true] at hbody
    rw [(functionSpan_recorded ho rfl hf hbody rest).1]
    obtain ⟨hfunc, hpath, hline, hlines⟩ := recordBody_changes start head.value (rest.takeWhile (!·.endsFunction))
      (rest.findSome? Record.functionEnd?) hlt
    have hmore := hlines.length_le
    rw [List.length_append, List.length_singleton] at hmore
    exact ⟨(hfunc.function?_eq _ _).trans hf, .inr ⟨_, hwith, hbody, hfunc, hpath, hline, hmore⟩⟩

theorem keepsBodies_contentStep (ho : o.NamesGrouped) (head : Record) (rest : List Record) :
    o.KeepsBodies (contentStep head rest o).state := by
  unfold contentStep
  cases head.body with
  | symbol form name => exact AddsFuncs.keepsBodies (SameCode.addsFuncs ⟨rfl, rfl, rfl⟩)
  | functionStart start =>
    obtain ⟨f, _, ⟨_, _, hstate⟩ | ⟨o₁, hadds, hbody, hchanges, _⟩⟩ := functionSpan_cases ho head start rest
    · show o.KeepsBodies (functionSpan head start rest o).state
      rw [hstate]
      exact (AddsFuncs.refl o).keepsBodies
    · exact hadds.keepsBodies.trans (hchanges.keepsBodies hbody)
  | definition form d => exact (addsFuncs_definition head d rest o).keepsBodies
  | _ => exact (AddsFuncs.refl o).keepsBodies

theorem body_of_contentStep (ho : o.NamesGrouped) {head : Record} {rest : List Record}
    (hbefore : (o.func i).hasBody = false) (hafter : ((contentStep head rest o).state.func i).hasBody = true) :
    ∃ start, head.body = .functionStart start ∧ start.isPlaced = true ∧
      (contentStep head rest o).state.function? (Text.identifier start.name) head.value = some i := by
  unfold contentStep at hafter ⊢
  have hnone : ∀ {o' : Overlay}, o.AddsFuncs o' → (o'.func i).hasBody ≠ true := fun h => by
    rw [h.hasBody_eq, hbefore]
    exact Bool.false_ne_true
  cases hhead : head.body with
  | functionStart start =>
    rw [hhead] at hafter
    obtain ⟨f, hf, ⟨_, _, hstate⟩ | ⟨o₁, hadds, hbody, hchanges, hpath, hline, _⟩⟩ :=
      functionSpan_cases ho head start rest
    · dsimp only at hafter
      rw [hstate, hbefore] at hafter
      exact absurd hafter Bool.false_ne_true
    · dsimp only at hafter ⊢
      by_cases hi : i = f
      · subst hi
        rw [Function.hasBody, hpath, hline] at hafter
        exact ⟨start, rfl, hafter, hf⟩
      · rw [hchanges.other i hi] at hafter
        exact absurd hafter (hnone hadds)
  | symbol form name =>
    rw [hhead] at hafter
    exact absurd hafter (hnone (SameCode.addsFuncs ⟨rfl, rfl, rfl⟩))
  | definition form d =>
    rw [hhead] at hafter
    exact absurd hafter (hnone (addsFuncs_definition head d rest o))
  | _ =>
    rw [hhead] at hafter
    exact absurd hafter (hnone (AddsFuncs.refl o))

theorem span_of_contentStep (ho : o.NamesGrouped) {head : Record} {rest : List Record} (hi : i < o.funcs.length)
    (hne : (contentStep head rest o).state.func i ≠ o.func i) :
    ∃ start, head.body = .functionStart start ∧
      (contentStep head rest o).state.function? (Text.identifier start.name) head.value = some i := by
  unfold contentStep at hne ⊢
  cases hhead : head.body with
  | functionStart start =>
    rw [hhead] at hne
    obtain ⟨f, hf, ⟨_, _, hstate⟩ | ⟨o₁, hadds, _, hchanges, _⟩⟩ := functionSpan_cases ho head start rest
    · exact absurd (congrArg (func · i) hstate) hne
    · by_cases heq : i = f
      · subst heq
        exact ⟨start, rfl, hf⟩
      · exact absurd ((hchanges.other i heq).trans (hadds.func_eq hi)) hne
  | definition form d =>
    rw [hhead] at hne
    exact absurd ((addsFuncs_definition head d rest o).func_eq hi) hne
  | _ =>
    rw [hhead] at hne
    exact absurd rfl hne

theorem hasBody_functionSpan (ho : o.NamesGrouped) (head : Record) {start : FunctionStart}
    (hplaced : start.isPlaced = true) (rest : List Record) :
    ∃ f, (functionSpan head start rest o).state.function? (Text.identifier start.name) head.value = some f ∧
      ((functionSpan head start rest o).state.func f).hasBody = true := by
  obtain ⟨f, hf, ⟨_, hbody, hstate⟩ | ⟨_, _, _, _, hpath, hline, _⟩⟩ := functionSpan_cases ho head start rest
  · rw [hstate] at hf ⊢
    exact ⟨f, hf, hbody⟩
  · refine ⟨f, hf, ?_⟩
    rw [Function.hasBody, hpath, hline]
    exact hplaced

end Overlay

end DebugSymbols
