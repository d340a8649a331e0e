import DebugSymbols.Proofs.Build.Functions
import DebugSymbols.Proofs.Build.Lookups
import DebugSymbols.Proofs.Print.Braces

/-!
# Scopes in a function body

The records of a function span mark where blocks open and close and what is
declared in between. Marks that are balanced are those of one tree of scopes. A
span that is recorded turns it into blocks in pre-order: each local is with the
block whose scope declares it, and a parameter if no block does.
-/

namespace DebugSymbols

inductive Mark where
  | opens (line : UInt32)
  | closes (line : UInt32)
  | declares (v : Variable)
  deriving DecidableEq

/-- What a scope declares and the blocks in it, in order. -/
inductive Scopes where
  | nil
  | declares (v : Variable) (rest : Scopes)
  | block (first : UInt32) (inner : Scopes) (last : UInt32) (rest : Scopes)

/-- With those that have no namesake among the ones before them. -/
def addDistinct (known : List Variable) : List Variable → List Variable
  | [] => known
  | v :: vs => addDistinct (if known.any (·.name == v.name) then known else known ++ [v]) vs

namespace Scopes

def marks : Scopes → List Mark
  | nil => []
  | declares v rest => .declares v :: rest.marks
  | block first inner last rest => .opens first :: inner.marks ++ .closes last :: rest.marks

def outermost : Scopes → List Variable
  | nil => []
  | declares v rest => v :: rest.outermost
  | block _ _ _ rest => rest.outermost

def forest (depth : Nat) : Scopes → BlockForest
  | nil => .nil
  | declares _ rest => rest.forest depth
  | block first inner last rest =>
    .node { lineStart := first, lineEnd := last, locals := addDistinct [] inner.outermost, depth, closed := true }
      (inner.forest (depth + 1)) (rest.forest depth)

def blocks (s : Scopes) : List Block :=
  (s.forest 0).preorder

theorem atDepth_forest (s : Scopes) (d : Nat) : (s.forest d).AtDepth d := by
  induction s generalizing d with
  | nil => trivial
  | declares v rest ih => exact ih d
  | block first inner last rest ihInner ihRest => exact ⟨rfl, ihInner (d + 1), ihRest d⟩

/-! ## One tree for the marks -/

theorem marks_closes_inj {s t : Scopes} {y z : UInt32} {ms ns : List Mark}
    (h : s.marks ++ .closes y :: ms = t.marks ++ .closes z :: ns) : s = t ∧ y = z ∧ ms = ns := by
  induction s generalizing t y z ms ns with
  | nil =>
    cases t with
    | nil => simpa [marks] using h
    | declares => simp [marks] at h
    | block => simp [marks] at h
  | declares v rest ih =>
    cases t with
    | nil => simp [marks] at h
    | declares w rest' =>
      simp only [marks, List.cons_append, List.cons.injEq, Mark.declares.injEq] at h
      obtain ⟨rfl, hrest⟩ := h
      obtain ⟨rfl, hends⟩ := ih hrest
      exact ⟨rfl, hends⟩
    | block => simp [marks] at h
  | block first inner last rest ihInner ihRest =>
    cases t with
    | nil => simp [marks] at h
    | declares => simp [marks] at h
    | block first' inner' last' rest' =>
      simp only [marks, List.cons_append, List.append_assoc, List.cons.injEq, Mark.opens.injEq] at h
      obtain ⟨rfl, hinner⟩ := h
      obtain ⟨rfl, rfl, hrest⟩ := ihInner hinner
      obtain ⟨rfl, hends⟩ := ihRest hrest
      exact ⟨rfl, hends⟩

theorem marks_injective {s t : Scopes} (h : s.marks = t.marks) : s = t := by
  have hends : s.marks ++ [Mark.closes 0] = t.marks ++ [Mark.closes 0] := by rw [h]
  exact (marks_closes_inj hends).1

end Scopes

/-! ## Braces -/

def Mark.brace? : Mark → Option Brace
  | opens line => some (.opening line)
  | closes line => some (.closing line)
  | declares _ => none

def Record.brace? (r : Record) : Option Brace :=
  match r.body with
  | .blockStart line => some (.opening line)
  | .blockEnd line => some (.closing line)
  | _ => none

theorem Scopes.braces_forest (t : Scopes) (depth : Nat) :
    (t.forest depth).braces = t.marks.filterMap Mark.brace? := by
  induction t generalizing depth with
  | nil => rfl
  | declares v rest ih => exact ih depth
  | block first inner last rest ihInner ihRest =>
    simp [forest, marks, BlockForest.braces, Mark.brace?, ihInner, ihRest]

theorem Scopes.braces_blocks (t : Scopes) :
    (BlockForest.ofBlocks t.blocks).braces = t.marks.filterMap Mark.brace? := by
  rw [blocks, BlockForest.ofBlocks_preorder (t.atDepth_forest 0), braces_forest]

/-! ## Marks one after another -/

/-- How far the scopes have been turned into parameters and blocks. -/
structure ScopeState where
  /-- The open blocks, innermost first. -/
  opened : List Nat
  params : List Variable
  blocks : List Block

namespace ScopeState

def declare (s : ScopeState) (vs : List Variable) : ScopeState :=
  match s.opened with
  | [] => { s with params := addDistinct s.params vs }
  | b :: _ => { s with blocks := s.blocks.modify b fun c => { c with locals := addDistinct c.locals vs } }

def mark (s : ScopeState) : Mark → Option ScopeState
  | .opens line =>
    some { s with
      opened := s.blocks.length :: s.opened
      blocks := s.blocks ++ [{ lineStart := line, depth := s.opened.length }] }
  | .closes line =>
    match s.opened with
    | [] => none
    | b :: outer =>
      some { s with
        opened := outer
        blocks := s.blocks.modify b fun c => { c with lineEnd := line, closed := true } }
  | .declares v => some (s.declare [v])

def marks (s : ScopeState) (ms : List Mark) : Option ScopeState :=
  ms.foldlM mark s

def InRange (s : ScopeState) : Prop :=
  ∀ b ∈ s.opened, b < s.blocks.length

variable {s s' : ScopeState}

theorem marks_append (s : ScopeState) (ms ns : List Mark) :
    s.marks (ms ++ ns) = (s.marks ms).bind fun s => s.marks ns := by
  unfold marks
  rw [List.foldlM_append]
  rfl

theorem marks_cons (s : ScopeState) (m : Mark) (ms : List Mark) :
    s.marks (m :: ms) = (s.mark m).bind fun s => s.marks ms := by
  unfold marks
  rw [List.foldlM_cons]
  rfl

@[simp] theorem opened_declare (s : ScopeState) (vs : List Variable) : (s.declare vs).opened = s.opened := by
  unfold declare
  split <;> simp_all

theorem length_declare (s : ScopeState) (vs : List Variable) : (s.declare vs).blocks.length = s.blocks.length := by
  unfold declare
  split <;> simp

theorem declare_nil (s : ScopeState) : s.declare [] = s := by
  unfold declare
  split
  · rfl
  · simp [addDistinct, ← Function.id_def]

theorem declare_cons (s : ScopeState) (v : Variable) (vs : List Variable) :
    (s.declare [v]).declare vs = s.declare (v :: vs) := by
  obtain ⟨_ | ⟨b, outer⟩, params, blocks⟩ := s
  · rfl
  · simp only [declare, List.modify_modify_eq, Function.comp_def, addDistinct]

theorem modify_append_of_lt {α : Type} (l more : List α) {i : Nat} (hi : i < l.length) (g : α → α) :
    (l ++ more).modify i g = l.modify i g ++ more := by
  induction l generalizing i with
  | nil => exact absurd hi (Nat.not_lt_zero i)
  | cons a l ih =>
    cases i with
    | zero => rfl
    | succ i => simp [ih (Nat.lt_of_succ_lt_succ hi)]

theorem modify_append_length {α : Type} (l more : List α) (a : α) (g : α → α) :
    (l ++ a :: more).modify l.length g = l ++ g a :: more := by
  induction l with
  | nil => rfl
  | cons b l ih => simp [ih]

theorem InRange.declare (hs : s.InRange) (vs : List Variable) : (s.declare vs).InRange := by
  intro b hb
  rw [length_declare]
  rw [opened_declare] at hb
  exact hs b hb

theorem InRange.open (hs : s.InRange) (line : UInt32) : ScopeState.InRange { s with
    opened := s.blocks.length :: s.opened
    blocks := s.blocks ++ [{ lineStart := line, depth := s.opened.length }] } := by
  intro b hb
  rw [List.length_append, List.length_singleton]
  obtain rfl | hb := List.mem_cons.mp hb
  · exact Nat.lt_succ_self _
  · exact Nat.lt_succ_of_lt (hs b hb)

theorem declare_append (hs : s.InRange) (vs : List Variable) (more : List Block) :
    ({ s with blocks := s.blocks ++ more } : ScopeState).declare vs =
      { s.declare vs with blocks := (s.declare vs).blocks ++ more } := by
  obtain ⟨_ | ⟨b, outer⟩, params, blocks⟩ := s
  · rfl
  · simp only [declare, modify_append_of_lt blocks more (hs b List.mem_cons_self)]

/-! ## A whole scope -/

def withScopes (s : ScopeState) (t : Scopes) : ScopeState :=
  { s.declare t.outermost with
    blocks := (s.declare t.outermost).blocks ++ (t.forest s.opened.length).preorder }

theorem marks_scopes (hs : s.InRange) (t : Scopes) : s.marks t.marks = some (s.withScopes t) := by
  induction t generalizing s with
  | nil => simp [Scopes.marks, marks, withScopes, Scopes.outermost, Scopes.forest, BlockForest.preorder, declare_nil]
  | declares v rest ih =>
    rw [Scopes.marks, marks_cons]
    simp only [mark, Option.bind_some, ih (hs.declare [v]), withScopes, declare_cons, opened_declare, Scopes.outermost,
      Scopes.forest]
  | block first inner last rest ihInner ihRest =>
    -- the block stays where it was opened, with what is inside it behind it
    let more : List Block :=
      { lineStart := first, lineEnd := last, locals := addDistinct [] inner.outermost, depth := s.opened.length,
        closed := true } :: (inner.forest (s.opened.length + 1)).preorder
    have hclosed : (withScopes { s with
        opened := s.blocks.length :: s.opened
        blocks := s.blocks ++ [{ lineStart := first, depth := s.opened.length }] } inner).mark (.closes last) =
        some { s with blocks := s.blocks ++ more } := by
      simp only [withScopes, declare, mark, modify_append_length, List.append_assoc, List.cons_append,
        List.nil_append, List.length_cons, more]
    have hafter : ScopeState.InRange { s with blocks := s.blocks ++ more } := by
      intro b hb
      rw [List.length_append]
      exact Nat.lt_add_right _ (hs b hb)
    rw [Scopes.marks, List.cons_append, marks_cons, mark, Option.bind_some, marks_append, ihInner (hs.open first),
      Option.bind_some, marks_cons, hclosed, Option.bind_some, ihRest hafter]
    simp only [withScopes, declare_append hs, Scopes.outermost, Scopes.forest, BlockForest.preorder,
      List.append_assoc, more]

theorem marks_block {line last : UInt32} {inner : Scopes} {more : List Mark} (hs : s.InRange)
    (h : s.marks (.opens line :: inner.marks ++ .closes last :: more) = some s') :
    ∃ t : ScopeState, t.InRange ∧ t.opened = s.opened ∧ t.marks more = some s' := by
  have hwhole := marks_scopes hs (.block line inner last .nil)
  rw [Scopes.marks] at hwhole
  refine ⟨s.withScopes (.block line inner last .nil), ?_, opened_declare s _, ?_⟩
  · intro b hb
    have hlt := hs b (by simpa [withScopes] using hb)
    simp only [withScopes, List.length_append, length_declare]
    exact Nat.lt_add_right _ hlt
  · have hlist : Mark.opens line :: inner.marks ++ .closes last :: more =
        (.opens line :: inner.marks ++ .closes last :: Scopes.nil.marks) ++ more := by
      simp [Scopes.marks]
    rwa [hlist, marks_append, hwhole, Option.bind_some] at h

/-- Marks that bring it no further out are those of a scope, or of one that is
closed before they end. -/
theorem exists_scopes {n : Nat} : ∀ {ms : List Mark} {s s' : ScopeState}, ms.length ≤ n → s.InRange →
    s.marks ms = some s' → s'.opened.length ≤ s.opened.length →
    ∃ t : Scopes, ms = t.marks ∨ ∃ line more, ms = t.marks ++ Mark.closes line :: more := by
  induction n with
  | zero =>
    intro ms s s' hn _ _ _
    exact ⟨.nil, .inl (List.length_eq_zero_iff.mp (Nat.le_zero.mp hn))⟩
  | succ n ih =>
    intro ms s s' hn hs hrun hle
    cases ms with
    | nil => exact ⟨.nil, .inl rfl⟩
    | cons m ms =>
      have hms : ms.length ≤ n := Nat.le_of_succ_le_succ hn
      have hstep := hrun
      rw [marks_cons] at hstep
      cases m with
      | declares v =>
        rw [mark, Option.bind_some] at hstep
        obtain ⟨t, rfl | ⟨line, more, rfl⟩⟩ := ih hms (hs.declare [v]) hstep (by simpa using hle)
        · exact ⟨.declares v t, .inl rfl⟩
        · exact ⟨.declares v t, .inr ⟨line, more, rfl⟩⟩
      | closes line => exact ⟨.nil, .inr ⟨line, ms, rfl⟩⟩
      | opens line =>
        rw [mark, Option.bind_some] at hstep
        obtain ⟨inner, rfl | ⟨last, more, rfl⟩⟩ := ih hms (hs.open line) hstep (Nat.le_succ_of_le hle)
        · -- then the block would still be open
          rw [marks_scopes (hs.open line)] at hstep
          cases hstep
          simp only [withScopes, opened_declare, List.length_cons] at hle
          exact absurd hle (Nat.not_succ_le_self _)
        · obtain ⟨t, ht, hopened, hmore⟩ := marks_block hs hrun
          have hlength : more.length ≤ n := by
            rw [List.length_append, List.length_cons] at hms
            omega
          obtain ⟨rest, rfl | ⟨line', more', rfl⟩⟩ := ih hlength ht hmore (by rwa [hopened])
          · exact ⟨.block line inner last rest, .inl rfl⟩
          · refine ⟨.block line inner last rest, .inr ⟨line', more', ?_⟩⟩
            simp [Scopes.marks]

theorem scopes_of_marks {ms : List Mark} (hopened : s.opened = []) (h : s.marks ms = some s') (hend : s'.opened = []) :
    ∃ t : Scopes, ms = t.marks ∧ s' = s.withScopes t := by
  have hs : s.InRange := fun b hb => by
    rw [hopened] at hb
    exact nomatch hb
  obtain ⟨t, rfl | ⟨line, more, rfl⟩⟩ := exists_scopes (Nat.le_refl _) hs h (by rw [hend]; exact Nat.zero_le _)
  · rw [marks_scopes hs] at h
    exact ⟨t, rfl, (Option.some.inj h).symm⟩
  · rw [marks_append, marks_scopes hs, Option.bind_some, marks_cons] at h
    simp [mark, withScopes, hopened] at h

end ScopeState

/-! ## Records -/

def Record.opensBlock (r : Record) : Bool :=
  match r.body with
  | .blockStart _ => true
  | _ => false

def Record.closesBlock (r : Record) : Bool :=
  match r.body with
  | .blockEnd _ => true
  | _ => false

def Record.marks (r : Record) : Overlay → List Mark :=
  match r.body with
  | .blockStart line => fun _ => [.opens line]
  | .blockEnd line => fun _ => [.closes line]
  | .definition _ d => (Overlay.localDecl r.value d).observe fun v _ => [.declares v]
  | _ => fun _ => []

namespace Overlay

open DebugSymbols.Action (observe_of_ok exists_of_bind_ok ok_of_mapError)

variable {o : Overlay} {f : Nat} {start : FunctionStart} {opened opened' : List Nat}

def marksAlong (f : Nat) (start : FunctionStart) : List Nat → List Record → Overlay → List Mark
  | _, [], _ => []
  | opened, r :: rs, o =>
    r.marks o ++ (bodyRecord f start opened r).observe (fun opened o => marksAlong f start opened rs o) o

def spanMarks (head : Record) (start : FunctionStart) (rest : List Record) : Overlay → List Mark :=
  let located : Action Inconsistency Overlay Nat := locateFunction (Text.identifier start.name) head.value
  located.observe fun f o =>
    marksAlong f start [] (rest.takeWhile (!·.endsFunction)) (startBody f start head.value o)

def scopeState (o : Overlay) (f : Nat) (opened : List Nat) : ScopeState :=
  { opened, params := (o.func f).signature.params, blocks := (o.func f).blocks }

theorem scopeState_congr {o' : Overlay} (h : o'.func f = o.func f) : o'.scopeState f = o.scopeState f := by
  unfold scopeState
  rw [h]

theorem scopeState_modifyFunc (hf : f < o.funcs.length) (g : Function → Function) (opened : List Nat) :
    (o.modifyFunc f g).scopeState f opened =
      { opened, params := (g (o.func f)).signature.params, blocks := (g (o.func f)).blocks } := by
  unfold scopeState
  rw [func_modifyFunc, if_pos ⟨rfl, hf⟩]

theorem scopeState_addScoped (hf : f < o.funcs.length) (opened : List Nat) (v : Variable) :
    (addScoped f opened v o).scopeState f opened = (o.scopeState f opened).declare [v] := by
  cases opened with
  | nil =>
    show (o.modifyFunc f _).scopeState f [] = _
    rw [scopeState_modifyFunc hf]
    by_cases hv : (o.func f).signature.params.any (·.name == v.name) = true
    · simp [scopeState, ScopeState.declare, addDistinct, Function.addParam, Signature.addParam, hv]
    · simp [scopeState, ScopeState.declare, addDistinct, Function.addParam, Signature.addParam, hv]
  | cons b outer =>
    show (o.modifyFunc f _).scopeState f (b :: outer) = _
    rw [scopeState_modifyFunc hf]
    have hlocal : ∀ c : Block, c.addLocal v = { c with locals := addDistinct c.locals [v] } := fun c => by
      unfold Block.addLocal
      simp only [addDistinct]
      split <;> rfl
    simp only [scopeState, ScopeState.declare, Function.modifyBlock, hlocal]

theorem bodyRecord_marks (hf : f < o.funcs.length) {r : Record}
    (h : (bodyRecord f start opened r o).result = .ok opened') :
    ∃ m, r.marks o = [m] ∧
      (o.scopeState f opened).mark m = some ((bodyRecord f start opened r o).state.scopeState f opened') := by
  obtain ⟨line, hbody, rfl, hstate⟩ | ⟨line, b, hbody, rfl, hstate⟩ | ⟨form, d, v, hbody, hv, rfl, hstate⟩ :=
    bodyRecord_cases h
  · refine ⟨.opens line, by simp [Record.marks, hbody], ?_⟩
    rw [hstate]
    show _ = some ((o.modifyFunc f _).scopeState f _)
    rw [scopeState_modifyFunc hf]
    rfl
  · refine ⟨.closes line, by simp [Record.marks, hbody], ?_⟩
    rw [hstate]
    show _ = some ((o.modifyFunc f _).scopeState f _)
    rw [scopeState_modifyFunc hf]
    rfl
  · have hsame := sameCode_localDecl r.value d o
    refine ⟨.declares v, ?_, ?_⟩
    · simp only [Record.marks, hbody]
      exact observe_of_ok hv
    · have hf' : f < (localDecl r.value d o).state.funcs.length := by rwa [hsame.funcs]
      have hfunc : (localDecl r.value d o).state.func f = o.func f := by
        unfold func
        rw [hsame.funcs]
      rw [hstate, scopeState_addScoped hf', scopeState_congr hfunc]
      rfl

theorem length_bodyRecord (o : Overlay) (f : Nat) (start : FunctionStart) (opened : List Nat) (r : Record) :
    (bodyRecord f start opened r o).state.funcs.length = o.funcs.length :=
  (InBody.of_steps (inBody_bodyRecord f start opened r o trivial).1).count

theorem overRecords_marks {i : Nat} {rs : List Record} (hf : f < o.funcs.length)
    (h : (Action.overRecords (bodyRecord f start) i opened rs o).result = .ok opened') :
    (o.scopeState f opened).marks (marksAlong f start opened rs o) =
      some ((Action.overRecords (bodyRecord f start) i opened rs o).state.scopeState f opened') := by
  induction rs generalizing i opened o with
  | nil =>
    cases h
    rfl
  | cons r rs ih =>
    obtain ⟨next, hlocated, hrest⟩ := exists_of_bind_ok h
    have hr := ok_of_mapError hlocated
    obtain ⟨m, hm, hmark⟩ := bodyRecord_marks hf hr
    have hcons := (Action.overRecords_cons_of_ok hr i rs).1
    rw [marksAlong, observe_of_ok hr, hm, List.singleton_append, ScopeState.marks_cons, hmark, Option.bind_some, hcons]
    exact ih (by rwa [length_bodyRecord]) hrest

theorem braces_marksAlong {i : Nat} {rs : List Record}
    (h : (Action.overRecords (bodyRecord f start) i opened rs o).result = .ok opened') :
    (marksAlong f start opened rs o).filterMap Mark.brace? = rs.filterMap Record.brace? := by
  induction rs generalizing i opened o with
  | nil => rfl
  | cons r rs ih =>
    obtain ⟨next, hlocated, hrest⟩ := exists_of_bind_ok h
    have hr := ok_of_mapError hlocated
    have hafter : (marksAlong f start next rs (bodyRecord f start opened r o).state).filterMap Mark.brace? =
      rs.filterMap Record.brace? := ih hrest
    rw [marksAlong, observe_of_ok hr, List.filterMap_append, hafter]
    obtain ⟨line, hbody, _⟩ | ⟨line, b, hbody, _⟩ | ⟨form, d, v, hbody, hv, _⟩ := bodyRecord_cases hr
    · simp [Record.marks, Record.brace?, Mark.brace?, hbody]
    · simp [Record.marks, Record.brace?, Mark.brace?, hbody]
    · have hmarks : r.marks o = [.declares v] := by
        simp only [Record.marks, hbody]
        exact observe_of_ok hv
      simp [hmarks, Record.brace?, Mark.brace?, hbody, List.filterMap_cons]

theorem scopeState_endBody (hf : f < o.funcs.length) (line : UInt32) (opened : List Nat) :
    (endBody f line o).scopeState f opened = o.scopeState f opened :=
  scopeState_modifyFunc hf _ opened

theorem overRecords_opened {i : Nat} {rs : List Record}
    (h : (Action.overRecords (bodyRecord f start) i opened rs o).result = .ok opened') :
    opened'.length + rs.countP Record.closesBlock = opened.length + rs.countP Record.opensBlock := by
  induction rs generalizing i opened o with
  | nil =>
    cases h
    rfl
  | cons r rs ih =>
    obtain ⟨next, hlocated, hrest⟩ := exists_of_bind_ok h
    have hcount := ih hrest
    obtain ⟨line, hbody, rfl, _⟩ | ⟨line, b, hbody, rfl, _⟩ | ⟨form, d, v, hbody, _, rfl, _⟩ :=
      bodyRecord_cases (ok_of_mapError hlocated)
    · simp [Record.opensBlock, Record.closesBlock, hbody] at hcount ⊢
      omega
    · simp [Record.opensBlock, Record.closesBlock, hbody] at hcount ⊢
      omega
    · simpa [Record.opensBlock, Record.closesBlock, hbody] using hcount

/-! ## Spans -/

theorem recordBody_scopes {addr : UInt32} {inner : List Record} {line : Option UInt32} (hf : f < o.funcs.length)
    (h : (recordBody f start addr inner line o).result = .ok ()) :
    ∃ opened, (o.scopeState f []).marks (marksAlong f start [] inner (startBody f start addr o)) =
        some ((recordBody f start addr inner line o).state.scopeState f opened) ∧
      opened.length + inner.countP Record.closesBlock = inner.countP Record.opensBlock ∧
      (marksAlong f start [] inner (startBody f start addr o)).filterMap Mark.brace? =
        inner.filterMap Record.brace? := by
  obtain ⟨opened, hrun, hstate⟩ := recordBody_ok h
  have hstart : (startBody f start addr o).scopeState f [] = o.scopeState f [] := scopeState_modifyFunc hf _ []
  have hmarks := overRecords_marks (by rwa [length_startBody]) hrun
  rw [hstart] at hmarks
  have hlast : f <
      (Action.overRecords (bodyRecord f start) 1 [] inner (startBody f start addr o)).state.funcs.length := by
    rw [length_overRecords, length_startBody]
    exact hf
  refine ⟨opened, hmarks.trans (congrArg some ?_), by simpa using overRecords_opened hrun, braces_marksAlong hrun⟩
  rw [hstate]
  cases line with
  | none => rfl
  | some line => exact (scopeState_endBody hlast line opened).symm

def paramsOf (o : Overlay) (name : String) (addr : UInt32) : List Variable :=
  (o.function? name addr).elim [] fun f => (o.func f).signature.params

theorem func_withFunction {name : String} {addr : UInt32} (ho : o.NamesGrouped)
    (hf : (o.withFunction name addr).function? name addr = some f)
    (hnew : ∀ f, o.function? name addr = some f → (o.func f).hasBody = false ∧ (o.func f).blocks = []) :
    ((o.withFunction name addr).func f).hasBody = false ∧ ((o.withFunction name addr).func f).blocks = [] ∧
      ((o.withFunction name addr).func f).signature.params = o.paramsOf name addr := by
  have hbody : o.repeats name addr = false := by
    unfold repeats
    cases hfound : o.function? name addr with
    | some g => exact (hnew g hfound).1
    | none => rfl
  refine ⟨(hasBody_withFunction ho hf).trans hbody, ?_⟩
  unfold paramsOf
  cases hfound : o.function? name addr with
  | some g =>
    rw [withFunction_of_some hfound] at hf ⊢
    cases hfound.symm.trans hf
    exact ⟨(hnew _ hfound).2, rfl⟩
  | none =>
    have hmade : o.withFunction name addr = o.addPlaceholder name addr := by simp [withFunction, hfound]
    rw [hmade, function?_addPlaceholder ho hfound] at hf
    cases hf
    obtain ⟨_, hparams, hblocks⟩ := func_addPlaceholder o name addr
    rw [hmade]
    exact ⟨hblocks, hparams⟩

/-- A span that is recorded and balanced is one tree of scopes. Its function, which
had no blocks, has those of the tree, and the parameters that no block declares. -/
theorem functionSpan_scopes (ho : o.NamesGrouped) {head : Record} {rest : List Record} {n : Nat}
    (h : (functionSpan head start rest o).result = .ok n)
    (hnew : ∀ f, o.function? (Text.identifier start.name) head.value = some f →
      (o.func f).hasBody = false ∧ (o.func f).blocks = [])
    (hbalanced : (rest.takeWhile (!·.endsFunction)).countP Record.opensBlock =
      (rest.takeWhile (!·.endsFunction)).countP Record.closesBlock) :
    ∃ t : Scopes, spanMarks head start rest o = t.marks ∧
      t.marks.filterMap Mark.brace? = (rest.takeWhile (!·.endsFunction)).filterMap Record.brace? ∧
      ∃ f, (functionSpan head start rest o).state.function? (Text.identifier start.name) head.value = some f ∧
        ((functionSpan head start rest o).state.func f).blocks = t.blocks ∧
        ((functionSpan head start rest o).state.func f).signature.params =
          addDistinct (o.paramsOf (Text.identifier start.name) head.value) t.outermost := by
  obtain ⟨f, hf, hlt, hlocate⟩ := exists_function?_withFunction ho (Text.identifier start.name) head.value
  obtain ⟨hbody, hblocks, hparams⟩ := func_withFunction ho hf hnew
  have hstate := (functionSpan_recorded ho rfl hf hbody rest).1
  have hrecord := recordBody_ok_of_functionSpan ho rfl hf hbody h
  obtain ⟨opened, hmarks, hcount, hbraces⟩ := recordBody_scopes hlt hrecord
  have hclosed : opened = [] := List.length_eq_zero_iff.mp (by omega)
  obtain ⟨t, ht, hscopes⟩ := ScopeState.scopes_of_marks rfl hmarks hclosed
  have hspan : spanMarks head start rest o = t.marks := by
    unfold spanMarks
    rw [observe_of_ok hlocate.1, hlocate.2, ht]
  have hfound := (recordBody_changes start head.value (rest.takeWhile (!·.endsFunction))
    (rest.findSome? Record.functionEnd?) hlt).1.function?_eq (Text.identifier start.name) head.value
  refine ⟨t, hspan, by rw [← ht, hbraces], f, ?_, ?_, ?_⟩
  · rw [hstate, hfound, hf]
  · rw [hstate]
    have := congrArg ScopeState.blocks hscopes
    simpa [scopeState, ScopeState.withScopes, ScopeState.declare, Scopes.blocks, hblocks] using this
  · rw [hstate]
    have := congrArg ScopeState.params hscopes
    simpa [scopeState, ScopeState.withScopes, ScopeState.declare, hparams] using this

end Overlay

end DebugSymbols
