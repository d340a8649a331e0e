import DebugSymbols.Proofs.Build.Spans
import DebugSymbols.Proofs.Build.Walks

/-!
# Walks over lists put together

`walk_append`: a walk over two lists, one behind the other, is a walk over the
second from where the first has led, if that succeeded. Only a run of line
records can reach from one list into the other, and it may be cut anywhere.
-/

namespace DebugSymbols

/-! ## Line runs -/

theorem isLine_of_endsLines {r : Record} (h : r.endsLines = true) : r.isLine = true := by
  unfold Record.endsLines at h
  unfold Record.isLine
  split at h
  · rename_i hbody
    rw [hbody]
  · exact nomatch h

/-- Line records none of which ends the line information. -/
def OpenLines (rs : List Record) : Prop :=
  ∀ r ∈ rs, r.isLine = true ∧ r.endsLines = false

theorem lineRun_cons_open {r : Record} (h : r.isLine = true ∧ r.endsLines = false) (rs : List Record) :
    lineRun (r :: rs) = r :: lineRun rs := by
  simp [lineRun, h.1, h.2]

theorem lineRun_append_of_open {rs : List Record} (h : OpenLines rs) (more : List Record) :
    lineRun (rs ++ more) = rs ++ lineRun more := by
  induction rs with
  | nil => rfl
  | cons r rs ih =>
    rw [List.cons_append, lineRun_cons_open (h r List.mem_cons_self),
      ih fun r hr => h r (List.mem_cons_of_mem _ hr), List.cons_append]

theorem lineRun_append_of_not_open {rs : List Record} (h : ¬ OpenLines rs) (more : List Record) :
    lineRun (rs ++ more) = lineRun rs := by
  induction rs with
  | nil => exact absurd (fun _ hr => nomatch hr) h
  | cons r rs ih =>
    by_cases hr : r.isLine = true ∧ r.endsLines = false
    · have hrs : ¬ OpenLines rs := fun hrs => h (List.forall_mem_cons.mpr ⟨hr, hrs⟩)
      rw [List.cons_append, lineRun_cons_open hr, lineRun_cons_open hr, ih hrs]
    · unfold lineRun
      rw [List.cons_append]
      by_cases hend : r.endsLines = true
      · simp [hend]
      · have hline : r.isLine ≠ true := fun hline => hr ⟨hline, by simpa using hend⟩
        simp [hend, hline]

theorem length_lineRun_le (rs : List Record) : (lineRun rs).length ≤ rs.length := by
  induction rs with
  | nil => exact Nat.le_refl _
  | cons r rs ih =>
    unfold lineRun
    split
    · exact Nat.succ_le_succ (Nat.zero_le _)
    · split
      · exact Nat.succ_le_succ ih
      · exact Nat.zero_le _

theorem lineRun_prefix (rs : List Record) : lineRun rs <+: rs := by
  induction rs with
  | nil => exact List.nil_prefix
  | cons r rs ih =>
    unfold lineRun
    split
    · exact List.prefix_append [r] rs
    · split
      · exact (List.prefix_cons_inj r).mpr ih
      · exact List.nil_prefix

theorem isLine_of_mem_lineRun {rs : List Record} : ∀ r ∈ lineRun rs, r.isLine = true := by
  induction rs with
  | nil => exact fun _ h => nomatch h
  | cons r rs ih =>
    unfold lineRun
    split
    · rename_i hend
      intro q hq
      rw [List.mem_singleton.mp hq]
      exact isLine_of_endsLines hend
    · split
      · rename_i hline
        exact List.forall_mem_cons.mpr ⟨hline, ih⟩
      · exact fun _ h => nomatch h

theorem cons_take_lineRun {r : Record} (h : r.isLine = true) (rs : List Record) :
    r :: rs.take ((lineRun (r :: rs)).length - 1) = lineRun (r :: rs) := by
  have hprefix := lineRun_prefix (r :: rs)
  have hrun := List.prefix_iff_eq_take.mp hprefix
  have hlength : 0 < (lineRun (r :: rs)).length := by
    unfold lineRun
    split <;> simp
  obtain ⟨n, hn⟩ := Nat.exists_eq_succ_of_ne_zero (Nat.ne_of_gt hlength)
  rw [hn, Nat.succ_sub_one]
  rw [hn, List.take_succ_cons] at hrun
  exact hrun.symm

namespace Builder

open DebugSymbols.Action (exists_of_bind_ok ok_of_mapError)

/-! ## One step -/

theorem step_of_isLine {head : Record} (h : head.isLine = true) (rest : List Record) :
    step head rest = lines head rest := by
  unfold Record.isLine at h
  unfold step
  split at h
  · rename_i hbody
    rw [hbody]
  · exact nomatch h

theorem step_append {head : Record} {rest : List Record} (hopen : ¬ OpenLines (head :: rest)) {b : Builder} {n : Nat}
    (h : (step head rest b).result = .ok n) (more : List Record) :
    n ≤ rest.length ∧ step head (rest ++ more) b = step head rest b := by
  by_cases hline : head.isLine = true
  · rw [step_of_isLine hline] at h ⊢
    rw [step_of_isLine hline]
    unfold lines at h ⊢
    rw [← List.cons_append, lineRun_append_of_not_open hopen]
    obtain ⟨_, _, hn⟩ := exists_of_bind_ok h
    cases hn
    have hlength := length_lineRun_le (head :: rest)
    rw [List.length_cons] at hlength
    exact ⟨Nat.sub_le_of_le_add hlength, rfl⟩
  · exact staysWithin_step (Bool.eq_false_iff.mpr hline) rest more b n h

/-! ## Many steps -/

theorem walkFrom_cons (i : Nat) (r : Record) (rs : List Record) :
    walkFrom i (r :: rs) =
      (step r rs).mapError (·.shift i) >>= fun n => walkFrom (i + 1 + n) (rs.drop n) := by
  rw [walkFrom]

theorem walkFrom_shift (i j : Nat) (rs : List Record) :
    (walkFrom j rs).mapError (·.shift i) = walkFrom (i + j) rs := by
  fun_induction walkFrom j rs with
  | case1 j => rw [walkFrom]; rfl
  | case2 j r rs ih =>
    rw [Action.mapError_bind, walkFrom_cons, Action.mapError_mapError]
    have hshift : ((·.shift i) ∘ (·.shift j) : Inconsistency → Inconsistency) = (·.shift (i + j)) := by
      funext e
      exact e.shift_shift i j
    rw [hshift]
    congr 1
    funext n
    rw [ih n]
    simp only [Nat.add_assoc]

/-- Line records may be taken one by one: it is the first step, if any, that
takes the whole run. -/
theorem walkFrom_lineRun (i : Nat) (rs : List Record) :
    walkFrom i rs =
      Action.overRecords (fun _ => lineRecord) i () (lineRun rs) >>= fun _ =>
        walkFrom (i + (lineRun rs).length) (rs.drop (lineRun rs).length) := by
  cases rs with
  | nil => simp [lineRun, Action.overRecords]
  | cons r rs =>
    by_cases hline : r.isLine = true
    · have hlength : 0 < (lineRun (r :: rs)).length := by
        unfold lineRun
        split <;> simp
      rw [walkFrom_cons, step_of_isLine hline]
      unfold lines
      dsimp only
      rw [Action.mapError_bind, Action.overRecords_shift, bind_assoc]
      congr 1
      funext _
      rw [Action.mapError_pure, pure_bind]
      obtain ⟨n, hn⟩ := Nat.exists_eq_succ_of_ne_zero (Nat.ne_of_gt hlength)
      rw [hn, Nat.succ_sub_one, List.drop_succ_cons, Nat.add_assoc, Nat.add_comm 1]
    · have hend : r.endsLines ≠ true := fun hend => hline (isLine_of_endsLines hend)
      simp [lineRun, hline, hend, Action.overRecords]

theorem walkFrom_append_of_open {rs : List Record} (h : OpenLines rs) (i : Nat) (more : List Record) :
    walkFrom i (rs ++ more) = walkFrom i rs >>= fun _ => walkFrom (i + rs.length) more := by
  have hrun : lineRun rs = rs := by
    have happend := lineRun_append_of_open h []
    rwa [List.append_nil, lineRun, List.append_nil] at happend
  have hfirst : walkFrom i rs = Action.overRecords (fun _ => lineRecord) i () rs := by
    rw [walkFrom_lineRun, hrun, List.drop_length, walkFrom]
    exact bind_pure _
  have hdrop : (rs ++ more).drop (rs ++ lineRun more).length = more.drop (lineRun more).length := by
    rw [List.length_append, List.drop_append, List.drop_of_length_le (Nat.le_add_right _ _), List.nil_append,
      Nat.add_sub_cancel_left]
  rw [walkFrom_lineRun, lineRun_append_of_open h, hdrop, Action.overRecords_append, bind_assoc, hfirst]
  congr 1
  funext _
  rw [walkFrom_lineRun (i + rs.length) more, List.length_append, Nat.add_assoc]

theorem walkFrom_append (i : Nat) (rs more : List Record) (b : Builder) (h : (walkFrom i rs b).result = .ok ()) :
    walkFrom i (rs ++ more) b = (walkFrom i rs >>= fun _ => walkFrom (i + rs.length) more) b := by
  fun_induction walkFrom i rs generalizing b with
  | case1 i => rfl
  | case2 i r rs ih =>
    by_cases hopen : OpenLines (r :: rs)
    · have hall := walkFrom_append_of_open hopen i more
      rw [walkFrom_cons] at hall
      rw [hall]
    · obtain ⟨n, hn, hrest⟩ := exists_of_bind_ok h
      obtain ⟨hle, hstep⟩ := step_append hopen (ok_of_mapError hn) more
      have hlength : i + 1 + n + (rs.drop n).length = i + (r :: rs).length := by
        rw [List.length_drop, List.length_cons]
        omega
      have hagain : ((step r (rs ++ more)).mapError (·.shift i) b).result = .ok n := by
        rw [Action.mapError_run, hstep]
        exact hn
      have htail := ih n _ hrest
      rw [hlength, ← List.drop_append_of_le_length hle] at htail
      rw [List.cons_append, walkFrom_cons, bind_assoc, Action.bind_run_of_ok hagain, Action.bind_run_of_ok hn, ← htail,
        Action.mapError_run, Action.mapError_run, hstep]

/-! ## Walks -/

/-- Where the walk over the first list succeeds, the walk over both leaves the
builder as the walk over the second does from there, and comes out as that does:
a fault is the same one, as many places later as the first list is long. -/
theorem walk_append (b : Builder) {first : List Record} (h : (walk first b).result = .ok ())
    (second : List Record) :
    (walk (first ++ second) b).state = (walk second (walk first b).state).state ∧
      (walk (first ++ second) b).result =
        (walk second (walk first b).state).result.mapError (·.shift first.length) := by
  have hfirst : (walkFrom 0 first b).result = .ok () := h
  have hboth := walkFrom_append 0 first second b hfirst
  have hshift := congrFun (walkFrom_shift first.length 0 second) (walkFrom 0 first b).state
  rw [Action.mapError_run, Nat.add_zero] at hshift
  rw [Nat.zero_add, Action.bind_run_of_ok hfirst, ← hshift] at hboth
  show (walkFrom 0 (first ++ second) b).state = (walkFrom 0 second (walkFrom 0 first b).state).state ∧
    (walkFrom 0 (first ++ second) b).result =
      (walkFrom 0 second (walkFrom 0 first b).state).result.mapError (·.shift first.length)
  rw [hboth]
  exact ⟨rfl, rfl⟩

/-- Two line records, and two that go on from there with one too many behind them. -/
def lineRunFront : List Record :=
  [{ offset := 8, value := 16, body := .line (.setWithPath 7 "main.c") },
    { offset := 24, value := 20, body := .line .increment }]

def lineRunBack : List Record :=
  [{ offset := 8, value := 24, body := .line (.incrementByte 2) },
    { offset := 24, value := 28, body := .line .finish },
    { offset := 40, value := 32, body := .line .increment }]

theorem walk_append_lineRun :
    (walk lineRunFront {}).result = .ok () ∧
      (walk lineRunBack (walk lineRunFront {}).state).result =
        .error { offset := 40, index := 2, complaint := { cause := .lineWithoutPath } } ∧
      (walk (lineRunFront ++ lineRunBack) {}).state = (walk lineRunBack (walk lineRunFront {}).state).state ∧
      (walk (lineRunFront ++ lineRunBack) {}).result =
        (walk lineRunBack (walk lineRunFront {}).state).result.mapError (·.shift lineRunFront.length) :=
  ⟨by decide +kernel, by decide +kernel, walk_append {} (by decide +kernel) lineRunBack⟩

end Builder

end DebugSymbols
