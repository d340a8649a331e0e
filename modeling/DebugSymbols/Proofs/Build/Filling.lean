import DebugSymbols.Proofs.Build.Content
import DebugSymbols.Proofs.Build.Extends
import DebugSymbols.Proofs.Model.Indexed

/-!
# Filling in

What a run of members fills in: an empty struct or union of its tag, or a new
one, and then a field for each member in turn. The other steps extend the
overlay by what they look up and fill in nothing.
-/

namespace DebugSymbols

def CompositeKind.tagClass : CompositeKind → SymbolClass
  | .struct => .structTag
  | .union => .unionTag

namespace Record

/-- The size that a record gives the struct or union whose members follow it. -/
def openedSize? (kind : CompositeKind) (tag : Tag) (r : Record) : Option UInt32 :=
  match r.body with
  | .definition _ d => if d.symbolClass = kind.tagClass ∧ Tag.ofName d.name = tag then some d.size else none
  | _ => none

def opensEnum (tag : Tag) (r : Record) : Bool :=
  match r.body with
  | .definition _ d => d.symbolClass = .enumTag ∧ Tag.ofName d.name = tag
  | _ => false

variable {r : Record} {form : Form} {d : SymbolDef}

theorem openedSize?_eq (hr : r.body = .definition form d) {kind : CompositeKind} (hd : d.symbolClass = kind.tagClass) :
    r.openedSize? kind (.ofName d.name) = some d.size := by
  unfold openedSize?
  rw [hr]
  exact if_pos ⟨hd, rfl⟩

theorem exists_of_openedSize? {kind : CompositeKind} {tag : Tag} {size : UInt32}
    (h : r.openedSize? kind tag = some size) :
    ∃ form d, r.body = .definition form d ∧ d.symbolClass = kind.tagClass ∧ Tag.ofName d.name = tag ∧
      d.size = size := by
  unfold openedSize? at h
  split at h
  · rename_i form d hbody
    split at h
    · rename_i hd
      exact ⟨form, d, hbody, hd.1, hd.2, Option.some.inj h⟩
    · exact nomatch h
  · exact nomatch h

theorem opensEnum_eq (hr : r.body = .definition form d) (hd : d.symbolClass = .enumTag) :
    r.opensEnum (.ofName d.name) = true := by
  unfold opensEnum
  rw [hr]
  exact decide_eq_true ⟨hd, rfl⟩

end Record

namespace Overlay

open DebugSymbols.Action (Traces)

/-! ## What is filled in -/

/-- The struct or union that is opened, and the overlay with it in its size. -/
inductive Opens (kind : CompositeKind) (tag : Tag) (size : UInt32) (o : Overlay) : CompositeId → Overlay → Prop
  | found {id : CompositeId} (hid : id ∈ (o.composites kind).groups.get tag)
      (hf : (o.arena.composite id).fields = [])
      (hs : (o.arena.composite id).size = size ∨ (o.arena.composite id).size = 0) :
      Opens kind tag size o id (o.modifyArena (·.modifyComposite id fun c => { c with size }))
  | new (hnone : ∀ id ∈ (o.composites kind).groups.get tag, (o.arena.composite id).fields = [] →
      (o.arena.composite id).size ≠ size ∧ (o.arena.composite id).size ≠ 0) :
      Opens kind tag size o o.arena.nextComposite (o.addComposite { kind, tag, size })

theorem openComposite_opens {ε : Type} (kind : CompositeKind) (tag : Tag) (size : UInt32) (o : Overlay) :
    ∃ id o', openComposite (ε := ε) kind tag size o = ⟨.ok id, o', []⟩ ∧ Opens kind tag size o id o' := by
  simp only [openComposite, Action.bind_run, Action.read]
  cases hfind : ((o.composites kind).groups.get tag).reverse.find? fun id =>
      (o.arena.composite id).fields.isEmpty &&
        ((o.arena.composite id).size == size || (o.arena.composite id).size == 0) with
  | some id =>
    have hempty := List.find?_some hfind
    simp only [Bool.and_eq_true, List.isEmpty_iff, Bool.or_eq_true, beq_iff_eq] at hempty
    exact ⟨id, _, rfl, .found (List.mem_reverse.mp (List.mem_of_find?_eq_some hfind)) hempty.1 hempty.2⟩
  | none =>
    refine ⟨_, _, rfl, .new fun id hid hf => ?_⟩
    have hnot := List.find?_eq_none.mp hfind id (List.mem_reverse.mpr hid)
    simpa [hf] using hnot

inductive OpensEnum (tag : Tag) (o : Overlay) : EnumId → Overlay → Prop
  | found {id : EnumId} (hid : id ∈ o.enums.groups.get tag) (hm : (o.arena.enumeration id).members = []) :
      OpensEnum tag o id o
  | new : OpensEnum tag o o.arena.nextEnum (o.addEnum { tag })

theorem openEnum_opens {ε : Type} (tag : Tag) (o : Overlay) :
    ∃ id o', openEnum (ε := ε) tag o = ⟨.ok id, o', []⟩ ∧ OpensEnum tag o id o' := by
  simp only [openEnum, Action.bind_run, Action.read]
  cases hfind : (o.enums.groups.get tag).reverse.find? fun id => (o.arena.enumeration id).members.isEmpty with
  | some id =>
    have hempty := List.find?_some hfind
    exact ⟨id, o, rfl, .found (List.mem_reverse.mp (List.mem_of_find?_eq_some hfind)) (List.isEmpty_iff.mp hempty)⟩
  | none => exact ⟨_, _, rfl, .new⟩

/-! ## Fields -/

structure MakesField (kind : CompositeKind) (l : Lookup) (x : Field) : Prop where
  defines : ∃ form, l.record.body = .definition form l.d
  offset : x.offset = l.record.value
  bitfield : kind.bitfield? l.d.symbolClass = some x.bitfield
  name : x.name = Text.identifier l.d.name
  type : l.outcome.result = .ok x.type
  size : x.size = if x.bitfield then l.d.size else x.type.recordedSize l.d.size

theorem state_checkSize (t : CType) (size : UInt32) (name : String) (o : Overlay) :
    (checkSize t size name o).state = o := by
  unfold checkSize
  rw [Action.bind_run]
  simp only [Action.read]
  cases o.arena.size? t with
  | none => rfl
  | some computed =>
    dsimp only
    by_cases h : size = 0 ∨ size = computed
    · rw [if_pos h]
      rfl
    · rw [if_neg h]
      rfl

theorem checkSize_then_modify (t : CType) (size : UInt32) (name : String) (f : Overlay → Overlay) (o : Overlay) :
    (((checkSize t size name >>= fun _ => Action.modify f) o).result = .ok () ∧
      ((checkSize t size name >>= fun _ => Action.modify f) o).state = f o) ∨
      (∃ e, ((checkSize t size name >>= fun _ => Action.modify f) o).result = .error e) ∧
        ((checkSize t size name >>= fun _ => Action.modify f) o).state = o := by
  have hstate := state_checkSize t size name o
  cases hcheck : (checkSize t size name o).result with
  | error e =>
    rw [Action.bind_run_of_error hcheck]
    exact .inr ⟨⟨e, rfl⟩, hstate⟩
  | ok u =>
    rw [Action.bind_run_of_ok hcheck, hstate]
    exact .inl ⟨rfl, rfl⟩

theorem addField_cases (id : CompositeId) (offset : UInt32) (bitfield : Bool) (d : SymbolDef) (o : Overlay) :
    (∃ t, (refer d o).result = .ok t ∧ (addField id offset bitfield d o).result = .ok () ∧
      (addField id offset bitfield d o).state = (refer d o).state.withField id
        { offset, size := if bitfield then d.size else t.recordedSize d.size, bitfield,
          name := Text.identifier d.name, type := t }) ∨
      (∃ e, (addField id offset bitfield d o).result = .error e) ∧
        (addField id offset bitfield d o).state = (refer d o).state := by
  unfold addField
  cases hrefer : (refer d o).result with
  | error e =>
    rw [Action.bind_run_of_error hrefer]
    exact .inr ⟨⟨e, rfl⟩, rfl⟩
  | ok t =>
    rw [Action.bind_run_of_ok hrefer]
    cases bitfield with
    | true => exact .inl ⟨t, rfl, rfl, rfl⟩
    | false =>
      obtain ⟨hok, hstate⟩ | herror := checkSize_then_modify t (t.recordedSize d.size) (Text.identifier d.name)
        (·.withField id
          { offset, size := t.recordedSize d.size, bitfield := false, name := Text.identifier d.name, type := t })
        (refer d o).state
      · exact .inl ⟨t, rfl, hok, hstate⟩
      · exact .inr herror

theorem compositeMember_cases (kind : CompositeKind) (tag : Tag) {id : CompositeId} (r : Record) {o : Overlay}
    (hid : id.index < o.arena.composites.length) :
    ((compositeMember kind tag id r o).result = .ok () ∧
      ∃ l x, r.lookups (fun c => (kind.bitfield? c).isSome) o = [l] ∧ l.record = r ∧ MakesField kind l x ∧
        ((compositeMember kind tag id r o).state.arena.composite id).fields =
          (o.arena.composite id).fields ++ [x]) ∨
      (∃ e, (compositeMember kind tag id r o).result = .error e) ∧
        ((compositeMember kind tag id r o).state.arena.composite id).fields = (o.arena.composite id).fields := by
  obtain ⟨form, d, bitfield, hbody, hbit, heq⟩ | ⟨_, e, heq⟩ := compositeMember_eq kind tag id r
  · rw [heq]
    have hrefer : Extends {} [⟨o, r, d⟩] o (refer d o).state := extends_lookup ⟨o, r, d⟩
    have hfields := hrefer.fields id (nomatch ·)
    obtain ⟨t, ht, hok, hstate⟩ | ⟨herror, hstate⟩ := addField_cases id r.value bitfield d o
    · let x : Field := { offset := r.value, size := if bitfield then d.size else t.recordedSize d.size, bitfield,
                         name := Text.identifier d.name, type := t }
      refine .inl ⟨hok, ⟨o, r, d⟩, x, ?_, rfl, ⟨⟨form, hbody⟩, rfl, hbit, rfl, ht, rfl⟩, ?_⟩
      · rw [Record.lookups_of_looked hbody (by rw [hbit]; rfl)]
      · rw [hstate, ← hfields]
        show ((Arena.modifyComposite _ id _).composite id).fields = _
        rw [Arena.composite_modifyComposite, if_pos ⟨rfl, Nat.lt_of_lt_of_le hid hrefer.length_le⟩]
    · rw [hstate]
      exact .inr ⟨herror, hfields⟩
  · rw [heq]
    exact .inr ⟨⟨e, rfl⟩, rfl⟩

/-- Along a run the fields come one by one, up to the member that fails. -/
theorem fields_overRecords (kind : CompositeKind) (tag : Tag) {id : CompositeId} (inner : List Record) :
    ∀ index o, id.index < o.arena.composites.length →
      ∃ made xs, made <+: memberLookups kind tag id inner o ∧ List.Forall₂ (MakesField kind) made xs ∧
        ((Action.overRecords (fun _ => compositeMember kind tag id) index () inner o).state.arena.composite id).fields =
          (o.arena.composite id).fields ++ xs ∧
        ((Action.overRecords (fun _ => compositeMember kind tag id) index () inner o).result = .ok () →
          made = memberLookups kind tag id inner o ∧ made.map Lookup.record = inner) := by
  induction inner with
  | nil => exact fun _ o _ => ⟨[], [], List.nil_prefix, .nil, (List.append_nil _).symm, fun _ => ⟨rfl, rfl⟩⟩
  | cons r rs ih =>
    intro index o hid
    have hunfold : memberLookups kind tag id (r :: rs) o = r.lookups (fun c => (kind.bitfield? c).isSome) o ++
        (compositeMember kind tag id r).observe (fun _ => memberLookups kind tag id rs) o := rfl
    obtain ⟨hok, l, x, hl, hrecord, hmakes, hfields⟩ | ⟨⟨e, herror⟩, hfields⟩ := compositeMember_cases kind tag r hid
    · obtain ⟨hstate, hresult⟩ := Action.overRecords_cons_of_ok (f := fun _ => compositeMember kind tag id) hok index rs
      have hmember := (traces_compositeMember (w := { composite := some id }) kind tag rfl r o).1.extends
      obtain ⟨made, xs, hprefix, hmake, hrest, hdone⟩ :=
        ih (index + 1) _ (Nat.lt_of_lt_of_le hid hmember.length_le)
      rw [hstate, hresult, hunfold, hl, Action.observe_of_ok hok]
      refine ⟨l :: made, x :: xs, (List.prefix_cons_inj l).mpr hprefix, .cons hmakes hmake, ?_, fun h => ?_⟩
      · rw [hrest, hfields, List.append_assoc]
        rfl
      · obtain ⟨hall, hrecords⟩ := hdone h
        rw [List.map_cons, hrecord, hrecords, hall]
        exact ⟨rfl, rfl⟩
    · obtain ⟨hstate, hresult⟩ :=
        Action.overRecords_cons_of_error (f := fun _ => compositeMember kind tag id) herror index rs
      rw [hstate, hresult, hfields]
      exact ⟨[], [], List.nil_prefix, .nil, (List.append_nil _).symm, fun h => nomatch h⟩

/-! ## Members of enums -/

def MakesMember (r : Record) (m : Member) : Prop :=
  ∃ form d, r.body = .definition form d ∧ d.symbolClass = .enumMember ∧
    m = { value := r.value.toInt32, name := Text.identifier d.name }

theorem enumMember_cases (tag : Tag) (id : EnumId) (r : Record) (o : Overlay) :
    ((enumMember tag id r o).result = .ok () ∧
        ∃ m, MakesMember r m ∧ (enumMember tag id r o).state = o.withMember id m) ∨
      (∃ e, (enumMember tag id r o).result = .error e) ∧ (enumMember tag id r o).state = o := by
  unfold enumMember
  cases hbody : r.body with
  | definition form d =>
    dsimp only
    by_cases hclass : d.symbolClass = .enumMember
    · rw [if_pos hclass]
      exact .inl ⟨rfl, _, ⟨form, d, hbody, hclass, rfl⟩, rfl⟩
    · rw [if_neg hclass]
      exact .inr ⟨⟨_, rfl⟩, rfl⟩
  | _ => exact .inr ⟨⟨_, rfl⟩, rfl⟩

theorem members_overRecords (tag : Tag) {id : EnumId} (inner : List Record) :
    ∀ index o, id.index < o.arena.enums.length →
      ∃ made ms, made <+: inner ∧ List.Forall₂ MakesMember made ms ∧
        ((Action.overRecords (fun _ => enumMember tag id) index () inner o).state.arena.enumeration id).members =
          (o.arena.enumeration id).members ++ ms ∧
        ((Action.overRecords (fun _ => enumMember tag id) index () inner o).result = .ok () → made = inner) := by
  induction inner with
  | nil => exact fun _ o _ => ⟨[], [], List.nil_prefix, .nil, (List.append_nil _).symm, fun _ => rfl⟩
  | cons r rs ih =>
    intro index o hid
    obtain ⟨hok, m, hmakes, hadded⟩ | ⟨⟨e, herror⟩, hsame⟩ := enumMember_cases tag id r o
    · obtain ⟨hstate, hresult⟩ := Action.overRecords_cons_of_ok (f := fun _ => enumMember tag id) hok index rs
      have hlength : (o.withMember id m).arena.enums.length = o.arena.enums.length := List.length_modify _ _ _
      have hmembers : ((o.withMember id m).arena.enumeration id).members = (o.arena.enumeration id).members ++ [m] := by
        show ((Arena.modifyEnum _ id _).enumeration id).members = _
        rw [Arena.enumeration_modifyEnum, if_pos ⟨rfl, hid⟩]
      obtain ⟨made, ms, hprefix, hmake, hrest, hdone⟩ := ih (index + 1) (o.withMember id m) (hlength ▸ hid)
      rw [hstate, hresult, hadded, hrest, hmembers, List.append_assoc]
      exact ⟨r :: made, m :: ms, (List.prefix_cons_inj r).mpr hprefix, .cons hmakes hmake, rfl,
        fun h => congrArg _ (hdone h)⟩
    · obtain ⟨hstate, hresult⟩ := Action.overRecords_cons_of_error (f := fun _ => enumMember tag id) herror index rs
      rw [hstate, hresult, hsame]
      exact ⟨[], [], List.nil_prefix, .nil, (List.append_nil _).symm, fun h => nomatch h⟩

/-! ## Runs -/

theorem members_run (head : Record) (enclosing : Enclosing) (tag : Tag)
    (member : Record → Action Complaint Overlay Unit) (rest : List Record) (o : Overlay) :
    (members head enclosing tag member rest o).state =
        (Action.overRecords (fun _ => member) 1 () (rest.takeWhile (!·.endsMembers)) o).state ∧
      ∀ n, (members head enclosing tag member rest o).result = .ok n →
        (Action.overRecords (fun _ => member) 1 () (rest.takeWhile (!·.endsMembers)) o).result = .ok () := by
  refine ⟨?_, fun n hn => ?_⟩
  · unfold members
    cases hok : (Action.overRecords (fun _ => member) 1 () (rest.takeWhile (!·.endsMembers)) o).result with
    | error e => rw [Action.bind_run_of_error hok]
    | ok u =>
      rw [Action.bind_run_of_ok hok]
      split <;> rfl
  · obtain ⟨_, hok, _⟩ := Action.exists_of_bind_ok hn
    exact hok

section
variable {kind : CompositeKind} {tag : Tag} {size : UInt32} {o o' : Overlay} {id : CompositeId}

theorem Opens.opened (h : Opens kind tag size o id o') (ho : o.Indexed) :
    id.index < o'.arena.composites.length ∧ (o'.arena.composite id).head = (kind, tag, size) ∧
      (o'.arena.composite id).fields = [] := by
  cases h with
  | found hid hf hs =>
    obtain ⟨hlt, hkind⟩ := ho.composite_mem kind id ((ho.composites kind).mem_listed hid)
    have htag := (ho.composites kind).key_of_mem hid
    show id.index < (o.arena.modifyComposite id _).composites.length ∧
      ((o.arena.modifyComposite id _).composite id).head = _ ∧ ((o.arena.modifyComposite id _).composite id).fields = _
    rw [Arena.length_modifyComposite, Arena.composite_modifyComposite, if_pos ⟨rfl, hlt⟩]
    exact ⟨hlt, by simp only [Composite.head, hkind, htag], hf⟩
  | new =>
    rw [arena_addComposite, Arena.composite_pushComposite, if_pos rfl]
    exact ⟨by simp [Arena.pushComposite, Arena.nextComposite], rfl, rfl⟩

theorem Opens.other (h : Opens kind tag size o id o') {j : CompositeId} (hj : j ≠ id) :
    o'.arena.composite j = o.arena.composite j := by
  cases h with
  | found =>
    show (o.arena.modifyComposite id _).composite j = _
    rw [Arena.composite_modifyComposite, if_neg fun h => hj h.1.symm]
  | new => rw [arena_addComposite, Arena.composite_pushComposite, if_neg hj]

theorem Opens.enums_eq (h : Opens kind tag size o id o') : o'.arena.enums = o.arena.enums := by
  cases h with
  | found => rfl
  | new =>
    rw [arena_addComposite]
    rfl

theorem Opens.length_le (h : Opens kind tag size o id o') :
    o.arena.composites.length ≤ o'.arena.composites.length := by
  cases h with
  | found => exact Nat.le_of_eq (Arena.length_modifyComposite _ _ _).symm
  | new =>
    rw [arena_addComposite]
    exact List.length_append ▸ Nat.le_add_right _ _

theorem Opens.group_eq (h : Opens kind tag size o id o') {k : CompositeKind} {t : Tag} (hne : ¬ (k = kind ∧ t = tag)) :
    (o'.composites k).groups.get t = (o.composites k).groups.get t := by
  cases h with
  | found => rw [composites_modifyArena]
  | new =>
    rw [composites_addComposite]
    by_cases hk : k = kind
    · rw [if_pos hk]
      exact (Groups.get_add _ _ _ _).trans (if_neg fun ht => hne ⟨hk, ht⟩)
    · rw [if_neg hk]

theorem Opens.notMem (h : Opens kind tag size o id o') (ho : o.Indexed) {k : CompositeKind} {t : Tag}
    (hne : ¬ (k = kind ∧ t = tag)) : id ∉ (o.composites k).groups.get t := by
  intro hid
  obtain ⟨hlt, hkind⟩ := ho.composite_mem k id ((ho.composites k).mem_listed hid)
  cases h with
  | found hmem =>
    have hkind' := (ho.composite_mem kind id ((ho.composites kind).mem_listed hmem)).2
    exact hne ⟨hkind.symm.trans hkind',
      ((ho.composites k).key_of_mem hid).symm.trans ((ho.composites kind).key_of_mem hmem)⟩
  | new => exact Nat.lt_irrefl _ hlt

theorem Opens.before (h : Opens kind tag size o id o') :
    (o.arena.composite id).fields = [] ∧
      ((o.arena.composite id).size = size ∨ (o.arena.composite id).size = 0) := by
  cases h with
  | found hid hf hs => exact ⟨hf, hs⟩
  | new =>
    rw [Arena.composite_next]
    exact ⟨rfl, .inr rfl⟩

theorem Opens.mem_of_lt (h : Opens kind tag size o id o') (hid : id.index < o.arena.composites.length) :
    id ∈ (o.composites kind).groups.get tag := by
  cases h with
  | found hid => exact hid
  | new => exact absurd hid (Nat.lt_irrefl _)

end

/-- A run has filled in `id`, which it found or made with no fields, by what it
has looked up, up to the member that failed. -/
structure Fills (kind : CompositeKind) (inner : List Record) (ls : List Lookup) (id : CompositeId) (opened : Overlay)
    (out : Outcome Inconsistency Overlay Nat) : Prop where
  trace : Trace { composite := some id } opened ls out.state
  fields : ∃ made, made <+: ls ∧ List.Forall₂ (MakesField kind) made (out.state.arena.composite id).fields ∧
    ∀ n, out.result = .ok n → made = ls ∧ made.map Lookup.record = inner

theorem locate_checkTagBase {d : SymbolDef} {base : BaseCode} (hbase : d.word.base = base) (enclosing : Enclosing)
    (head : Record) (o : Overlay) : (checkTagBase d enclosing base).locate head 0 o = ⟨.ok (), o, []⟩ := by
  unfold checkTagBase
  rw [if_pos hbase]
  rfl

theorem compositeRun_of_opened {kind : CompositeKind} {d : SymbolDef} (hbase : d.word.base = kind.baseCode)
    (head : Record) (rest : List Record) {o opened : Overlay} {id : CompositeId}
    (hopen : openComposite (ε := Inconsistency) kind (.ofName d.name) d.size o = ⟨.ok id, opened, []⟩) :
    compositeRun kind head d rest o =
      members head (.composite kind) (.ofName d.name) (compositeMember kind (.ofName d.name) id) rest opened := by
  unfold compositeRun
  rw [Action.bind_run, locate_checkTagBase hbase]
  dsimp only
  rw [Action.bind_run, hopen]
  rfl

theorem compositeRun_fills {kind : CompositeKind} {d : SymbolDef} (hbase : d.word.base = kind.baseCode)
    (head : Record) (rest : List Record) {o : Overlay} (ho : o.Indexed) :
    ∃ id opened, Opens kind (.ofName d.name) d.size o id opened ∧
      Fills kind (rest.takeWhile (!·.endsMembers)) (compositeLookups kind d rest o) id opened
        (compositeRun kind head d rest o) ∧
      ∀ n, (compositeRun kind head d rest o).result = .ok n →
        ∀ l ∈ compositeLookups kind d rest o, ∃ t, l.outcome.result = .ok t := by
  obtain ⟨id, opened, hopen, hopens⟩ := openComposite_opens (ε := Inconsistency) kind (.ofName d.name) d.size o
  have hlookups : compositeLookups kind d rest o =
      memberLookups kind (.ofName d.name) id (rest.takeWhile (!·.endsMembers)) opened := by
    unfold compositeLookups
    rw [if_pos hbase]
    unfold Action.observe
    rw [hopen]
  rw [hlookups, compositeRun_of_opened hbase head rest hopen]
  obtain ⟨hlt, _, hempty⟩ := hopens.opened ho
  obtain ⟨htrace, hfound⟩ := traces_members head (.composite kind) (.ofName d.name) rest
    (.overRecords (fun _ => traces_compositeMember (w := { composite := some id }) kind (.ofName d.name) rfl) _ 1 ())
    opened
  obtain ⟨hstate, hok⟩ := members_run head (.composite kind) (.ofName d.name)
    (compositeMember kind (.ofName d.name) id) rest opened
  obtain ⟨made, xs, hprefix, hmakes, hfields, hdone⟩ :=
    fields_overRecords kind (.ofName d.name) (rest.takeWhile (!·.endsMembers)) 1 opened hlt
  rw [hempty, List.nil_append] at hfields
  refine ⟨id, opened, hopens, ⟨htrace, made, hprefix, ?_, fun n hn => hdone (hok n hn)⟩, hfound⟩
  rw [hstate, hfields]
  exact hmakes

theorem OpensEnum.opened {tag : Tag} {o o' : Overlay} {id : EnumId} (h : OpensEnum tag o id o') (ho : o.Indexed) :
    id.index < o'.arena.enums.length ∧ (o'.arena.enumeration id).tag = tag ∧
      (o'.arena.enumeration id).members = [] := by
  cases h with
  | found hid hm => exact ⟨ho.enum_mem id (ho.enums.mem_listed hid), ho.enums.key_of_mem hid, hm⟩
  | new =>
    show _ < (o.arena.pushEnum _).enums.length ∧ ((o.arena.pushEnum _).enumeration _).tag = _ ∧
      ((o.arena.pushEnum _).enumeration _).members = _
    rw [Arena.enumeration_pushEnum, if_pos rfl]
    exact ⟨by simp [Arena.pushEnum, Arena.nextEnum], rfl, rfl⟩

section
variable {tag : Tag} {o o' : Overlay} {id : EnumId}

theorem OpensEnum.other (h : OpensEnum tag o id o') {j : EnumId} (hj : j ≠ id) :
    o'.arena.enumeration j = o.arena.enumeration j := by
  cases h with
  | found => rfl
  | new =>
    show (o.arena.pushEnum _).enumeration j = _
    rw [Arena.enumeration_pushEnum, if_neg hj]

theorem OpensEnum.composites_eq (h : OpensEnum tag o id o') : o'.arena.composites = o.arena.composites := by
  cases h <;> rfl

theorem OpensEnum.length_le (h : OpensEnum tag o id o') : o.arena.enums.length ≤ o'.arena.enums.length := by
  cases h with
  | found => exact Nat.le_refl _
  | new =>
    show _ ≤ (o.arena.enums ++ [_]).length
    rw [List.length_append]
    exact Nat.le_add_right _ _

theorem OpensEnum.before (h : OpensEnum tag o id o') : (o.arena.enumeration id).members = [] := by
  cases h with
  | found hid hm => exact hm
  | new =>
    rw [Arena.enumeration_next]
    rfl

theorem OpensEnum.mem_of_lt (h : OpensEnum tag o id o') (hid : id.index < o.arena.enums.length) :
    id ∈ o.enums.groups.get tag := by
  cases h with
  | found hid => exact hid
  | new => exact absurd hid (Nat.lt_irrefl _)

end

structure FillsEnum (inner : List Record) (id : EnumId) (opened : Overlay)
    (out : Outcome Inconsistency Overlay Nat) : Prop where
  trace : Trace { enum := some id } opened [] out.state
  members : ∃ made, made <+: inner ∧ List.Forall₂ MakesMember made (out.state.arena.enumeration id).members ∧
    ∀ n, out.result = .ok n → made = inner

theorem enumRun_of_opened {d : SymbolDef} (hbase : d.word.base = .enum) (head : Record) (rest : List Record)
    {o opened : Overlay} {id : EnumId}
    (hopen : openEnum (ε := Inconsistency) (.ofName d.name) o = ⟨.ok id, opened, []⟩) :
    enumRun head d rest o = members head .enum (.ofName d.name) (enumMember (.ofName d.name) id) rest opened := by
  unfold enumRun
  rw [Action.bind_run, locate_checkTagBase hbase]
  dsimp only
  rw [Action.bind_run, hopen]
  rfl

theorem enumRun_fills {d : SymbolDef} (hbase : d.word.base = .enum) (head : Record) (rest : List Record) {o : Overlay}
    (ho : o.Indexed) :
    ∃ id opened, OpensEnum (.ofName d.name) o id opened ∧
      FillsEnum (rest.takeWhile (!·.endsMembers)) id opened (enumRun head d rest o) := by
  obtain ⟨id, opened, hopen, hopens⟩ := openEnum_opens (ε := Inconsistency) (.ofName d.name) o
  rw [enumRun_of_opened hbase head rest hopen]
  obtain ⟨hlt, _, hempty⟩ := hopens.opened ho
  obtain ⟨htrace, _⟩ := traces_members head .enum (.ofName d.name) rest
    (.overRecords_quiet (fun _ => traces_enumMember (w := { enum := some id }) (.ofName d.name) rfl) _ 1 ()) opened
  obtain ⟨hstate, hok⟩ := members_run head .enum (.ofName d.name) (enumMember (.ofName d.name) id) rest opened
  obtain ⟨made, ms, hprefix, hmakes, hmembers, hdone⟩ :=
    members_overRecords (.ofName d.name) (rest.takeWhile (!·.endsMembers)) 1 opened hlt
  rw [hempty, List.nil_append] at hmembers
  refine ⟨id, opened, hopens, htrace, made, hprefix, ?_, fun n hn => hdone (hok n hn)⟩
  rw [hstate, hmembers]
  exact hmakes

/-! ## Steps -/

inductive Changes (head : Record) (rest : List Record) (o : Overlay) : Prop
  | looks (h : Trace {} o (lookups head rest o) (contentStep head rest o).state)
  | composite {kind : CompositeKind} {form : Form} {d : SymbolDef} {id : CompositeId} {opened : Overlay}
      (hbody : head.body = .definition form d) (hclass : d.symbolClass = kind.tagClass)
      (hopens : Opens kind (.ofName d.name) d.size o id opened)
      (hfills : Fills kind (rest.takeWhile (!·.endsMembers)) (lookups head rest o) id opened (contentStep head rest o))
  | enum {form : Form} {d : SymbolDef} {id : EnumId} {opened : Overlay}
      (hbody : head.body = .definition form d) (hclass : d.symbolClass = .enumTag)
      (hopens : OpensEnum (.ofName d.name) o id opened)
      (hfills : FillsEnum (rest.takeWhile (!·.endsMembers)) id opened (contentStep head rest o))

theorem traces_definition {w : Filling} (head : Record) {d : SymbolDef}
    (hcomposite : ∀ kind : CompositeKind, d.symbolClass ≠ kind.tagClass) (henum : d.symbolClass ≠ .enumTag)
    (rest : List Record) : Traces w (definition head d rest) (definitionLookups head d rest) := by
  have hsingle : ∀ {m : Action Complaint Overlay Unit} {ls}, Traces w m ls → definitionLookups head d rest = ls →
      Traces w (do m.locate head 0; return 0 : Action Inconsistency Overlay Nat) (definitionLookups head d rest) :=
    fun hm heq => heq ▸ .bind_quiet (.mapError hm _) fun _ => .pure _
  unfold definition
  dsimp only
  split
  · rename_i hc
    exact hsingle (traces_global head _ d) (by unfold definitionLookups; rw [hc])
  · rename_i hc
    exact hsingle (traces_global head _ d) (by unfold definitionLookups; rw [hc])
  · rename_i hc
    exact absurd hc (hcomposite .struct)
  · rename_i hc
    exact absurd hc (hcomposite .union)
  · rename_i hc
    exact absurd hc henum
  · rename_i hc
    exact hsingle (traces_typedef head d) (by unfold definitionLookups; rw [hc])
  · rename_i hc
    exact hsingle (.report _) (by unfold definitionLookups; rw [hc])
  all_goals
    have hnone : definitionLookups head d rest = fun _ => [] := by
      unfold definitionLookups
      split <;> simp_all
    rw [hnone]
    exact .mapError (.fail _) _

section
variable {head : Record} {form : Form} {d : SymbolDef} {rest : List Record} {o : Overlay}

theorem contentStep_definition (rest : List Record) (h : head.body = .definition form d) :
    contentStep head rest = definition head d rest ∧ lookups head rest = definitionLookups head d rest := by
  refine ⟨?_, funext fun o => ?_⟩
  · unfold contentStep
    rw [h]
  · unfold lookups
    rw [h]

theorem contentStep_composite {kind : CompositeKind} (rest : List Record) (hbody : head.body = .definition form d)
    (h : d.symbolClass = kind.tagClass) :
    contentStep head rest = compositeRun kind head d rest ∧ lookups head rest = compositeLookups kind d rest := by
  obtain ⟨hstep, hlookups⟩ := contentStep_definition rest hbody
  rw [hstep, hlookups]
  refine ⟨?_, funext fun o => ?_⟩
  · unfold definition
    rw [h]
    cases kind <;> rfl
  · unfold definitionLookups
    rw [h]
    cases kind <;> rfl

theorem contentStep_enum (rest : List Record) (hbody : head.body = .definition form d) (h : d.symbolClass = .enumTag) :
    contentStep head rest = enumRun head d rest ∧ lookups head rest = fun _ => [] := by
  obtain ⟨hstep, hlookups⟩ := contentStep_definition rest hbody
  rw [hstep, hlookups]
  refine ⟨?_, funext fun o => ?_⟩
  · unfold definition
    rw [h]
  · unfold definitionLookups
    rw [h]

theorem changes_of_checkTagBase {enclosing : Enclosing} {base : BaseCode} (hbase : d.word.base ≠ base)
    {f : Unit → Action Inconsistency Overlay Nat}
    (hstep : contentStep head rest = ((checkTagBase d enclosing base).locate head 0 >>= f))
    (hlookups : lookups head rest o = []) : Changes head rest o := by
  let complaint : Complaint := { name := Text.identifier d.name, cause := .tagBase enclosing d.word.base }
  have hcheck : (checkTagBase d enclosing base).locate head 0 o = ⟨.error (complaint.located head 0), o, []⟩ := by
    unfold checkTagBase
    rw [if_neg hbase]
    rfl
  refine .looks ?_
  rw [hlookups, hstep, Action.bind_run, hcheck]
  exact .quiet (.refl o)

theorem contentStep_changes (head : Record) (rest : List Record) (ho : o.Indexed) :
    Changes head rest o ∧ ∀ n, (contentStep head rest o).result = .ok n →
      ∀ l ∈ lookups head rest o, ∃ t, l.outcome.result = .ok t := by
  have hlooks : Traces {} (contentStep head rest) (lookups head rest) →
      Changes head rest o ∧ ∀ n, (contentStep head rest o).result = .ok n →
        ∀ l ∈ lookups head rest o, ∃ t, l.outcome.result = .ok t :=
    fun h => ⟨.looks (h o).1, (h o).2⟩
  have hnothing : lookups head rest o = [] → ∀ l ∈ lookups head rest o, ∃ t, l.outcome.result = .ok t := by
    intro h
    rw [h]
    exact fun _ hl => nomatch hl
  cases hbody : head.body with
  | definition form d =>
    by_cases hcomposite : ∃ kind : CompositeKind, d.symbolClass = kind.tagClass
    · obtain ⟨kind, hclass⟩ := hcomposite
      obtain ⟨hstep, hlookups⟩ := contentStep_composite rest hbody hclass
      by_cases hbase : d.word.base = kind.baseCode
      · obtain ⟨id, opened, hopens, hfills, hfound⟩ := compositeRun_fills hbase head rest ho
        rw [← hstep, ← hlookups] at hfills hfound
        exact ⟨.composite hbody hclass hopens hfills, hfound⟩
      · have hnone : lookups head rest o = [] := by
          rw [hlookups]
          exact if_neg hbase
        exact ⟨changes_of_checkTagBase hbase hstep hnone, fun _ _ => hnothing hnone⟩
    · by_cases hclass : d.symbolClass = .enumTag
      · obtain ⟨hstep, hlookups⟩ := contentStep_enum rest hbody hclass
        have hnone : lookups head rest o = [] := by rw [hlookups]
        refine ⟨?_, fun _ _ => hnothing hnone⟩
        by_cases hbase : d.word.base = .enum
        · obtain ⟨id, opened, hopens, hfills⟩ := enumRun_fills hbase head rest ho
          rw [← hstep] at hfills
          exact .enum hbody hclass hopens hfills
        · exact changes_of_checkTagBase hbase hstep hnone
      · obtain ⟨hstep, hlookups⟩ := contentStep_definition rest hbody
        refine hlooks ?_
        rw [hstep, hlookups]
        exact traces_definition head (fun kind hkind => hcomposite ⟨kind, hkind⟩) hclass rest
  | functionStart start =>
    have hstep : contentStep head rest = functionSpan head start rest := by
      unfold contentStep
      rw [hbody]
    have hlookups : lookups head rest = spanLookups head start rest := by
      funext o
      unfold lookups
      rw [hbody]
    refine hlooks ?_
    rw [hstep, hlookups]
    exact traces_functionSpan head start rest
  | _ =>
    have hlookups : lookups head rest = fun _ => [] := by
      funext o
      unfold lookups
      rw [hbody]
    refine hlooks ?_
    rw [hlookups]
    unfold contentStep
    rw [hbody]
    first
      | exact .bind_quiet (.modify fun _ => quiet_of_eq rfl rfl rfl rfl rfl) fun _ => .pure _
      | exact .mapError (.fail _) _

theorem contentStep_fills {kind : CompositeKind} {tag : Tag} {size : UInt32}
    (hopen : head.openedSize? kind tag = some size) (ho : o.Indexed) {n : Nat}
    (hok : (contentStep head rest o).result = .ok n) :
    ∃ id opened, Opens kind tag size o id opened ∧
      Fills kind (rest.takeWhile (!·.endsMembers)) (lookups head rest o) id opened (contentStep head rest o) := by
  obtain ⟨form, d, hbody, hclass, rfl, rfl⟩ := Record.exists_of_openedSize? hopen
  obtain ⟨hstep, hlookups⟩ := contentStep_composite rest hbody hclass
  rw [hstep, hlookups]
  rw [hstep] at hok
  have hbase : d.word.base = kind.baseCode := by
    by_contra hbase
    obtain ⟨_, hcheck, _⟩ := Action.exists_of_bind_ok hok
    have hcheck := Action.ok_of_mapError hcheck
    unfold checkTagBase at hcheck
    rw [if_neg hbase] at hcheck
    exact nomatch hcheck
  obtain ⟨id, opened, hopens, hfills, _⟩ := compositeRun_fills hbase head rest ho
  exact ⟨id, opened, hopens, hfills⟩

end

end Overlay

end DebugSymbols
