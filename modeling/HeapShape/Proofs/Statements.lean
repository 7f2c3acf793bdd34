import HeapShape.Proofs.Composition
import HeapShape.Proofs.Simulation
import HeapShape.Proofs.Updates

/-!
# Statements follow every run

The outcomes of an assignment, an allocation or a release cover what a program does that runs
from a machine that the state describes. If the run comes to a machine, one of the outcomes
describes it, or tells that a shape did not fit. If the run goes wrong, one of the outcomes is
a defect.

* `Exec.read_answers`, `Exec.eval_answers`, `Exec.write_answers`: paths and expressions;
* `Exploration.operation_follows_runs`: the statements.

The outcomes that do not follow the run are plain states or defects of the program
(`Exec.Composed.reaches`).
-/

namespace HeapShape

open List

variable {structs : Structs}

theorem Heap.setField?_of_slot {h : Heap} {loc : Loc} {cell : Cell}
    (hs : h.slot loc = .occupied (.cell cell)) (index : Nat) (v : Value) :
    h.setField? loc index v = if index < cell.fields.length then
      some (h.write loc (.occupied (.cell { cell with fields := cell.fields.set index v }))) else none := by
  rw [setField?, cell?_of_slot hs]
  rfl

namespace Exec

variable {s : State} {v w : Value} {index : Nat}

/-! ### All outcomes are plain -/

/-- A plain state where a value is known. -/
def Known (structs : Structs) (s s' : State) (v : Value) : Prop :=
  s.Reaches structs s' ∧ s'.heap.Knows v

section

variable (hp : s.Plain structs)
include hp

theorem loadField_eq (v : Value) (index : Nat) :
    loadField structs v index s = (materialize structs v >>= loadCell index) s := by
  rw [loadField]
  split
  · rename_i loc set ty he
    obtain ⟨k, -, hk⟩ := Option.map_eq_some_iff.1 he
    exact (hp.facts k _ (congrArg Prod.snd hk)).elim
  · rfl

theorem loadField_ensures (hv : s.heap.Knows v) :
    (loadField structs v index).Ensures s (Known structs s) := by
  intro s' r hr
  rw [loadField_eq hp] at hr
  refine ((State.materialize_ensures hp hv).bind (Q := Known structs s) fun s₁ loc hs₁ => .ask ?_) s' r hr
  obtain ⟨hreach, cell, hcell⟩ := hs₁
  rw [Heap.cell?_of_slot hcell, Option.bind_some]
  cases hu : cell.fields[index]? with
  | none => exact nofun
  | some u => exact ⟨hreach, hreach.plain.closed loc _ hcell u (mem_of_getElem? hu)⟩

theorem lookup_ensures (x : String) : (ask fun s => s.lookup x).Ensures s (Known structs s) := by
  refine .ask ?_
  rw [State.lookup]
  cases hb : s.env.get? x with
  | none => rintro m ⟨⟩
  | some b => exact ⟨⟨hp, Nat.le_refl _⟩, hp.vars x b hb⟩

/-- A field of a cell may be set to a value that is known. -/
theorem plain_store {loc : Loc} {cell : Cell} (hs : s.heap.slot loc = .occupied (.cell cell))
    (hw : s.heap.Knows w) : s.Reaches structs { s with
      heap := s.heap.write loc (.occupied (.cell { cell with fields := cell.fields.set index w })) } := by
  refine hp.withHeap (Heap.size_write _).ge (fun k f hf => ?_) (hp.closed.write fun u hu => ?_)
  · obtain ⟨-, he⟩ | ⟨-, hf⟩ := Heap.occupied_write_cases hf
    · cases he
      trivial
    · exact hp.facts k f hf
  · rcases mem_or_eq_of_mem_set hu with hu | rfl
    · exact hp.closed loc _ hs u hu
    · exact hw

theorem storeCell_ensures {loc : Loc} (hw : s.heap.Knows w) :
    (storeCell index w loc).Ensures s fun s' _ => s.Reaches structs s' := by
  refine .update ?_
  cases hset : s.heap.setField? loc index w with
  | none => exact nofun
  | some heap =>
    obtain ⟨cell, hc, hset⟩ := Option.bind_eq_some_iff.1 hset
    split at hset
    · cases hset
      exact plain_store hp (Heap.slot_of_cell? hc) hw
    · cases hset

/-- A variable may be set to a value that is known. -/
theorem plain_set (hw : s.heap.Knows w) (x : String) (ty : Ty) :
    s.Reaches structs { s with env := s.env.insert x ⟨ty, w⟩ } := by
  refine ⟨⟨hp.facts, hp.closed, fun y b hb => ?_⟩, Nat.le_refl _⟩
  rw [NameMap.get?_insert] at hb
  split at hb
  · cases hb
    exact hw
  · exact hp.vars y b hb

theorem set_ensures (hw : s.heap.Knows w) (x : String) :
    (update fun s => s.set x w).Ensures s fun s' _ => s.Reaches structs s' := by
  refine .update ?_
  rw [State.set]
  cases s.env.get? x with
  | none => rintro m ⟨⟩
  | some b => exact plain_set hp hw x b.ty

theorem newCell_ensures (ty : StructId) : (newCell structs ty).Ensures s (Known structs s) := by
  intro s' r hr
  rw [newCell] at hr
  split at hr
  · rename_i decl hdecl
    cases mem_singleton.1 hr
    have hle : (⟨s.heap.size⟩ : Loc).index < s.heap.fresh.2.size :=
      (Heap.size_fresh s.heap).symm ▸ Nat.lt_succ_self _
    have hcs : ∀ c ∈ decl.fields.map Heap.unknownField, ∀ v ∈ c.values, s.heap.fresh.2.Knows v := by
      intro c hc v hv k hk
      obtain ⟨f, -, rfl⟩ := mem_map.1 hc
      exact absurd hk (Heap.unknownField_values hv)
    have hsize : s.heap.size ≤ (s.heap.allocCell ty decl).2.size :=
      hle.le.trans (Heap.size_le_unfolded s.heap.fresh.2 ⟨s.heap.size⟩ ty _)
    refine ⟨hp.withHeap hsize (fun k f hf => ?_) ?_, Heap.knows_ptr.2 ?_⟩
    · rcases Heap.occupied_unfolded_cases hf with rfl | hf | hmem
      · trivial
      · exact hp.facts k f ((Heap.slot_fresh s.heap k).symm.trans hf)
      · obtain ⟨f', -, he⟩ := mem_map.1 hmem
        exact absurd he (Heap.unknownField_ne_fact f' f)
    · exact (hp.closed.place (c := .unknown) nofun).unfolded hcs
    · exact hle.trans_le (Heap.size_le_unfolded s.heap.fresh.2 ⟨s.heap.size⟩ ty _)
  · cases mem_singleton.1 hr
    exact nofun

/-- A cell may be freed. -/
theorem plain_release (loc : Loc) : s.Reaches structs { s with heap := s.heap.write loc .tombstone } :=
  hp.withHeap (Heap.size_write _).ge (fun k f hf => hp.facts k f (Heap.of_occupied_write rfl hf).2)
    (hp.closed.empty loc rfl)

theorem freeValue_ensures (v : Value) : (freeValue v).Ensures s fun s' _ => s.Reaches structs s' := by
  refine .update ?_
  cases v with
  | null => exact nofun
  | int => exact nofun
  | ptr loc =>
    cases hs : s.heap.slot loc with
    | vacant => simp only [hs]; exact nofun
    | tombstone => simp only [hs]; exact nofun
    | occupied f =>
      cases f with
      | summary sum => simp only [hs]; exact nofun
      | member set ty => exact (hp.facts loc _ hs).elim
      | cell cell =>
        simp only [hs]
        exact plain_release hp loc

/-- Operations come to plain states, with values that are known there. -/
theorem Composed.reaches {α : Type} {vars : List String} {w : Writes} {known : List Value}
    {gives : α → List Value} {x : Exec α} (h : Composed structs vars w known gives x)
    (hk : ∀ v ∈ known, s.heap.Knows v) :
    x.Ensures s fun s' a => s.Reaches structs s' ∧ ∀ v ∈ gives a, s'.heap.Knows v := by
  have value {s s' : State} {v : Value} (h : Known structs s s' v) :
      s.Reaches structs s' ∧ ∀ u ∈ [v], s'.heap.Knows u := ⟨h.1, forall_mem_singleton.2 h.2⟩
  have nothing {s s' : State} (h : s.Reaches structs s') :
      s.Reaches structs s' ∧ ∀ u ∈ [], s'.heap.Knows u := ⟨h, forall_mem_nil _⟩
  induction h generalizing s with
  | pure h =>
    refine .pure ⟨⟨hp, Nat.le_refl _⟩, fun v hv => ?_⟩
    rcases h v hv with hmem | hnone
    · exact hk v hmem
    · rintro l rfl
      cases hnone
  | bind _ _ ihx ihf =>
    refine (ihx hp hk).bind fun s₁ a h₁ => (ihf a h₁.1.plain fun v hv => ?_).mono fun s₂ b h₂ =>
      ⟨h₁.1.trans h₂.1, h₂.2⟩
    exact (mem_append.1 hv).elim (h₁.2 v) fun hv => (hk v hv).mono h₁.1.size
  | either _ _ ihx ihy => exact .either (ihx hp hk) (ihy hp hk)
  | impossible => exact fun s' r hr => (not_mem_nil hr).elim
  | refute c _ ih => exact .refute (ih hp hk) c _
  | lookup => exact (lookup_ensures hp _).mono fun _ _ => value
  | set _ _ hv => exact (set_ensures hp (hk _ hv) _).mono fun _ _ => nothing
  | materialize hv =>
    refine (State.materialize_ensures hp (hk _ hv)).mono fun s' loc h => value ⟨h.1, ?_⟩
    obtain ⟨cell, hcell⟩ := h.2
    exact Heap.knows_ptr.2 (Heap.lt_size_of_occupied hcell)
  | testNull hv => exact (State.testNull_ensures hp (hk _ hv)).mono fun _ _ => nothing
  | loadField index hv => exact (loadField_ensures hp (hk _ hv)).mono fun _ _ => value
  | storeCell _ hv => exact (storeCell_ensures hp (hk _ hv)).mono fun _ _ => nothing
  | newCell ty => exact (newCell_ensures hp ty).mono fun _ _ => value
  | freeValue v => exact (freeValue_ensures hp v).mono fun _ _ => nothing

end

/-! ### One outcome follows the run -/

variable {ν : Valuation} {c : Machine} {d e : Datum}

/-- A state that follows the run, where a value can be a datum. -/
def Finds (structs : Structs) (c : Machine) (ν : Valuation) (s : State) (d : Datum) (s' : State)
    (v : Value) : Prop :=
  ∃ ν', State.Follows structs c ν s ν' s' ∧ ν'.Holds v d ∧ s'.heap.Knows v

/-- A state that follows a run to a machine. -/
def Arrives (structs : Structs) (ν : Valuation) (s : State) (c : Machine) (s' : State) (_ : Unit) : Prop :=
  ∃ ν', State.Follows structs c ν s ν' s'

/-- A cell that a run has come to, with the fields of its record. -/
theorem Located.fields {q : Addr × Record} {s' : State} {loc : Loc}
    (hl : State.Located structs c ν s q s' loc) : ∃ ν' cell foot, State.Follows structs c ν s ν' s' ∧
      ν' loc = some q.1 ∧ s'.heap.slot loc = .occupied (.cell cell) ∧
      s'.heap.Describes structs (Record.Fits structs) ν' c.mem foot ∧
      List.Forall₂ ν'.Holds cell.fields q.2.fields := by
  obtain ⟨cell, hcell⟩ := hl.cell
  obtain ⟨ν', hf, hloc⟩ := hl.follows
  obtain ⟨foot, hd⟩ := hf.agrees.heap
  obtain ⟨r, hr, -, hfields, -⟩ := hd.cell hcell hloc
  cases hl.record.symm.trans hr
  exact ⟨ν', cell, foot, hf, hloc, hcell, hd, hfields⟩

section

variable (hp : s.Plain structs)
include hp

variable (ha : s.Agrees structs ν c)
include ha

theorem loadField_answers (hk : s.heap.Knows v) (hv : ν.Holds v d) :
    (loadField structs v index).Answers s (Finds structs c ν s) (c.load d index) := by
  refine Answers.of_subset (x := materialize structs v >>= loadCell index) (s := s) ?_
    (loadField_eq hp v index ▸ List.Subset.refl _)
  refine (State.materialize_answers hp ha hk hv).bind fun q s' loc hl => ?_
  obtain ⟨ν', cell, foot, hf, hloc, hcell, hd, hfields⟩ := Located.fields hl
  have hget := forall₂_getElem? hfields index
  generalize hq : q.2.fields[index]? = e at hget
  generalize hu : cell.fields[index]? = u at hget
  cases hget with
  | none =>
    refine .ask (d := .mismatchAt loc (.noField index)) ?_
    rw [Heap.cell?_of_slot hcell, Option.bind_some, hu]
  | @some u e hue =>
    refine .ask (a := u) ?_ ⟨ν', hf, hue, ?_⟩
    · rw [Heap.cell?_of_slot hcell, Option.bind_some, hu]
    · exact hf.plain.closed loc _ hcell u (mem_of_getElem? hu)

theorem follow_answers {fs : List FieldRef} (hk : s.heap.Knows v) (hv : ν.Holds v d) :
    (follow structs v fs).Answers s (Finds structs c ν s) (c.follow d fs) := by
  -- By induction on the fields: each step goes on from the state that follows the run.
  induction fs generalizing s ν v d with
  | nil => exact .pure ⟨ν, ha.follows hp, hv, hk⟩
  | cons f fs ih =>
    refine (loadField_answers hp ha hk hv).bind fun e s₁ w hw => ?_
    obtain ⟨ν₁, hf, hwe, hkw⟩ := hw
    refine (ih hf.plain hf.agrees hkw hwe).mono fun e' s₂ u hu => ?_
    obtain ⟨ν₂, hf₂, hue, hku⟩ := hu
    exact ⟨ν₂, hf.trans hf₂, hue, hku⟩

theorem read_answers (p : Path) : (read structs p).Answers s (Finds structs c ν s) (c.read p) := by
  have hvar : (ask fun s => s.lookup p.var).Answers s
      (fun d s' v => s' = s ∧ s.heap.Knows v ∧ ν.Holds v d) (c.vars.get? p.var) := by
    have hx := ha.vars p.var
    generalize hb : s.env.get? p.var = b at hx
    generalize c.vars.get? p.var = d at hx
    cases hx with
    | none => exact .ask (d := .undefined p.var) (by rw [State.lookup, hb])
    | @some b d hbd =>
      exact .ask (a := b.value) (by rw [State.lookup, hb]) ⟨rfl, hp.vars p.var b hb, hbd⟩
  refine hvar.bind ?_
  rintro d s' v ⟨rfl, hk, hv⟩
  exact follow_answers hp ha hk hv

theorem readAll_answers (ps : List Path) :
    (readAll structs ps).Answers s (fun _ => Arrives structs ν s c) (c.readAll ps) := by
  induction ps generalizing s ν with
  | nil => exact .pure ⟨ν, ha.follows hp⟩
  | cons p ps ih =>
    refine (read_answers hp ha p).bind fun d s₁ v hv => ?_
    obtain ⟨ν₁, hf, -⟩ := hv
    refine (ih hf.plain hf.agrees).mono fun _ s₂ _ hs₂ => ?_
    obtain ⟨ν₂, hf₂⟩ := hs₂
    exact ⟨ν₂, hf.trans hf₂⟩

theorem eval_answers {x : Expr} {r : Option Datum} (hr : c.Evaluates x r) :
    (eval structs x).Answers s (Finds structs c ν s) r := by
  cases hr with
  | null => exact .pure ⟨ν, ha.follows hp, rfl, Heap.knows_null _⟩
  | path p => exact read_answers hp ha p
  | scalar ps n =>
    rw [Option.map_eq_bind]
    refine (readAll_answers hp ha ps).bind fun _ s₁ _ hs₁ => ?_
    obtain ⟨ν₁, hf⟩ := hs₁
    exact .pure ⟨ν₁, hf, ⟨n, rfl⟩, Heap.knows_int _⟩

theorem storeField_answers (hk : s.heap.Knows v) (hv : ν.Holds v d) (hkw : s.heap.Knows w)
    (hw : ν.Holds w e) :
    (storeField structs v index w).Answers s (Arrives structs ν s) (c.store d index e) := by
  refine (State.materialize_answers hp ha hk hv).bind ?_
  rintro ⟨a, r⟩ s₁ loc hl
  obtain ⟨ν₁, cell, foot, hf, hloc, hcell, hd, hfields⟩ := Located.fields hl
  have hlen : cell.fields.length = r.fields.length := hfields.length_eq
  have hset := Heap.setField?_of_slot hcell index w
  rw [hlen] at hset
  by_cases hi : index < r.fields.length
  · rw [if_pos hi] at hset
    dsimp only
    rw [if_pos hi]
    refine .update (by rw [hset]) ⟨ν₁, ?_⟩
    refine ⟨hf.toReaches.trans (plain_store hf.plain hcell (hkw.mono hf.size)), ⟨?_, hf.agrees.vars⟩,
      hf.same⟩
    exact hd.store hcell hloc hl.record (hf.holds hkw hw) index
  · rw [if_neg hi] at hset
    dsimp only
    rw [if_neg hi]
    exact .update (d := .mismatchAt loc (.noField index)) (by rw [hset])

theorem write_answers (hkw : s.heap.Knows w) (hw : ν.Holds w e) (p : Path) :
    (write structs p w).Answers s (Arrives structs ν s) (c.write p e) := by
  rw [write, Machine.write]
  cases p.splitLast? with
  | none =>
    have hx := ha.vars p.var
    generalize hb : s.env.get? p.var = b at hx
    generalize hd : c.vars.get? p.var = d at hx
    cases hx with
    | none => exact .update (d := .undefined p.var) (by rw [State.set, hb])
    | @some b d hbd =>
      refine .update (by rw [State.set, hb]) ⟨ν, plain_set hp hkw p.var b.ty, ⟨ha.heap, fun y => ?_⟩,
        fun _ _ => rfl⟩
      simp only [NameMap.get?_insert]
      split
      · exact .some hw
      · exact ha.vars y
  | some q =>
    obtain ⟨parent, last⟩ := q
    -- Reading up to the last field may unfold summaries, and the value that is written has to
    -- keep its meaning meanwhile.
    refine (read_answers hp ha parent).bind fun d s₁ v hv => ?_
    obtain ⟨ν₁, hf, hvd, hkv⟩ := hv
    refine (storeField_answers hf.plain hf.agrees hkv hvd (hkw.mono hf.size) (hf.holds hkw hw)).mono
      fun c' s₂ _ hs₂ => ?_
    obtain ⟨ν₂, hf₂⟩ := hs₂
    exact ⟨ν₂, hf.trans hf₂⟩

theorem freeValue_answers (hv : ν.Holds v d) :
    (freeValue v).Answers s (Arrives structs ν s) (c.release d) := by
  have mismatch {m : Mismatch} (hm : freeValue v s = [(s, .error (.mismatch m))]) :
      (freeValue v).Answers s (Arrives structs ν s) (c.release d) :=
    .of_mismatch (t := s) (m := m) (by rw [hm]; exact mem_singleton_self _) _ _
  cases v with
  | null =>
    cases hv
    exact .update (d := .nullDeref) rfl
  | int => exact mismatch rfl
  | ptr loc =>
    obtain ⟨foot, hd⟩ := ha.heap
    cases hs : s.heap.slot loc with
    | vacant =>
      exact mismatch (m := ⟨some loc, .freeUnknown⟩)
        (by simp [freeValue, update, hs, Defect.mismatchAt])
    | tombstone =>
      obtain ⟨a, hal, hna⟩ := hd.freed loc hs
      cases hv
      rw [hal, Datum.pointer, Machine.release, Memory.target, Finmap.lookup_eq_none.2 hna]
      exact .update (d := .doubleFree loc) (by simp only [hs])
    | occupied f =>
      cases f with
      | summary sum =>
        exact mismatch (m := ⟨some loc, .freeFolded sum.pred⟩)
          (by simp [freeValue, update, hs, Defect.mismatchAt])
      | member set ty => exact (hp.facts loc _ hs).elim
      | cell cell =>
        obtain ⟨a, r, hal, hr, -⟩ := hd.facts loc _ hs
        cases hv
        rw [hal, Datum.pointer, Machine.release, Memory.target, hr]
        refine .update (by simp only [hs]) ⟨ν, plain_release hp loc, ⟨?_, ha.vars⟩, fun _ _ => rfl⟩
        exact ⟨foot, hd.release hs hal⟩

/-- A new record is a new cell. Locations may change their meaning, since an address that was
    freed can be given out again. -/
theorem newCell_covers {a : Addr} {r : Record} (hr : r.Fits structs) (hunused : c.Unused a) :
    (newCell structs r.ty).Covers s fun s' v => s'.Plain structs ∧ s'.heap.Knows v ∧
      ∃ ν', s'.Agrees structs ν' { c with mem := c.mem.insert a r } ∧ ν'.Holds v (.addr a) := by
  have ⟨decl, hdecl, _⟩ := hr
  obtain ⟨foot, hd⟩ := ha.heap
  obtain ⟨ν', hsat, hloc, hν'⟩ := hd.alloc hp.closed hunused.mem hunused.fields hdecl hr
  have hout : ({ s with heap := (s.heap.allocCell r.ty decl).2 },
      .ok (.ptr (s.heap.allocCell r.ty decl).1)) ∈ newCell structs r.ty s := by
    rw [newCell, hdecl]
    exact mem_singleton_self _
  obtain ⟨hreach, hknows⟩ := newCell_ensures hp r.ty _ _ hout
  refine .inl ⟨_, _, hout, hreach.plain, hknows, ν', ⟨hsat, ?_⟩, ?_⟩
  · -- No variable holds the new address, so all of them keep their data.
    refine State.vars_congr ha.vars fun x b d hb hx hbd => hbd.congr fun k hk => ?_
    refine hν' k (hp.vars x b hb k hk) fun hka => hunused.vars x ?_
    rw [hx]
    rw [hk] at hbd
    exact congrArg some (hbd.trans (by rw [hka]; rfl))
  · show Datum.addr a = .pointer (ν' (s.heap.allocCell r.ty decl).1)
    rw [hloc]
    rfl

end

/-! ### Statements -/

/-- A state describes a machine after a run. -/
def Ends (structs : Structs) (c : Machine) (s : State) (_ : Unit) : Prop := s.Describes structs c

variable (hp : s.Plain structs)
include hp

omit hp in
theorem Arrives.ends {s₁ s' : State} {ν₁ : Valuation} {u : Unit} (h : Arrives structs ν₁ s₁ c s' u) :
    Ends structs c s' u := by
  obtain ⟨ν', hf⟩ := h
  exact ⟨ν', hf.agrees⟩

theorem assign_answers (ha : s.Agrees structs ν c) {rhs : Expr} (hd : c.Evaluates rhs (some d))
    (lhs : Path) : (assign structs lhs rhs).Answers s (Ends structs) (c.write lhs d) := by
  refine (eval_answers hp ha hd).bind (g := fun d => c.write lhs d) fun d s₁ v hv => ?_
  obtain ⟨ν₁, hf, hvd, hkv⟩ := hv
  exact (write_answers hf.plain hf.agrees hkv hvd lhs).mono fun _ _ _ => Arrives.ends

theorem alloc_answers {a : Addr} {r : Record} (ha : s.Agrees structs ν c) (hr : r.Fits structs)
    (hunused : c.Unused a) (lhs : Path) : (alloc structs lhs r.ty).Answers s (Ends structs)
      ({ c with mem := c.mem.insert a r }.write lhs (.addr a)) := by
  refine Answers.bind (r := some ()) (P := fun _ s' v => s'.Plain structs ∧ s'.heap.Knows v ∧
    ∃ ν', s'.Agrees structs ν' { c with mem := c.mem.insert a r } ∧ ν'.Holds v (.addr a))
    (g := fun _ => { c with mem := c.mem.insert a r }.write lhs (.addr a))
    (newCell_covers hp ha hr hunused) fun _ s₁ v hv => ?_
  obtain ⟨hp₁, hkv, ν₁, ha₁, hva⟩ := hv
  exact (write_answers hp₁ ha₁ hkv hva lhs).mono fun _ _ _ => Arrives.ends

theorem free_answers (ha : s.Agrees structs ν c) (p : Path) :
    (free structs p).Answers s (Ends structs) ((c.read p).bind c.release) := by
  refine (read_answers hp ha p).bind fun d s₁ v hv => ?_
  obtain ⟨ν₁, hf, hvd, -⟩ := hv
  exact (freeValue_answers hf.plain hf.agrees hvd).mono fun _ _ _ => Arrives.ends

end Exec

namespace Exploration

/-- The outcomes of an instruction. -/
def operation (task : Task) (instr : Instr) : Exec Unit := fun s => (perform task instr s).2

/-- Let a plain state describe a machine. If an assignment, an allocation or a release leads
    the machine to another one, it has an outcome that describes this one, or that tells that
    a shape did not fit, and if it goes wrong, it has an outcome with a defect. Every outcome
    is a plain state, or a defect of the program. -/
theorem operation_follows_runs {task : Task} {instr : Instr} {s : State} {c : Machine}
    {r : Option Machine} (hp : s.Plain task.structs) (hd : s.Describes task.structs c)
    (hr : c.Runs task.structs instr r) :
    (operation task instr).Answers s (fun c' s' _ => s'.Describes task.structs c') r ∧
      (operation task instr).Ensures s fun s' _ => s'.Plain task.structs := by
  obtain ⟨ν, ha⟩ := hd
  have plain {vars : List String} {w : Writes} {x : Exec Unit}
      (h : x.Composed task.structs vars w [] fun _ => []) :
      x.Ensures s fun s' _ => s'.Plain task.structs :=
    (h.reaches hp (forall_mem_nil _)).mono fun _ _ h => h.1.plain
  cases hr with
  | assign hd => exact ⟨Exec.assign_answers hp ha hd _, plain (.assign _ _)⟩
  | assign_wrong hw =>
    refine ⟨?_, plain (.assign _ _)⟩
    exact Exec.Fails.bind (Exec.eval_answers hp ha hw)
  | alloc hfit hunused => exact ⟨Exec.alloc_answers hp ha hfit hunused _, plain (.alloc _ _)⟩
  | @alloc_wrong lhs ty hty =>
    refine ⟨?_, plain (.alloc _ _)⟩
    refine Exec.Fails.bind ⟨s, .mismatchOf (.unknownStruct ty), ?_⟩
    rw [Exec.newCell, hty]
    exact mem_singleton_self _
  | free p => exact ⟨Exec.free_answers hp ha p, plain (.free p)⟩

/-- The first of two records is left behind, where only the second one has a cell. -/
theorem operation_follows_shift :
    let task : Task := ⟨Sample.nodes, ⟨[], []⟩, .standard⟩
    let shift : Instr := .assign (.ofVar "x") (.path ⟨"x", [⟨"next", 0⟩]⟩)
    let shifted : Machine := ⟨Sample.machine.mem, ⟨[("x", .addr 2), ("y", .addr 2)]⟩⟩
    Sample.state.Plain Sample.nodes ∧ Sample.state.Describes Sample.nodes Sample.machine ∧
      Sample.machine.Runs Sample.nodes shift (some shifted) ∧
      (operation task shift).Answers Sample.state (fun c' s' _ => s'.Describes Sample.nodes c')
        (some shifted) ∧
      (operation task shift).Ensures Sample.state fun s' _ => s'.Plain Sample.nodes := by
  intro task shift shifted
  have hread : Sample.machine.Evaluates (.path ⟨"x", [⟨"next", 0⟩]⟩) (some (.addr 2)) := .path _
  have hrun : Sample.machine.Runs Sample.nodes shift (some shifted) := .assign hread
  exact ⟨Sample.plain, Sample.describes, hrun,
    operation_follows_runs Sample.plain Sample.describes hrun⟩

end Exploration

end HeapShape
