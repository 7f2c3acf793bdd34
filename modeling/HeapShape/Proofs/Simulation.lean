import HeapShape.Proofs.Machine
import HeapShape.Proofs.Outcomes
import HeapShape.Proofs.Unfolding

/-!
# States that describe machines

A state *describes* a machine if, for some valuation, its heap holds of memory and its
variables have the values that the machine says. A *plain* state has only cells, lists,
segments of lists and full trees, and mentions only locations that were given out.

When a pointer is taken apart into its cases, one of the cases describes the machine again,
and locations keep their meaning (`State.Follows`):

* `State.materialize_answers`: the case where the pointer points to a cell;
* `State.testNull_covers`: the case with the right answer.

Every other case is a plain state too (`State.materialize_ensures`,
`State.testNull_ensures`).
-/

namespace HeapShape

open List

variable {structs : Structs} {ν ν' ν'' : Valuation} {c c' : Machine}

theorem Value.subst_ne_int {v w : Value} {loc : Loc} (hv : v ≠ .int) (hw : w ≠ .int) :
    v.subst loc w ≠ .int := by
  rw [Value.subst]
  split
  · exact hw
  · exact hv

/-- A plain summary stays plain when a pointer is put in the place of a location. -/
theorem Fact.Plain.subst {f : Fact} (hf : f.Plain structs) {loc : Loc} {w : Value} (hw : w ≠ .int) :
    (f.mapValues (·.subst loc w)).Plain structs := by
  cases f with
  | cell c => trivial
  | member set ty => exact hf
  | summary s =>
    refine ⟨⟨hf.kind, hf.layout, (length_map _).trans hf.ptrs, hf.sets, fun o ho => ?_⟩,
      fun ht => ?_⟩
    · obtain ⟨o', ho', rfl⟩ := Option.map_eq_some_iff.1 ho
      obtain ⟨hv, hps, hlen, hsets⟩ := hf.hole o' ho'
      refine ⟨Value.subst_ne_int hv hw, fun hmem => ?_, (length_map _).trans hlen, hsets⟩
      obtain ⟨v, hv, he⟩ := mem_map.1 hmem
      exact Value.subst_ne_int (fun he => hps (he ▸ hv)) hw he
    · rw [hf.full ht]
      rfl

namespace Heap

theorem take_of_vacant {h : Heap} {loc : Loc} (hl : loc.index < h.size) (hs : h.slot loc = .vacant) :
    h.take loc = .ok (none, h) := by
  have he : h.arena.entry loc.index = .ok .vacant := (if_pos hl).trans (congrArg Except.ok hs)
  simp [take, Arena.take, he, bind, Except.bind, pure, Except.pure]

end Heap

namespace State

variable {s s' s'' : State} {loc : Loc} {v w : Value} {sum : Summary}

/-! ### Plain states -/

/-- A state has only cells and plain summaries, and mentions only locations that were given
    out. -/
structure Plain (structs : Structs) (s : State) : Prop where
  facts : ∀ loc f, s.heap.slot loc = .occupied f → f.Plain structs
  closed : s.heap.Closed
  vars : ∀ x b, s.env.get? x = some b → s.heap.Knows b.value

/-- A plain state on the same path, which has the locations of the first one. -/
structure Reaches (structs : Structs) (s s' : State) : Prop where
  plain : s'.Plain structs
  size : s.heap.size ≤ s'.heap.size

theorem Reaches.trans (h : s.Reaches structs s') (h' : s'.Reaches structs s'') :
    s.Reaches structs s'' := ⟨h'.plain, h.size.trans h'.size⟩

/-- A heap with at least the same locations may be put in the place of the heap. -/
theorem Plain.withHeap (hp : s.Plain structs) {h : Heap} (hsize : s.heap.size ≤ h.size)
    (hfacts : ∀ loc f, h.slot loc = .occupied f → f.Plain structs) (hc : h.Closed) :
    s.Reaches structs { s with heap := h } :=
  ⟨⟨hfacts, hc, fun x b hb => (hp.vars x b hb).mono hsize⟩, hsize⟩

theorem Plain.unfolded (hp : s.Plain structs) {cs : List Content}
    (hfacts : ∀ f, .fact f ∈ cs → f.Plain structs) (hcs : ∀ c ∈ cs, ∀ v ∈ c.values, s.heap.Knows v) :
    s.Reaches structs { s with heap := s.heap.unfolded loc sum.ty cs } := by
  refine hp.withHeap (Heap.size_le_unfolded ..) (fun k f hf => ?_) (hp.closed.unfolded hcs)
  rcases Heap.occupied_unfolded_cases hf with rfl | hf | hmem
  · trivial
  · exact hp.facts k f hf
  · exact hfacts f hmem

/-! ### Empty summaries -/

@[simp] theorem size_emptied : (s.emptied loc w).heap.size = s.heap.size := by
  simp [emptied, subst]

theorem Plain.emptied (hp : s.Plain structs) (loc : Loc) (hk : s.heap.Knows w) (hw : w ≠ .int) :
    s.Reaches structs (s.emptied loc w) := by
  refine ⟨⟨fun k f hf => ?_, ?_, fun x b hb => ?_⟩, size_emptied.ge⟩
  · obtain ⟨g, hg, rfl⟩ := Heap.slot_subst_eq_occupied.1 hf
    exact (hp.facts k g (Heap.of_occupied_write rfl hg).2).subst hw
  · exact (hp.closed.empty loc rfl).subst (hk.mono (Heap.size_write _).ge)
  · have hb : (s.env.map fun b => { b with value := b.value.subst loc w }).get? x = some b := hb
    rw [NameMap.get?_map] at hb
    obtain ⟨b', hb', rfl⟩ := Option.map_eq_some_iff.1 hb
    exact ((hp.vars x b' hb').subst hk).mono size_emptied.ge

theorem discharge_eq (hp : sum.Plain structs) : s.discharge loc sum = some (s.emptied loc .null) := by
  rcases hp.kind with h | h <;> simp [discharge, h, Predicate.baseCase, emptied]

theorem closeSegment_eq {o : Hole} (hp : sum.Plain structs) (ho : sum.hole = some o) :
    s.closeSegment loc sum o = .ok (some (s.emptied loc o.value)) := by
  have hpred : sum.pred = .list := hp.kind.resolve_right fun ht => by
    rw [hp.full ht] at ho
    cases ho
  have hptrs : sum.params.ptrs = [] := length_eq_zero_iff.1 (by rw [hp.ptrs, hpred]; rfl)
  simp [closeSegment, hptrs, hp.sets, equateAll, equateSets, bind, Except.bind, pure, Except.pure,
    emptied]

theorem setNull_eq (hl : loc.index < s.heap.size) (hs : s.heap.slot loc = .vacant) :
    s.setNull loc = .ok (s.emptied loc .null) := by
  simp [setNull, Heap.take_of_vacant hl hs, bind, Except.bind, pure, Except.pure, emptied,
    Heap.write_vacant_eq_self hs]

/-! ### Description -/

/-- A state describes a machine with a valuation. -/
structure Agrees (structs : Structs) (ν : Valuation) (c : Machine) (s : State) : Prop where
  heap : s.heap.Sat structs (Record.Fits structs) ν c.mem
  vars : ∀ x, Option.Rel (fun b d => ν.Holds b.value d) (s.env.get? x) (c.vars.get? x)

/-- A state describes a machine. -/
def Describes (structs : Structs) (c : Machine) (s : State) : Prop := ∃ ν, s.Agrees structs ν c

/-- A plain state on the same path describes a machine, where the locations of the first state
    have kept their meaning. -/
structure Follows (structs : Structs) (c : Machine) (ν : Valuation) (s : State) (ν' : Valuation)
    (s' : State) : Prop extends s.Reaches structs s' where
  agrees : s'.Agrees structs ν' c
  same : ∀ k, k.index < s.heap.size → ν' k = ν k

theorem Agrees.follows (ha : s.Agrees structs ν c) (hp : s.Plain structs) :
    Follows structs c ν s ν s := ⟨⟨hp, Nat.le_refl _⟩, ha, fun _ _ => rfl⟩

theorem Follows.trans (h : Follows structs c ν s ν' s') (h' : Follows structs c' ν' s' ν'' s'') :
    Follows structs c' ν s ν'' s'' :=
  ⟨h.toReaches.trans h'.toReaches, h'.agrees, fun k hk =>
    (h'.same k (hk.trans_le h.size)).trans (h.same k hk)⟩

/-- A value that was known keeps its meaning. -/
theorem Follows.holds (h : Follows structs c ν s ν' s') {d : Datum} (hk : s.heap.Knows v)
    (hv : ν.Holds v d) : ν'.Holds v d := hv.congr fun k he => h.same k (hk k he)

theorem vars_congr {env : NameMap Binding} {vars : NameMap Datum}
    (h : ∀ x, Option.Rel (fun b d => ν.Holds b.value d) (env.get? x) (vars.get? x))
    (hν : ∀ x b d, env.get? x = some b → vars.get? x = some d → ν.Holds b.value d → ν'.Holds b.value d)
    (x : String) : Option.Rel (fun b d => ν'.Holds b.value d) (env.get? x) (vars.get? x) := by
  have hx := h x
  cases hb : env.get? x with
  | none =>
    cases hd : vars.get? x with
    | none => exact .none
    | some d => rw [hb, hd] at hx; cases hx
  | some b =>
    cases hd : vars.get? x with
    | none => rw [hb, hd] at hx; cases hx
    | some d =>
      rw [hb, hd] at hx
      cases hx with
      | some hbd => exact .some (hν x b d hb hd hbd)

theorem Agrees.emptied (ha : s.Agrees structs ν c) (hw : ν.Holds w (.pointer (ν loc))) :
    (s.emptied loc w).Agrees structs ν c := by
  obtain ⟨foot, hd⟩ := ha.heap
  refine ⟨⟨foot, (hd.vacate loc).subst hw⟩, fun x => ?_⟩
  show Option.Rel _ ((s.env.map fun b => { b with value := b.value.subst loc w }).get? x) _
  rw [NameMap.get?_map]
  have hx := ha.vars x
  generalize s.env.get? x = b at hx
  generalize c.vars.get? x = d at hx
  cases hx with
  | none => exact .none
  | some hbd => exact .some (.subst hw hbd)

/-- The case where what is at a location is empty. -/
theorem Agrees.follows_emptied (ha : s.Agrees structs ν c) (hp : s.Plain structs)
    (hk : s.heap.Knows w) (hi : w ≠ .int) (hw : ν.Holds w (.pointer (ν loc))) :
    Follows structs c ν s ν (s.emptied loc w) :=
  ⟨hp.emptied loc hk hi, ha.emptied hw, fun _ _ => rfl⟩

/-- The case where there is a record at the root of a summary. -/
theorem Agrees.follows_unfolded (ha : s.Agrees structs ν c) (hp : s.Plain structs) {cs : List Content}
    {foot : Loc → Finset Addr} (hs : s.heap.slot loc = .occupied (.summary sum))
    (hfacts : ∀ f, .fact f ∈ cs → f.Plain structs) (hcs : ∀ c ∈ cs, ∀ v ∈ c.values, s.heap.Knows v)
    (hd : s.heap.Describes structs (Record.Fits structs) ν c.mem foot)
    (hroot : Summary.RootAt structs (Record.Fits structs) ν c.mem loc (foot loc) sum.ty cs) :
    ∃ ν', Follows structs c ν s ν' { s with heap := s.heap.unfolded loc sum.ty cs } := by
  obtain ⟨ν', foot', hν, hd'⟩ := hd.unfolded hp.closed (Heap.lt_size_of_occupied hs) hcs hroot
    fun k f hk hf => hd.apart k loc f _ hf hs hk
  refine ⟨ν', hp.unfolded hfacts hcs, ⟨⟨foot', hd'⟩, ?_⟩, hν⟩
  exact vars_congr ha.vars fun x b d hb _ hbd => hbd.congr fun k hk => hν k (hp.vars x b hb k hk)

/-- A plain summary that holds of memory, with the heap that it unfolds into: it is empty, or
    the unfolded heap describes memory. -/
theorem Plain.summary_cases (hp : s.Plain structs) (hs : s.heap.slot loc = .occupied (.summary sum)) :
    ∃ h, s.heap.unfold structs loc = .ok [h] ∧ s.Reaches structs { s with heap := h } ∧
      (∃ cell, h.slot loc = .occupied (.cell cell)) ∧
      ∀ ν c, s.Agrees structs ν c →
        (sum.hole = none ∧ ν loc = none) ∨
        (∃ o, sum.hole = some o ∧ Follows structs c ν s ν (s.emptied loc o.value) ∧
          ν.Holds o.value (.pointer (ν loc))) ∨
        ∃ a r ν', ν loc = some a ∧ c.mem.lookup a = some r ∧
          Follows structs c ν s ν' { s with heap := h } := by
  have hplain : sum.Plain structs := hp.facts loc _ hs
  have hl := Heap.lt_size_of_occupied hs
  obtain ⟨cs, hunfold, hfacts, hvalues, hcases⟩ := Heap.unfold_plain hs hplain
  have hcs : ∀ c ∈ cs, ∀ v ∈ c.values, s.heap.Knows v := by
    intro c hc v hv k hk
    rcases hvalues c hc v hv k hk with rfl | hmem
    · exact hl
    · exact hp.closed loc _ hs v hmem k hk
  refine ⟨_, hunfold, hp.unfolded hfacts hcs, ⟨_, Heap.slot_unfolded_self hl⟩, fun ν c ha => ?_⟩
  obtain ⟨foot, hd⟩ := ha.heap
  -- The root of an empty summary is null or the hole. Otherwise there is a record at the root,
  -- and the unfolded heap shows it as a cell.
  rcases hcases ν c.mem (foot loc) (hd.facts loc _ hs) with hempty | hroot
  · rw [Summary.Empty] at hempty
    cases ho : sum.hole with
    | none =>
      rw [ho] at hempty
      exact .inl ⟨rfl, hempty⟩
    | some o =>
      rw [ho] at hempty
      have hknows := hp.closed loc _ hs _ (Fact.mem_values_of_hole ho (.head _))
      exact .inr (.inl ⟨o, rfl, ha.follows_emptied hp hknows (hplain.hole o ho).1 hempty, hempty⟩)
  · obtain ⟨ν', hν'⟩ := ha.follows_unfolded hp hs hfacts hcs hd hroot
    obtain ⟨a, r, -, ha, hr, -⟩ := hroot
    exact .inr (.inr ⟨a, r, ν', ha, hr, hν'⟩)

/-! ### Cells -/

theorem materialize_summary (hp : s.Plain structs) {h : Heap}
    (hs : s.heap.slot loc = .occupied (.summary sum)) (hu : s.heap.unfold structs loc = .ok [h]) :
    s.materialize structs (.ptr loc) = ({ s with heap := h }, .ok loc) ::
      match sum.hole with
      | some o => (s.emptied loc o.value).materialize structs o.value
      | none => [(s.emptied loc .null, .error .nullDeref)] := by
  have hplain : sum.Plain structs := hp.facts loc _ hs
  simp only [materialize_ptr, hs, hu, map_cons, map_nil, cons_append, nil_append]
  cases ho : sum.hole with
  | none => simp only [discharge_eq hplain, Option.toList, map_cons, map_nil]
  | some o => simp only [closeSegment_eq hplain ho]

theorem materialize_cell {cell : Cell} (hs : s.heap.slot loc = .occupied (.cell cell)) :
    s.materialize structs (.ptr loc) = [(s, .ok loc)] := by
  rw [materialize_ptr, hs]

theorem materialize_tombstone (hs : s.heap.slot loc = .tombstone) :
    s.materialize structs (.ptr loc) = [(s, .error (.useAfterFree loc))] := by
  rw [materialize_ptr, hs]

theorem materialize_vacant (hs : s.heap.slot loc = .vacant) :
    s.materialize structs (.ptr loc) = [(s, .error (.mismatchAt loc .derefUnknown))] := by
  rw [materialize_ptr, hs]

/-- A summary is unfolded into a cell. -/
theorem Plain.unfold (hp : s.Plain structs) {heap : Heap} {heaps : List Heap}
    (hs : s.heap.slot loc = .occupied (.summary sum)) (hu : s.heap.unfold structs loc = .ok heaps)
    (hmem : heap ∈ heaps) :
    s.Reaches structs { s with heap } ∧ ∃ cell, heap.slot loc = .occupied (.cell cell) := by
  obtain ⟨h, hu', hreach, hcell, -⟩ := hp.summary_cases hs
  cases hu.symm.trans hu'
  cases mem_singleton.1 hmem
  exact ⟨hreach, hcell⟩

theorem materialize_ensures (hp : s.Plain structs) (hv : s.heap.Knows v) :
    (Exec.materialize structs v).Ensures s fun s' loc =>
      s.Reaches structs s' ∧ ∃ cell, s'.heap.slot loc = .occupied (.cell cell) := by
  show Exec.Each _ (s.materialize structs v)
  fun_induction materialize structs s v with
  | case1 | case2 | case4 | case5 | case6 | case7 => exact .single nofun
  | case3 s loc cell hs => exact .single ⟨⟨hp, Nat.le_refl _⟩, cell, hs⟩
  | case8 s loc sum hs heaps hu cells o ho closed hc ih =>
    have hplain : sum.Plain structs := hp.facts loc _ hs
    have hknows := hp.closed loc _ hs _ (Fact.mem_values_of_hole ho (.head _))
    have hreach := hp.emptied loc hknows (hplain.hole o ho).1
    cases hc.symm.trans (closeSegment_eq hplain ho)
    exact .append (.cells fun _ => hp.unfold hs hu) ((ih hreach.plain (hknows.mono size_emptied.ge)).mono
      fun s' l hl => ⟨hreach.trans hl.1, hl.2⟩)
  | case9 s loc sum hs heaps hu | case12 s loc sum hs heaps hu => exact .cells fun _ => hp.unfold hs hu
  | case10 s loc sum hs heaps hu cells o ho m hc =>
    cases hc.symm.trans (closeSegment_eq (hp.facts loc _ hs : sum.Plain structs) ho)
  | case11 s loc sum hs heaps hu => exact .append (.cells fun _ => hp.unfold hs hu) (.single nofun)

/-- Every case of a test for null is a plain state. -/
theorem testNull_ensures (hp : s.Plain structs) (hv : s.heap.Knows v) :
    (Exec.testNull structs v).Ensures s fun s' _ => s.Reaches structs s' := by
  show Exec.Each _ (s.testNull structs v)
  fun_induction testNull structs s v with
  | case1 | case3 | case4 => exact .single ⟨hp, Nat.le_refl _⟩
  | case2 | case9 => exact .single nofun
  | case5 s loc hs null hn =>
    cases hn.symm.trans (setNull_eq (hv loc rfl) hs)
    exact .cons (hp.emptied loc (Heap.knows_null _) nofun) (.single ⟨hp, Nat.le_refl _⟩)
  | case6 s loc hs m hn => cases hn.symm.trans (setNull_eq (hv loc rfl) hs)
  | case7 s loc set ty hs | case8 s loc set ty hs => exact (hp.facts loc _ hs).elim
  | case10 s loc sum hs heaps hu cells o ho closed hc ih =>
    -- The segment is empty, so the test goes on at the hole, with one fact less.
    have hplain : sum.Plain structs := hp.facts loc _ hs
    have hknows := hp.closed loc _ hs _ (Fact.mem_values_of_hole ho (.head _))
    have hempty := hp.emptied loc hknows (hplain.hole o ho).1
    cases hc.symm.trans (closeSegment_eq hplain ho)
    exact .append ((ih hempty.plain (hknows.mono size_emptied.ge)).mono fun s' _ => hempty.trans)
      (.cells fun _ hmem => (hp.unfold hs hu hmem).1)
  | case11 s loc sum hs heaps hu | case14 s loc sum hs heaps hu =>
    exact .cells fun _ hmem => (hp.unfold hs hu hmem).1
  | case12 s loc sum hs heaps hu o ho m hc =>
    cases hc.symm.trans (closeSegment_eq (hp.facts loc _ hs : sum.Plain structs) ho)
  | case13 s loc sum hs heaps hu cells ho base hd =>
    cases hd.symm.trans (discharge_eq (hp.facts loc _ hs : sum.Plain structs))
    exact .cons (hp.emptied loc (Heap.knows_null _) nofun) (.cells fun _ hmem => (hp.unfold hs hu hmem).1)

/-- The cell of a record that a machine has at an address. -/
structure Located (structs : Structs) (c : Machine) (ν : Valuation) (s : State) (q : Addr × Record)
    (s' : State) (loc : Loc) : Prop where
  record : c.mem.lookup q.1 = some q.2
  cell : ∃ cell, s'.heap.slot loc = .occupied (.cell cell)
  follows : ∃ ν', Follows structs c ν s ν' s' ∧ ν' loc = some q.1

/-- If a pointer leads to a record, one of its cases is the cell of this record, and if it does
    not, there is a case with a defect. -/
theorem materialize_answers (hp : s.Plain structs) (ha : s.Agrees structs ν c)
    (hk : s.heap.Knows v) {d : Datum} (hv : ν.Holds v d) :
    (Exec.materialize structs v).Answers s (Located structs c ν s) (c.mem.target d) := by
  -- By induction on the number of facts, since a record may be behind several empty segments.
  induction hn : s.heap.factCount using Nat.strong_induction_on generalizing s v with
  | _ n ih =>
    subst hn
    cases v with
    | null =>
      cases hv
      refine ⟨s, .nullDeref, ?_⟩
      rw [Exec.materialize, materialize]
      exact mem_singleton_self _
    | int =>
      refine .of_mismatch (t := s) (m := ⟨none, .derefScalar⟩) ?_ _ _
      rw [Exec.materialize, materialize]
      exact mem_singleton_self _
    | ptr loc =>
      obtain ⟨foot, hd⟩ := ha.heap
      cases hv
      cases hs : s.heap.slot loc with
      | vacant =>
        refine .of_mismatch (t := s) (m := ⟨some loc, .derefUnknown⟩) ?_ _ _
        rw [Exec.materialize, materialize_vacant hs]
        exact mem_singleton_self _
      | tombstone =>
        obtain ⟨a, hal, hna⟩ := hd.freed loc hs
        rw [hal, Datum.pointer, Memory.target, Finmap.lookup_eq_none.2 hna]
        refine ⟨s, .useAfterFree loc, ?_⟩
        rw [Exec.materialize, materialize_tombstone hs]
        exact mem_singleton_self _
      | occupied f =>
        cases f with
        | member set ty => exact (hp.facts loc _ hs).elim
        | cell cell =>
          obtain ⟨a, r, hal, hr, -⟩ := hd.facts loc _ hs
          rw [hal, Datum.pointer, Memory.target, hr]
          refine .inl ⟨s, loc, ?_, hr, ⟨cell, hs⟩, ν, ha.follows hp, hal⟩
          rw [Exec.materialize, materialize_cell hs]
          exact mem_singleton_self _
        | summary sum =>
          obtain ⟨h, hu, -, hcell, hcases⟩ := hp.summary_cases hs
          have hsum := materialize_summary hp hs hu
          rcases hcases ν c ha with ⟨ho, hal⟩ | ⟨o, ho, hf, hw⟩ | ⟨a, r, ν', hal, hr, hf⟩
          · rw [hal]
            refine ⟨s.emptied loc .null, .nullDeref, ?_⟩
            rw [Exec.materialize, hsum, ho]
            exact .tail _ (.head _)
          · -- The segment is empty, so the record is found from its hole.
            have hknows := hp.closed loc _ hs _ (Fact.mem_values_of_hole ho (.head _))
            have hrest := ih _ (factCount_emptied_lt hs) hf.plain hf.agrees
              (hknows.mono size_emptied.ge) hw rfl
            refine (hrest.of_subset (y := Exec.materialize structs (.ptr loc)) (t := s) ?_).mono
              fun q s' l hl => ?_
            · rw [Exec.materialize, Exec.materialize, hsum, ho]
              exact fun _ => mem_cons_of_mem _
            · obtain ⟨ν', hν', hlq⟩ := hl.follows
              exact ⟨hl.record, hl.cell, ν', hf.trans hν', hlq⟩
          · rw [hal, Datum.pointer, Memory.target, hr]
            refine .inl ⟨{ s with heap := h }, loc, ?_, hr, hcell, ν', hf, ?_⟩
            · rw [Exec.materialize, hsum]
              exact .head _
            · exact (hf.same loc (Heap.lt_size_of_occupied hs)).trans hal

end State

/-! ### A segment in front of a cell -/

namespace Sample

/-- One structure, for lists. -/
def nodes : Structs := [⟨"node", [⟨"next", .ptr ⟨0⟩⟩]⟩]

/-- A segment of a list from `x` to `y`, and a cell at `y` without a successor. -/
def state : State :=
  ⟨0, ⟨.ofSlots [.occupied (.cell ⟨⟨0⟩, [.null]⟩),
      .occupied (.summary ⟨.list, ⟨0⟩, .none, some ⟨.ptr ⟨0⟩, .none⟩⟩)], .empty⟩,
    ⟨[("x", ⟨.ptr ⟨0⟩, .ptr ⟨1⟩⟩), ("y", ⟨.ptr ⟨0⟩, .ptr ⟨0⟩⟩)]⟩⟩

/-- A list of two records. -/
def machine : Machine :=
  ⟨(Finmap.singleton 1 ⟨⟨0⟩, [.addr 2]⟩).insert 2 ⟨⟨0⟩, [.null]⟩, ⟨[("x", .addr 1), ("y", .addr 2)]⟩⟩

theorem slot_cases {loc : Loc} {f : Fact} (h : state.heap.slot loc = .occupied f) :
    (loc = ⟨0⟩ ∧ f = .cell ⟨⟨0⟩, [.null]⟩) ∨
      (loc = ⟨1⟩ ∧ f = .summary ⟨.list, ⟨0⟩, .none, some ⟨.ptr ⟨0⟩, .none⟩⟩) := by
  obtain ⟨_ | _ | i⟩ := loc
  · cases h
    exact .inl ⟨rfl, rfl⟩
  · cases h
    exact .inr ⟨rfl, rfl⟩
  · cases h

theorem plain : state.Plain nodes where
  facts loc f hf := by
    rcases slot_cases hf with ⟨-, rfl⟩ | ⟨-, rfl⟩
    · trivial
    · refine ⟨⟨.inl rfl, by decide, rfl, rfl, ?_⟩, nofun⟩
      rintro o ⟨⟩
      exact ⟨nofun, nofun, rfl, rfl⟩
  closed loc f hf v hv := by
    rcases slot_cases hf with ⟨-, rfl⟩ | ⟨-, rfl⟩
    · cases mem_singleton.1 hv
      exact Heap.knows_null _
    · cases mem_singleton.1 hv
      exact Heap.knows_ptr.2 (by decide)
  vars x b hb := by
    rw [state, NameMap.get?, NameMap.find] at hb
    split at hb
    · cases hb
      exact Heap.knows_ptr.2 (by decide)
    · rw [NameMap.find] at hb
      split at hb
      · cases hb
        exact Heap.knows_ptr.2 (by decide)
      · cases hb

theorem describes : state.Describes nodes machine := by
  have h₁ : machine.mem.lookup 1 = some ⟨⟨0⟩, [.addr 2]⟩ := rfl
  have h₂ : machine.mem.lookup 2 = some ⟨⟨0⟩, [.null]⟩ := rfl
  refine ⟨fun loc => if loc = ⟨0⟩ then some 2 else some 1,
    ⟨⟨fun loc => if loc = ⟨0⟩ then {2} else {1}, fun loc f hf => ?_, fun k k' f f' hf hf' hne => ?_,
      fun loc hf => ?_⟩, fun x => ?_⟩⟩
  · rcases slot_cases hf with ⟨rfl, rfl⟩ | ⟨rfl, rfl⟩
    · exact ⟨2, _, rfl, h₂, rfl, .cons rfl .nil, rfl⟩
    · have hlay : Predicate.list.layout? nodes ⟨0⟩ = some ⟨[0], none, [], []⟩ := by decide
      refine (Summary.holds_list (s := ⟨.list, ⟨0⟩, .none, some ⟨.ptr ⟨0⟩, .none⟩⟩) rfl hlay).2
        ⟨.addr 2, rfl, ?_⟩
      exact .cons h₁ ⟨rfl, _, rfl, .cons ⟨some 2, rfl⟩ .nil⟩ rfl (Finset.notMem_empty 1) .nil
  · rcases slot_cases hf with ⟨rfl, rfl⟩ | ⟨rfl, rfl⟩ <;> rcases slot_cases hf' with ⟨rfl, rfl⟩ | ⟨rfl, rfl⟩
    · exact absurd rfl hne
    · decide
    · decide
    · exact absurd rfl hne
  · obtain ⟨_ | _ | i⟩ := loc <;> cases hf
  · by_cases hx : x = "x"
    · rw [hx]
      exact .some rfl
    · by_cases hy : x = "y"
      · rw [hy]
        exact .some rfl
      · simp only [state, machine, NameMap.get?, NameMap.find, if_neg hx, if_neg hy]
        exact .none

end Sample

end HeapShape
