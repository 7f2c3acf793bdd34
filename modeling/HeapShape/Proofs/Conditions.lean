import HeapShape.Proofs.Statements

/-!
# Conditions follow every run

Where a program branches on tests for null, no case of a run is lost. If a condition can have
an outcome on a machine, one of the cases where the condition is assumed to have this outcome
describes the machine, or tells that a shape did not fit. If the condition goes wrong on the
machine, there is a defect whatever is assumed.

* `State.testNull_covers`: a pointer is tested for null;
* `Exec.compare_covers`: a comparison with null;
* `Exec.assume_answers`: conditions, by induction on how they are decided;
* `Exec.assume_follows_decides`: the main statement.
-/

namespace HeapShape

open List

variable {structs : Structs} {ν : Valuation} {c : Machine}

namespace State

variable {s : State} {loc : Loc} {v : Value}

/-! ### Tests for null -/

theorem testNull_summary (hp : s.Plain structs) {sum : Summary} {h : Heap}
    (hs : s.heap.slot loc = .occupied (.summary sum)) (hu : s.heap.unfold structs loc = .ok [h]) :
    s.testNull structs (.ptr loc) =
      match sum.hole with
      | some o => (s.emptied loc o.value).testNull structs o.value ++ [({ s with heap := h }, .ok false)]
      | none => [(s.emptied loc .null, .ok true), ({ s with heap := h }, .ok false)] := by
  have hplain : sum.Plain structs := hp.facts loc _ hs
  simp only [testNull_ptr, hs, hu, map_cons, map_nil]
  cases ho : sum.hole with
  | none => simp only [discharge_eq hplain, Option.toList, map_cons, map_nil, cons_append, nil_append]
  | some o => simp only [closeSegment_eq hplain ho]

theorem testNull_cell {cell : Cell} (hs : s.heap.slot loc = .occupied (.cell cell)) :
    s.testNull structs (.ptr loc) = [(s, .ok false)] := by
  rw [testNull_ptr, hs]

theorem testNull_tombstone (hs : s.heap.slot loc = .tombstone) :
    s.testNull structs (.ptr loc) = [(s, .ok false)] := by
  rw [testNull_ptr, hs]

theorem testNull_vacant (hl : loc.index < s.heap.size) (hs : s.heap.slot loc = .vacant) :
    s.testNull structs (.ptr loc) = [(s.emptied loc .null, .ok true), (s, .ok false)] := by
  simp only [testNull_ptr, hs, setNull_eq hl hs]

/-- One of the cases of a test for null has the right answer and follows the run. -/
theorem testNull_covers (hp : s.Plain structs) (ha : s.Agrees structs ν c) (hk : s.heap.Knows v)
    {d : Datum} (hv : ν.Holds v d) :
    (Exec.testNull structs v).Covers s fun s' b =>
      (∃ ν', Follows structs c ν s ν' s') ∧ b = decide (d = .null) := by
  induction hn : s.heap.factCount using Nat.strong_induction_on generalizing s v with
  | _ n ih =>
    subst hn
    rcases v with _ | loc | _
    · obtain rfl : d = .null := hv
      refine .inl ⟨s, true, ?_, ⟨ν, ha.follows hp⟩, rfl⟩
      rw [Exec.testNull, testNull]
      exact mem_singleton_self _
    · obtain rfl : d = .pointer (ν loc) := hv
      obtain ⟨foot, hd⟩ := ha.heap
      cases hs : s.heap.slot loc with
      | vacant =>
        -- Nothing is known of the location, and both answers are among the cases.
        have hcases : s.testNull structs (.ptr loc) = _ := testNull_vacant (hk loc rfl) hs
        rcases hν : ν loc with _ | a
        · refine .inl ⟨s.emptied loc .null, true, ?_, ⟨ν, ?_⟩, rfl⟩
          · rw [Exec.testNull, hcases]
            exact .head _
          · exact ha.follows_emptied hp (Heap.knows_null _) Value.noConfusion (by rw [hν]; rfl)
        · refine .inl ⟨s, false, ?_, ⟨ν, ha.follows hp⟩, rfl⟩
          rw [Exec.testNull, hcases]
          exact .tail _ (.head _)
      | tombstone =>
        obtain ⟨a, hν, -⟩ := hd.freed loc hs
        refine .inl ⟨s, false, ?_, ⟨ν, ha.follows hp⟩, by rw [hν]; rfl⟩
        rw [Exec.testNull, testNull_tombstone hs]
        exact mem_singleton_self _
      | occupied f =>
        rcases f with cell | sum | _
        · obtain ⟨a, r, hν, -⟩ := hd.facts loc _ hs
          refine .inl ⟨s, false, ?_, ⟨ν, ha.follows hp⟩, by rw [hν]; rfl⟩
          rw [Exec.testNull, testNull_cell hs]
          exact mem_singleton_self _
        · obtain ⟨h, hu, -, -, hcases⟩ := hp.summary_cases hs
          have hsum := testNull_summary hp hs hu
          rcases hcases ν c ha with ⟨ho, hν⟩ | ⟨o, ho, hf, hw⟩ | ⟨a, r, ν', hν, -, hf⟩
          · refine .inl ⟨s.emptied loc .null, true, ?_, ⟨ν, ?_⟩, by rw [hν]; rfl⟩
            · rw [Exec.testNull, hsum, ho]
              exact .head _
            · exact ha.follows_emptied hp (Heap.knows_null _) Value.noConfusion (by rw [hν]; rfl)
          · have hknows := hp.closed loc _ hs _ (Fact.mem_values_of_hole ho (.head _))
            have hrest := ih _ (factCount_emptied_lt hs) hf.plain hf.agrees
              (hknows.mono size_emptied.ge) hw rfl
            refine (hrest.of_subset (y := Exec.testNull structs (.ptr loc)) (t := s) ?_).mono ?_
            · rw [Exec.testNull, Exec.testNull, hsum, ho]
              exact fun _ => mem_append_left _
            · rintro s' b ⟨⟨ν', hν'⟩, hb⟩
              exact ⟨⟨ν', hf.trans hν'⟩, hb⟩
          · refine .inl ⟨{ s with heap := h }, false, ?_, ⟨ν', hf⟩, by rw [hν]; rfl⟩
            rw [Exec.testNull, hsum]
            rcases sum.hole with _ | o
            · exact .tail _ (.head _)
            · exact mem_append_right _ (mem_singleton_self _)
        · exact (hp.facts loc _ hs).elim
    · refine .inr ⟨s, ⟨none, .testScalar⟩, ?_⟩
      rw [Exec.testNull, testNull]
      exact mem_singleton_self _

end State

namespace Exec

variable {s : State}

/-! ### Comparisons -/

theorem compare_null_comm (v : Value) : compare structs v .null = compare structs .null v := by
  cases v <;> rfl

/-- A comparison of a pointer with null has a case with the right answer. -/
theorem compare_null_covers {v : Value} {p : Option Addr} (hp : s.Plain structs)
    (ha : s.Agrees structs ν c) (hk : s.heap.Knows v) (hv : ν.Holds v (.pointer p)) :
    (compare structs .null v).Covers s fun s' same =>
      (∃ ν', State.Follows structs c ν s ν' s') ∧ same = decide (p = none) := by
  rcases v with _ | loc | _
  · cases p with
    | some a => cases hv
    | none => exact .pure ⟨⟨ν, ha.follows hp⟩, rfl⟩
  · refine (State.testNull_covers hp ha hk hv).mono fun s' same hs' => ⟨hs'.1, ?_⟩
    rw [hs'.2]
    cases p <;> rfl
  · obtain ⟨n, hn⟩ := hv
    cases p <;> cases hn

/-- A comparison with null has a case with the right answer. -/
theorem compare_covers {a b : Value} {d e : Datum} {t : Bool} (hp : s.Plain structs)
    (ha : s.Agrees structs ν c) (hka : s.heap.Knows a) (hkb : s.heap.Knows b) (had : ν.Holds a d)
    (hbe : ν.Holds b e) (hnull : a = .null ∨ b = .null) (ht : Machine.Compares d e t) :
    (compare structs a b).Covers s fun s' same =>
      (∃ ν', State.Follows structs c ν s ν' s') ∧ same = t := by
  have scalar {n : Int} {v : Value} (hv : ν.Holds v (.scalar n)) : v = .int := by
    cases v with
    | null => cases hv
    | int => rfl
    | ptr loc =>
      have hv : Datum.scalar n = .pointer (ν loc) := hv
      cases hν : ν loc <;> rw [hν] at hv <;> cases hv
  have null {p : Option Addr} (hv : ν.Holds .null (.pointer p)) : p = none := by
    cases p with
    | none => rfl
    | some a => cases hv
  have both : (either (pure true) (pure false)).Covers s fun s' same =>
      (∃ ν', State.Follows structs c ν s ν' s') ∧ same = t := by
    cases t with
    | true => exact .either_left (.pure ⟨⟨ν, ha.follows hp⟩, rfl⟩) _
    | false => exact .either_right (.pure ⟨⟨ν, ha.follows hp⟩, rfl⟩) _
  -- With a scalar both answers are among the cases. With two pointers one side is null, so the
  -- other one is tested.
  cases ht with
  | scalar_left n =>
    obtain rfl := scalar had
    exact both
  | scalar_right d n =>
    obtain rfl := scalar hbe
    cases a <;> exact both
  | pointers p q =>
    rcases hnull with rfl | rfl
    · obtain rfl := null had
      simp only [eq_comm (a := none) (b := q)]
      exact compare_null_covers hp ha hkb hbe
    · obtain rfl := null hbe
      rw [compare_null_comm]
      exact compare_null_covers hp ha hka had

/-! ### Conditions -/

end Exec

/-- Every comparison of a condition has null on one side. -/
def Cond.NullTests : Cond → Prop
  | .unknown _ => True
  | .cmp _ lhs rhs => lhs = .null ∨ rhs = .null
  | .not b => b.NullTests
  | .and b b' | .or b b' => b.NullTests ∧ b'.NullTests

namespace Exec

variable {s : State} {t : Bool}

/-- The outcomes where a condition is assumed answer for how it is decided: they cover the
    case that it comes to, and if it goes wrong there is a defect in both. -/
def Decided (structs : Structs) (ν : Valuation) (c : Machine) (s : State) (cond : Cond) :
    Option Bool → Prop
  | some t => (assume structs cond t).Covers s (Arrives structs ν s c)
  | none => ∀ t, (assume structs cond t).Fails s

theorem Arrives.trans {s₁ s₂ : State} {ν₁ : Valuation} {u u' : Unit}
    (h : State.Follows structs c ν s ν₁ s₁) (h' : Arrives structs ν₁ s₁ c s₂ u) :
    Arrives structs ν s c s₂ u' := by
  obtain ⟨ν₂, hf⟩ := h'
  exact ⟨ν₂, h.trans hf⟩

/-- The value of null is null. -/
theorem eval_answers_null (hp : s.Plain structs) (ha : s.Agrees structs ν c) {x : Expr}
    {r : Option Datum} (hr : c.Evaluates x r) :
    (eval structs x).Answers s
      (fun d s' v => Finds structs c ν s d s' v ∧ (x = .null → v = .null)) r := by
  cases hr with
  | null => exact .pure ⟨⟨ν, ha.follows hp, rfl, Heap.knows_null _⟩, fun _ => rfl⟩
  | path p => exact (read_answers hp ha p).mono fun _ _ _ h => ⟨h, nofun⟩
  | scalar ps n => exact (eval_answers hp ha (.scalar ps n)).mono fun _ _ _ h => ⟨h, nofun⟩

theorem cmp_covers {eq : Bool} {lhs rhs : Expr} {d e : Datum} (hp : s.Plain structs)
    (ha : s.Agrees structs ν c) (hnull : lhs = .null ∨ rhs = .null) (hl : c.Evaluates lhs (some d))
    (hr : c.Evaluates rhs (some e)) (ht : Machine.Compares d e t) :
    (assume structs (.cmp eq lhs rhs) (t == eq)).Covers s (Arrives structs ν s c) := by
  refine Covers.bind (eval_answers_null hp ha hl) fun s₁ a h₁ => ?_
  obtain ⟨⟨ν₁, hf₁, had, hka⟩, ha'⟩ := h₁
  refine Covers.bind (eval_answers_null hf₁.plain hf₁.agrees hr) fun s₂ b h₂ => ?_
  obtain ⟨⟨ν₂, hf₂, hbe, hkb⟩, hb'⟩ := h₂
  refine (compare_covers hf₂.plain hf₂.agrees (hka.mono hf₂.size) hkb (hf₂.holds hka had) hbe
    (hnull.imp ha' hb') ht).bind ?_
  rintro s₃ same ⟨⟨ν₃, hf₃⟩, rfl⟩
  have hsame : same = (eq == (same == eq)) := by cases same <;> cases eq <;> rfl
  rw [if_pos hsame]
  exact .pure ⟨ν₃, (hf₁.trans hf₂).trans hf₃⟩

/-- The second part of a connective goes on where the first one has come to. -/
theorem Decided.seq {b b' : Cond} {r : Option Bool} (h : Decided structs ν c s b (some t))
    (h' : ∀ {s : State} {ν : Valuation}, s.Plain structs → s.Agrees structs ν c →
      Decided structs ν c s b' r) :
    match r with
    | some t' => (assume structs b t >>= fun _ => assume structs b' t').Covers s (Arrives structs ν s c)
    | none => ∀ t', (assume structs b t >>= fun _ => assume structs b' t').Fails s := by
  cases r with
  | none =>
    intro t'
    refine Covers.bind_fails h fun s₁ _ ⟨ν₁, hf₁⟩ => ?_
    exact h' hf₁.plain hf₁.agrees t'
  | some t' =>
    refine Covers.bind h fun s₁ _ ⟨ν₁, hf₁⟩ => ?_
    exact Covers.mono (h' hf₁.plain hf₁.agrees) fun _ _ => Arrives.trans hf₁

section

variable {stop : Bool} {b b' cond : Cond} {r : Option Bool}
  (hcond : ∀ t, assume structs cond t = connect stop (assume structs b) (assume structs b') t)

include hcond

/-- A connective that is decided by its first part takes one branch. -/
theorem Decided.first (h : Decided structs ν c s b r) (hr : r ≠ some (!stop)) :
    Decided structs ν c s cond r := by
  rcases r with _ | t
  · intro t
    rw [hcond, connect]
    split
    · exact Fails.either_left (h stop) _
    · exact Fails.bind (h (!stop))
  · obtain rfl : t = stop := not_not.1 fun ht => hr (congrArg some (Bool.eq_not_of_ne ht))
    show (assume structs cond t).Covers s _
    rw [hcond, connect, if_pos rfl]
    exact Covers.either_left h _

/-- A connective that needs its second part takes the other. -/
theorem Decided.second (h : Decided structs ν c s b (some !stop))
    (h' : ∀ {s : State} {ν : Valuation}, s.Plain structs → s.Agrees structs ν c →
      Decided structs ν c s b' r) : Decided structs ν c s cond r := by
  rcases r with _ | t
  · intro t
    rw [hcond, connect]
    split
    · exact Fails.either_right (h.seq h' stop) _
    · exact h.seq h' (!stop)
  · show (assume structs cond t).Covers s _
    rw [hcond, connect]
    split
    · rename_i ht
      subst ht
      exact Covers.either_right (h.seq h') _
    · rename_i ht
      obtain rfl := Bool.eq_not_of_ne ht
      exact h.seq h'

end

/-- Conditions follow the run, by induction on how they are decided. -/
theorem assume_answers {cond : Cond} {r : Option Bool} (hp : s.Plain structs)
    (ha : s.Agrees structs ν c) (hc : cond.NullTests) (hr : c.Decides cond r) :
    Decided structs ν c s cond r := by
  induction hr generalizing s ν with
  | unknown ps t =>
    have hread := readAll_answers hp ha ps
    cases hps : c.readAll ps with
    | none =>
      rw [hps] at hread
      exact fun _ => hread
    | some u =>
      rw [hps] at hread
      exact hread
  | cmp hl hr ht => exact cmp_covers hp ha hc hl hr ht
  | cmp_left hl => exact fun _ => Fails.bind (eval_answers hp ha hl)
  | cmp_right hl hr =>
    intro t
    refine Covers.bind_fails (eval_answers hp ha hl) fun s₁ a h₁ => ?_
    obtain ⟨ν₁, hf₁, -⟩ := h₁
    exact Fails.bind (eval_answers hf₁.plain hf₁.agrees hr)
  | @not b r h ih =>
    have hb := ih hp ha hc
    cases r with
    | none => exact fun t => hb (!t)
    | some t =>
      show (assume structs b (!!t)).Covers s _
      rw [Bool.not_not]
      exact hb
  | and_first h hr ih => exact .first (assume_and _ _ _) (ih hp ha hc.1) hr
  | and_second h h' ih ih' =>
    exact .second (assume_and _ _ _) (ih hp ha hc.1) fun hp ha => ih' hp ha hc.2
  | or_first h hr ih => exact .first (assume_or _ _ _) (ih hp ha hc.1) hr
  | or_second h h' ih ih' =>
    exact .second (assume_or _ _ _) (ih hp ha hc.1) fun hp ha => ih' hp ha hc.2

/-- Let a plain state describe a machine. If a condition made of tests for null and of tests of
    scalars can come to an outcome on the machine, some case where it is assumed to have this
    outcome describes the machine, or tells that a shape did not fit. If it goes wrong on the
    machine, there is a defect whatever is assumed. Every case is a plain state, or a defect
    of the program. -/
theorem assume_follows_decides {cond : Cond} {r : Option Bool} (hp : s.Plain structs)
    (hd : s.Describes structs c) (hc : cond.NullTests) (hr : c.Decides cond r) :
    (match r with
      | some t => (assume structs cond t).Covers s fun s' _ => s'.Describes structs c
      | none => (assume structs cond true).Fails s ∧ (assume structs cond false).Fails s) ∧
      ∀ t, (assume structs cond t).Ensures s fun s' _ => s'.Plain structs := by
  obtain ⟨ν, ha⟩ := hd
  have hassume (t : Bool) := (Composed.assume (w := .none) (c := cond) (Subset.refl _) t).reaches hp
    (forall_mem_nil _)
  refine ⟨?_, fun t => (hassume t).mono fun _ _ h => h.1.plain⟩
  have hdec := assume_answers hp ha hc hr
  cases r with
  | none => exact ⟨hdec true, hdec false⟩
  | some t => exact Covers.mono hdec fun _ _ h => h.ends

/-- `!(x->next == null) && ?` on a list of two records, of which the first one is folded. -/
theorem assume_follows_successor :
    let cond : Cond := .and (.not (.cmp true (.path ⟨"x", [⟨"next", 0⟩]⟩) .null)) (.unknown [.ofVar "y"])
    Sample.state.Plain Sample.nodes ∧ Sample.state.Describes Sample.nodes Sample.machine ∧
      cond.NullTests ∧ Sample.machine.Decides cond (some true) ∧
      (assume Sample.nodes cond true).Covers Sample.state fun s' _ =>
        s'.Describes Sample.nodes Sample.machine := by
  intro cond
  have hread : Sample.machine.Evaluates (.path ⟨"x", [⟨"next", 0⟩]⟩) (some (.addr 2)) := .path _
  have hcmp : Sample.machine.Decides (.cmp true (.path ⟨"x", [⟨"next", 0⟩]⟩) .null) (some false) :=
    .cmp hread .null (.pointers (some 2) none)
  have hdec : Sample.machine.Decides cond (some true) := .and_second (.not hcmp) (.unknown _ true)
  have hnull : cond.NullTests := ⟨.inr rfl, trivial⟩
  exact ⟨Sample.plain, Sample.describes, hnull, hdec,
    (assume_follows_decides Sample.plain Sample.describes hnull hdec).1⟩

end Exec

end HeapShape
