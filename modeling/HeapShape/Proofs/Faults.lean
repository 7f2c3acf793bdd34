import HeapShape.Exploration
import HeapShape.Proofs.Simulation
import Mathlib.Data.List.Perm.Basic

/-!
# Conditions that go wrong

To assume a condition to be true and to assume it to be false are two evaluations of it, and inside
of a conjunction or a disjunction the first part may be evaluated once more. What goes wrong in one
evaluation shows in all of them.

* `Exec.faults`: what goes wrong in one evaluation of a condition, and how often it shows under
  either assumption. A fault in the first part of a conjunction shows for both truth values of
  that part when the conjunction is assumed to be false, and dually for a disjunction
  (`Fault.repeated`);
* `Exec.defects_assume`: the defects of an assumption are these faults, each as often as it shows;
* `Exec.assume_defects_iff`: so both assumptions have the same defects;
* `Exploration.failing_test_reports`: how many violations a test adds to a report that can only go
  wrong. A branch adds those of both assumptions.
-/

namespace HeapShape

open List

namespace Outcomes

variable {α : Type} {l : Outcomes α}

/-- The outcomes that are defects. -/
def defects (l : Outcomes α) : List (State × Defect) :=
  l.filterMap fun o =>
    match o.2 with
    | .ok _ => none
    | .error d => some (o.1, d)

/-- The outcomes that have a result. -/
def results (l : Outcomes α) : List (State × α) := l.filterMap fun o => o.2.toOption.map (o.1, ·)

@[simp] theorem defects_cons_ok (s : State) (a : α) (l : Outcomes α) :
    defects ((s, .ok a) :: l) = defects l := rfl

@[simp] theorem defects_cons_error (s : State) (d : Defect) (l : Outcomes α) :
    defects ((s, .error d) :: l) = (s, d) :: defects l := rfl

@[simp] theorem results_cons_ok (s : State) (a : α) (l : Outcomes α) :
    results ((s, .ok a) :: l) = (s, a) :: results l := rfl

@[simp] theorem defects_append (l l' : Outcomes α) : defects (l ++ l') = defects l ++ defects l' :=
  filterMap_append

theorem mem_defects {s : State} {d : Defect} : (s, d) ∈ defects l ↔ (s, .error d) ∈ l := by
  induction l with
  | nil => exact ⟨fun h => absurd h not_mem_nil, fun h => absurd h not_mem_nil⟩
  | cons o l ih =>
    obtain ⟨s₁, e | a⟩ := o
    · simp [ih]
    · simp [ih]

/-- Outcomes without a result are defects. -/
theorem length_defects (h : ∀ o ∈ l, ∃ d, o.2 = .error d) : (defects l).length = l.length := by
  induction l with
  | nil => rfl
  | cons o l ih =>
    obtain ⟨s, r⟩ := o
    obtain ⟨d, rfl⟩ := h _ (.head _)
    rw [defects_cons_error, length_cons, length_cons, ih fun o ho => h o (.tail _ ho)]

/-- The defects stay the same if the states are replaced. -/
theorem map_snd_defects (l : Outcomes α) (g : Nat → State → State) :
    (defects (l.mapIdx fun i o => (g i o.1, o.2))).map Prod.snd = (defects l).map Prod.snd := by
  induction l generalizing g with
  | nil => rfl
  | cons o l ih =>
    rw [mapIdx_cons]
    have htail := ih fun i => g (i + 1)
    obtain ⟨s, d | a⟩ := o
    · exact congrArg (d :: ·) htail
    · exact htail

end Outcomes

/-- Something that goes wrong in one evaluation of a condition. -/
structure Fault where
  /-- The state where it goes wrong. -/
  state : State
  /-- What goes wrong. -/
  defect : Defect
  /-- How often it shows when the condition is assumed to have a truth value. -/
  copies : Bool → Nat
  /-- It shows under either assumption. -/
  pos : ∀ truth, 0 < copies truth

namespace Fault

/-- A fault that shows once under either assumption. -/
def once (o : State × Defect) : Fault := ⟨o.1, o.2, fun _ => 1, fun _ => Nat.one_pos⟩

/-- A fault inside of a negation. -/
def negated (f : Fault) : Fault :=
  { f with copies := fun truth => f.copies (!truth), pos := fun truth => f.pos (!truth) }

/-- A fault in the first part of a condition that is decided if the part has the truth value
    `stop`. The part is evaluated for both truth values then. -/
def repeated (stop : Bool) (f : Fault) : Fault :=
  { f with
    copies := fun truth => if truth = stop then f.copies truth + f.copies (!truth) else f.copies truth
    pos := fun truth => by
      have := f.pos truth
      split <;> omega }

/-- The defects that a fault shows as. -/
def shown (truth : Bool) (f : Fault) : List (State × Defect) :=
  List.replicate (f.copies truth) (f.state, f.defect)

theorem mem_shown {truth : Bool} {f : Fault} {o : State × Defect} :
    o ∈ f.shown truth ↔ o = (f.state, f.defect) := by
  rw [shown, mem_replicate]
  exact and_iff_right (Nat.pos_iff_ne_zero.1 (f.pos truth))

@[simp] theorem shown_once (truth : Bool) (o : State × Defect) : (once o).shown truth = [o] := rfl

@[simp] theorem shown_negated (truth : Bool) (f : Fault) : f.negated.shown truth = f.shown (!truth) :=
  rfl

theorem shown_repeated (stop : Bool) (f : Fault) :
    (f.repeated stop).shown stop = f.shown stop ++ f.shown (!stop) := by
  rw [shown, shown, shown, replicate_append_replicate, repeated]
  simp

theorem shown_repeated_not (stop : Bool) (f : Fault) :
    (f.repeated stop).shown (!stop) = f.shown (!stop) := by
  rw [shown, shown, repeated]
  simp

end Fault

namespace Exec

variable {α β : Type} (structs : Structs) {s : State} {c : Cond} {o : State × Defect}

/-! ### One evaluation and its copies -/

theorem defects_bind (x : Exec α) (f : α → Exec β) (s : State) :
    List.Perm (Outcomes.defects ((x >>= f) s))
      (Outcomes.defects (x s) ++ (Outcomes.results (x s)).flatMap fun r => Outcomes.defects (f r.2 r.1)) := by
  rw [bind_apply]
  induction x s with
  | nil => exact .refl _
  | cons o l ih =>
    obtain ⟨s₁, d | a⟩ := o
    · exact ih.cons (s₁, d)
    · rw [flatMap_cons, Outcomes.defects_append, Outcomes.defects_cons_ok, Outcomes.results_cons_ok,
        flatMap_cons]
      exact (ih.append_left _).trans (perm_append_comm_assoc ..)

/-- Whether the sides of a comparison are equal. -/
def sides (lhs rhs : Expr) : Exec Bool := do
  let a ← eval structs lhs
  let b ← eval structs rhs
  compare structs a b

theorem assume_cmp (eq : Bool) (lhs rhs : Expr) (truth : Bool) :
    assume structs (.cmp eq lhs rhs) truth =
      sides structs lhs rhs >>= fun same => if same = (eq == truth) then pure () else impossible := by
  simp only [sides, bind_assoc]
  rfl

/-- What goes wrong in one evaluation of a condition. The second part of a conjunction is evaluated
    where the first one is true, and that of a disjunction where it is false. -/
def faults : Cond → State → List Fault
  | .unknown ps, s => (Outcomes.defects (readAll structs ps s)).map .once
  | .cmp _ lhs rhs, s => (Outcomes.defects (sides structs lhs rhs s)).map .once
  | .not c, s => (faults c s).map .negated
  | .and c d, s => (faults c s).map (.repeated false) ++
      (Outcomes.results (assume structs c true s)).flatMap fun r => faults d r.1
  | .or c d, s => (faults c s).map (.repeated true) ++
      (Outcomes.results (assume structs c false s)).flatMap fun r => faults d r.1

/-- The faults of one evaluation of a condition, as often as they show when it is assumed to have
    a truth value. -/
def shown (c : Cond) (truth : Bool) (s : State) : List (State × Defect) :=
  (faults structs c s).flatMap (Fault.shown truth)

/-- The defects of a condition of two parts, from those of its parts. -/
theorem defects_connect {x y : Bool → Exec Unit} {F : List Fault} {G : State → List Fault}
    (hx : ∀ truth, List.Perm (Outcomes.defects (x truth s)) (F.flatMap (Fault.shown truth)))
    (hy : ∀ truth s', List.Perm (Outcomes.defects (y truth s')) ((G s').flatMap (Fault.shown truth)))
    (stop truth : Bool) : List.Perm (Outcomes.defects (connect stop x y truth s))
      ((F.map (Fault.repeated stop) ++ (Outcomes.results (x (!stop) s)).flatMap fun r => G r.1).flatMap
        (Fault.shown truth)) := by
  -- The second part is evaluated where the first one does not decide the whole.
  have second (t : Bool) : List.Perm (Outcomes.defects ((do x (!stop); y t) s))
      (F.flatMap (Fault.shown (!stop)) ++
        ((Outcomes.results (x (!stop) s)).flatMap fun r => G r.1).flatMap (Fault.shown t)) := by
    rw [flatMap_assoc]
    refine (defects_bind _ _ s).trans ((hx (!stop)).append (.flatMap_left _ fun r _ => ?_))
    exact hy t r.1
  rw [flatMap_append, flatMap_map, connect]
  by_cases ht : truth = stop
  · -- Here the first part is evaluated twice.
    subst ht
    rw [if_pos rfl]
    simp only [Fault.shown_repeated]
    have hfirst := flatMap_append_perm F (Fault.shown truth) (Fault.shown (!truth))
    have hboth := (hx truth).append (second truth)
    rw [← append_assoc] at hboth
    rw [either, Outcomes.defects_append]
    exact hboth.trans (hfirst.append_right _)
  · obtain rfl : truth = !stop := Bool.eq_not_of_ne ht
    rw [if_neg ht]
    simp only [Fault.shown_repeated_not]
    exact second (!stop)

/-- The defects that come up when a condition is assumed to have a truth value are the faults of
    one evaluation, each as often as it shows. -/
theorem defects_assume (c : Cond) (truth : Bool) (s : State) :
    List.Perm (Outcomes.defects (assume structs c truth s)) (shown structs c truth s) := by
  induction c generalizing truth s with
  | unknown ps =>
    rw [shown, faults, flatMap_map]
    simp only [Fault.shown_once, flatMap_singleton', assume]
    exact .refl _
  | cmp eq lhs rhs =>
    rw [shown, faults, flatMap_map, assume_cmp]
    simp only [Fault.shown_once, flatMap_singleton']
    -- An answer that does not fit is no defect.
    have hnone : (Outcomes.results (sides structs lhs rhs s)).flatMap (fun r => Outcomes.defects
        ((if r.2 = (eq == truth) then pure () else impossible : Exec Unit) r.1)) = [] := by
      refine flatMap_eq_nil_iff.2 fun r _ => ?_
      split <;> rfl
    have hbind := defects_bind (sides structs lhs rhs)
      (fun same => if same = (eq == truth) then pure () else impossible) s
    rwa [hnone, append_nil] at hbind
  | not c ih =>
    rw [shown, faults, flatMap_map]
    simp only [Fault.shown_negated]
    exact ih (!truth) s
  | and c d ihc ihd =>
    rw [assume_and]
    exact defects_connect (ihc · s) ihd false truth
  | or c d ihc ihd =>
    rw [assume_or]
    exact defects_connect (ihc · s) ihd true truth

variable {structs}

theorem mem_shown {truth : Bool} :
    o ∈ shown structs c truth s ↔ ∃ f ∈ faults structs c s, o = (f.state, f.defect) := by
  rw [shown, mem_flatMap]
  exact exists_congr fun f => and_congr_right fun _ => Fault.mem_shown

/-- A defect comes up under an assumption exactly if one evaluation goes wrong with it. -/
theorem mem_defects_assume {truth : Bool} : o ∈ Outcomes.defects (assume structs c truth s) ↔
      ∃ f ∈ faults structs c s, o = (f.state, f.defect) :=
  (defects_assume structs c truth s).mem_iff.trans mem_shown

/-- An assertion of a condition without unknown parts has the defects of the condition and one for
    each case where it is false. -/
theorem mem_defects_assert (hc : c.hasUnknown = false) : o ∈ Outcomes.defects (assert structs c s) ↔
      (∃ truth, o ∈ Outcomes.defects (assume structs c truth s)) ∨
        (o.2 = .assertion c ∧ (o.1, .ok ()) ∈ assume structs c false s) := by
  obtain ⟨s', d⟩ := o
  have hsides {t t' : Bool} : (s', d) ∈ Outcomes.defects (assume structs c t s) →
      (s', d) ∈ Outcomes.defects (assume structs c t' s) := fun h =>
    mem_defects_assume.2 (mem_defects_assume.1 h)
  rw [assert, hc, if_neg Bool.false_ne_true, either, Outcomes.defects_append, mem_append]
  constructor
  · rintro (h | h)
    · exact .inl ⟨true, h⟩
    · obtain ⟨⟨s₁, r⟩, hr, hd⟩ := mem_filterMap.1 (Outcomes.mem_defects.1 h)
      rcases r with e | a
      · rcases e with _ | _ | _ | _ | _ | _ | _ | m
        case misuse =>
          cases hd
          exact .inl ⟨false, Outcomes.mem_defects.2 hr⟩
        all_goals cases hd
      · cases hd
        exact .inr ⟨rfl, hr⟩
  · rintro (⟨truth, h⟩ | ⟨rfl, h⟩)
    · exact .inl (hsides h)
    · exact .inr (Outcomes.mem_defects.2 (mem_filterMap.2 ⟨_, h, rfl⟩))

/-- Both assumptions of a condition go wrong in the same ways. So an assertion of a condition without
    unknown parts, which keeps the defects of one assumption, leaves out none: its defects are those
    of both, and one for each case where the condition is false. -/
theorem assume_defects_iff (structs : Structs) (c : Cond) (s : State) :
    (∀ o, o ∈ Outcomes.defects (assume structs c true s) ↔
      o ∈ Outcomes.defects (assume structs c false s)) ∧
    (c.hasUnknown = false → ∀ o, o ∈ Outcomes.defects (assert structs c s) ↔
      (∃ truth, o ∈ Outcomes.defects (assume structs c truth s)) ∨
        (o.2 = .assertion c ∧ (o.1, .ok ()) ∈ assume structs c false s)) :=
  ⟨fun _ => mem_defects_assume.trans mem_defects_assume.symm, fun hc _ => mem_defects_assert hc⟩

/-! ### Tests that can only go wrong -/

/-- In a state, a test of a condition can only go wrong, and in one way. -/
structure OnlyFails (structs : Structs) (c : Cond) (s s' : State) (d : Defect) : Prop where
  outcomes : ∀ truth, ∀ o ∈ assume structs c truth s, o = (s', .error d)
  nonempty : ∃ truth, assume structs c truth s ≠ []
  sound : ∀ m, d ≠ .misuse m

namespace OnlyFails

variable {c : Cond} {s s' : State} {d : Defect}

variable (h : OnlyFails structs c s s' d)
include h

theorem error_of_mem {truth : Bool} {o : State × Except Defect Unit}
    (ho : o ∈ assume structs c truth s) : o.2 = .error d := by
  rw [h.outcomes truth o ho]

/-- What comes after the test is not reached. -/
theorem bind (truth : Bool) (g : Unit → Exec β) :
    (∀ o ∈ (assume structs c truth >>= g) s, o.2 = .error d) ∧
      ((assume structs c truth >>= g) s).length = (shown structs c truth s).length := by
  have hresults : Outcomes.results (assume structs c truth s) = [] := by
    refine filterMap_eq_nil_iff.2 fun o ho => ?_
    rw [h.error_of_mem ho]
    rfl
  have herror : ∀ o ∈ (assume structs c truth >>= g) s, o.2 = .error d := by
    rintro ⟨s₁, r⟩ ho
    rcases mem_bind.1 ho with ⟨s₂, a, ha, -⟩ | ⟨d', hd', rfl⟩
    · cases h.error_of_mem ha
    · cases h.error_of_mem hd'
      rfl
  have hbind := (defects_bind (assume structs c truth) g s).length_eq
  rw [hresults, flatMap_nil, append_nil, (defects_assume structs c truth s).length_eq,
    Outcomes.length_defects fun o ho => ⟨d, herror o ho⟩] at hbind
  exact ⟨herror, hbind⟩

/-- What goes wrong shows under either assumption. -/
theorem shown_pos (truth : Bool) : 0 < (shown structs c truth s).length := by
  obtain ⟨t, ht⟩ := h.nonempty
  obtain ⟨o, ho⟩ := exists_mem_of_ne_nil _ ht
  have hmem : (s', d) ∈ Outcomes.defects (assume structs c t s) :=
    Outcomes.mem_defects.2 (h.outcomes t o ho ▸ ho)
  exact length_pos_of_mem (mem_shown.2 (mem_defects_assume.1 hmem))

/-- No case makes an assertion of the condition fail. -/
theorem refute_eq_nil : refute c (assume structs c false) s = [] := by
  refine filterMap_eq_nil_iff.2 fun o ho => ?_
  rw [h.outcomes false o ho]
  rcases d with _ | _ | _ | _ | _ | _ | _ | m
  case misuse => exact absurd rfl (h.sound m)
  all_goals rfl

end OnlyFails

end Exec

namespace Exploration

variable {α : Type} {task : Task} {e e' e₁ : Exploration} {f : Frame} {span : Span} {vs : List Violation}
  {go : Exploration → State → α → Except Misuse Exploration} {d : Defect} {l : Outcomes α}

/-- Violations are told, each of a path that failed. -/
structure Reports (e : Exploration) (vs : List Violation) (e' : Exploration) : Prop where
  violations : e'.report.violations.toList = e.report.violations.toList ++ vs
  failed : e'.report.stats.failed = e.report.stats.failed + vs.length

/-- The same defect at the same place is told of a number of paths. -/
def Repeats (e : Exploration) (n : Nat) (span : Span) (d : Defect) (e' : Exploration) : Prop :=
  ∃ vs, e.Reports vs e' ∧ vs.length = n ∧ ∀ v ∈ vs, v.span = span ∧ v.defect = d

/-- What is told of a defect at a place. -/
def violation (span : Span) (o : State × Defect) : Violation := ⟨o.1.path, span, o.2⟩

theorem Reports.of_report (h : e.Reports vs e') (hr : e₁.report = e.report) : e₁.Reports vs e' :=
  ⟨by rw [hr, h.violations], by rw [hr, h.failed]⟩

theorem Reports.of_fail {s : State} (h : (e.fail s span d).Reports vs e') :
    e.Reports (violation span (s, d) :: vs) e' where
  violations := by
    rw [h.violations, fail, Array.toList_push, append_assoc]
    rfl
  failed := by
    rw [h.failed, length_cons, Nat.add_comm vs.length, ← Nat.add_assoc]
    rfl

theorem settle_error {s : State} (hd : ∀ m, d ≠ .misuse m) (l : Outcomes α) :
    settle span go e ((s, .error d) :: l) = settle span go (e.fail s span d) l := by
  rcases d with _ | _ | _ | _ | _ | _ | _ | m
  case misuse => exact absurd rfl (hd m)
  all_goals rfl

/-- All defects of the outcomes that are settled are told, and nothing else is, if going on tells
    nothing. -/
theorem settle_reports (hgo : ∀ e s a e', go e s a = .ok e' → e'.report = e.report)
    (h : settle span go e l = .ok e') : e.Reports ((Outcomes.defects l).map (violation span)) e' := by
  induction l generalizing e with
  | nil =>
    cases h
    exact ⟨(append_nil _).symm, rfl⟩
  | cons o l ih =>
    obtain ⟨s, d | a⟩ := o
    · by_cases hd : ∃ m, d = .misuse m
      · obtain ⟨m, rfl⟩ := hd
        cases h
      · rw [settle_error fun m hm => hd ⟨m, hm⟩] at h
        exact (ih h).of_fail
    · obtain ⟨e₁, hgo₁, h⟩ := ok_of_bind h
      exact (ih h).of_report (hgo e s a e₁ hgo₁).symm

/-- Outcomes that are defects are told, whatever going on would do. -/
theorem settle_defects (hd : ∀ m, d ≠ .misuse m) (hl : ∀ o ∈ l, o.2 = .error d) :
    ∃ e', settle span go e l = .ok e' ∧ e.Reports ((Outcomes.defects l).map (violation span)) e' := by
  induction l generalizing e with
  | nil => exact ⟨e, rfl, (append_nil _).symm, rfl⟩
  | cons o l ih =>
    obtain ⟨s, r⟩ := o
    obtain rfl : r = .error d := hl _ (.head _)
    obtain ⟨e', he', hr⟩ := ih fun o ho => hl o (.tail _ ho)
    exact ⟨e', (settle_error hd l).trans he', hr.of_fail⟩

/-- Numbering changes nothing but states. -/
theorem relabel_eq (e : Exploration) (l : Outcomes α) :
    (e.relabel l).1 =
      l.mapIdx fun i o => (if i = 0 then o.1 else { o.1 with path := e.nextPath + (i - 1) }, o.2) := rfl

/-- Outcomes that are all the same defect are told one by one. -/
theorem settle_relabel_defects (hd : ∀ m, d ≠ .misuse m) (hl : ∀ o ∈ l, o.2 = .error d) :
    ∃ e', settle span go (e.relabel l).2 (e.relabel l).1 = .ok e' ∧ e.Repeats l.length span d e' := by
  have hrelabel : ∀ o ∈ (e.relabel l).1, o.2 = .error d := by
    intro o ho
    obtain ⟨i, hi, rfl⟩ := mem_mapIdx.1 (relabel_eq e l ▸ ho)
    exact hl l[i] (getElem_mem hi)
  have hsettle : ∃ e', settle span go (e.relabel l).2 (e.relabel l).1 = .ok e' ∧
      (e.relabel l).2.Reports _ e' := settle_defects hd hrelabel
  obtain ⟨e', he', hr⟩ := hsettle
  refine ⟨e', he', _, hr.of_report rfl, ?_, fun v hv => ?_⟩
  · rw [length_map, Outcomes.length_defects fun o ho => ⟨d, hrelabel o ho⟩, relabel_eq,
      length_mapIdx]
  · obtain ⟨⟨s, d'⟩, ho, rfl⟩ := mem_map.1 hv
    exact ⟨rfl, Except.error.inj (hrelabel _ (Outcomes.mem_defects.1 ho))⟩

theorem advance_assert (c : Cond) : e.advance task f span (.assert c) =
    settle span (fun e s _ => .ok (e.push { f with index := f.index + 1, state := s }))
      (e.relabel (Exec.assert task.structs c f.state)).2
      (e.relabel (Exec.assert task.structs c f.state)).1 := rfl

/-- How often a test is told that can only go wrong in one way. A branch tells it for both
    assumptions, so at least twice, and an assertion of a condition without unknown parts for one of
    them. An assertion of a condition with unknown parts tells what goes wrong in its reads
    instead. -/
theorem failing_test_reports (task : Task) (f : Frame) (e : Exploration) {c : Cond} {s' : State} {d : Defect}
    (h : Exec.OnlyFails task.structs c f.state s' d) (span : Span) (thenTarget elseTarget : BlockId) :
    let copies truth := (Exec.shown task.structs c truth f.state).length
    (∀ truth, 0 < copies truth) ∧
      (∃ e', e.leave task f (.branch span c thenTarget elseTarget) = .ok e' ∧
        e.Repeats (copies true + copies false) span d e') ∧
      (c.hasUnknown = false → ∃ e', e.advance task f span (.assert c) = .ok e' ∧
        e.Repeats (copies true) span d e') ∧
      (c.hasUnknown = true → ∀ e', e.advance task f span (.assert c) = .ok e' →
        ∃ vs, e.Reports vs e' ∧ (∀ v ∈ vs, v.span = span) ∧ vs.map Violation.defect =
          (Outcomes.defects (Exec.readAll task.structs c.paths f.state)).map Prod.snd) := by
  intro copies
  refine ⟨h.shown_pos, ?_, fun hc => ?_, fun hc e' he' => ?_⟩
  · obtain ⟨hthen, hthenLength⟩ := h.bind true fun _ => pure thenTarget
    obtain ⟨helse, helseLength⟩ := h.bind false fun _ => pure elseTarget
    have herror : ∀ o ∈ branch task.structs c thenTarget elseTarget f.state, o.2 = .error d :=
      fun o ho => (mem_append.1 ho).elim (hthen o) (helse o)
    have hlength : (branch task.structs c thenTarget elseTarget f.state).length =
        copies true + copies false := by
      rw [branch, Exec.either, length_append, hthenLength, helseLength]
    rw [← hlength]
    exact settle_relabel_defects h.sound herror
  · have hassert : Exec.assert task.structs c f.state = Exec.assume task.structs c true f.state := by
      rw [Exec.assert, hc, if_neg Bool.false_ne_true, Exec.either, h.refute_eq_nil, append_nil]
    have hlength : (Exec.assume task.structs c true f.state).length = copies true := by
      rw [← bind_pure (Exec.assume task.structs c true)]
      exact (h.bind true pure).2
    rw [advance_assert, hassert, ← hlength]
    exact settle_relabel_defects h.sound fun o => h.error_of_mem
  · have hassert : Exec.assert task.structs c = Exec.readAll task.structs c.paths := if_pos hc
    rw [advance_assert, hassert] at he'
    have hgo : ∀ (e : Exploration) (s : State) (_ : Unit) (e' : Exploration),
        (.ok (e.push { f with index := f.index + 1, state := s }) : Except Misuse Exploration) = .ok e' →
          e'.report = e.report := by
      intro e s _ e' he
      cases he
      rfl
    refine ⟨_, (settle_reports hgo he').of_report rfl, fun v hv => ?_, ?_⟩
    · obtain ⟨o, -, rfl⟩ := mem_map.1 hv
      rfl
    · rw [map_map]
      exact Outcomes.map_snd_defects _ fun i s =>
        if i = 0 then s else { s with path := e.nextPath + (i - 1) }

end Exploration

/-! ### A field of null -/

namespace Sample

/-- Nothing but a pointer `x`, which is null. -/
def unset : State := ⟨0, .empty, ⟨[("x", ⟨.ptr ⟨0⟩, .null⟩)]⟩⟩

/-- Whether `x->next` is null. -/
def beyond : Cond := .isNull ⟨"x", [⟨"next", 0⟩]⟩

/-- Whether `x->next` or `x` is null. -/
def beyondFirst : Cond := .or beyond (.isNull (.ofVar "x"))

/-- The condition goes wrong whatever is assumed. -/
theorem onlyFails_of_replicate {c : Cond} {n : Bool → Nat} (hn : ∃ truth, n truth ≠ 0)
    (h : ∀ truth, Exec.assume nodes c truth unset = List.replicate (n truth) (unset, .error .nullDeref)) :
    Exec.OnlyFails nodes c unset unset .nullDeref where
  outcomes truth o ho := by
    rw [h] at ho
    exact eq_of_mem_replicate ho
  nonempty := by
    obtain ⟨truth, ht⟩ := hn
    refine ⟨truth, ?_⟩
    rw [h, Ne, replicate_eq_nil_iff]
    exact ht
  sound _ h := Defect.noConfusion h

theorem beyond_onlyFails : Exec.OnlyFails nodes beyond unset unset .nullDeref := by
  refine onlyFails_of_replicate (n := fun _ => 1) ⟨true, Nat.one_ne_zero⟩ fun truth => ?_
  decide +revert +kernel

theorem beyondFirst_onlyFails : Exec.OnlyFails nodes beyondFirst unset unset .nullDeref := by
  refine onlyFails_of_replicate (n := fun truth => if truth then 2 else 1) ⟨true, by decide⟩ fun truth => ?_
  decide +revert +kernel

end Sample

/-- The field of null goes wrong under either assumption, and in an assertion. -/
theorem Exec.assume_defects_beyondFirst :
    Sample.beyondFirst.hasUnknown = false ∧
      (Sample.unset, .nullDeref) ∈
        Outcomes.defects (Exec.assume Sample.nodes Sample.beyondFirst false Sample.unset) ∧
      (Sample.unset, .nullDeref) ∈
        Outcomes.defects (Exec.assume Sample.nodes Sample.beyondFirst true Sample.unset) ∧
      (Sample.unset, .nullDeref) ∈ Outcomes.defects (Exec.assert Sample.nodes Sample.beyondFirst Sample.unset) := by
  obtain ⟨hsides, hassert⟩ := Exec.assume_defects_iff Sample.nodes Sample.beyondFirst Sample.unset
  have hfalse : (Sample.unset, .nullDeref) ∈
      Outcomes.defects (Exec.assume Sample.nodes Sample.beyondFirst false Sample.unset) := by
    decide +kernel
  exact ⟨rfl, hfalse, (hsides _).2 hfalse, (hassert rfl _).2 (.inl ⟨false, hfalse⟩)⟩

namespace Exploration

/-- A branch on `x->next == null || x == null` with `x` null tells three violations, and an
    assertion of it two. -/
theorem failing_test_reports_beyondFirst :
    let task : Task := ⟨Sample.nodes, default, .standard⟩
    let f : Frame := ⟨0, 0, Sample.unset, []⟩
    Exec.OnlyFails Sample.nodes Sample.beyondFirst Sample.unset Sample.unset .nullDeref ∧
      (∃ e', start.leave task f (.branch Span.none Sample.beyondFirst 1 2) = .ok e' ∧
        start.Repeats 3 Span.none .nullDeref e') ∧
      ∃ e', start.advance task f Span.none (.assert Sample.beyondFirst) = .ok e' ∧
        start.Repeats 2 Span.none .nullDeref e' := by
  intro task f
  obtain ⟨-, hbranch, hassert, -⟩ :=
    failing_test_reports task f start Sample.beyondFirst_onlyFails Span.none 1 2
  have htrue : (Exec.shown Sample.nodes Sample.beyondFirst true Sample.unset).length = 2 := by
    decide +kernel
  have hfalse : (Exec.shown Sample.nodes Sample.beyondFirst false Sample.unset).length = 1 := by
    decide +kernel
  refine ⟨Sample.beyondFirst_onlyFails, ?_, ?_⟩
  · obtain ⟨e', he', hr⟩ := hbranch
    have hcopies : (Exec.shown Sample.nodes Sample.beyondFirst true Sample.unset).length +
        (Exec.shown Sample.nodes Sample.beyondFirst false Sample.unset).length = 3 := by
      rw [htrue, hfalse]
    exact ⟨e', he', hcopies ▸ hr⟩
  · obtain ⟨e', he', hr⟩ := hassert rfl
    exact ⟨e', he', htrue ▸ hr⟩

theorem Repeats.size_eq {e e' : Exploration} {n : Nat} {span : Span} {d : Defect}
    (h : e.Repeats n span d e') : e'.report.violations.size = e.report.violations.size + n := by
  obtain ⟨vs, hr, rfl, -⟩ := h
  rw [← Array.length_toList, ← Array.length_toList, hr.violations, length_append]

/-- With `x` null, a branch on `x->next == null` is not told once, nor is an assertion of
    `x->next == null || x == null`. -/
theorem failing_test_told_twice :
    let task : Task := ⟨Sample.nodes, default, .standard⟩
    let f : Frame := ⟨0, 0, Sample.unset, []⟩
    (Exec.OnlyFails Sample.nodes Sample.beyond Sample.unset Sample.unset .nullDeref ∧
      ¬ ∃ e', start.leave task f (.branch Span.none Sample.beyond 1 2) = .ok e' ∧
        start.Repeats 1 Span.none .nullDeref e') ∧
      Exec.OnlyFails Sample.nodes Sample.beyondFirst Sample.unset Sample.unset .nullDeref ∧
        ¬ ∃ e', start.advance task f Span.none (.assert Sample.beyondFirst) = .ok e' ∧
          start.Repeats 1 Span.none .nullDeref e' := by
  intro task f
  have hbranch : (start.leave task f (.branch Span.none Sample.beyond 1 2)).toOption.map
      (·.report.violations.size) = some 2 := by decide +kernel
  have hassert : (start.advance task f Span.none (.assert Sample.beyondFirst)).toOption.map
      (·.report.violations.size) = some 2 := by decide +kernel
  refine ⟨⟨Sample.beyond_onlyFails, ?_⟩, Sample.beyondFirst_onlyFails, ?_⟩
  · rintro ⟨e', he', hr⟩
    rw [he'] at hbranch
    exact absurd (hr.size_eq.symm.trans (Option.some.inj hbranch)) (by decide)
  · rintro ⟨e', he', hr⟩
    rw [he'] at hassert
    exact absurd (hr.size_eq.symm.trans (Option.some.inj hassert)) (by decide)

end Exploration

end HeapShape
