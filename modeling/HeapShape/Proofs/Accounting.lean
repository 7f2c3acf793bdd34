import HeapShape.Proofs.Exhaustion

/-!
# The account of the paths

A path ends in one of five ways. It comes to the end of the program, to a known shape or to too
many shapes, it has a defect, or no outcome of its work is possible. The first four are counted in
the report, and every number that was given to a path is accounted for: its path waits, or it ended
once.

How a path ended can be seen from the counts before and after its outcome is settled. The history
of an exploration (`Exploration.history`) collects this for all outcomes of all steps.

* `Exploration.Ledger`: the account at any time, also between two outcomes of one step;
* `Exploration.Ledger.settle_one`, `Exploration.Ledger.relabel`: what settling an outcome and
  numbering the outcomes do to it;
* `Exploration.Ledger.step`, `Exploration.Ledger.run`: the account after a step and after a run;
* `Program.paths_accounted`: the account is exact.
-/

namespace HeapShape

open List

/-- How a path ends that is counted. -/
inductive Ending where
  /-- At the end of the program. -/
  | completed
  /-- At a known shape. -/
  | merged
  /-- With a defect. -/
  | failed
  deriving DecidableEq

namespace Exploration

/-! ### The history of an exploration -/

/-- The way in which a path ended between two points of an exploration, as the counts tell. -/
def ending? (e e' : Exploration) : Option Ending :=
  if e.report.stats.completed < e'.report.stats.completed then some .completed
  else if e.report.stats.merged < e'.report.stats.merged then some .merged
  else if e.report.stats.failed < e'.report.stats.failed then some .failed
  else none

/-- The paths that end while outcomes are settled, and how. -/
def endingsOf {α : Type} (span : Span) (go : Exploration → State → α → Except Misuse Exploration) :
    Exploration → Outcomes α → List (PathId × Ending)
  | _, [] => []
  | e, o :: l =>
    match settle span go e [o] with
    | .ok e' => ((ending? e e').map fun k => (o.1.path, k)).toList ++ endingsOf span go e' l
    | .error _ => []

/-- The path of the next step, what there is without it, and the work on it. -/
def due? (e : Exploration) (task : Task) : Option (Frame × Exploration × Work) := do
  let taken ← e.waiting.pop?
  let work ← taken.1.work? task
  return (taken.1, ({ e with waiting := taken.2 } : Exploration).tell work.verdict, work)

/-- The paths that end in the next step, and how. -/
def endings (task : Task) (e : Exploration) : List (PathId × Ending) :=
  match e.due? task with
  | some (f, told, work) =>
    endingsOf work.span (follow task f) (told.relabel work.outcomes).2 (told.relabel work.outcomes).1
  | none => []

/-- Whether the next step has no outcome at all. -/
def isInfeasible (task : Task) (e : Exploration) : Bool :=
  match e.due? task with
  | some (_, _, work) => work.outcomes.isEmpty
  | none => false

/-- The explorations at the start of each of the given number of steps. -/
def trail (task : Task) : Nat → Exploration → List Exploration
  | 0, _ => []
  | n + 1, e =>
    match e.step task with
    | .ok (some e') => e :: trail task n e'
    | _ => []

/-- The paths that end in the given number of steps, and how. -/
def history (task : Task) (n : Nat) (e : Exploration) : List (PathId × Ending) :=
  (trail task n e).flatMap (endings task)

/-- How many of the given number of steps have no outcome at all. -/
def infeasible (task : Task) (n : Nat) (e : Exploration) : Nat := (trail task n e).countP (isInfeasible task)

/-- The numbers of the paths that wait. -/
def numbers (e : Exploration) : List PathId := e.waiting.toList.map (·.state.path)

/-- The numbers of the paths that ended in one way. -/
def endedBy (k : Ending) (ended : List (PathId × Ending)) : List PathId :=
  (ended.filter (·.2 = k)).map Prod.fst

@[simp] theorem endedBy_append (k : Ending) (l l' : List (PathId × Ending)) :
    endedBy k (l ++ l') = endedBy k l ++ endedBy k l' := by
  rw [endedBy, filter_append, map_append]
  rfl

theorem endedBy_singleton (k k' : Ending) (n : PathId) :
    endedBy k [(n, k')] = if k' = k then [n] else [] := by
  rw [endedBy, filter_singleton]
  split <;> simp_all

/-- A path that ended did so in one of three ways. -/
theorem length_endedBy (ended : List (PathId × Ending)) :
    (endedBy .completed ended).length + (endedBy .merged ended).length + (endedBy .failed ended).length =
      ended.length := by
  induction ended with
  | nil => rfl
  | cons p ended ih =>
    obtain ⟨n, k⟩ := p
    rw [show (n, k) :: ended = [(n, k)] ++ ended from rfl]
    simp only [endedBy_append, endedBy_singleton, length_append]
    rcases k with _ | _ | _ <;> simp <;> omega

/-! ### The account -/

/-- The account of an exploration: the numbers that were given out are those of paths that wait, of
    outcomes that are not settled yet, and of paths that ended, each of them once, and one number
    for each step without an outcome. -/
structure Ledger (e : Exploration) (pending : List PathId) (ended : List (PathId × Ending))
    (idle : Nat) : Prop where
  nodup : (e.numbers ++ pending ++ ended.map Prod.fst).Nodup
  below : ∀ n ∈ e.numbers ++ pending ++ ended.map Prod.fst, n < e.nextPath
  total : (e.numbers ++ pending ++ ended.map Prod.fst).length + idle = e.nextPath
  completed : (endedBy .completed ended).length = e.report.stats.completed
  merged : (endedBy .merged ended).length = e.report.stats.merged
  failed : endedBy .failed ended = e.report.violations.toList.map Violation.path
  violations : e.report.violations.size = e.report.stats.failed

/-- What becomes of an outcome on a path: it waits, or the path ends. -/
inductive Disposes (path : PathId) (e e' : Exploration) : Option Ending → Prop
  | waits (hw : e'.numbers = e.numbers ++ [path]) (hn : e'.nextPath = e.nextPath)
      (hs : e'.report = e.report) : Disposes path e e' none
  | completes (hw : e'.waiting = e.waiting) (hn : e'.nextPath = e.nextPath)
      (hs : e'.report.stats = { e.report.stats with completed := e.report.stats.completed + 1 })
      (hv : e'.report.violations = e.report.violations) : Disposes path e e' (some .completed)
  | merges (hw : e'.waiting = e.waiting) (hn : e'.nextPath = e.nextPath)
      (hs : e'.report.stats = { e.report.stats with merged := e.report.stats.merged + 1 })
      (hv : e'.report.violations = e.report.violations) : Disposes path e e' (some .merged)
  | fails {span : Span} {d : Defect} (hw : e'.waiting = e.waiting) (hn : e'.nextPath = e.nextPath)
      (hs : e'.report.stats = { e.report.stats with failed := e.report.stats.failed + 1 })
      (hv : e'.report.violations = e.report.violations.push ⟨path, span, d⟩) :
      Disposes path e e' (some .failed)

variable {task : Task} {e e' : Exploration} {f : Frame} {s : State} {span : Span} {path : PathId}
  {pending : List PathId} {ended : List (PathId × Ending)} {idle : Nat} {k : Option Ending}

theorem Disposes.push (e : Exploration) (f : Frame) : Disposes f.state.path e (e.push f) none := by
  refine .waits ?_ rfl rfl
  rw [numbers, Exploration.push, Queue.toList_push, map_append]
  rfl

theorem Disposes.fail (e : Exploration) (s : State) (span : Span) (d : Defect) :
    Disposes s.path e (e.fail s span d) (some .failed) :=
  .fails rfl rfl rfl rfl

theorem Disposes.complete (e : Exploration) (task : Task) (s : State) :
    Disposes s.path e (e.complete task s) (some .completed) :=
  .completes rfl rfl rfl rfl

/-- The counts tell what became of an outcome. -/
theorem Disposes.ending? (h : Disposes path e e' k) : ending? e e' = k := by
  rcases h with ⟨-, -, hs⟩ | ⟨-, -, hs, -⟩ | ⟨-, -, hs, -⟩ | ⟨-, -, hs, -⟩
  all_goals simp [Exploration.ending?, hs]

theorem disposes_enter {recorded : List BlockId} {target : BlockId}
    (h : e.enter task recorded target s = .ok e') : ∃ k, Disposes s.path e e' k := by
  rw [enter] at h
  split at h
  · obtain ⟨heap, -, h⟩ := ok_of_bind h
    obtain rfl := Except.ok.inj h
    rw [arrive]
    split
    · exact ⟨_, .merges rfl rfl rfl rfl⟩
    · split
      · exact ⟨_, .fail e { s with heap } _ _⟩
      · obtain ⟨hw, hn, hs⟩ := Disposes.push
          ({ e with seen := (target, ({ s with heap } : State).shape) :: e.seen } : Exploration)
          ⟨target, 0, { s with heap }, target :: recorded⟩
        exact ⟨_, .waits hw hn hs⟩
  · obtain rfl := Except.ok.inj h
    exact ⟨_, .push e ⟨target, 0, s, recorded⟩⟩

/-- An outcome waits, or its path ends. -/
theorem disposes_settle {r : Except Defect Move}
    (h : settle span (follow task f) e [(s, r)] = .ok e') : ∃ k, Disposes s.path e e' k := by
  rcases r with d | move
  · have hfail : Disposes s.path e (e.fail s span d) (some .failed) := .fail e s span d
    rcases d with _ | _ | _ | _ | _ | _ | _ | m
    case misuse => cases h
    all_goals
      obtain rfl := Except.ok.inj h
      exact ⟨_, hfail⟩
  · obtain ⟨e₁, hgo, h⟩ := ok_of_bind h
    obtain rfl := Except.ok.inj h
    rcases move with _ | target | _
    · obtain rfl := Except.ok.inj hgo
      exact ⟨_, .push e { f with index := f.index + 1, state := s }⟩
    · exact disposes_enter hgo
    · obtain rfl := Except.ok.inj hgo
      exact ⟨_, .complete e task s⟩

namespace Ledger

theorem start : Ledger start [] [] 0 :=
  ⟨nodup_singleton 0, forall_mem_singleton.2 Nat.zero_lt_one, rfl, rfl, rfl, rfl, rfl⟩

/-- Numbers may be moved between the parts of the account. -/
theorem of_perm {pending' : List PathId} {ended' : List (PathId × Ending)} (h : Ledger e pending ended idle)
    (e' : Exploration) (hn : e'.nextPath = e.nextPath)
    (hperm : List.Perm (e.numbers ++ pending ++ ended.map Prod.fst)
      (e'.numbers ++ pending' ++ ended'.map Prod.fst)) :
    (e'.numbers ++ pending' ++ ended'.map Prod.fst).Nodup ∧
      (∀ n ∈ e'.numbers ++ pending' ++ ended'.map Prod.fst, n < e'.nextPath) ∧
      (e'.numbers ++ pending' ++ ended'.map Prod.fst).length + idle = e'.nextPath := by
  rw [hn, ← hperm.length_eq]
  exact ⟨hperm.nodup_iff.1 h.nodup, fun n hmem => h.below n (hperm.mem_iff.2 hmem), h.total⟩

/-- A path that does not wait any more has to be settled. -/
theorem pop {waiting : Queue Frame} (h : Ledger e [] ended idle) (hpop : e.waiting.pop? = some (f, waiting)) :
    Ledger { e with waiting } [f.state.path] ended idle := by
  have hnumbers : e.numbers = f.state.path :: ({ e with waiting } : Exploration).numbers :=
    congrArg (List.map _) (Queue.toList_of_pop? hpop)
  have hperm : List.Perm (e.numbers ++ [] ++ ended.map Prod.fst)
      (({ e with waiting } : Exploration).numbers ++ [f.state.path] ++ ended.map Prod.fst) := by
    rw [hnumbers, append_nil]
    exact (perm_append_singleton _ _).symm.append_right _
  obtain ⟨hnodup, hbelow, htotal⟩ := h.of_perm { e with waiting } rfl hperm
  exact { h with nodup := hnodup, below := hbelow, total := htotal }

theorem tell (h : Ledger e pending ended idle) (verdict : Option Verdict) :
    Ledger (e.tell verdict) pending ended idle := by
  rcases verdict with _ | v
  · exact h
  · exact { h with }

/-- The path of a step without an outcome is lost. -/
theorem lose (h : Ledger e [path] ended idle) : Ledger e [] ended (idle + 1) := by
  have hsub : List.Sublist (e.numbers ++ [] ++ ended.map Prod.fst)
      (e.numbers ++ [path] ++ ended.map Prod.fst) :=
    ((nil_sublist _).append_left _).append_right _
  refine { h with
    nodup := h.nodup.sublist hsub
    below := fun n hn => h.below n (hsub.subset hn)
    total := ?_ }
  have htotal := h.total
  simp only [length_append, length_singleton, length_nil] at htotal ⊢
  omega

/-- Some numbers are given out. -/
theorem give (h : Ledger e [path] ended idle) (count : Nat) :
    Ledger { e with nextPath := e.nextPath + count } (path :: List.range' e.nextPath count) ended idle := by
  have hperm : List.Perm ((e.numbers ++ [path] ++ ended.map Prod.fst) ++ List.range' e.nextPath count)
      (e.numbers ++ (path :: List.range' e.nextPath count) ++ ended.map Prod.fst) := by
    simp only [append_assoc, cons_append, nil_append]
    exact (perm_append_comm.cons path).append_left _
  have hnew (n : PathId) (hn : n ∈ List.range' e.nextPath count) :
      e.nextPath ≤ n ∧ n < e.nextPath + count := mem_range'_1.1 hn
  refine { h with nodup := hperm.nodup_iff.1 ?_, below := fun n hn => ?_, total := ?_ }
  · refine nodup_append.2 ⟨h.nodup, nodup_range', fun a ha b hb hab => ?_⟩
    exact absurd (h.below a ha) (Nat.not_lt.2 (hab ▸ (hnew b hb).1))
  · rcases mem_append.1 (hperm.mem_iff.2 hn) with hold | hnew'
    · exact Nat.lt_of_lt_of_le (h.below n hold) (Nat.le_add_right _ _)
    · exact (hnew n hnew').2
  · have hlength := hperm.length_eq
    have htotal := h.total
    rw [length_append, length_range'] at hlength
    show (e.numbers ++ (path :: List.range' e.nextPath count) ++ ended.map Prod.fst).length + idle =
      e.nextPath + count
    omega

/-- Each outcome gets a number of its own. -/
theorem relabel {α : Type} {outcomes : Outcomes α} (h : Ledger e [path] ended idle)
    (hpath : ∀ o ∈ outcomes, o.1.path = path) :
    Ledger (e.relabel outcomes).2 ((e.relabel outcomes).1.map (·.1.path)) ended
      (idle + if outcomes.isEmpty then 1 else 0) := by
  rcases outcomes with _ | ⟨o, l⟩
  · exact h.lose
  · have hnumbers : (e.relabel (o :: l)).1.map (·.1.path) = path :: List.range' e.nextPath l.length := by
      refine ext_getElem? fun i => ?_
      rw [Exploration.relabel, getElem?_map, getElem?_mapIdx]
      rcases i with _ | i
      · simp [hpath o mem_cons_self]
      · rcases Nat.lt_or_ge i l.length with hi | hi
        · simp [getElem?_eq_getElem hi, getElem?_range' hi]
        · simp [getElem?_eq_none hi, getElem?_eq_none (length_range'.trans_le hi)]
    rw [hnumbers]
    exact h.give l.length

/-- An outcome that is settled waits, or its path ends. -/
theorem settle_one {r : Except Defect Move} (h : Ledger e (s.path :: pending) ended idle)
    (hs : settle span (follow task f) e [(s, r)] = .ok e') :
    Ledger e' pending (ended ++ ((Exploration.ending? e e').map fun k => (s.path, k)).toList) idle := by
  obtain ⟨k, hd⟩ := disposes_settle hs
  rw [hd.ending?]
  -- The numbers are the same, that of the outcome at another place.
  have hwaits (hw : e'.numbers = e.numbers ++ [s.path]) :
      List.Perm (e.numbers ++ (s.path :: pending) ++ ended.map Prod.fst)
        (e'.numbers ++ pending ++ ended.map Prod.fst) := by
    rw [hw, ← append_cons]
  have hends (hw : e'.waiting = e.waiting) (k : Ending) :
      List.Perm (e.numbers ++ (s.path :: pending) ++ ended.map Prod.fst)
        (e'.numbers ++ pending ++ (ended ++ [(s.path, k)]).map Prod.fst) := by
    have hnumbers : e'.numbers = e.numbers := by rw [numbers, hw, numbers]
    rw [hnumbers, map_append, append_assoc, append_assoc]
    refine List.Perm.append_left _ ?_
    rw [← append_assoc]
    exact (perm_append_singleton _ _).symm
  rcases hd with ⟨hw, hn, hr⟩ | ⟨hw, hn, hr, hv⟩ | ⟨hw, hn, hr, hv⟩ | ⟨hw, hn, hr, hv⟩
  · obtain ⟨hnodup, hbelow, htotal⟩ := h.of_perm e' hn (hwaits hw)
    rw [Option.map_none, Option.toList_none, append_nil]
    exact ⟨hnodup, hbelow, htotal, hr ▸ h.completed, hr ▸ h.merged, hr ▸ h.failed, hr ▸ h.violations⟩
  all_goals
    obtain ⟨hnodup, hbelow, htotal⟩ := h.of_perm e' hn (hends hw _)
    refine ⟨hnodup, hbelow, htotal, ?_, ?_, ?_, ?_⟩
    all_goals simp [endedBy_singleton, hr, hv, h.completed, h.merged, h.failed, h.violations]

theorem settle {l : Outcomes Move} (h : Ledger e (l.map (·.1.path)) ended idle)
    (hs : Exploration.settle span (follow task f) e l = .ok e') :
    Ledger e' [] (ended ++ endingsOf span (follow task f) e l) idle := by
  induction l generalizing e ended with
  | nil =>
    obtain rfl := Except.ok.inj hs
    rw [endingsOf, append_nil]
    exact h
  | cons o l ih =>
    rw [settle_cons] at hs
    obtain ⟨e₁, hone, hs⟩ := ok_of_bind hs
    rw [endingsOf, hone]
    dsimp only
    rw [← append_assoc]
    exact ih (h.settle_one hone) hs

theorem step (h : Ledger e [] ended idle) (hs : e.step task = .ok (some e')) :
    Ledger e' [] (ended ++ endings task e) (idle + if e.isInfeasible task then 1 else 0) := by
  obtain ⟨f, waiting, work, hpop, -, hwork, hsettle⟩ := step_eq_some hs
  have hdue : e.due? task = some (f, ({ e with waiting } : Exploration).tell work.verdict, work) := by
    rw [due?, hpop, Option.bind_eq_bind, Option.bind_some, hwork]
    rfl
  have hpath : ∀ o ∈ work.outcomes, o.1.path = f.state.path := by
    obtain ⟨b, -, rfl⟩ := Option.map_eq_some_iff.1 hwork
    exact fun o ho => Frame.path_of_mem_outcomes ho
  have hnumbered := ((h.pop hpop).tell work.verdict).relabel hpath
  rw [endings, isInfeasible, hdue]
  exact hnumbered.settle hsettle

theorem run {n : Nat} (h : Ledger e [] ended idle) (hr : run task n e = .ok e') :
    Ledger e' [] (ended ++ history task n e) (idle + infeasible task n e) := by
  induction n generalizing e ended idle with
  | zero =>
    obtain rfl := Except.ok.inj hr
    rw [history, trail, flatMap_nil, append_nil]
    exact h
  | succ n ih =>
    obtain ⟨next, hstep, hr⟩ := ok_of_bind hr
    rw [history, infeasible, trail, hstep]
    rcases next with _ | e₁
    · obtain rfl := Except.ok.inj hr
      rw [flatMap_nil, append_nil]
      exact h
    · have hrest := ih (h.step hstep) hr
      rw [append_assoc, Nat.add_assoc] at hrest
      rw [flatMap_cons, countP_cons, Nat.add_comm (List.countP _ _)]
      exact hrest

/-- As many numbers were given out as there are paths that wait, paths that are counted in the report
    and steps without an outcome. -/
theorem total_eq (h : Ledger e [] ended idle) :
    e.waiting.toList.length + e.report.stats.completed + e.report.stats.merged + e.report.stats.failed +
      idle = e.nextPath := by
  have htotal := h.total
  have hended := length_endedBy ended
  have hfailed : (endedBy .failed ended).length = e.report.stats.failed := by
    rw [h.failed, length_map, Array.length_toList, h.violations]
  rw [h.completed, h.merged, hfailed] at hended
  simp only [length_append, length_map, length_nil, numbers] at htotal
  omega

theorem nodup_violations (h : Ledger e pending ended idle) :
    (e.report.violations.toList.map Violation.path).Nodup := by
  have hsub : List.Sublist (endedBy .failed ended) (ended.map Prod.fst) := filter_sublist.map _
  rw [← h.failed]
  exact (h.nodup.sublist (sublist_append_right _ _)).sublist hsub

end Ledger

end Exploration

/-- The account of the paths is exact. At any time the numbers of the paths that wait are distinct
    and were given out, no path ended more than once, and the violations are those of the paths that
    failed. As many numbers were given out as there are paths that wait, that completed, that merged
    and that failed, and steps without an outcome. -/
theorem Program.paths_accounted (p : Program) (config : Config) :
    let task : Task := ⟨p.structs, .ofProgram p, config⟩
    (∀ n, ∃ e, Exploration.run task n .start = .ok e ∧
      let ended := Exploration.history task n .start
      let stats := e.report.stats
      (e.numbers ++ ended.map Prod.fst).Nodup ∧
      (∀ id ∈ e.numbers ++ ended.map Prod.fst, id < e.nextPath) ∧
      (Exploration.endedBy .completed ended).length = stats.completed ∧
      (Exploration.endedBy .merged ended).length = stats.merged ∧
      Exploration.endedBy .failed ended = e.report.violations.toList.map Violation.path ∧
      e.report.violations.size = stats.failed ∧
      (e.report.violations.toList.map Violation.path).Nodup ∧
      e.nextPath = e.waiting.toList.length + stats.completed + stats.merged + stats.failed +
        Exploration.infeasible task n .start) ∧
    ∃ report, p.check config = .ok report ∧
      (report.stats.truncated = false → report.stats.explored =
        report.stats.completed + report.stats.merged + report.stats.failed +
          Exploration.infeasible task task.bound .start) := by
  intro task
  have hg : task.graph.Closed := FlowGraph.closed_ofProgram p
  have hledger (n : Nat) : ∃ e, Exploration.run task n .start = .ok e ∧
      e.Ledger [] (Exploration.history task n .start) (Exploration.infeasible task n .start) := by
    obtain ⟨e, hrun⟩ := Exploration.exists_run hg n (Exploration.ready_start hg)
    have hledger := Exploration.Ledger.start.run hrun
    rw [nil_append, Nat.zero_add] at hledger
    exact ⟨e, hrun, hledger⟩
  constructor
  · intro n
    obtain ⟨e, hrun, h⟩ := hledger n
    have hnodup := h.nodup
    have hbelow := h.below
    rw [append_nil] at hnodup hbelow
    exact ⟨e, hrun, hnodup, hbelow, h.completed, h.merged, h.failed, h.violations,
      h.nodup_violations, h.total_eq.symm⟩
  · obtain ⟨e, hrun, h⟩ := hledger task.bound
    refine ⟨e.finish, Task.explore_of_run hrun, fun htruncated => ?_⟩
    have htotal := h.total_eq
    rw [Exploration.waiting_of_not_truncated htruncated, length_nil, Nat.zero_add] at htotal
    exact htotal.symm

/-- A pointer that is freed unless it is null. -/
def Sample.forked : Program :=
  ⟨nodes, [.decl Span.none "x" (.ptr ⟨0⟩) none,
    .ite Span.none (.cmp true (.path ⟨"x", []⟩) .null) [] [.free Span.none ⟨"x", []⟩]]⟩

theorem Sample.stats_forked {report : Report} (h : Sample.forked.check .standard = .ok report) :
    report.stats = ⟨2, 1, 0, 1, false⟩ := by
  have hstats : (Sample.forked.check .standard).toOption.map Report.stats = some ⟨2, 1, 0, 1, false⟩ := by
    decide +kernel
  rw [h] at hstats
  exact Option.some.inj hstats

theorem Program.paths_accounted_forked :
    let task : Task := ⟨Sample.nodes, .ofProgram Sample.forked, .standard⟩
    ∃ report, Sample.forked.check .standard = .ok report ∧ report.stats = ⟨2, 1, 0, 1, false⟩ ∧
      report.stats.explored = report.stats.completed + report.stats.merged + report.stats.failed +
        Exploration.infeasible task task.bound .start := by
  intro task
  obtain ⟨-, report, hreport, hexplored⟩ := Program.paths_accounted Sample.forked .standard
  have hstats := Sample.stats_forked hreport
  exact ⟨report, hreport, hstats, hexplored (congrArg Stats.truncated hstats)⟩

end HeapShape
