import HeapShape.Proofs.PathNumbers

/-!
# The work on a path

An exploration treats instructions and the three kinds of exits each in its own way. This module
tells them in one way: a path has some *work* to do, which has outcomes, and each outcome moves on
behind the instruction or to another block, or it is at the end of the program.

* `Frame.work?`: the work that a path has to do;
* `Exploration.follow`: what becomes of an outcome;
* `Exploration.resume_eq`: to resume a path is to number the outcomes of its work and to settle
  them one after the other.
-/

namespace HeapShape

/-- Where an outcome goes on. -/
inductive Move where
  /-- Behind the instruction. -/
  | onward
  /-- At the start of a block. -/
  | jump (target : BlockId)
  /-- Nowhere: the program ends. -/
  | finish

/-- What is done on a path in a step. -/
structure Work where
  /-- Where it is done. -/
  span : Span
  /-- What there is to tell about a directive. -/
  verdict : Option Verdict
  /-- The outcomes. -/
  outcomes : Outcomes Move

namespace Outcomes

variable {α β : Type}

/-- The outcomes with other results. -/
def mapResult (g : α → β) (l : Outcomes α) : Outcomes β := l.map fun o => (o.1, o.2.map g)

theorem exists_of_mem_mapResult {g : α → β} {l : Outcomes α} {s : State} {b : β}
    (h : (s, .ok b) ∈ l.mapResult g) : ∃ a, (s, .ok a) ∈ l ∧ g a = b := by
  obtain ⟨⟨t, r⟩, ht, heq⟩ := List.mem_map.1 h
  obtain ⟨rfl, hb⟩ := Prod.mk.inj heq
  obtain ⟨a, rfl, rfl⟩ := ok_of_map hb
  exact ⟨a, ht, rfl⟩

theorem getElem?_of_mapResult {g : α → β} {l : Outcomes α} {i : Nat} {s : State} {d : Defect}
    (h : (l.mapResult g)[i]? = some (s, .error d)) : l[i]? = some (s, .error d) := by
  rw [mapResult, List.getElem?_map] at h
  obtain ⟨⟨t, r⟩, hget, heq⟩ := Option.map_eq_some_iff.1 h
  obtain ⟨rfl, hr⟩ := Prod.mk.inj heq
  rcases r with d' | a
  · cases hr
    exact hget
  · cases hr

theorem withPath_mapResult (g : α → β) (l : Outcomes α) (n : PathId) :
    (l.mapResult g).withPath n = (l.withPath n).mapResult g := by
  simp only [mapResult, withPath, List.map_map]
  rfl

end Outcomes

namespace Work

variable (task : Task) (s : State)

/-- The work at an instruction. -/
def ofInstr (span : Span) (instr : Instr) : Work :=
  let (judgement, outcomes) := Exploration.perform task instr s
  ⟨span, Exploration.verdict? s span instr judgement, outcomes.mapResult fun _ => .onward⟩

/-- The work at an exit. -/
def ofExit : Exit → Work
  | .goto target => ⟨Span.none, none, [(s, .ok (.jump target))]⟩
  | .branch span cond thenTarget elseTarget =>
    ⟨span, none, (Exploration.branch task.structs cond thenTarget elseTarget s).mapResult .jump⟩
  | .return => ⟨Span.none, none, [(s, .ok .finish)]⟩

/-- The same work on a path with another number. -/
def withPath (w : Work) (n : PathId) : Work :=
  ⟨w.span, w.verdict.map fun v => { v with path := n }, w.outcomes.withPath n⟩

theorem ofInstr_withPath (span : Span) (instr : Instr) (n : PathId) :
    ofInstr task (s.withPath n) span instr = (ofInstr task s span instr).withPath n := by
  simp only [ofInstr, withPath, Exploration.perform_withPath, Outcomes.withPath_mapResult]
  rcases instr with _ | _ | _ | _ | _ | _ | _
  all_goals rfl

theorem ofExit_withPath (exit : Exit) (n : PathId) :
    ofExit task (s.withPath n) exit = (ofExit task s exit).withPath n := by
  rcases exit with target | ⟨span, cond, thenTarget, elseTarget⟩ | _
  · rfl
  · simp only [ofExit, withPath, Outcomes.withPath_mapResult]
    rw [Exploration.blind_branch]
    rfl
  · rfl

end Work

namespace Frame

/-- The work on a path that is in a block. -/
def workIn (task : Task) (f : Frame) (b : Block) : Work :=
  match b.instrs[f.index]? with
  | some (span, instr) => .ofInstr task f.state span instr
  | none => .ofExit task f.state b.exit

/-- The work that a path has to do, if the block where it is exists. -/
def work? (task : Task) (f : Frame) : Option Work := task.graph.blocks[f.block]?.map (f.workIn task)

/-- The path with another number. -/
def withPath (f : Frame) (n : PathId) : Frame := { f with state := f.state.withPath n }

/-- The work on a path does not depend on its number. -/
theorem workIn_withPath (task : Task) (f : Frame) (b : Block) (n : PathId) :
    (f.withPath n).workIn task b = (f.workIn task b).withPath n := by
  simp only [workIn, withPath]
  split
  · exact Work.ofInstr_withPath ..
  · exact Work.ofExit_withPath ..

/-- The outcomes of the work on a path have its number. -/
theorem path_of_mem_outcomes {task : Task} {f : Frame} {b : Block} {s : State} {r : Except Defect Move}
    (h : (s, r) ∈ (f.workIn task b).outcomes) : s.path = f.state.path := by
  have hself : f.workIn task b = (f.workIn task b).withPath f.state.path :=
    f.workIn_withPath task b f.state.path
  rw [hself] at h
  obtain ⟨o, -, heq⟩ := List.mem_map.1 h
  obtain ⟨rfl, -⟩ := Prod.mk.inj heq
  rfl

end Frame

namespace Exploration

variable {task : Task} {e e' : Exploration} {f : Frame} {span : Span}

/-- What becomes of an outcome of the work on a path. -/
def follow (task : Task) (f : Frame) (e : Exploration) (s : State) : Move → Except Misuse Exploration
  | .onward => .ok (e.push { f with index := f.index + 1, state := s })
  | .jump target => e.enter task f.recorded target s
  | .finish => .ok (e.complete task s)

section Outcomes

variable {α β : Type} {go : Exploration → State → α → Except Misuse Exploration}

theorem settle_mapResult {go : Exploration → State → β → Except Misuse Exploration} (g : α → β)
    (l : Outcomes α) :
    settle span go e (l.mapResult g) = settle span (fun e s a => go e s (g a)) e l := by
  induction l generalizing e with
  | nil => rfl
  | cons o l ih =>
    obtain ⟨s, d | a⟩ := o
    · rcases d with _ | _ | _ | _ | _ | _ | _ | m
      all_goals first | rfl | exact ih
    · exact congrArg (go e s (g a) >>= ·) (funext fun _ => ih)

theorem relabel_mapResult (g : α → β) (l : Outcomes α) :
    e.relabel (l.mapResult g) = ((e.relabel l).1.mapResult g, (e.relabel l).2) := by
  simp only [relabel, Outcomes.mapResult, List.length_map, Prod.mk.injEq, and_true]
  refine List.ext_getElem? fun i => ?_
  simp only [List.getElem?_mapIdx, List.getElem?_map, Option.map_map]
  rfl

/-- Outcomes are settled one after the other. -/
theorem settle_cons (o : State × Except Defect α) (l : Outcomes α) :
    settle span go e (o :: l) = settle span go e [o] >>= fun e' => settle span go e' l := by
  obtain ⟨s, d | a⟩ := o
  · rcases d with _ | _ | _ | _ | _ | _ | _ | m
    all_goals rfl
  · simp only [settle]
    rcases go e s a with m | e' <;> rfl

end Outcomes

/-- Tell the verdict on a directive. -/
def tell (e : Exploration) (verdict : Option Verdict) : Exploration := verdict.elim e e.record

/-- To resume a path is to number the outcomes of its work and to settle them one after the
    other. -/
theorem resume_eq {b : Block} (hb : task.graph.blocks[f.block]? = some b) (e : Exploration) :
    let work := f.workIn task b
    let told := e.tell work.verdict
    resume e task f =
      settle work.span (follow task f) (told.relabel work.outcomes).2 (told.relabel work.outcomes).1 := by
  simp only [resume, hb, Frame.workIn]
  rcases b.instrs[f.index]? with _ | ⟨span, instr⟩
  · rcases b.exit with target | ⟨span, cond, thenTarget, elseTarget⟩ | _
    · show e.enter task f.recorded target f.state = e.enter task f.recorded target f.state >>= .ok
      rcases e.enter task f.recorded target f.state with m | e' <;> rfl
    · simp only [leave, Work.ofExit, relabel_mapResult, settle_mapResult]
      rfl
    · rfl
  · simp only [advance, Work.ofInstr, relabel_mapResult, settle_mapResult]
    rfl

/-- What a step does: it takes a path out of those that wait, and does the work on it. -/
theorem step_eq_some (h : e.step task = .ok (some e')) :
    ∃ f waiting work, e.waiting.pop? = some (f, waiting) ∧ e.nextPath ≤ task.config.maxPaths ∧
      f.work? task = some work ∧
      let told := ({ e with waiting } : Exploration).tell work.verdict
      settle work.span (follow task f) (told.relabel work.outcomes).2 (told.relabel work.outcomes).1 =
        .ok e' := by
  rw [step] at h
  split at h
  · cases h
  · rename_i f waiting hpop
    split at h
    · cases h
    · rename_i hmax
      obtain ⟨e₁, hresume, heq⟩ := ok_of_map h
      obtain rfl := Option.some.inj heq
      rcases hb : task.graph.blocks[f.block]? with _ | b
      · rw [resume, hb] at hresume
        cases hresume
      · refine ⟨f, waiting, f.workIn task b, hpop, Nat.le_of_not_lt hmax, ?_, ?_⟩
        · rw [Frame.work?, hb]
          rfl
        · exact (resume_eq hb _).symm.trans hresume

end Exploration

end HeapShape
