import HeapShape.Proofs.Accounting
import HeapShape.Proofs.Placement
import Mathlib.Algebra.Order.Group.Multiset
import Mathlib.Tactic.Abel

/-!
# Programs without loops, interpreted directly

An exploration keeps many paths that wait and does one instruction of one of them at a time. A program
without loops can also be run statement by statement: each statement is run on each state that comes
to it, both sides of a choice are run, one after the other, and a path ends at a return or at its
first defect. Both tell the same.

* `Stmt.interpret`: what a statement tells, and the states behind it;
* `Frame.Tells`: what all paths that a path goes on as tell, in the flow graph. A statement that is
  placed between two points tells what its interpretation tells, and then what is told from the states
  behind it (`follows_stmt`);
* `Exploration.Owes`: what an exploration told and what its paths will still tell. No step changes the
  sum (`Exploration.Owes.step`);
* `Program.check_eq_interpret`: a check that is not cut short tells what the interpretation tells.
-/

namespace HeapShape

open List

/-! ### What is told -/

/-- What there is to tell about paths, in no order: the defects that end them, the verdicts on
    directives, and how many come to the end of the program. -/
@[ext] structure Findings where
  /-- The defects, with their places. -/
  violations : Multiset (Span × Defect)
  /-- The verdicts, with their places. -/
  verdicts : Multiset (Span × Directive × Judgement)
  /-- How many paths come to the end. -/
  completed : ℕ

namespace Findings

instance : Add Findings :=
  ⟨fun a b => ⟨a.violations + b.violations, a.verdicts + b.verdicts, a.completed + b.completed⟩⟩

instance : Zero Findings := ⟨⟨0, 0, 0⟩⟩

instance : AddCommMonoid Findings where
  add_assoc a b c := Findings.ext (add_assoc _ _ _) (add_assoc _ _ _) (add_assoc _ _ _)
  zero_add a := Findings.ext (zero_add _) (zero_add _) (zero_add _)
  add_zero a := Findings.ext (add_zero _) (add_zero _) (add_zero _)
  add_comm a b := Findings.ext (add_comm _ _) (add_comm _ _) (add_comm _ _)
  nsmul := nsmulRec

/-- A path ends with a defect. -/
def violation (span : Span) (d : Defect) : Findings := ⟨{(span, d)}, 0, 0⟩

/-- A directive is judged. -/
def verdict (v : Verdict) : Findings := ⟨0, {(v.span, v.directive, v.judgement)}, 0⟩

/-- A path comes to the end. -/
def completion : Findings := ⟨0, 0, 1⟩

/-- A path ends with a defect, or it goes on and `k` tells what it tells then. -/
def ofResult {α : Type} (span : Span) (k : α → Findings) : Except Defect α → Findings
  | .error d => violation span d
  | .ok a => k a

/-- What a report tells, without the numbers of the paths. -/
def ofReport (r : Report) : Findings :=
  ⟨r.violations.toList.map fun v => (v.span, v.defect),
    r.verdicts.toList.map fun v => (v.span, v.directive, v.judgement), r.stats.completed⟩

end Findings

open Findings (ofReport)

/-! ### The interpretation -/

/-- What running some code on a state tells, and the states behind the code. -/
structure Reached where
  /-- What it tells. -/
  told : Findings
  /-- The states behind it. -/
  states : List State

namespace Reached

/-- Nothing is done. -/
def here (s : State) : Reached := ⟨0, [s]⟩

/-- Run more code on each state. -/
def andThen (r : Reached) (k : State → Reached) : Reached :=
  ⟨r.told + (r.states.map fun s => (k s).told).sum, r.states.flatMap fun s => (k s).states⟩

/-- Two ways to go on. -/
def both (r r' : Reached) : Reached := ⟨r.told + r'.told, r.states ++ r'.states⟩

/-- A path goes on in each outcome of an operation that has a result, and ends in the others. -/
def ofOutcomes (span : Span) (l : Outcomes Unit) : Reached :=
  ⟨(l.map fun o => Findings.ofResult span (fun _ => 0) o.2).sum,
    l.filterMap fun o => o.2.toOption.map fun _ => o.1⟩

/-- Run an instruction on a state. -/
def ofInstr (task : Task) (span : Span) (instr : Instr) (s : State) : Reached :=
  let (judgement, outcomes) := Exploration.perform task instr s
  let r := ofOutcomes span outcomes
  { r with told := (Exploration.verdict? s span instr judgement).elim 0 Findings.verdict + r.told }

/-- Run instructions in a row. -/
def ofRow (task : Task) (span : Span) : List Instr → State → Reached
  | [], s => here s
  | instr :: rest, s => (ofInstr task span instr s).andThen (ofRow task span rest)

/-- The variables of a scope end with it. -/
def endScope (r : Reached) (body : List Stmt) : Reached :=
  { r with states := r.states.map (·.kill (Stmt.introduced body)) }

end Reached

namespace Stmt

open Reached

mutual

/-- Run a statement on a state. A loop is not interpreted. -/
def interpret (task : Task) : Stmt → State → Reached
  | .decl span var ty init, s => ofRow task span (declInstrs var ty init) s
  | .assign span lhs rhs, s => ofInstr task span (.assign lhs rhs) s
  | .alloc span lhs ty, s => ofInstr task span (.alloc lhs ty) s
  | .free span path, s => ofInstr task span (.free path) s
  | .assert span cond, s => ofInstr task span (.assert cond) s
  | .directive span d, s => ofInstr task span (.directive d) s
  | .block _ body, s => (interpretIn task body s).endScope body
  | .ite span cond thenBody elseBody, s =>
    ((ofOutcomes span (Exec.assume task.structs cond true s)).andThen fun t =>
        (interpretIn task thenBody t).endScope thenBody).both
      ((ofOutcomes span (Exec.assume task.structs cond false s)).andThen fun t =>
        (interpretIn task elseBody t).endScope elseBody)
  | .loop .., _ => ⟨0, []⟩
  | .return _, _ => ⟨.completion, []⟩

/-- Run a body on a state. -/
def interpretIn (task : Task) : List Stmt → State → Reached
  | [], s => here s
  | stmt :: rest, s => (stmt.interpret task s).andThen (interpretIn task rest)

end

mutual

/-- Whether there is no loop in a statement. -/
def loopFree : Stmt → Bool
  | .block _ body => loopFreeIn body
  | .ite _ _ thenBody elseBody => loopFreeIn thenBody && loopFreeIn elseBody
  | .loop .. => false
  | .decl .. | .assign .. | .alloc .. | .free .. | .assert .. | .directive .. | .return _ => true

/-- Whether there is no loop in a body. -/
def loopFreeIn : List Stmt → Bool
  | [] => true
  | s :: rest => s.loopFree && loopFreeIn rest

end

end Stmt

/-- Whether there is no loop in a program. -/
def Program.loopFree (p : Program) : Bool := Stmt.loopFreeIn p.body

/-- What running a program tells. There is no flow graph. A path that is behind the body is at the
    end of the program. -/
def Program.interpret (p : Program) (config : Config) : Findings :=
  let r := Stmt.interpretIn ⟨p.structs, ⟨[], []⟩, config⟩ p.body (State.initial 0)
  r.told + r.states.length • Findings.completion

/-! ### What paths tell -/

namespace Reached

/-- What is told in all, where `k` tells what is told from the states behind the code. -/
def total (r : Reached) (k : State → Findings) : Findings := r.told + (r.states.map k).sum

variable (r r' : Reached) (k : State → Findings)

theorem total_here (s : State) : (here s).total k = k s := by
  simp [total, here]

theorem total_both : (r.both r').total k = r.total k + r'.total k := by
  simp only [total, both, map_append, sum_append]
  abel

theorem total_andThen (next : State → Reached) :
    (r.andThen next).total k = r.total fun s => (next s).total k := by
  obtain ⟨told, states⟩ := r
  simp only [total, andThen, add_assoc]
  congr 1
  induction states with
  | nil => simp
  | cons s states ih =>
    simp only [map_cons, sum_cons, flatMap_cons, map_append, sum_append, ← ih]
    abel

theorem total_endScope (body : List Stmt) :
    (r.endScope body).total k = r.total fun s => k (s.kill (Stmt.introduced body)) := by
  simp only [total, endScope, map_map]
  rfl

/-- Each outcome of an operation tells something. -/
theorem total_ofOutcomes (span : Span) (l : Outcomes Unit) :
    (ofOutcomes span l).total k =
      (l.map fun o => Findings.ofResult span (fun _ => k o.1) o.2).sum := by
  induction l with
  | nil => simp [total, ofOutcomes]
  | cons o l ih =>
    rw [map_cons, sum_cons, ← ih]
    obtain ⟨s, d | u⟩ := o
    · simp only [total, ofOutcomes, Findings.ofResult, map_cons, sum_cons, Except.toOption,
        filterMap_cons, Option.map_none]
      abel
    · simp only [total, ofOutcomes, Findings.ofResult, map_cons, sum_cons, Except.toOption,
        filterMap_cons, Option.map_some]
      abel

end Reached

namespace Frame

variable {task : Task} {f : Frame} {span : Span} {k : Frame → Findings} {s : State}

/-- The path that waits after a move, unless the program ends. Loops are left out: no shape is
    recorded. -/
def after (f : Frame) (s : State) : Move → Option Frame
  | .onward => some { f with index := f.index + 1, state := s }
  | .jump target => some ⟨target, 0, s, f.recorded⟩
  | .finish => none

/-- What an outcome tells, where `k` tells what the path that waits then tells. -/
def share (f : Frame) (span : Span) (k : Frame → Findings) (o : State × Except Defect Move) : Findings :=
  Findings.ofResult span (fun move => (f.after o.1 move).elim .completion k) o.2

/-- What the work on a path tells in all. -/
def told (f : Frame) (work : Work) (k : Frame → Findings) : Findings :=
  work.verdict.elim 0 .verdict + (work.outcomes.map (f.share work.span k)).sum

/-- What all paths that a path goes on as tell. -/
inductive Tells (task : Task) : Frame → Findings → Prop
  | intro {f : Frame} {b : Block} (hb : task.graph.blocks[f.block]? = some b) (k : Frame → Findings)
      (hk : ∀ s move f', (s, .ok move) ∈ (f.workIn task b).outcomes → f.after s move = some f' →
        Tells task f' (k f')) :
      Tells task f (f.told (f.workIn task b) k)

theorem Tells.of_work {b : Block} {work : Work} {w : Findings} (hb : task.graph.blocks[f.block]? = some b)
    (hwork : f.workIn task b = work) (hw : f.told work k = w)
    (hk : ∀ s move f', (s, .ok move) ∈ work.outcomes → f.after s move = some f' → Tells task f' (k f')) :
    Tells task f w := by
  subst hwork hw
  exact .intro hb k hk

theorem after_withPath (f : Frame) (s : State) (n : PathId) (move : Move) :
    f.after (s.withPath n) move = (f.after s move).map (·.withPath n) := by
  rcases move with _ | _ | _ <;> rfl

theorem withPath_after (f : Frame) (s : State) (n : PathId) (move : Move) :
    (f.withPath n).after s move = f.after s move := by
  rcases move with _ | _ | _ <;> rfl

theorem state_after {move : Move} {f' : Frame} (h : f.after s move = some f') : f'.state = s := by
  rcases move with _ | _ | _
  · obtain rfl := Option.some.inj h
    rfl
  · obtain rfl := Option.some.inj h
    rfl
  · cases h

/-- An outcome with another number tells the same. -/
theorem share_withPath (r : Except Defect Move) (n : PathId) :
    f.share span (fun f' => k (f'.withPath s.path)) (s.withPath n, r) = f.share span k (s, r) := by
  rcases r with d | move
  · rfl
  · rw [share, share, Findings.ofResult, Findings.ofResult, after_withPath]
    rcases hafter : f.after s move with _ | f'
    · rfl
    · obtain rfl := state_after hafter
      rfl

theorem told_withPath {work : Work} (hpath : ∀ o ∈ work.outcomes, o.1.path = f.state.path) (n : PathId) :
    (f.withPath n).told (work.withPath n) (fun f' => k (f'.withPath f.state.path)) = f.told work k := by
  rw [told, told, Work.withPath, Outcomes.withPath, map_map]
  congr 1
  · rcases work.verdict with _ | v <;> rfl
  · congr 1
    refine map_congr_left fun o ho => ?_
    rw [← share_withPath (k := k) o.2 n, hpath o ho]
    rcases o with ⟨s, d | move⟩
    · rfl
    · simp only [Function.comp_apply, share, withPath_after]

/-- The path that an outcome goes on as, with another number. -/
theorem exists_after {b : Block} {move : Move} {f' : Frame} {n : PathId}
    (hs : (s, .ok move) ∈ (f.workIn task b).outcomes) (h : f.after (s.withPath n) move = some f') :
    ∃ f'', f.after s move = some f'' ∧ f' = f''.withPath n ∧ f'.withPath f.state.path = f'' := by
  rw [after_withPath] at h
  obtain ⟨f'', hafter, rfl⟩ := Option.map_eq_some_iff.1 h
  refine ⟨f'', hafter, rfl, ?_⟩
  rw [← path_of_mem_outcomes hs, ← state_after hafter]
  rfl

/-- A path with another number tells the same. -/
theorem Tells.withPath {w : Findings} (h : Tells task f w) (n : PathId) : Tells task (f.withPath n) w := by
  induction h generalizing n with
  | @intro f b hb k hk ih =>
    rw [← told_withPath (fun o ho => path_of_mem_outcomes ho) n, ← workIn_withPath]
    refine Tells.intro (f := f.withPath n) hb _ fun s move f' hmem hafter => ?_
    rw [workIn_withPath] at hmem
    obtain ⟨⟨t, r⟩, ht, heq⟩ := mem_map.1 hmem
    obtain ⟨rfl, rfl⟩ := Prod.mk.inj heq
    rw [withPath_after] at hafter
    obtain ⟨f'', hnext, rfl, hpath⟩ := exists_after ht hafter
    rw [hpath]
    exact ih t move f'' ht hnext n

end Frame

/-! ### Statements that are placed -/

/-- A path at a point. -/
def FlowGraph.Point.frame (p : FlowGraph.Point) (s : State) : Frame := ⟨p.block, p.index, s, []⟩

/-- The task without its flow graph. -/
def Task.bare (task : Task) : Task := { task with graph := ⟨[], []⟩ }

section Placed

open FlowGraph (Point)

variable {task : Task} {p q : Point} {s : State} {span : Span} {K K' : State → Findings}

/-- From a point the paths tell what `K` tells of their states. -/
def FlowGraph.Point.Tells (p : Point) (task : Task) (K : State → Findings) : Prop :=
  ∀ s, (p.frame s).Tells task (K s)

/-- The outcomes that all move in one way. -/
theorem Frame.sum_share_mapResult (f : Frame) (span : Span) (k : Frame → Findings) (move : Move)
    (l : Outcomes Unit) (h : ∀ s, (f.after s move).elim .completion k = K s) :
    ((l.mapResult fun _ => move).map (f.share span k)).sum = (Reached.ofOutcomes span l).total K := by
  rw [Reached.total_ofOutcomes, Outcomes.mapResult, map_map]
  congr 1
  refine map_congr_left fun o _ => ?_
  obtain ⟨s, d | u⟩ := o
  · rfl
  · exact h s

/-- The moves of a branch: to one block where the condition is true, to another one where it is false. -/
theorem branch_mapResult (structs : Structs) (cond : Cond) (thenTarget elseTarget : BlockId) (s : State) :
    (Exploration.branch structs cond thenTarget elseTarget s).mapResult Move.jump =
      ((Exec.assume structs cond true s).mapResult fun _ => .jump thenTarget) ++
        (Exec.assume structs cond false s).mapResult fun _ => .jump elseTarget := by
  have hside (truth : Bool) (target : BlockId) :
      Outcomes.mapResult Move.jump ((Exec.assume structs cond truth >>= fun _ => pure target) s) =
        (Exec.assume structs cond truth s).mapResult fun _ => .jump target := by
    rw [Exec.bind_apply, Outcomes.mapResult, Outcomes.mapResult, map_flatMap, map_eq_flatMap]
    congr 1
    funext o
    obtain ⟨t, d | u⟩ := o <;> rfl
  rw [← hside, ← hside]
  exact map_append

theorem tells_instr {instr : Instr} (h : task.graph.InstrAt p span instr) (hK : p.next.Tells task K) :
    p.Tells task fun s => (Reached.ofInstr task.bare span instr s).total K := by
  intro s
  obtain ⟨b, hb, hi⟩ := h
  have hwork : (p.frame s).workIn task b = .ofInstr task s span instr := by
    simp only [Frame.workIn, FlowGraph.Point.frame, hi]
  refine .of_work (k := fun f' => K f'.state) hb hwork ?_ fun t move f' hmem hafter => ?_
  · have hsum := (p.frame s).sum_share_mapResult (K := K) span (fun f' => K f'.state) .onward
      (Exploration.perform task instr s).2 fun t => rfl
    exact (congrArg _ hsum).trans (add_assoc _ _ _).symm
  · obtain ⟨u, -, rfl⟩ := Outcomes.exists_of_mem_mapResult hmem
    obtain rfl := Option.some.inj hafter
    exact hK t

theorem tells_row {instrs : List Instr} (h : task.graph.Row span instrs p q) (hK : q.Tells task K) :
    p.Tells task fun s => (Reached.ofRow task.bare span instrs s).total K := by
  induction instrs generalizing p with
  | nil =>
    obtain rfl := h
    simp only [Reached.ofRow, Reached.total_here]
    exact hK
  | cons instr rest ih =>
    simp only [Reached.ofRow, Reached.total_andThen]
    exact tells_instr h.1 (ih h.2)

/-- The work at a point with an exit. -/
theorem exists_workIn {exit : Exit} (h : task.graph.ExitAt p exit) (s : State) :
    ∃ b, task.graph.blocks[(p.frame s).block]? = some b ∧
      (p.frame s).workIn task b = .ofExit task s exit := by
  obtain ⟨b, hb, hi, rfl⟩ := h
  refine ⟨b, hb, ?_⟩
  simp only [Frame.workIn, FlowGraph.Point.frame, hi]

theorem tells_goto {target : BlockId} (h : task.graph.ExitAt p (.goto target))
    (hK : (Point.first target).Tells task K) : p.Tells task K := by
  intro s
  obtain ⟨b, hb, hwork⟩ := exists_workIn h s
  refine .of_work (k := fun f' => K f'.state) hb hwork ((zero_add _).trans (add_zero _))
    fun t move f' hmem hafter => ?_
  obtain ⟨rfl, hmove⟩ := Prod.mk.inj (mem_singleton.1 hmem)
  obtain rfl := Except.ok.inj hmove
  obtain rfl := Option.some.inj hafter
  exact hK t

theorem tells_branch {cond : Cond} {thenTarget elseTarget : BlockId}
    (h : task.graph.ExitAt p (.branch span cond thenTarget elseTarget)) (hne : thenTarget ≠ elseTarget)
    (hK : (Point.first thenTarget).Tells task K) (hK' : (Point.first elseTarget).Tells task K') :
    p.Tells task fun s =>
      (Reached.ofOutcomes span (Exec.assume task.structs cond true s)).total K +
        (Reached.ofOutcomes span (Exec.assume task.structs cond false s)).total K' := by
  intro s
  obtain ⟨b, hb, hwork⟩ := exists_workIn h s
  -- The sides are told apart by their blocks.
  let k (f' : Frame) : Findings := if f'.block = thenTarget then K f'.state else K' f'.state
  have hthen (t : State) : k ((Point.first thenTarget).frame t) = K t := if_pos rfl
  have helse (t : State) : k ((Point.first elseTarget).frame t) = K' t := if_neg hne.symm
  refine .of_work (k := k) hb hwork ?_ fun t move f' hmem hafter => ?_
  · have hleft := (p.frame s).sum_share_mapResult span k (.jump thenTarget)
      (Exec.assume task.structs cond true s) hthen
    have hright := (p.frame s).sum_share_mapResult span k (.jump elseTarget)
      (Exec.assume task.structs cond false s) helse
    simp only [Frame.told, Work.ofExit, branch_mapResult, map_append, sum_append, hleft, hright]
    exact zero_add _
  · simp only [Work.ofExit, branch_mapResult, mem_append] at hmem
    rcases hmem with hmem | hmem
    · obtain ⟨u, -, rfl⟩ := Outcomes.exists_of_mem_mapResult hmem
      obtain rfl := Option.some.inj hafter
      exact hthen t ▸ hK t
    · obtain ⟨u, -, rfl⟩ := Outcomes.exists_of_mem_mapResult hmem
      obtain rfl := Option.some.inj hafter
      exact helse t ▸ hK' t

theorem tells_return (h : task.graph.ExitAt p .return) : p.Tells task fun _ => .completion := by
  intro s
  obtain ⟨b, hb, hwork⟩ := exists_workIn h s
  refine .of_work (k := fun _ => 0) hb hwork ((zero_add _).trans (add_zero _))
    fun t move f' hmem hafter => ?_
  obtain ⟨rfl, hmove⟩ := Prod.mk.inj (mem_singleton.1 hmem)
  obtain rfl := Except.ok.inj hmove
  cases hafter

/-- What code between two points tells: what its interpretation tells, and then what is told from the
    states behind it. -/
def Follows (task : Task) (placed : Point → Point → Prop) (run : State → Reached) : Prop :=
  ∀ p q K, placed p q → q.Tells task K → p.Tells task fun s => (run s).total K

theorem Follows.single (span : Span) (instr : Instr) :
    Follows task (task.graph.Row span [instr]) (Reached.ofInstr task.bare span instr) := by
  rintro p q K ⟨hinstr, rfl⟩ hK
  exact tells_instr hinstr hK

theorem Follows.scope {body : List Stmt}
    (h : Follows task (Stmt.PlacedIn task.graph body) (Stmt.interpretIn task.bare body)) (span : Span) :
    Follows task (Stmt.ScopePlaced task.graph span body (Stmt.PlacedIn task.graph body))
      fun s => (Stmt.interpretIn task.bare body s).endScope body := by
  rintro p q K ⟨m, hbody, hend⟩ hK
  have hkill (s : State) : (Reached.ofRow task.bare span (Stmt.scopeEnd body) s).total K =
      K (s.kill (Stmt.introduced body)) := by
    rw [Stmt.scopeEnd]
    rcases Stmt.introduced body with _ | ⟨var, vars⟩
    · exact Reached.total_here K s
    · rw [Reached.ofRow, Reached.total_andThen]
      simp [Reached.ofRow, Reached.total, Reached.here, Reached.ofInstr, Reached.ofOutcomes,
        Exploration.perform, Exploration.verdict?, Findings.ofResult, Except.toOption]
  simp only [Reached.total_endScope, ← hkill]
  exact h p m _ hbody (tells_row hend hK)

mutual

theorem follows_stmt (task : Task) : ∀ s : Stmt, s.loopFree = true →
    Follows task (s.Placed task.graph) (s.interpret task.bare)
  | .decl span var ty init, _ => fun p q K h hK => tells_row h hK
  | .assign .., _ | .alloc .., _ | .free .., _ | .assert .., _ | .directive .., _ => .single _ _
  | .block span body, hl => (follows_body task body hl).scope span
  | .ite span cond thenBody elseBody, hl => by
    rw [Stmt.loopFree, Bool.and_eq_true] at hl
    rintro p q K ⟨thenBlock, elseBlock, join, thenEnd, elseEnd, hp, hne, hthen, hthenEnd, helse,
      helseEnd, rfl⟩ hK
    have hleft := (follows_body task thenBody hl.1).scope span _ _ K hthen (tells_goto hthenEnd hK)
    have hright := (follows_body task elseBody hl.2).scope span _ _ K helse (tells_goto helseEnd hK)
    simp only [Stmt.interpret, Reached.total_both, Reached.total_andThen]
    exact tells_branch hp hne hleft hright
  | .loop .., hl => nomatch hl
  | .return _, _ => by
    intro p q K h _
    have hreturn := tells_return h
    simp only [Stmt.interpret, Reached.total, map_nil, sum_nil, add_zero]
    exact hreturn

theorem follows_body (task : Task) : ∀ body : List Stmt, Stmt.loopFreeIn body = true →
    Follows task (Stmt.PlacedIn task.graph body) (Stmt.interpretIn task.bare body)
  | [], _ => by
    rintro p q K rfl hK
    simp only [Stmt.interpretIn, Reached.total_here]
    exact hK
  | s :: rest, hl => by
    rw [Stmt.loopFreeIn, Bool.and_eq_true] at hl
    rintro p q K ⟨m, hs, hrest⟩ hK
    simp only [Stmt.interpretIn, Reached.total_andThen]
    exact follows_stmt task s hl.1 p m _ hs (follows_body task rest hl.2 m q K hrest hK)

end

end Placed

/-! ### Flow graphs without loop heads -/

namespace FlowGraph.Draft

theorem loopHeads_endScope (d : Draft) (body : List Stmt) (span : Span) :
    (d.endScope body span).loopHeads = d.loopHeads := by
  rw [endScope]
  split <;> rfl

mutual

theorem loopHeads_stmt (d : Draft) : ∀ s : Stmt, s.loopFree = true → (d.stmt s).loopHeads = d.loopHeads
  | .decl _ _ _ none, _ | .decl _ _ _ (some _), _ | .assign .., _ | .alloc .., _ | .free .., _
  | .assert .., _ | .directive .., _ | .return _, _ => rfl
  | .block span body, hl => (loopHeads_endScope _ body span).trans (loopHeads_body d body hl)
  | .ite span cond thenBody elseBody, hl => by
    rw [Stmt.loopFree, Bool.and_eq_true] at hl
    exact (loopHeads_endScope _ elseBody span).trans ((loopHeads_body _ elseBody hl.2).trans
      ((loopHeads_endScope _ thenBody span).trans (loopHeads_body _ thenBody hl.1)))
  | .loop .., hl => nomatch hl

theorem loopHeads_body (d : Draft) : ∀ body : List Stmt, Stmt.loopFreeIn body = true →
    (d.body body).loopHeads = d.loopHeads
  | [], _ => rfl
  | s :: rest, hl => by
    rw [Stmt.loopFreeIn, Bool.and_eq_true] at hl
    exact (loopHeads_body _ rest hl.2).trans (loopHeads_stmt d s hl.1)

end

end FlowGraph.Draft

/-! ### What an exploration tells -/

namespace Exploration

variable {task : Task} {e e' : Exploration} {f : Frame} {s : State} {span : Span} {w : Findings}
  {k : Frame → Findings}

theorem ofReport_fail (e : Exploration) (s : State) (span : Span) (d : Defect) :
    ofReport (e.fail s span d).report = ofReport e.report + .violation span d := by
  refine Findings.ext ?_ (add_zero _).symm (add_zero _).symm
  show Multiset.ofList ((e.report.violations.push _).toList.map _) = _
  rw [Array.toList_push, map_append]
  exact (Multiset.coe_add _ _).symm

theorem ofReport_complete (e : Exploration) (task : Task) (s : State) :
    ofReport (e.complete task s).report = ofReport e.report + .completion :=
  Findings.ext (add_zero _).symm (add_zero _).symm rfl

theorem ofReport_tell (e : Exploration) (v : Option Verdict) :
    ofReport (e.tell v).report = ofReport e.report + v.elim 0 .verdict := by
  rcases v with _ | v
  · exact (add_zero _).symm
  · refine Findings.ext (add_zero _).symm ?_ (add_zero _).symm
    show Multiset.ofList ((e.report.verdicts.push _).toList.map _) = _
    rw [Array.toList_push, map_append]
    exact (Multiset.coe_add _ _).symm

/-- What an exploration told, and what the paths that wait will still tell. -/
def Owes (task : Task) (e : Exploration) (w : Findings) : Prop :=
  ∃ ws, List.Forall₂ (Frame.Tells task) e.waiting.toList ws ∧ ofReport e.report + ws.sum = w

namespace Owes

theorem push (h : Owes task e w) {w' : Findings} (hf : f.Tells task w') : Owes task (e.push f) (w + w') := by
  obtain ⟨ws, hws, rfl⟩ := h
  refine ⟨ws ++ [w'], ?_, ?_⟩
  · rw [Exploration.push, Queue.toList_push]
    exact rel_append hws (.cons hf .nil)
  · rw [sum_append, sum_singleton, ← add_assoc]
    rfl

/-- More is told, and the paths that wait are the same. -/
theorem of_report (h : Owes task e w) {w' : Findings} (hw : e'.waiting = e.waiting)
    (hr : ofReport e'.report = ofReport e.report + w') : Owes task e' (w + w') := by
  obtain ⟨ws, hws, rfl⟩ := h
  exact ⟨ws, hw ▸ hws, by rw [hr]; abel⟩

theorem tell (h : Owes task e w) (v : Option Verdict) : Owes task (e.tell v) (w + v.elim 0 .verdict) := by
  refine h.of_report ?_ (ofReport_tell e v)
  rcases v with _ | v <;> rfl

theorem relabel {α : Type} (h : Owes task e w) (l : Outcomes α) : Owes task (e.relabel l).2 w := h

/-- An outcome that is settled tells its share. -/
theorem settle_one (hheads : ∀ target, task.graph.isLoopHead target = false) {r : Except Defect Move}
    (h : Owes task e w) (hk : ∀ move f', r = .ok move → f.after s move = some f' → f'.Tells task (k f'))
    (hs : settle span (follow task f) e [(s, r)] = .ok e') : Owes task e' (w + f.share span k (s, r)) := by
  rcases r with d | move
  · have hfail : Owes task (e.fail s span d) (w + .violation span d) :=
      h.of_report rfl (ofReport_fail e s span d)
    rcases d with _ | _ | _ | _ | _ | _ | _ | m
    case misuse => cases hs
    all_goals
      obtain rfl := Except.ok.inj hs
      exact hfail
  · obtain ⟨e₁, hgo, hs⟩ := ok_of_bind hs
    obtain rfl := Except.ok.inj hs
    rcases move with _ | target | _
    · obtain rfl := Except.ok.inj hgo
      exact h.push (hk _ _ rfl rfl)
    · rw [follow, enter, hheads target] at hgo
      obtain rfl := Except.ok.inj hgo
      exact h.push (hk _ _ rfl rfl)
    · obtain rfl := Except.ok.inj hgo
      exact h.of_report rfl (ofReport_complete e task s)

theorem settle (hheads : ∀ target, task.graph.isLoopHead target = false) {l : Outcomes Move}
    (h : Owes task e w)
    (hk : ∀ s move f', (s, .ok move) ∈ l → f.after s move = some f' → f'.Tells task (k f'))
    (hs : Exploration.settle span (follow task f) e l = .ok e') :
    Owes task e' (w + (l.map (f.share span k)).sum) := by
  induction l generalizing e w with
  | nil =>
    obtain rfl := Except.ok.inj hs
    rw [map_nil, sum_nil, add_zero]
    exact h
  | cons o l ih =>
    rw [settle_cons] at hs
    obtain ⟨e₁, hone, hs⟩ := ok_of_bind hs
    rw [map_cons, sum_cons, ← add_assoc]
    refine ih (h.settle_one hheads (fun move f' hr => ?_) hone) ?_ hs
    · exact hk o.1 move f' (hr ▸ mem_cons_self)
    · exact fun s move f' hmem => hk s move f' (mem_cons_of_mem _ hmem)

end Owes

/-- The share of an outcome does not depend on its number. -/
theorem share_relabel {l : Outcomes Move} (hpath : ∀ o ∈ l, o.1.path = f.state.path) :
    (e.relabel l).1.map (f.share span fun f' => k (f'.withPath f.state.path)) = l.map (f.share span k) := by
  refine ext_getElem? fun i => ?_
  rw [getElem?_map, getElem?_map, relabel, getElem?_mapIdx, Option.map_map]
  rcases ho : l[i]? with _ | o
  · rfl
  · have hpath := hpath o (mem_of_getElem? ho)
    refine congrArg some ?_
    show f.share span _ (if i = 0 then o.1 else o.1.withPath (e.nextPath + (i - 1)), o.2) = _
    rw [← hpath, ← Frame.share_withPath (k := k) o.2 (if i = 0 then o.1.path else e.nextPath + (i - 1))]
    split <;> rfl

theorem Owes.step (hheads : ∀ target, task.graph.isLoopHead target = false) (h : Owes task e w)
    (hs : e.step task = .ok (some e')) : Owes task e' w := by
  obtain ⟨f, waiting, work, hpop, -, hwork, hsettle⟩ := step_eq_some hs
  obtain ⟨ws, hws, rfl⟩ := h
  rw [Queue.toList_of_pop? hpop] at hws
  obtain ⟨w, ws, hf, hothers, rfl⟩ := forall₂_cons_left_iff.1 hws
  obtain ⟨b, hb, rfl⟩ := Option.map_eq_some_iff.1 hwork
  obtain ⟨hb', k, hk⟩ := hf
  obtain rfl := Option.some.inj (hb.symm.trans hb')
  have hrest : Owes task ({ e with waiting } : Exploration) (ofReport e.report + ws.sum) :=
    ⟨ws, hothers, rfl⟩
  have htold := hrest.tell (f.workIn task b).verdict
  have hnumbered := htold.relabel (f.workIn task b).outcomes
  have hsettled := hnumbered.settle (k := fun f' => k (f'.withPath f.state.path)) hheads ?_ hsettle
  · rw [share_relabel fun o ho => Frame.path_of_mem_outcomes ho] at hsettled
    convert hsettled using 1
    rw [sum_cons, Frame.told]
    abel
  · intro s move f' hmem hafter
    obtain ⟨s', hs', heq⟩ := mem_of_mem_relabel hmem
    rw [heq] at hafter
    obtain ⟨f'', hnext, rfl, hpath⟩ := Frame.exists_after hs' hafter
    rw [hpath]
    exact (hk s' move f'' hs' hnext).withPath _

theorem Owes.run (hheads : ∀ target, task.graph.isLoopHead target = false) {n : ℕ} (h : Owes task e w)
    (hr : run task n e = .ok e') : Owes task e' w :=
  run_keeps (I := (Owes task · w)) (fun h => h.step hheads) h hr

end Exploration

/-- A program without loops is checked as if it was interpreted directly. A check that is not cut
    short tells the same defects at the same places, the same verdicts at the same places, and the
    same number of paths that come to the end. -/
theorem Program.check_eq_interpret (p : Program) (config : Config) (hp : p.loopFree = true) :
    ∃ report, p.check config = .ok report ∧ (report.stats.truncated = false →
      Multiset.ofList (report.violations.toList.map fun v => (v.span, v.defect)) =
        (p.interpret config).violations ∧
      Multiset.ofList (report.verdicts.toList.map fun v => (v.span, v.directive, v.judgement)) =
        (p.interpret config).verdicts ∧
      report.stats.completed = (p.interpret config).completed) := by
  let task : Task := ⟨p.structs, .ofProgram p, config⟩
  have hg : task.graph.Closed := FlowGraph.closed_ofProgram p
  have hheads (target : BlockId) : task.graph.isLoopHead target = false := by
    have hnone : task.graph.loopHeads = [] := FlowGraph.Draft.loopHeads_body .empty p.body hp
    rw [FlowGraph.isLoopHead, hnone]
    rfl
  obtain ⟨q, hplaced, hend⟩ := FlowGraph.exists_placed p
  have htells := follows_body task p.body hp _ q _ hplaced (tells_return hend) (State.initial 0)
  have htotal : (Stmt.interpretIn task.bare p.body (State.initial 0)).total (fun _ => .completion) =
      p.interpret config := by
    rw [Reached.total, map_const', sum_replicate]
    rfl
  have hstart : Exploration.Owes task .start (p.interpret config) :=
    ⟨[p.interpret config], .cons (htotal ▸ htells) .nil, (zero_add _).trans (add_zero _)⟩
  obtain ⟨e, hrun⟩ := Exploration.exists_run hg task.bound (Exploration.ready_start hg)
  obtain ⟨ws, hws, htold⟩ := hstart.run hheads hrun
  refine ⟨e.finish, Task.explore_of_run hrun, fun htruncated => ?_⟩
  rw [Exploration.waiting_of_not_truncated htruncated] at hws
  obtain rfl := forall₂_nil_left_iff.1 hws
  rw [sum_nil, add_zero] at htold
  exact ⟨congrArg Findings.violations htold, congrArg Findings.verdicts htold,
    congrArg Findings.completed htold⟩

theorem Program.check_eq_interpret_forked :
    Sample.forked.loopFree = true ∧ ∃ report, Sample.forked.check .standard = .ok report ∧
      report.stats = ⟨2, 1, 0, 1, false⟩ ∧
      Multiset.ofList (report.violations.toList.map fun v => (v.span, v.defect)) =
        (Sample.forked.interpret .standard).violations ∧
      1 = (Sample.forked.interpret .standard).completed := by
  refine ⟨rfl, ?_⟩
  obtain ⟨report, hreport, hequal⟩ := Program.check_eq_interpret Sample.forked .standard rfl
  have hstats := Sample.stats_forked hreport
  obtain ⟨hviolations, -, hcompleted⟩ := hequal (congrArg Stats.truncated hstats)
  rw [hstats] at hcompleted
  exact ⟨report, hreport, hstats, hviolations, hcompleted⟩

end HeapShape
