import HeapShape.FlowGraph
import HeapShape.Heap.Drawing
import HeapShape.Heap.Widen
import HeapShape.Queue
import HeapShape.Report
import HeapShape.State.Condition

/-!
# Exploration of paths

All paths through a flow graph are followed side by side, one instruction at a time. Of
the outcomes of an instruction the first one goes on as the same path and the others are
new paths. A state that comes to the head of a loop is widened. If a path came there with
the same shape before, what follows is known, and the path ends as *merged*. Each path,
with those it comes from, may bring only so many new shapes to a head.

* `Exploration.step`: the work on the path that waits longest;
* `Exploration.run`: all of the work. It is counted down from `Task.bound`: between two new
  shapes a path comes to each block at most once.
-/

namespace HeapShape

/-- The limits and choices of a check. -/
structure Config where
  /-- How many paths may be started. -/
  maxPaths : Nat
  /-- How many new shapes a path may bring to the head of a loop. -/
  maxLoopShapes : Nat
  /-- Whether a path ends when a shape that is checked is not found. -/
  pruneOnFailedCheck : Bool
  /-- Whether the heaps at the end of paths are drawn. -/
  recordHeaps : Bool

/-- Ten thousand paths, 256 shapes, and nothing else. -/
def Config.standard : Config := ⟨10000, 256, false, false⟩

/-- What is checked, and how. -/
structure Task where
  /-- The structures of the program. -/
  structs : Structs
  /-- The flow graph of the program. -/
  graph : FlowGraph
  /-- The limits and choices. -/
  config : Config

/-- A path that waits to go on. -/
structure Frame where
  /-- The block where it is. -/
  block : BlockId
  /-- The number of the next instruction. -/
  index : Nat
  /-- What is known there. -/
  state : State
  /-- The heads where it brought a new shape, once for each shape. -/
  recorded : List BlockId

/-- How far an exploration is. -/
structure Exploration where
  /-- The paths that wait. -/
  waiting : Queue Frame
  /-- The number of the next path. -/
  nextPath : PathId
  /-- The shapes that came to heads of loops. -/
  seen : List (BlockId × String)
  /-- What there is to tell. -/
  report : Report

namespace Exploration

/-! ### What is told -/

/-- A path ends with a defect. -/
def fail (e : Exploration) (s : State) (span : Span) (d : Defect) : Exploration :=
  { e with report := { e.report with
      violations := e.report.violations.push ⟨s.path, span, d⟩
      stats := { e.report.stats with failed := e.report.stats.failed + 1 } } }

/-- A path ends at a shape that is known. -/
def merge (e : Exploration) : Exploration :=
  { e with report := { e.report with stats := { e.report.stats with merged := e.report.stats.merged + 1 } } }

/-- A path ends at the end of the program. -/
def complete (e : Exploration) (task : Task) (s : State) : Exploration :=
  let heaps :=
    if task.config.recordHeaps then
      e.report.heaps.push (s.path, s.heap.draw .standard task.structs s.roots)
    else
      e.report.heaps
  { e with report := { e.report with
      heaps
      stats := { e.report.stats with completed := e.report.stats.completed + 1 } } }

/-- A directive is judged. -/
def record (e : Exploration) (v : Verdict) : Exploration :=
  { e with report := { e.report with verdicts := e.report.verdicts.push v } }

/-- A path has to wait. -/
def push (e : Exploration) (f : Frame) : Exploration := { e with waiting := e.waiting.push f }

/-! ### Outcomes -/

/-- Number the paths of outcomes: the first one keeps its number. -/
def relabel {α : Type} (e : Exploration) (outcomes : Outcomes α) : Outcomes α × Exploration :=
  (outcomes.mapIdx fun i (s, r) => (if i = 0 then s else { s with path := e.nextPath + (i - 1) }, r),
    { e with nextPath := e.nextPath + (outcomes.length - 1) })

/-- Go on with the outcomes that have a result, and tell the defects of the others. -/
def settle {α : Type} (span : Span) (go : Exploration → State → α → Except Misuse Exploration) :
    Exploration → Outcomes α → Except Misuse Exploration
  | e, [] => .ok e
  | e, (s, .ok a) :: rest => do settle span go (← go e s a) rest
  | _, (_, .error (.misuse m)) :: _ => .error m
  | e, (s, .error d) :: rest => settle span go (e.fail s span d) rest

/-! ### Instructions -/

/-- The judgement of a directive, and the outcome. -/
def direct (task : Task) (d : Directive) (s : State) : Judgement × Outcomes Unit :=
  match s.judge task.structs d with
  | .error e => (.fail (.defect e), [(s, .error e)])
  | .ok (.fail (.mismatch cause), s) =>
    let r := if task.config.pruneOnFailedCheck then .error (.mismatchOf cause) else .ok ()
    (.fail (.mismatch cause), [(s, r)])
  | .ok (judgement, s) => (judgement, [(s, .ok ())])

/-- The outcomes of an instruction, and the judgement of a directive. -/
def perform (task : Task) (instr : Instr) (s : State) : Option Judgement × Outcomes Unit :=
  match instr with
  | .decl var ty => (none, [(s.declare var ty, .ok ())])
  | .assign lhs rhs => (none, Exec.assign task.structs lhs rhs s)
  | .alloc lhs ty => (none, Exec.alloc task.structs lhs ty s)
  | .free path => (none, Exec.free task.structs path s)
  | .kill vars => (none, [(s.kill vars, .ok ())])
  | .assert cond => (none, Exec.assert task.structs cond s)
  | .directive d =>
    let (judgement, outcomes) := direct task d s
    (some judgement, outcomes)

/-- The verdict that a judgement gives. -/
def verdict? (s : State) (span : Span) (instr : Instr) (judgement : Option Judgement) : Option Verdict :=
  match instr, judgement with
  | .directive d, some j => some ⟨s.path, span, d, j⟩
  | _, _ => none

/-- Perform an instruction on a path. -/
def advance (e : Exploration) (task : Task) (f : Frame) (span : Span) (instr : Instr) :
    Except Misuse Exploration :=
  let (judgement, outcomes) := perform task instr f.state
  let e := (verdict? f.state span instr judgement).elim e e.record
  let (outcomes, e) := e.relabel outcomes
  settle span (fun e s _ => .ok (e.push { f with index := f.index + 1, state := s })) e outcomes

/-! ### Jumps -/

/-- Where the condition of a loop is. -/
def headSpan (task : Task) (head : BlockId) : Span :=
  match task.graph.blocks[head]?.map Block.exit with
  | some (.branch span ..) => span
  | _ => Span.none

/-- A widened state comes to the head of a loop. -/
def arrive (e : Exploration) (task : Task) (head : BlockId) (recorded : List BlockId) (s : State) :
    Exploration :=
  let shape := s.shape
  if e.seen.contains (head, shape) then e.merge
  else if recorded.count head ≥ task.config.maxLoopShapes then
    e.fail s (headSpan task head) (.loopBound task.config.maxLoopShapes)
  else
    { e with seen := (head, shape) :: e.seen }.push ⟨head, 0, s, head :: recorded⟩

/-- A path comes to the start of a block. -/
def enter (e : Exploration) (task : Task) (recorded : List BlockId) (target : BlockId) (s : State) :
    Except Misuse Exploration :=
  if task.graph.isLoopHead target then do
    let heap ← s.heap.widen task.structs (s.roots.map Prod.snd)
    return e.arrive task target recorded { s with heap }
  else
    .ok (e.push ⟨target, 0, s, recorded⟩)

/-- The block where a path goes on after a condition. -/
def branch (structs : Structs) (cond : Cond) (thenTarget elseTarget : BlockId) : Exec BlockId :=
  Exec.either (do Exec.assume structs cond true; return thenTarget)
    (do Exec.assume structs cond false; return elseTarget)

/-- Leave a block. -/
def leave (e : Exploration) (task : Task) (f : Frame) : Exit → Except Misuse Exploration
  | .goto target => e.enter task f.recorded target f.state
  | .branch span cond thenTarget elseTarget =>
    let (outcomes, e) := e.relabel (branch task.structs cond thenTarget elseTarget f.state)
    settle span (fun e s target => e.enter task f.recorded target s) e outcomes
  | .return => .ok (e.complete task f.state)

/-! ### The whole -/

/-- The work on a path that does not wait any more. -/
def resume (e : Exploration) (task : Task) (f : Frame) : Except Misuse Exploration :=
  match task.graph.blocks[f.block]? with
  | none => .error .outOfBounds
  | some block =>
    match block.instrs[f.index]? with
    | some (span, instr) => e.advance task f span instr
    | none => e.leave task f block.exit

/-- The work on the path that waits longest, or nothing if no path waits or if there are
    more paths than allowed. -/
def step (e : Exploration) (task : Task) : Except Misuse (Option Exploration) :=
  match e.waiting.pop? with
  | none => .ok none
  | some (f, waiting) =>
    if e.nextPath > task.config.maxPaths then .ok none
    else (resume { e with waiting } task f).map some

/-- The exploration with one path, at the entry. -/
def start : Exploration :=
  ⟨.push .empty ⟨FlowGraph.entry, 0, State.initial 0, []⟩, 1, [], .empty⟩

/-- All of the work, or the given number of steps. -/
def run (task : Task) : Nat → Exploration → Except Misuse Exploration
  | 0, e => .ok e
  | n + 1, e => do
    match ← e.step task with
    | some e => run task n e
    | none => return e

/-- The report at the end. Paths that still wait were too many. -/
def finish (e : Exploration) : Report :=
  { e.report with stats := { e.report.stats with
      explored := e.nextPath
      truncated := e.waiting.pop?.isSome } }

end Exploration

namespace Task

/-- The steps that suffice to come to each block once. -/
def size (task : Task) : Nat :=
  task.graph.blocks.foldr (fun b n => b.instrs.length + 1 + n) 0

/-- The steps that suffice for an exploration. -/
def bound (task : Task) : Nat :=
  task.config.maxPaths * ((task.graph.loopHeads.length * task.config.maxLoopShapes + 1) * task.size) + 1

/-- Explore all paths. -/
def explore (task : Task) : Except Misuse Report :=
  (Exploration.run task task.bound .start).map Exploration.finish

end Task

end HeapShape
