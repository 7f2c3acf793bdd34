import HeapShape.Proofs.Placement
import Mathlib.Computability.Language
import Mathlib.Tactic.NoncommRing

/-!
# Traces of programs

A *trace* is what happens on the way through a program: the instructions that are reached, and the
sides that are taken at tests. The traces of a flow graph are read off its blocks and exits. Those of
a program are read off its statements: a loop, for instance, makes its test and its body any number of
times. Laying out a program does not change its traces.

Sets of traces are languages, so sequences, choices and loops are products, sums and stars. The loop
is solved by Arden's rule.

* `FlowGraph.traces`: the traces of a flow graph, from the entry to a return;
* `Stmt.completes`, `Stmt.returns`: the traces of a statement that goes on to the next one, and of
  one that ends the program;
* `FlowGraph.splits_stmt`: the traces from the point in front of a statement are those of the
  statement and then those from the point behind it;
* `Program.traces_ofProgram`: a flow graph has the traces of its program.
-/

namespace HeapShape

open scoped Computability

/-- What happens on the way through a program. -/
inductive Event where
  /-- An instruction is reached. -/
  | instr (span : Span) (instr : Instr)
  /-- A side is taken at a test. -/
  | test (span : Span) (cond : Cond) (side : Bool)

namespace Event

/-- The trace of some instructions. -/
def row (span : Span) (instrs : List Instr) : Language Event := {instrs.map (.instr span)}

/-- The trace of a test. -/
def tested (span : Span) (cond : Cond) (side : Bool) : Language Event := {[.test span cond side]}

theorem row_cons (span : Span) (instr : Instr) (rest : List Instr) :
    row span (instr :: rest) = row span [instr] * row span rest := by
  ext t
  rw [Language.mem_mul]
  constructor
  · rintro rfl
    exact ⟨_, rfl, _, rfl, rfl⟩
  · rintro ⟨_, rfl, _, rfl, rfl⟩
    rfl

theorem row_nil (span : Span) : row span [] = 1 := rfl

end Event

open Event (row tested)

/-! ### Traces of statements -/

namespace Stmt

mutual

/-- The traces of a statement that goes on to the next one. -/
def completes : Stmt → Language Event
  | .decl span var ty init => row span (declInstrs var ty init)
  | .assign span lhs rhs => row span [.assign lhs rhs]
  | .alloc span lhs ty => row span [.alloc lhs ty]
  | .free span path => row span [.free path]
  | .assert span cond => row span [.assert cond]
  | .directive span d => row span [.directive d]
  | .block span body => completesIn body * row span (scopeEnd body)
  | .ite span cond thenBody elseBody =>
    tested span cond true * (completesIn thenBody * row span (scopeEnd thenBody)) +
      tested span cond false * (completesIn elseBody * row span (scopeEnd elseBody))
  | .loop span cond body =>
    (tested span cond true * (completesIn body * row span (scopeEnd body)))∗ * tested span cond false
  | .return _ => 0

/-- The traces of a body that goes on behind it. -/
def completesIn : List Stmt → Language Event
  | [] => 1
  | s :: rest => s.completes * completesIn rest

end

mutual

/-- The traces of a statement that ends the program. -/
def returns : Stmt → Language Event
  | .decl .. | .assign .. | .alloc .. | .free .. | .assert .. | .directive .. => 0
  | .block _ body => returnsIn body
  | .ite span cond thenBody elseBody =>
    tested span cond true * returnsIn thenBody + tested span cond false * returnsIn elseBody
  | .loop span cond body =>
    (tested span cond true * (completesIn body * row span (scopeEnd body)))∗ *
      (tested span cond true * returnsIn body)
  | .return _ => 1

/-- The traces of a body that ends the program. -/
def returnsIn : List Stmt → Language Event
  | [] => 0
  | s :: rest => s.returns + s.completes * returnsIn rest

end

end Stmt

/-- The traces of a program. The program ends behind its body, or at a return. -/
def Program.traces (p : Program) : Language Event := Stmt.completesIn p.body + Stmt.returnsIn p.body

/-! ### Traces of flow graphs -/

namespace FlowGraph

variable {g : FlowGraph} {p q : Point} {span : Span} {instr : Instr} {exit : Exit} {cond : Cond}
  {target thenTarget elseTarget : BlockId}

/-- What happens on the way from a point to a return. -/
inductive Trace (g : FlowGraph) : Point → List Event → Prop
  | instr {p : Point} {span : Span} {instr : Instr} {t : List Event} (h : g.InstrAt p span instr)
      (ht : Trace g p.next t) : Trace g p (.instr span instr :: t)
  | goto {p : Point} {target : BlockId} {t : List Event} (h : g.ExitAt p (.goto target))
      (ht : Trace g (.first target) t) : Trace g p t
  | branch {p : Point} {span : Span} {cond : Cond} {thenTarget elseTarget : BlockId} {t : List Event}
      (h : g.ExitAt p (.branch span cond thenTarget elseTarget)) (side : Bool)
      (ht : Trace g (.first (if side then thenTarget else elseTarget)) t) :
      Trace g p (.test span cond side :: t)
  | return {p : Point} (h : g.ExitAt p .return) : Trace g p []

/-- The traces from a point to a return. -/
def tracesFrom (g : FlowGraph) (p : Point) : Language Event := {t | g.Trace p t}

/-- The traces of a flow graph. -/
def traces (g : FlowGraph) : Language Event := g.tracesFrom (.first entry)

theorem tracesFrom_instr (h : g.InstrAt p span instr) :
    g.tracesFrom p = row span [instr] * g.tracesFrom p.next := by
  ext t
  rw [Language.mem_mul]
  constructor
  · rintro (⟨h', ht⟩ | ⟨h', -⟩ | ⟨h', -, -⟩ | h')
    · obtain ⟨rfl, rfl⟩ := h.unique h'
      exact ⟨_, rfl, _, ht, rfl⟩
    all_goals exact (h.not_exitAt h').elim
  · rintro ⟨_, rfl, t, ht, rfl⟩
    exact .instr h ht

theorem tracesFrom_goto (h : g.ExitAt p (.goto target)) :
    g.tracesFrom p = g.tracesFrom (.first target) := by
  ext t
  constructor
  · rintro (⟨h', -⟩ | ⟨h', ht⟩ | ⟨h', -, -⟩ | h')
    · exact (h'.not_exitAt h).elim
    · obtain rfl := Exit.goto.inj (h.unique h')
      exact ht
    all_goals exact Exit.noConfusion (h.unique h')
  · exact fun ht => .goto h ht

theorem tracesFrom_branch (h : g.ExitAt p (.branch span cond thenTarget elseTarget)) :
    g.tracesFrom p = tested span cond true * g.tracesFrom (.first thenTarget) +
      tested span cond false * g.tracesFrom (.first elseTarget) := by
  ext t
  rw [Language.mem_add, Language.mem_mul, Language.mem_mul]
  constructor
  · rintro (⟨h', -⟩ | ⟨h', -⟩ | ⟨h', side, ht⟩ | h')
    · exact (h'.not_exitAt h).elim
    · exact Exit.noConfusion (h.unique h')
    · obtain ⟨rfl, rfl, rfl, rfl⟩ := Exit.branch.inj (h.unique h')
      rcases side with _ | _
      · exact .inr ⟨_, rfl, _, ht, rfl⟩
      · exact .inl ⟨_, rfl, _, ht, rfl⟩
    · exact Exit.noConfusion (h.unique h')
  · rintro (⟨_, rfl, t, ht, rfl⟩ | ⟨_, rfl, t, ht, rfl⟩)
    · exact .branch h true ht
    · exact .branch h false ht

theorem tracesFrom_return (h : g.ExitAt p .return) : g.tracesFrom p = 1 := by
  ext t
  rw [Language.mem_one]
  constructor
  · rintro (⟨h', -⟩ | ⟨h', -⟩ | ⟨h', -, -⟩ | -)
    · exact (h'.not_exitAt h).elim
    · exact Exit.noConfusion (h.unique h')
    · exact Exit.noConfusion (h.unique h')
    · rfl
  · rintro rfl
    exact .return h

theorem tracesFrom_row {instrs : List Instr} (h : g.Row span instrs p q) :
    g.tracesFrom p = row span instrs * g.tracesFrom q := by
  induction instrs generalizing p with
  | nil =>
    obtain rfl := h
    rw [Event.row_nil, one_mul]
  | cons instr rest ih =>
    obtain ⟨hinstr, hrest⟩ := h
    rw [tracesFrom_instr hinstr, ih hrest, ← mul_assoc, ← Event.row_cons]

/-- A test is not nothing. -/
theorem nil_notMem_tested_mul (side : Bool) (l : Language Event) : [] ∉ tested span cond side * l := by
  rw [Language.mem_mul]
  rintro ⟨_, rfl, t, -, h⟩
  cases h

/-- The traces from the point in front of some code: those that end the program there, and those that
    go on behind it. -/
def Splits (g : FlowGraph) (placed : Point → Point → Prop) (returns completes : Language Event) : Prop :=
  ∀ p q, placed p q → g.tracesFrom p = returns + completes * g.tracesFrom q

theorem Splits.row (span : Span) (instrs : List Instr) :
    g.Splits (g.Row span instrs) 0 (row span instrs) := by
  intro p q h
  rw [zero_add]
  exact tracesFrom_row h

theorem Splits.scope {body : List Stmt} {returns completes : Language Event}
    (h : g.Splits (Stmt.PlacedIn g body) returns completes) (span : Span) :
    g.Splits (Stmt.ScopePlaced g span body (Stmt.PlacedIn g body)) returns
      (completes * Event.row span (Stmt.scopeEnd body)) := by
  rintro p q ⟨m, hbody, hend⟩
  rw [h p m hbody, tracesFrom_row hend, mul_assoc]

mutual

theorem splits_stmt (g : FlowGraph) : ∀ s : Stmt, g.Splits (s.Placed g) s.returns s.completes
  | .decl span var ty init => .row span (Stmt.declInstrs var ty init)
  | .assign span lhs rhs => .row span [.assign lhs rhs]
  | .alloc span lhs ty => .row span [.alloc lhs ty]
  | .free span path => .row span [.free path]
  | .assert span cond => .row span [.assert cond]
  | .directive span d => .row span [.directive d]
  | .block span body => (splits_body g body).scope span
  | .ite span cond thenBody elseBody => by
    rintro p q ⟨thenBlock, elseBlock, join, thenEnd, elseEnd, hp, -, hthen, hthenEnd, helse, helseEnd, rfl⟩
    rw [tracesFrom_branch hp, (splits_body g thenBody).scope span _ _ hthen, tracesFrom_goto hthenEnd,
      (splits_body g elseBody).scope span _ _ helse, tracesFrom_goto helseEnd, Stmt.returns, Stmt.completes]
    noncomm_ring
  | .loop span cond body => by
    rintro p q ⟨head, start, after, bodyEnd, hp, htest, hbody, hbodyEnd, rfl⟩
    -- The traces from the head are a solution of an equation that Arden's rule solves.
    have hhead : g.tracesFrom (.first head) =
        tested span cond true * (Stmt.completesIn body * row span (Stmt.scopeEnd body)) *
            g.tracesFrom (.first head) +
          (tested span cond true * Stmt.returnsIn body +
            tested span cond false * g.tracesFrom (.first after)) := by
      conv_lhs => rw [tracesFrom_branch htest, (splits_body g body).scope span _ _ hbody,
        tracesFrom_goto hbodyEnd]
      noncomm_ring
    have hsolved := (Language.self_eq_mul_add_iff (nil_notMem_tested_mul true _)).1 hhead
    rw [tracesFrom_goto hp, hsolved, Stmt.returns, Stmt.completes]
    noncomm_ring
  | .return span => by
    intro p q h
    rw [tracesFrom_return h, Stmt.returns, Stmt.completes, zero_mul, add_zero]

theorem splits_body (g : FlowGraph) : ∀ body : List Stmt,
    g.Splits (Stmt.PlacedIn g body) (Stmt.returnsIn body) (Stmt.completesIn body)
  | [] => by
    rintro p q rfl
    rw [Stmt.returnsIn, Stmt.completesIn, zero_add, one_mul]
  | s :: rest => by
    rintro p q ⟨m, hs, hrest⟩
    rw [splits_stmt g s p m hs, splits_body g rest m q hrest, Stmt.returnsIn, Stmt.completesIn]
    noncomm_ring

end

end FlowGraph

/-- A flow graph has the traces of its program. -/
theorem Program.traces_ofProgram (p : Program) : (FlowGraph.ofProgram p).traces = p.traces := by
  obtain ⟨q, hplaced, hend⟩ := FlowGraph.exists_placed p
  rw [FlowGraph.traces, FlowGraph.splits_body _ p.body _ q hplaced, FlowGraph.tracesFrom_return hend,
    mul_one, add_comm]
  rfl

end HeapShape
