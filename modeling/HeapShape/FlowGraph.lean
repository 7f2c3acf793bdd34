import HeapShape.Program

/-!
# Flow graphs

A flow graph is the body of a program taken apart: blocks of instructions that run in
a row, each ended by an exit that says where to go on. Blocks are numbered from the
entry, which is number zero. The block that tests the condition of a loop is a *loop
head*; it holds no instructions.

A scope that ends kills the variables that it declared.
-/

namespace HeapShape

/-- The number of a block. -/
abbrev BlockId := Nat

/-- A step of a block. -/
inductive Instr where
  /-- Bring a variable into being. -/
  | decl (var : String) (ty : Ty)
  /-- Assign to a variable or a field. -/
  | assign (lhs : Path) (rhs : Expr)
  /-- Allocate a structure. -/
  | alloc (lhs : Path) (ty : StructId)
  /-- Release a structure. -/
  | free (path : Path)
  /-- Check a condition. -/
  | assert (cond : Cond)
  /-- Obey a directive. -/
  | directive (directive : Directive)
  /-- End the life of variables. -/
  | kill (vars : List String)
  deriving DecidableEq, Inhabited

/-- Where control goes at the end of a block. -/
inductive Exit where
  /-- To one block. -/
  | goto (target : BlockId)
  /-- To one of two blocks, by a condition. -/
  | branch (span : Span) (cond : Cond) (thenTarget elseTarget : BlockId)
  /-- Out of the program. -/
  | return
  deriving DecidableEq, Inhabited

/-- Instructions with their positions, and the exit behind them. -/
structure Block where
  /-- The instructions. -/
  instrs : List (Span × Instr)
  /-- The exit. -/
  exit : Exit
  deriving DecidableEq, Inhabited

/-- A flow graph. -/
structure FlowGraph where
  /-- The blocks, each at the place that its number says. -/
  blocks : List Block
  /-- The loop heads, in the order of the loops. -/
  loopHeads : List BlockId
  deriving DecidableEq, Inhabited

/-- An instruction as it is written. -/
def Instr.text : Instr → String
  | .decl var .int => "decl " ++ var ++ ": int"
  | .decl var (.ptr target) => "decl " ++ var ++ ": " ++ target.text ++ "*"
  | .assign lhs rhs => lhs.text ++ " = " ++ rhs.text
  | .alloc lhs ty => lhs.text ++ " = alloc(" ++ ty.text ++ ")"
  | .free path => "free(" ++ path.text ++ ")"
  | .assert cond => "assert " ++ cond.text
  | .directive d => d.text
  | .kill vars => "kill " ++ ", ".intercalate vars

/-- How a block is named. -/
def BlockId.text (id : BlockId) : String := "bb" ++ toString id

namespace Exit

/-- An exit as it is written. -/
def text : Exit → String
  | .goto target => "goto " ++ BlockId.text target
  | .branch _ cond thenTarget elseTarget =>
    "if " ++ cond.text ++ " then " ++ BlockId.text thenTarget ++ " else " ++ BlockId.text elseTarget
  | .return => "return"

/-- The blocks that an exit leads to. -/
def targets : Exit → List BlockId
  | .goto target => [target]
  | .branch _ _ thenTarget elseTarget => [thenTarget, elseTarget]
  | .return => []

end Exit

namespace FlowGraph

/-- The block where a program starts. -/
def entry : BlockId := 0

/-- Whether a block is a loop head. -/
def isLoopHead (g : FlowGraph) (id : BlockId) : Bool := g.loopHeads.contains id

/-- The lines of the block with a number. -/
def blockLines (g : FlowGraph) (block : Block) (id : BlockId) : List String :=
  ["", BlockId.text id ++ ":" ++ (if g.isLoopHead id then " (loop head)" else "")] ++
    block.instrs.map (fun (_, instr) => "  " ++ instr.text) ++ ["  " ++ block.exit.text]

/-- A flow graph as it is written. -/
def text (g : FlowGraph) : String :=
  let lines := ("CFG (entry: " ++ BlockId.text entry ++ "):") ::
    g.blocks.zipIdx.flatMap fun (block, id) => g.blockLines block id
  String.join (lines.map (· ++ "\n"))

end FlowGraph

end HeapShape
