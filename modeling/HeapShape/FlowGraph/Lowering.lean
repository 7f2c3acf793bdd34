import HeapShape.FlowGraph

/-!
# From programs to flow graphs

The statements of a program are laid out one after the other at the end of an open
block. A choice closes the open block with a branch, lays out its two sides in blocks
of their own, and goes on in a block where both meet. A loop closes the open block,
lays out its test in a loop head and its body in a block that leads back to the head,
and goes on in a block behind the loop. A return closes the open block; what follows
it is laid out in a block that nothing leads to.

* `FlowGraph.ofProgram`: the flow graph of a program.
-/

namespace HeapShape

/-- A flow graph under construction. -/
structure FlowGraph.Draft where
  /-- The blocks. -/
  blocks : List Block
  /-- The open block, at the end of which statements are laid out. -/
  current : BlockId
  /-- The loop heads. -/
  loopHeads : List BlockId

namespace FlowGraph.Draft

/-- One empty block, which is open. -/
def empty : Draft := ⟨[⟨[], .return⟩], 0, []⟩

/-- The number of the next block. -/
def size (d : Draft) : Nat := d.blocks.length

/-- Add some empty blocks. -/
def grow (d : Draft) (count : Nat) : Draft :=
  { d with blocks := d.blocks ++ List.replicate count ⟨[], .return⟩ }

/-- Add an instruction to the open block. -/
def emit (d : Draft) (span : Span) (instr : Instr) : Draft :=
  { d with blocks := d.blocks.modify d.current fun b => { b with instrs := b.instrs ++ [(span, instr)] } }

/-- Close the open block with an exit, and open another one. -/
def close (d : Draft) (exit : Exit) (next : BlockId) : Draft :=
  { d with
    blocks := d.blocks.modify d.current fun b => { b with exit := exit }
    current := next }

/-- Kill the variables of a body, if it declares any. -/
def endScope (d : Draft) (body : List Stmt) (span : Span) : Draft :=
  match Stmt.locals body with
  | [] => d
  | vars => d.emit span (.kill vars)

mutual

/-- Lay out a statement. -/
def stmt (d : Draft) : Stmt → Draft
  | .decl span var ty init =>
    let d := d.emit span (.decl var ty)
    match init with
    | some e => d.emit span (.assign (.ofVar var) e)
    | none => d
  | .assign span lhs rhs => d.emit span (.assign lhs rhs)
  | .alloc span lhs ty => d.emit span (.alloc lhs ty)
  | .free span path => d.emit span (.free path)
  | .assert span cond => d.emit span (.assert cond)
  | .directive span directive => d.emit span (.directive directive)
  | .block span inner => (d.body inner).endScope inner span
  | .ite span cond thenBody elseBody =>
    let thenBlock := d.size
    let elseBlock := d.size + 1
    let join := d.size + 2
    let d := (d.grow 3).close (.branch span cond thenBlock elseBlock) thenBlock
    let d := ((d.body thenBody).endScope thenBody span).close (.goto join) elseBlock
    ((d.body elseBody).endScope elseBody span).close (.goto join) join
  | .loop span cond inner =>
    let head := d.size
    let start := d.size + 1
    let after := d.size + 2
    let d := (d.grow 3).close (.goto head) head
    let d := { d with loopHeads := d.loopHeads ++ [head] }
    let d := d.close (.branch span cond start after) start
    ((d.body inner).endScope inner span).close (.goto head) after
  | .return _ =>
    let next := d.size
    (d.grow 1).close .return next

/-- Lay out a body. -/
def body (d : Draft) : List Stmt → Draft
  | [] => d
  | s :: rest => (d.stmt s).body rest

end

/-- Close the open block with the end of the program. -/
def finish (d : Draft) : FlowGraph :=
  ⟨(d.close .return d.current).blocks, d.loopHeads⟩

end FlowGraph.Draft

/-- The flow graph of a program. The body of the program is no scope: its variables
    live to the end. -/
def FlowGraph.ofProgram (p : Program) : FlowGraph :=
  (FlowGraph.Draft.empty.body p.body).finish

end HeapShape
