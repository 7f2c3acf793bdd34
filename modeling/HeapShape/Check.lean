import HeapShape.Exploration
import HeapShape.FlowGraph.Lowering
import HeapShape.Program.Reader

/-!
# Checking programs

* `Program.check`: the report on a program;
* `Program.checkSource`: the report on the program that a text is.
-/

namespace HeapShape

namespace Program

/-- Follow all paths of a program and judge its directives. -/
def check (p : Program) (config : Config) : Except Misuse Report :=
  Task.explore ⟨p.structs, FlowGraph.ofProgram p, config⟩

/-- Read a program and check it. -/
def checkSource (source : String) (config : Config) : Except SourceError (Except Misuse Report) := do
  return (← Program.parse source).check config

end Program

end HeapShape
