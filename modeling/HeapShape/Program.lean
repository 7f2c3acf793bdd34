import HeapShape.Directive
import HeapShape.Misuse
import HeapShape.Source.Span

/-!
# Programs

A program is a table of structures and the body of its main function, with the
declarations of the global variables in front. Names are resolved: an access path
carries the place of every field it goes through.

Only pointers are followed. A scalar computation keeps the paths that it reads,
since reading them may go wrong, and a condition on scalars has an unknown outcome.

* `Program.text`: a program in the form that people read. A field that points to a
  structure that the table does not have cannot be written.
-/

namespace HeapShape

/-- One step of an access path: a field by name and by place. -/
structure FieldRef where
  /-- The name of the field. -/
  name : String
  /-- Its place in the structure. -/
  index : Nat
  deriving DecidableEq, Inhabited

/-- An access path: a variable and the fields followed from it. -/
structure Path where
  /-- The variable. -/
  var : String
  /-- The fields, in the order in which they are followed. -/
  fields : List FieldRef
  deriving DecidableEq, Inhabited

namespace Path

/-- The path that is a variable. -/
def ofVar (var : String) : Path := ⟨var, []⟩

/-- The path one field further. -/
def field (p : Path) (f : FieldRef) : Path := { p with fields := p.fields ++ [f] }

/-- The path without its last field, and that field. -/
def splitLast? (p : Path) : Option (Path × FieldRef) :=
  p.fields.getLast?.map fun last => (⟨p.var, p.fields.dropLast⟩, last)

/-- A path as it is written. -/
def text (p : Path) : String :=
  p.var ++ String.join (p.fields.map fun f => "->" ++ f.name)

end Path

/-- The right-hand side of an assignment, or a side of a comparison. -/
inductive Expr where
  /-- The null pointer. -/
  | null
  /-- What a path holds. -/
  | path (p : Path)
  /-- A scalar computed from what some paths hold. -/
  | scalar (paths : List Path)
  deriving DecidableEq, Inhabited

namespace Expr

/-- The paths that an expression reads, from left to right. -/
def paths : Expr → List Path
  | .null => []
  | .path p => [p]
  | .scalar ps => ps

/-- An expression as it is written. -/
def text : Expr → String
  | .null => "null"
  | .path p => p.text
  | .scalar [] => "<int>"
  | .scalar ps => "<int:" ++ String.join (ps.map fun p => " " ++ p.text) ++ ">"

end Expr

/-- A condition. -/
inductive Cond where
  /-- A condition on scalars, with the paths that it reads. -/
  | unknown (paths : List Path)
  /-- A comparison of pointers, for equality or for difference. -/
  | cmp (eq : Bool) (lhs rhs : Expr)
  /-- A negation. -/
  | not (c : Cond)
  /-- A conjunction, whose second part is evaluated only if the first holds. -/
  | and (c d : Cond)
  /-- A disjunction, whose second part is evaluated only if the first fails. -/
  | or (c d : Cond)
  deriving DecidableEq, Inhabited

namespace Cond

/-- The condition that a path holds null. -/
def isNull (p : Path) : Cond := .cmp true (.path p) .null

/-- The condition that a path does not hold null. -/
def notNull (p : Path) : Cond := .cmp false (.path p) .null

/-- Whether the outcome hangs on a scalar. -/
def hasUnknown : Cond → Bool
  | .unknown _ => true
  | .cmp .. => false
  | .not c => c.hasUnknown
  | .and c d => c.hasUnknown || d.hasUnknown
  | .or c d => c.hasUnknown || d.hasUnknown

/-- The paths that a condition mentions, from left to right. -/
def paths : Cond → List Path
  | .unknown ps => ps
  | .cmp _ lhs rhs => lhs.paths ++ rhs.paths
  | .not c => c.paths
  | .and c d => c.paths ++ d.paths
  | .or c d => c.paths ++ d.paths

/-- A condition as it is written. -/
def text : Cond → String
  | .unknown _ => "*"
  | .cmp eq lhs rhs => lhs.text ++ (if eq then " == " else " != ") ++ rhs.text
  | .not c => "!(" ++ c.text ++ ")"
  | .and c d => "(" ++ c.text ++ " && " ++ d.text ++ ")"
  | .or c d => "(" ++ c.text ++ " || " ++ d.text ++ ")"

end Cond

/-- A statement and its position. -/
inductive Stmt where
  /-- A declaration of a variable. -/
  | decl (span : Span) (var : String) (ty : Ty) (init : Option Expr)
  /-- An assignment to a variable or a field. -/
  | assign (span : Span) (lhs : Path) (rhs : Expr)
  /-- An allocation of a structure. -/
  | alloc (span : Span) (lhs : Path) (ty : StructId)
  /-- A release of a structure. -/
  | free (span : Span) (path : Path)
  /-- A choice between two bodies. -/
  | ite (span : Span) (cond : Cond) (thenBody elseBody : List Stmt)
  /-- A loop. -/
  | loop (span : Span) (cond : Cond) (body : List Stmt)
  /-- A body in a scope of its own. -/
  | block (span : Span) (body : List Stmt)
  /-- A condition that should hold. -/
  | assert (span : Span) (cond : Cond)
  /-- A directive. -/
  | directive (span : Span) (directive : Directive)
  /-- The end of the main function. -/
  | return (span : Span)
  deriving Inhabited

namespace Stmt

/-- The variable that a statement declares. -/
def declared? : Stmt → Option String
  | .decl _ var _ _ => some var
  | _ => none

/-- The variables that a body declares itself, not in an inner scope. -/
def locals (body : List Stmt) : List String := body.filterMap declared?

/-- The space in front of a line. -/
def indentation (depth : Nat) : String := String.join (List.replicate depth "  ")

mutual

/-- The lines of a statement. -/
def lines (depth : Nat) : Stmt → List String
  | .decl _ var _ (some e) => [indentation depth ++ "decl " ++ var ++ " = " ++ e.text ++ ";"]
  | .decl _ var _ none => [indentation depth ++ "decl " ++ var ++ ";"]
  | .assign _ lhs rhs => [indentation depth ++ lhs.text ++ " = " ++ rhs.text ++ ";"]
  | .alloc _ lhs ty => [indentation depth ++ lhs.text ++ " = alloc(" ++ ty.text ++ ");"]
  | .free _ path => [indentation depth ++ "free(" ++ path.text ++ ");"]
  | .ite _ cond thenBody elseBody =>
    (indentation depth ++ "if (" ++ cond.text ++ ") \x7b") :: bodyLines (depth + 1) thenBody ++
      (if elseBody.isEmpty then []
        else (indentation depth ++ "\x7d else \x7b") :: bodyLines (depth + 1) elseBody) ++
      [indentation depth ++ "\x7d"]
  | .loop _ cond body =>
    (indentation depth ++ "while (" ++ cond.text ++ ") \x7b") :: bodyLines (depth + 1) body ++
      [indentation depth ++ "\x7d"]
  | .block _ body =>
    (indentation depth ++ "\x7b") :: bodyLines (depth + 1) body ++ [indentation depth ++ "\x7d"]
  | .assert _ cond => [indentation depth ++ "assert(" ++ cond.text ++ ");"]
  | .directive _ d => [indentation depth ++ d.text ++ ";"]
  | .return _ => [indentation depth ++ "return;"]

/-- The lines of a body. -/
def bodyLines (depth : Nat) : List Stmt → List String
  | [] => []
  | s :: body => s.lines depth ++ bodyLines depth body

end

end Stmt

/-- A program. -/
structure Program where
  /-- The structures. -/
  structs : Structs
  /-- The body of the main function, global declarations first. -/
  body : List Stmt
  deriving Inhabited

namespace Program

/-- A field in the declaration of its structure. -/
def fieldText (structs : Structs) (f : FieldDecl) : Except Misuse String :=
  match f.ty with
  | .int => .ok (" int " ++ f.name ++ ";")
  | .ptr target =>
    match structs.decl? target with
    | some decl => .ok (" " ++ decl.name ++ " *" ++ f.name ++ ";")
    | none => .error .outOfBounds

/-- The line that declares the structure at a place. -/
def structLine (structs : Structs) (decl : StructDecl) (index : Nat) : Except Misuse String := do
  let fields ← decl.fields.mapM (fieldText structs)
  return "struct " ++ decl.name ++ " /* #" ++ toString index ++ " */ \x7b" ++ String.join fields ++
    " \x7d"

/-- A program as it is written, one line for each structure and statement. -/
def text (p : Program) : Except Misuse String := do
  let structs ← p.structs.zipIdx.mapM fun (decl, index) => structLine p.structs decl index
  let lines := structs ++ ["main \x7b"] ++ Stmt.bodyLines 1 p.body ++ ["\x7d"]
  return String.join (lines.map (· ++ "\n"))

end Program

end HeapShape
