import HeapShape.Program.Scope

/-!
# Expressions as they are written

An expression is read before it is known what it is for. The tree that is read (a
`Formula`) has the operators of the language, in six levels of precedence, all of
them associating to the left. It is then taken for a pointer (`Formula.pointer`), for
a condition (`Formula.cond`) or for a scalar, of which only the paths matter.

* `Formula.readExpr`: reads an expression;
* `Formula.readPath`: reads an access path and finds its type.
-/

namespace HeapShape

/-- An operator between two expressions. -/
inductive BinaryOp where
  | or
  | and
  | eq
  | ne
  | lt
  | gt
  | le
  | ge
  | add
  | sub
  | mul
  | div
  | mod
  deriving DecidableEq, Inhabited

namespace BinaryOp

/-- The punctuation of an operator. -/
def mark : BinaryOp → String
  | .or => "||"
  | .and => "&&"
  | .eq => "=="
  | .ne => "!="
  | .lt => "<"
  | .gt => ">"
  | .le => "<="
  | .ge => ">="
  | .add => "+"
  | .sub => "-"
  | .mul => "*"
  | .div => "/"
  | .mod => "%"

/-- The operators by precedence, the loosest first. -/
def levels : List (List BinaryOp) :=
  [[.or], [.and], [.eq, .ne], [.lt, .gt, .le, .ge], [.add, .sub], [.mul, .div, .mod]]

end BinaryOp

/-- An operator in front of an expression. -/
inductive UnaryOp where
  | not
  | neg
  | compl
  deriving DecidableEq, Inhabited

namespace UnaryOp

/-- The punctuation of an operator. -/
def mark : UnaryOp → String
  | .not => "!"
  | .neg => "-"
  | .compl => "~"

/-- All operators. -/
def all : List UnaryOp := [.not, .neg, .compl]

end UnaryOp

/-- An expression as it is written. -/
inductive Formula where
  /-- A number. -/
  | number (value : Nat)
  /-- The null pointer. -/
  | null
  /-- An access path and its type. -/
  | path (p : Path) (ty : Ty)
  /-- An operator in front of an expression. -/
  | unary (op : UnaryOp) (e : Formula)
  /-- An operator between two expressions. -/
  | binary (op : BinaryOp) (lhs rhs : Formula)
  deriving DecidableEq, Inhabited

namespace Formula

open Reader

/-- The paths of an expression, from left to right. -/
def paths : Formula → List Path
  | .number _ => []
  | .null => []
  | .path p _ => [p]
  | .unary _ e => e.paths
  | .binary _ lhs rhs => lhs.paths ++ rhs.paths

/-- Whether an expression is plainly a pointer. -/
def isPointer : Formula → Bool
  | .null => true
  | .path _ (.ptr _) => true
  | _ => false

/-- The structure that a path points to. -/
def pointee? : Formula → Option StructId
  | .path _ ty => ty.pointee?
  | _ => none

/-- An expression as a pointer, to the structure `expected` if one is given. -/
def pointer (expected : Option StructId) (span : Span) : Formula → Except SourceError Expr
  | .null => .ok .null
  | .number value =>
    if value = 0 then .ok .null else .error (.malformed span (.numberAsPointer value))
  | .path p (.ptr id) =>
    if expected.all (· = id) then .ok (.path p)
    else .error (.malformed span (.otherPointerType p.text))
  | .path p .int => .error (.malformed span (.scalarAsPointer p.text))
  | .unary .. => .error (.unsupported span .pointerArithmetic)
  | .binary .. => .error (.unsupported span .pointerArithmetic)

/-- A comparison of two expressions, at least one of which is plainly a pointer. -/
def comparison (eq : Bool) (lhs rhs : Formula) (span : Span) : Except SourceError Cond := do
  let expected := lhs.pointee?.or rhs.pointee?
  return .cmp eq (← lhs.pointer expected span) (← rhs.pointer expected span)

/-- An expression as a condition. A pointer stands for the condition that it is not
    null, and what is no condition on pointers has an unknown outcome. -/
def cond (span : Span) : Formula → Except SourceError Cond
  | .binary .and lhs rhs => return .and (← lhs.cond span) (← rhs.cond span)
  | .binary .or lhs rhs => return .or (← lhs.cond span) (← rhs.cond span)
  | .unary .not e => return .not (← e.cond span)
  | .binary .eq lhs rhs =>
    if lhs.isPointer || rhs.isPointer then comparison true lhs rhs span
    else .ok (.unknown (lhs.paths ++ rhs.paths))
  | .binary .ne lhs rhs =>
    if lhs.isPointer || rhs.isPointer then comparison false lhs rhs span
    else .ok (.unknown (lhs.paths ++ rhs.paths))
  | .path p (.ptr _) => .ok (.notNull p)
  | e => .ok (.unknown e.paths)

/-- The fields of a path that has been read up to a value of type `ty`. -/
def readFields (scope : Scope) : Path × Ty → Reader (Path × Ty) :=
  fix fun more (p, ty) => do
    let here ← span
    if ← isPunct "[" then
      unsupported here .arrayIndexing
    else if ← isPunct "." then
      unsupported here .memberAccess
    else if ← eatPunct "->" then
      let (name, fieldSpan) ← expectIdent
      match ty with
      | .int => malformed fieldSpan (.notPointer p.text)
      | .ptr id =>
        match scope.decl? id with
        | none => malformed fieldSpan .incompleteStructure
        | some decl =>
          match decl.fields.zipIdx.find? (·.1.name = name) with
          | none => malformed fieldSpan (.noField decl.name name)
          | some (f, index) => more (p.field ⟨name, index⟩, f.ty)
    else
      return (p, ty)

/-- Read an access path and find its type. -/
def readPath (scope : Scope) : Reader (Path × Ty) := do
  let (var, varSpan) ← expectIdent
  match scope.var? var with
  | none => malformed varSpan (.undeclared var)
  | some ty => readFields scope (.ofVar var, ty)

/-- Read one of some operators if one comes next. -/
def eatOp? {Op : Type} (mark : Op → String) : List Op → Reader (Option Op)
  | [] => return none
  | op :: ops => do
    if ← eatPunct (mark op) then return some op else eatOp? mark ops

/-- Read an expression without operators, where `expr` reads one in parentheses. -/
def readPrimary (scope : Scope) (expr : Reader Formula) : Reader Formula := do
  let here ← span
  if ← isPunct "&" then
    unsupported here .addressOf
  else if ← isPunct "*" then
    unsupported here .starDereference
  else if ← eatPunct "(" then
    let e ← expr
    expectPunct ")"
    return e
  else
    match (← peek).kind with
    | .number value =>
      let _ ← next
      return .number value
    | .ident name =>
      if name = "null" ∨ name = "NULL" then
        let _ ← next
        return .null
      else if (← peekAt 1) = .punct "(" then
        unsupported here (.call name)
      else
        let (p, ty) ← readPath scope
        return .path p ty
    | found => malformed here (.expectedExpression found)

/-- Read an expression with the operators in front of it. -/
def readUnary (scope : Scope) (expr : Reader Formula) : Reader Formula :=
  fix (fun more (_ : Unit) => do
    match ← eatOp? UnaryOp.mark UnaryOp.all with
    | some op => return .unary op (← more ())
    | none => readPrimary scope expr) ()

/-- Read operands with some operators between them. The operators associate to the
    left. -/
def readChain (ops : List BinaryOp) (operand : Reader Formula) : Reader Formula := do
  fix (fun more lhs => do
    match ← eatOp? BinaryOp.mark ops with
    | some op => more (.binary op lhs (← operand))
    | none => return lhs) (← operand)

/-- Read an expression of the given levels of precedence, the loosest first. -/
def readLevels (operand : Reader Formula) : List (List BinaryOp) → Reader Formula
  | [] => operand
  | ops :: tighter => readChain ops (readLevels operand tighter)

/-- Read an expression. -/
def readExpr (scope : Scope) : Reader Formula :=
  fix (fun self (_ : Unit) => readLevels (readUnary scope (self ())) BinaryOp.levels) ()

/-- Read a condition in parentheses. -/
def readCond (scope : Scope) : Reader Cond := do
  expectPunct "("
  let here ← span
  let e ← readExpr scope
  expectPunct ")"
  e.cond here

end Formula

end HeapShape
