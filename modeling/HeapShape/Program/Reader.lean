import HeapShape.Directive.Reader
import HeapShape.Program.Formula

/-!
# Reading programs

A program is read from left to right in one pass: structures, names of types and
global variables in any order, and one main function. Names are resolved and types
are checked on the way, against what has been declared so far (`Scope`).

* `Program.parse`: the program that a text spells, or why it is none.
-/

namespace HeapShape

/-- A computation that reads a program: it reads tokens and collects declarations. -/
abbrev Parser := StateT Scope Reader

namespace Parser

open Reader Formula

/-- A parser that calls itself, each time after reading a token. -/
def fix {α β : Type} (body : (α → Parser β) → α → Parser β) (a : α) : Parser β := fun scope =>
  Reader.fix (fun self (arg : α × Scope) => body (fun a' s' => self (a', s')) arg.1 arg.2) (a, scope)

/-! ### Types -/

/-- Read the identifiers that come next as long as they are among some words. -/
def skipWords (words : List String) : Reader Unit :=
  Reader.fix (fun more (_ : Unit) => do
    match (← peek).kind with
    | .ident word =>
      if words.contains word then
        let _ ← next
        more ()
      else
        return ()
    | _ => return ()) ()

/-- The words that may stand in front of a type. -/
def qualifiers : List String := ["volatile", "const"]

/-- The words that make up a scalar type. -/
def scalarWords : List String := ["int", "long", "short", "char", "unsigned", "signed"]

/-- The words that start a type. -/
def typeWords : List String := scalarWords ++ ["void", "struct"] ++ qualifiers

/-- The words that start a statement that is left out. -/
def unsupportedWords : List String :=
  ["for", "do", "switch", "case", "default", "goto", "break", "continue"]

/-- Whether a type comes next. -/
def atType : Parser Bool := do
  match (← peek).kind with
  | .ident name => return typeWords.contains name || ((← get).alias? name).isSome
  | _ => return false

/-- Whether a type in parentheses comes next. -/
def atCast : Parser Bool := do
  if ← isPunct "(" then
    match ← peekAt 1 with
    | .ident name => return name = "struct" || ((← get).alias? name).isSome
    | _ => return false
  else
    return false

/-- Read a base type with its qualifiers, if one comes next. -/
def baseType? : Parser (Option BaseType) := do
  skipWords qualifiers
  match (← peek).kind with
  | .ident name =>
    if name = "void" then
      let _ ← next
      return some .void
    else if scalarWords.contains name then
      skipWords scalarWords
      return some .int
    else if name = "struct" then
      let _ ← next
      let (tag, tagSpan) ← expectIdent
      let id ← modifyGet (·.mention tag tagSpan)
      return some (.struct id)
    else
      match (← get).alias? name with
      | some base =>
        let _ ← next
        return some base
      | none => return none
  | _ => return none

/-- Read stars and count them. -/
def stars : Reader Nat :=
  Reader.fix (fun more n => do
    if ← eatPunct "*" then more (n + 1) else return n) 0

/-- Read the names of fields of one type and add them to the fields read before. -/
def fieldNames (base : BaseType) : List FieldDecl → Reader (List FieldDecl) :=
  Reader.fix fun more fields => do
    let n ← stars
    let (name, nameSpan) ← expectIdent
    if ← isPunct "[" then
      unsupported nameSpan .arrayField
    else
      let ty ← base.withStars n nameSpan
      if fields.any (·.name = name) then
        malformed nameSpan (.duplicateField name)
      else
        let fields := fields ++ [⟨name, ty⟩]
        if ← eatPunct "," then more fields else return fields

/-- Read the fields of a structure in braces. -/
def structFields : Parser (List FieldDecl) := do
  expectPunct "\x7b"
  fix (fun more fields => do
    if ← eatPunct "\x7d" then
      return fields
    else
      let here ← span
      match ← baseType? with
      | none => malformed here (.expectedFieldType (← peek).kind)
      | some base =>
        let fields ← fieldNames base fields
        expectPunct ";"
        more fields) []

/-- Define the structure with a tag. -/
def defineStruct (tag : String) (fields : List FieldDecl) (span : Span) : Parser StructId := do
  let id ← modifyGet (·.mention tag span)
  if ((← get).decl? id).isSome then
    malformed span (.redefinition tag)
  else
    modify (·.define id fields)
    return id

/-- Give a name to a type. -/
def nameType (base : BaseType) (stars : Nat) (name : String) (span : Span) : Parser Unit := do
  let aliased ← base.aliased stars span
  expectPunct ";"
  modify fun scope => { scope with aliases := (name, aliased) :: scope.aliases }

/-- Read the definition of a type behind its keyword. A structure without a tag takes
    the name of the type for one. -/
def typeDefinition : Parser Unit := do
  let here ← span
  let brace := Token.Kind.punct "\x7b"
  if (← isIdent "struct") && ((← peekAt 1) = brace || (← peekAt 2) = brace) then
    let _ ← next
    match (← peek).kind with
    | .ident tag =>
      let (_, tagSpan) ← expectIdent
      let fields ← structFields
      let id ← defineStruct tag fields tagSpan
      let n ← stars
      let (name, nameSpan) ← expectIdent
      nameType (.struct id) n name nameSpan
    | _ =>
      let fields ← structFields
      let n ← stars
      let (name, nameSpan) ← expectIdent
      let id ← defineStruct name fields nameSpan
      nameType (.struct id) n name nameSpan
  else
    match ← baseType? with
    | none => malformed here .expectedAliasedType
    | some base =>
      let n ← stars
      let (name, nameSpan) ← expectIdent
      nameType base n name nameSpan

/-! ### Assignments and declarations -/

/-- What stands to the right of an assignment. -/
inductive Rhs where
  /-- An expression. -/
  | expr (e : Expr)
  /-- An allocation. -/
  | alloc (ty : StructId)

/-- Read an allocation: of a structure, or of as many bytes as one has. -/
def allocation : Parser StructId := do
  let (word, _) ← expectIdent
  expectPunct "("
  let sized := word = "malloc"
  if sized then
    if ← eatIdent "sizeof" then expectPunct "(" else unsupported (← span) .unsizedAllocation
  let here ← span
  match ← baseType? with
  | none => malformed here .expectedStructure
  | some (.struct id) =>
    if ← isPunct ")" then
      expectPunct ")"
      if sized then expectPunct ")"
      return id
    else
      unsupported here .nonStructureAllocation
  | some _ => unsupported here .nonStructureAllocation

/-- Read a cast to a type, if one comes next. -/
def cast (ty : Ty) : Parser Unit := do
  let here ← span
  if ← atCast then
    let _ ← next
    match ← baseType? with
    | none => malformed here .expectedType
    | some base =>
      let n ← stars
      expectPunct ")"
      if (← base.withStars n here) = ty then return () else malformed here .castChangesType
  else
    return ()

/-- Read what is assigned to a target of a type. -/
def rhs (ty : Ty) : Parser Rhs := do
  let here ← span
  match ty with
  | .int =>
    let e ← readExpr (← get)
    return .expr (.scalar e.paths)
  | .ptr expected =>
    cast ty
    if (← isIdent "alloc") || (← isIdent "malloc") then
      let target ← allocation
      if target = expected then return .alloc target else malformed here .allocatesOther
    else
      let e ← readExpr (← get)
      return .expr (← e.pointer (some expected) here)

/-- Declare a variable in the innermost scope. -/
def declare (name : String) (ty : Ty) (span : Span) : Parser Unit := do
  match (← get).declare? name ty with
  | some scope => set scope
  | none => malformed span (.redeclaration name)

/-- Read the rest of one declared variable, up to the comma or semicolon behind it. -/
def declarator (base : BaseType) (stars : Nat) (name : String) (span : Span) :
    Parser (List Stmt) := do
  if ← isPunct "[" then
    unsupported span .array
  else
    let ty ← base.withStars stars span
    declare name ty span
    if ← eatPunct "=" then
      match ← rhs ty with
      | .expr e => return [.decl span name ty (some e)]
      | .alloc target => return [.decl span name ty none, .alloc span (.ofVar name) target]
    else
      return [.decl span name ty none]

/-- Read declared variables of one base type, from behind the name of the first. -/
def declarators (base : BaseType) (stars : Nat) (name : String) (span : Span) :
    Parser (List Stmt) :=
  fix (fun more (arg : List Stmt × Nat × String × Span) => do
    let (read, n, name, nameSpan) := arg
    let read := read ++ (← declarator base n name nameSpan)
    if ← eatPunct "," then
      let n ← Parser.stars
      let (name, nameSpan) ← expectIdent
      more (read, n, name, nameSpan)
    else
      expectPunct ";"
      return read) ([], stars, name, span)

/-- The assignments that change a scalar by its own value. The flag tells whether an
    operand follows. -/
def updates : List (String × Bool) := [("++", false), ("--", false), ("+=", true), ("-=", true)]

/-- Read an assignment to a path, without its semicolon. -/
def assignment : Parser (List Stmt) := do
  let here ← span
  match (← peek).kind, ← peekAt 1 with
  | .ident name, .punct "(" => unsupported here (.call name)
  | _, _ =>
    let (lhs, ty) ← readPath (← get)
    match ← eatOp? Prod.fst updates with
    | some (_, operand) =>
      if ty = .int then
        let read ← if operand then pure (← readExpr (← get)).paths else pure []
        return [.assign here lhs (.scalar (lhs :: read))]
      else
        unsupported here .pointerArithmetic
    | none =>
      expectPunct "="
      match ← rhs ty with
      | .expr e => return [.assign here lhs e]
      | .alloc target => return [.alloc here lhs target]

/-! ### Statements -/

/-- Run a parser in an inner scope. -/
def inScope {α : Type} (p : Parser α) : Parser α := do
  modify Scope.push
  let a ← p
  modify Scope.pop
  return a

/-- Read statements in braces, where `statement` reads one. -/
def block (statement : Parser (List Stmt)) : Parser (List Stmt) := do
  expectPunct "\x7b"
  inScope (fix (fun more body => do
    if ← eatPunct "\x7d" then
      return body
    else if ← atEnd then
      malformed (← span) .unclosedBlock
    else
      more (body ++ (← statement))) [])

/-- Read the body of a choice or a loop: a block or one statement, in its own scope. -/
def body (statement : Parser (List Stmt)) : Parser (List Stmt) := do
  if ← isPunct "\x7b" then block statement else inScope statement

/-- Read the argument of a release. -/
def freed : Parser Path := do
  expectPunct "("
  let here ← span
  let (p, ty) ← readPath (← get)
  if ty.isPtr then
    expectPunct ")"
    expectPunct ";"
    return p
  else
    malformed here (.notPointer p.text)

/-- Read the argument of a directive statement. Its text starts one column behind the
    quote. -/
def directive : Parser Directive := do
  expectPunct "("
  let token ← next
  match token.kind with
  | .quoted text =>
    let d ← Directive.parse token.span.right text
    expectPunct ")"
    expectPunct ";"
    return d
  | _ => malformed token.span .expectedDirective

/-- Read the statement that starts with a word at a position, where `statement` reads
    an inner one. -/
def statementFrom (statement : Parser (List Stmt)) (here : Span) (word : String) :
    Parser (List Stmt) := do
  if unsupportedWords.contains word then
    unsupported here (.statement word)
  else if word = "if" then
    let _ ← next
    let cond ← readCond (← get)
    let thenBody ← body statement
    let elseBody ← if ← eatIdent "else" then body statement else pure []
    return [.ite here cond thenBody elseBody]
  else if word = "while" then
    let _ ← next
    let cond ← readCond (← get)
    return [.loop here cond (← body statement)]
  else if word = "return" then
    let _ ← next
    if ← eatPunct ";" then return [.return here] else unsupported here .returnValue
  else if word = "free" then
    let _ ← next
    return [.free here (← freed)]
  else if word = "assert" then
    let _ ← next
    let cond ← readCond (← get)
    expectPunct ";"
    return [.assert here cond]
  else if word = "_memcad" then
    let _ ← next
    return [.directive here (← directive)]
  else if ← atType then
    match ← baseType? with
    | none => malformed here .expectedType
    | some base =>
      let n ← stars
      let (name, nameSpan) ← expectIdent
      declarators base n name nameSpan
  else
    let read ← assignment
    expectPunct ";"
    return read

/-- Read a statement. A declaration may make several, and a lone semicolon none. -/
def statement : Parser (List Stmt) :=
  fix (fun self (_ : Unit) => do
    let here ← span
    if ← isPunct "\x7b" then
      return [.block here (← block (self ()))]
    else if ← eatPunct ";" then
      return []
    else
      match (← peek).kind with
      | .ident word => statementFrom (self ()) here word
      | found => malformed here (.expectedStatement found)) ()

/-! ### Programs -/

/-- What the top level of a program has given so far. -/
structure TopLevel where
  /-- The declarations of global variables. -/
  globals : List Stmt
  /-- The body of the main function. -/
  main : Option (List Stmt)

/-- Read the main function behind its name, or refuse another function. -/
def mainFunction (top : TopLevel) (name : String) (span : Span) : Parser TopLevel := do
  if name ≠ "main" then
    unsupported span (.function name)
  else if top.main.isSome then
    malformed span .duplicateMain
  else
    expectPunct "("
    let _ ← eatIdent "void"
    expectPunct ")"
    return { top with main := some (← block statement) }

/-- Read one declaration at the top level. -/
def declaration (top : TopLevel) : Parser TopLevel := do
  let here ← span
  if ← eatIdent "typedef" then
    typeDefinition
    return top
  else if (← isIdent "struct") && (← peekAt 2) = .punct "\x7b" then
    let _ ← next
    let (tag, tagSpan) ← expectIdent
    let fields ← structFields
    let _ ← defineStruct tag fields tagSpan
    expectPunct ";"
    return top
  else
    match ← baseType? with
    | none => malformed here (.expectedDeclaration (← peek).kind)
    | some base =>
      let n ← stars
      let (name, nameSpan) ← expectIdent
      if ← isPunct "(" then
        mainFunction top name nameSpan
      else
        return { top with globals := top.globals ++ (← declarators base n name nameSpan) }

/-- Read the declarations of a program up to the end of the input. -/
def topLevel : Parser TopLevel :=
  fix (fun more top => do
    if ← atEnd then return top else more (← declaration top)) ⟨[], none⟩

/-- Read a program. -/
def program : Parser Program := do
  let top ← topLevel
  let structs ← (← get).table
  match top.main with
  | some body => return ⟨structs, top.globals ++ body⟩
  | none => malformed (← span) .missingMain

end Parser

/-- The program that a text spells. -/
def Program.parse (source : String) : Except SourceError Program := do
  let tokens ← Tokens.scan .start source
  (Parser.program.run' .empty).run' (.ofTokens tokens)

end HeapShape
