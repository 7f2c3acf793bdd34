import HeapShape.Token

/-!
# What is wrong with a source text

A program or directive that cannot be read is refused with a position and a
cause. A cause is either *malformed* text, which is no program at all, or an
*unsupported* construct, which the language of programs leaves out on purpose.
The wording of every cause is in `Malformed.message` and `Construct.message`.
-/

namespace HeapShape

/-- Why a text is no program or directive. -/
inductive Malformed where
  /-- A block comment that never ends. -/
  | unterminatedComment
  /-- A quoted text that its line does not end. -/
  | unterminatedText
  /-- A word that starts with a digit and is no number. -/
  | invalidNumber (word : String)
  /-- A character that starts no token. -/
  | unexpectedCharacter (c : Char)
  /-- Something else in place of a punctuation mark. -/
  | expectedPunct (mark : String) (found : Token.Kind)
  /-- Something else in place of an identifier. -/
  | expectedIdent (found : Token.Kind)
  /-- Something else in place of the inclusion sign of a directive. -/
  | expectedInclusion
  /-- A predicate that the catalog does not have. -/
  | unknownPredicate (name : String)
  /-- A directive that does not exist. -/
  | unknownDirective (name : String)
  /-- Something after the end of a directive. -/
  | trailingInput
  /-- Two names without a separator in a parameter block. -/
  | expectedSeparator
  /-- A parameter block with more slots than predicates can have. -/
  | tooManySlots
  /-- A parameter block that does not fit its predicate. -/
  | arity (predicate : String) (ptrs sets gotPtrs gotSets : Nat)
  /-- Something else at the top level of a program. -/
  | expectedDeclaration (found : Token.Kind)
  /-- A second main function. -/
  | duplicateMain
  /-- A structure that is only mentioned. -/
  | neverDefined (tag : String)
  /-- A program without a main function. -/
  | missingMain
  /-- A second definition of a structure. -/
  | redefinition (tag : String)
  /-- A type definition without a type. -/
  | expectedAliasedType
  /-- Something else in place of the type of a field. -/
  | expectedFieldType (found : Token.Kind)
  /-- A second field of the same name. -/
  | duplicateField (name : String)
  /-- A second variable of the same name in one scope. -/
  | redeclaration (name : String)
  /-- A block that the end of the input cuts off. -/
  | unclosedBlock
  /-- Something else in place of a statement. -/
  | expectedStatement (found : Token.Kind)
  /-- A scalar in place of a pointer. -/
  | notPointer (path : String)
  /-- A directive statement without its text. -/
  | expectedDirective
  /-- Something else in place of a type. -/
  | expectedType
  /-- A cast that changes the type of a pointer. -/
  | castChangesType
  /-- An allocation of another structure than the pointer's. -/
  | allocatesOther
  /-- An allocation without a structure. -/
  | expectedStructure
  /-- A variable that is not in scope. -/
  | undeclared (name : String)
  /-- A field of a structure that is not defined yet. -/
  | incompleteStructure
  /-- A field that the structure does not have. -/
  | noField (tag field : String)
  /-- Something else in place of an expression. -/
  | expectedExpression (found : Token.Kind)
  /-- A number other than zero in place of a pointer. -/
  | numberAsPointer (value : Nat)
  /-- A pointer to another structure than the expected one. -/
  | otherPointerType (path : String)
  /-- A scalar path in place of a pointer. -/
  | scalarAsPointer (path : String)
  /-- A reader that goes on without reading. -/
  | stalled
  deriving DecidableEq

/-- A construct that programs may not use. -/
inductive Construct where
  /-- A line for the preprocessor. -/
  | preprocessor
  /-- A character between single quotes. -/
  | characterLiteral
  /-- A function other than the main one. -/
  | function (name : String)
  /-- An object of a structure type. -/
  | structureValue
  /-- An object without a type. -/
  | voidObject
  /-- A pointer to a number. -/
  | pointerToScalar
  /-- A pointer to a pointer. -/
  | pointerToPointer
  /-- A type of pointers to anything but a structure. -/
  | pointerToPointerType
  /-- A field that is an array. -/
  | arrayField
  /-- A variable that is an array. -/
  | array
  /-- A statement by its keyword. -/
  | statement (keyword : String)
  /-- A result of the main function. -/
  | returnValue
  /-- A call of a function. -/
  | call (name : String)
  /-- A dereference of a pointer as a whole. -/
  | starDereference
  /-- Arithmetic on pointers. -/
  | pointerArithmetic
  /-- An allocation by a number of bytes. -/
  | unsizedAllocation
  /-- An allocation of anything but a structure. -/
  | nonStructureAllocation
  /-- An element of an array. -/
  | arrayIndexing
  /-- A field of a structure value. -/
  | memberAccess
  /-- The address of a variable. -/
  | addressOf
  deriving DecidableEq

/-- Why a source text is refused. -/
inductive SourceError.Cause where
  /-- The text is no program or directive. -/
  | malformed (m : Malformed)
  /-- The text uses a construct that is left out. -/
  | unsupported (c : Construct)
  deriving DecidableEq

/-- A refusal of a source text. -/
structure SourceError where
  /-- Where the trouble is. -/
  span : Span
  /-- What the trouble is. -/
  cause : SourceError.Cause
  deriving DecidableEq

/-- The wording of a malformed text. -/
def Malformed.message : Malformed → String
  | .unterminatedComment => "unterminated comment"
  | .unterminatedText => "unterminated string"
  | .invalidNumber word => "invalid number `" ++ word ++ "`"
  | .unexpectedCharacter c => "unexpected character `" ++ c.toString ++ "`"
  | .expectedPunct mark found => "expected `" ++ mark ++ "`, found " ++ found.describe
  | .expectedIdent found => "expected identifier, found " ++ found.describe
  | .expectedInclusion => "expected `$sub`"
  | .unknownPredicate name => "unknown predicate `" ++ name ++ "`"
  | .unknownDirective name => "unknown directive `" ++ name ++ "`"
  | .trailingInput => "trailing input after directive"
  | .expectedSeparator => "expected `,`, `|` or `]` in parameter block"
  | .tooManySlots => "parameter block has more than three slots"
  | .arity predicate ptrs sets gotPtrs gotSets =>
    predicate ++ " takes " ++ toString ptrs ++ " pointer and " ++ toString sets ++
      " set parameter(s), got " ++ toString gotPtrs ++ " and " ++ toString gotSets
  | .expectedDeclaration found => "expected declaration, found " ++ found.describe
  | .duplicateMain => "duplicate definition of `main`"
  | .neverDefined tag => "struct `" ++ tag ++ "` is never defined"
  | .missingMain => "missing `main` function"
  | .redefinition tag => "redefinition of struct `" ++ tag ++ "`"
  | .expectedAliasedType => "expected type after `typedef`"
  | .expectedFieldType found => "expected field type, found " ++ found.describe
  | .duplicateField name => "duplicate field `" ++ name ++ "`"
  | .redeclaration name => "redeclaration of `" ++ name ++ "`"
  | .unclosedBlock => "unexpected end of input, expected `\x7d`"
  | .expectedStatement found => "expected statement, found " ++ found.describe
  | .notPointer path => "`" ++ path ++ "` is not a pointer"
  | .expectedDirective => "expected directive string"
  | .expectedType => "expected type"
  | .castChangesType => "cast to a different pointer type"
  | .allocatesOther => "allocation of a different structure type"
  | .expectedStructure => "expected structure type"
  | .undeclared name => "undeclared variable `" ++ name ++ "`"
  | .incompleteStructure => "access to an incomplete structure"
  | .noField tag field => "struct `" ++ tag ++ "` has no field `" ++ field ++ "`"
  | .expectedExpression found => "expected expression, found " ++ found.describe
  | .numberAsPointer value => "integer " ++ toString value ++ " used as a pointer"
  | .otherPointerType path => "`" ++ path ++ "` has a different pointer type"
  | .scalarAsPointer path => "scalar `" ++ path ++ "` used as a pointer"
  | .stalled => "no token to read"

/-- The wording of an unsupported construct. -/
def Construct.message : Construct → String
  | .preprocessor => "preprocessor directive"
  | .characterLiteral => "character literal"
  | .function name => "function definition `" ++ name ++ "`"
  | .structureValue => "structure value"
  | .voidObject => "void object"
  | .pointerToScalar => "pointer to scalar"
  | .pointerToPointer => "pointer to pointer"
  | .pointerToPointerType => "pointer to pointer type"
  | .arrayField => "array field"
  | .array => "array"
  | .statement keyword => "`" ++ keyword ++ "` statement"
  | .returnValue => "return with a value"
  | .call name => "call to `" ++ name ++ "`"
  | .starDereference => "dereference with `*`"
  | .pointerArithmetic => "pointer arithmetic"
  | .unsizedAllocation => "malloc without sizeof"
  | .nonStructureAllocation => "allocation of a non-structure type"
  | .arrayIndexing => "array indexing"
  | .memberAccess => "structure member access with `.`"
  | .addressOf => "address-of operator"

namespace SourceError

/-- A refusal of malformed text. -/
def malformed (span : Span) (m : Malformed) : SourceError := ⟨span, .malformed m⟩

/-- A refusal of an unsupported construct. -/
def unsupported (span : Span) (c : Construct) : SourceError := ⟨span, .unsupported c⟩

/-- The wording of a refusal, position first. -/
def message (e : SourceError) : String :=
  match e.cause with
  | .malformed m => e.span.text ++ ": syntax error: " ++ m.message
  | .unsupported c => e.span.text ++ ": unsupported construct: " ++ c.message

end SourceError

end HeapShape
