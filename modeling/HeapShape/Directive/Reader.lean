import HeapShape.Directive
import HeapShape.Token.Cursor

/-!
# Reading directives

A directive is a keyword and its arguments in parentheses. The arguments of a
predicate are checked against its arity, so a directive that is read always has
parameters that fit.
-/

namespace HeapShape.Directive

open Reader

/-- Names separated by commas, behind those that were read before. -/
def namesFrom : List String → Reader (List String) :=
  fix fun more read => do
    let (name, _) ← expectIdent
    if ← eatPunct "," then more (read ++ [name]) else return read ++ [name]

/-- Names separated by commas. -/
def names : Reader (List String) := namesFrom []

/-- Names separated by commas up to a closing parenthesis, or none before it. -/
def nameList : Reader (List String) := do
  if ← isPunct ")" then return [] else names

/-- The slots of a parameter block behind its opening bracket. The slots that are
    complete are `done`, and the names read for the current one are `slot`. Two bars
    without a blank between them are one token. -/
def slots : List (List String) × List String → Reader (List (List String)) :=
  fix fun more (done, slot) => do
    if ← eatPunct "]" then
      return done ++ [slot]
    else if ← eatPunct "|" then
      more (done ++ [slot], [])
    else if ← eatPunct "||" then
      more (done ++ [slot, []], [])
    else
      let (name, _) ← expectIdent
      let c ← get
      if ← eatPunct "," then
        more (done, slot ++ [name])
      else if c.isPunct "]" || c.isPunct "|" || c.isPunct "||" then
        more (done, slot ++ [name])
      else
        malformed c.span .expectedSeparator

/-- A parameter block: at most three slots in brackets, where those left out at the
    end are empty. -/
def paramBlock : Reader ParamBlock := do
  expectPunct "["
  match ← slots ([], []) with
  | [ptrs] => return ⟨ptrs, [], []⟩
  | [ptrs, first] => return ⟨ptrs, first, []⟩
  | [ptrs, first, second] => return ⟨ptrs, first, second⟩
  | _ => malformed (← span) .tooManySlots

/-- Refuse a block that does not fit the predicate at a position. -/
def checkArity (span : Span) (pred : Predicate) (block : ParamBlock) : Reader Unit :=
  if block.Fits pred then
    return ()
  else
    malformed span (.arity pred.name pred.signature.ptrArity pred.signature.setArity
      block.ptrs.length block.sets.length)

/-- A variable, a predicate and, after another comma, a parameter block. -/
def inductiveArgs : Reader (String × Predicate × Span × Option ParamBlock) := do
  let (var, _) ← expectIdent
  expectPunct ","
  let (name, predSpan) ← expectIdent
  match Predicate.ofName? name with
  | none => malformed predSpan (.unknownPredicate name)
  | some pred =>
    if ← eatPunct "," then
      return (var, pred, predSpan, some (← paramBlock))
    else
      return (var, pred, predSpan, none)

/-- Two set variables with the inclusion sign between them. -/
def inclusion : Reader (String × String) := do
  let (sub, _) ← expectIdent
  let sign ← next
  if sign.kind = .dollar then
    if ← eatIdent "sub" then
      let (sup, _) ← expectIdent
      return (sub, sup)
    else
      malformed sign.span .expectedInclusion
  else
    malformed sign.span .expectedInclusion

/-- The arguments of the directive with a keyword, in a text that starts at `origin`. -/
def arguments (origin : Span) (keyword : String) : Reader Directive := do
  if keyword = "decl_setvars" then
    return .declareSets (← nameList)
  else if keyword = "force_live" then
    return .forceLive (← nameList)
  else if keyword = "set_assume" then
    let (sub, sup) ← inclusion
    return .assumeSubset sub sup
  else if keyword = "add_inductive" then
    let (var, pred, predSpan, params) ← inductiveArgs
    let block := params.getD .none
    checkArity predSpan pred block
    return .addInductive var pred block
  else if keyword = "check_inductive" then
    let (var, pred, predSpan, params) ← inductiveArgs
    match params with
    | some block => checkArity predSpan pred block
    | none => pure ()
    return .checkInductive var pred params
  else
    malformed origin (.unknownDirective keyword)

/-- A directive and nothing after it. -/
def whole (origin : Span) : Reader Directive := do
  let (keyword, _) ← expectIdent
  expectPunct "("
  let directive ← arguments origin keyword
  expectPunct ")"
  if ← atEnd then return directive else malformed (← span) .trailingInput

/-- The directive that a text spells, whose first character stands at `origin`. -/
def parse (origin : Span) (text : String) : Except SourceError Directive := do
  let tokens ← Tokens.scan origin text
  (whole origin).run' (.ofTokens tokens)

end HeapShape.Directive
