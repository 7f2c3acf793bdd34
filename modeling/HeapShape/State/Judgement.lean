import HeapShape.Heap.Fold
import HeapShape.State

/-!
# Directives on a state

A directive states what a state should be, or what may be assumed about it. It *passes* or
*fails*, and a failure does not end the path. A directive that names what is not declared
does not apply at all: this is a defect.

* `State.judge`: the judgement of a directive on a state, and the state after it.
-/

namespace HeapShape

/-- Why a directive fails. -/
inductive Failure where
  /-- Sets are declared already. -/
  | redeclared (names : List String)
  /-- A predicate does not describe a structure. -/
  | undescribed (pred : Predicate) (ty : StructId)
  /-- The heap does not have the shape. -/
  | mismatch (cause : Mismatch.Cause)
  /-- The directive does not apply. -/
  | defect (d : Defect)
  deriving DecidableEq

/-- The wording of a failure. -/
def Failure.message : Failure → String
  | .redeclared names => "set variable(s) already declared: " ++ ", ".intercalate names
  | .undescribed pred ty => pred.name ++ " does not describe " ++ ty.text
  | .mismatch cause => cause.message
  | .defect d => d.message

/-- The judgement of a directive. -/
inductive Judgement where
  /-- It passes. -/
  | pass
  /-- It fails. -/
  | fail (f : Failure)
  deriving DecidableEq

namespace Judgement

/-- Whether a directive passes. -/
def isPass (j : Judgement) : Bool := j = .pass

/-- How a judgement is written. -/
def text : Judgement → String
  | .pass => "PASS"
  | .fail f => "FAIL (" ++ f.message ++ ")"

end Judgement

namespace State

/-! ### Names in directives -/

/-- The set variable with a name. -/
def setVar (s : State) (name : String) : Except Defect SetVar :=
  match s.heap.sets.lookup? name with
  | some v => .ok v
  | none => .error (.undefined name)

/-- The structure that a variable points to. -/
def pointee (s : State) (var : String) : Except Defect StructId :=
  match s.env.get? var with
  | some ⟨.ptr target, _⟩ => .ok target
  | some ⟨.int, _⟩ => .error (.mismatchOf (.notPointer var))
  | none => .error (.undefined var)

/-- The value of a pointer parameter, which is null or a variable. -/
def pointerParam (s : State) (name : String) : Except Defect Value :=
  if name = "null" ∨ name = "NULL" then .ok .null else s.lookup name

/-- The parameters that a block names. -/
def params (s : State) (block : ParamBlock) : Except Defect Params := do
  let ptrs ← block.ptrs.mapM s.pointerParam
  let sets ← block.sets.mapM s.setVar
  return ⟨ptrs, sets⟩

/-! ### Directives -/

/-- Declare sets. The names that are taken are told. -/
def declareSets : SetStore → List String → List String × SetStore
  | sets, [] => ([], sets)
  | sets, name :: names =>
    match sets.declare? name with
    | some (_, sets) => declareSets sets names
    | none =>
      let (taken, sets) := declareSets sets names
      (name :: taken, sets)

/-- A location for a variable of which nothing is known: the one that it points to, or
    else a new one. -/
def opaqueLoc (s : State) (var : String) : Except Defect (Loc × State) := do
  match ← s.lookup var with
  | .ptr loc => if s.heap.isOpaque loc then .ok (loc, s) else fresh
  | _ => fresh
where
  fresh : Except Defect (Loc × State) := do
    let (loc, heap) := s.heap.fresh
    return (loc, ← { s with heap }.set var (.ptr loc))

/-- The location for a variable that is there. -/
theorem opaqueLoc_cases {s : State} {var : String} {b : Binding} (hb : s.env.get? var = some b) :
    (∃ loc, b.value = .ptr loc ∧ s.heap.isOpaque loc = true ∧ s.opaqueLoc var = .ok (loc, s)) ∨
      s.opaqueLoc var = .ok (s.heap.fresh.1, { s with
        heap := s.heap.fresh.2
        env := s.env.insert var { b with value := .ptr s.heap.fresh.1 } }) := by
  have hlookup : s.lookup var = .ok b.value := by rw [lookup, hb]
  have hfresh : opaqueLoc.fresh s var = .ok (s.heap.fresh.1, { s with
      heap := s.heap.fresh.2
      env := s.env.insert var { b with value := .ptr s.heap.fresh.1 } }) := by
    simp only [opaqueLoc.fresh, set, hb]
    rfl
  rw [← hfresh, opaqueLoc, hlookup]
  obtain ⟨ty, v⟩ := b
  cases v with
  | null => exact .inr rfl
  | int => exact .inr rfl
  | ptr loc =>
    simp only [bind, Except.bind]
    split
    · rename_i ho
      exact .inl ⟨loc, rfl, ho, rfl⟩
    · exact .inr rfl

theorem opaqueLoc_undefined {s : State} {var : String} (hb : s.env.get? var = none) :
    s.opaqueLoc var = .error (.undefined var) := by
  rw [opaqueLoc, lookup, hb]
  rfl

/-- Assume that a variable is the root of an instance. -/
def addInductive (s : State) (structs : Structs) (var : String) (pred : Predicate)
    (block : ParamBlock) : Except Defect (Judgement × State) := do
  let ty ← s.pointee var
  if (pred.layout? structs ty).isNone then return (.fail (.undescribed pred ty), s)
  let params ← s.params block
  let (loc, s) ← s.opaqueLoc var
  match s.heap.put loc (.summary ⟨pred, ty, params, none⟩) with
  | .ok heap => return (.pass, { s with heap })
  | .error m => .error (.misuse m)

/-- Check that a variable is the root of an instance, and fold it. -/
def checkInductive (s : State) (structs : Structs) (var : String) (pred : Predicate)
    (block : Option ParamBlock) : Except Defect (Judgement × State) := do
  let root ← s.lookup var
  let params ← block.mapM s.params
  match s.heap.check structs root pred params with
  | .ok heap => return (.pass, { s with heap })
  | .error (.mismatch m) => return (.fail (.mismatch m.cause), s)
  | .error (.misuse m) => .error (.misuse m)

/-- Whether a name is a variable or a set. -/
def isKnown (s : State) (name : String) : Bool :=
  (s.env.get? name).isSome || (s.heap.sets.lookup? name).isSome

/-- The judgement of a directive on a state, and the state after it. -/
def judge (s : State) (structs : Structs) : Directive → Except Defect (Judgement × State)
  | .declareSets names =>
    let (taken, sets) := declareSets s.heap.sets names
    let judgement := if taken.isEmpty then .pass else .fail (.redeclared taken)
    .ok (judgement, { s with heap := { s.heap with sets } })
  | .assumeSubset sub sup => do
    let sub ← s.setVar sub
    let sup ← s.setVar sup
    return (.pass, { s with heap := { s.heap with sets := s.heap.sets.assumeSubset sub sup } })
  | .addInductive var pred block => s.addInductive structs var pred block
  | .checkInductive var pred block => s.checkInductive structs var pred block
  | .forceLive names =>
    match names.find? fun name => !s.isKnown name with
    | some name => .error (.undefined name)
    | none => .ok (.pass, s)

end State

end HeapShape
