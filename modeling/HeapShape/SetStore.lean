import HeapShape.Misuse
import HeapShape.NameMap
import HeapShape.Reach
import HeapShape.Sorted
import HeapShape.Value

/-!
# Constraints between sets

What is known about set variables. Some are declared under a name, others come up while
structures are unfolded and folded. A store records

* that one set is included in another;
* that a set *splits* into an element and a rest that does not have it;
* that a set is empty;
* that two variables are *aliases*, kept as one representative for each variable.

A variable that nothing is recorded about can be made an alias of any other: this is how
a parameter that is only guessed gets bound (`SetStore.unify`).

* `SetStore.isSubset`: whether an inclusion follows, along any chain of recorded
  inclusions and splits;
* `SetStore.retain`: forgets what is not live, but keeps what followed through it.
-/

namespace HeapShape

/-- The set `whole` is `elem` and, apart from it, `rest`. -/
structure Split where
  /-- The set that is split. -/
  whole : SetVar
  /-- The element taken out. -/
  elem : Loc
  /-- What is left. -/
  rest : SetVar
  deriving DecidableEq, Inhabited

/-- What is known about set variables. -/
structure SetStore where
  /-- The declared variables by name. -/
  names : NameMap SetVar
  /-- The representative of each variable, at the place that its number says. -/
  reprs : List SetVar
  /-- The recorded inclusions. -/
  subsets : List (SetVar × SetVar)
  /-- The recorded splits, the oldest first. -/
  splits : List Split
  /-- The sets recorded as empty. -/
  empties : List SetVar
  deriving DecidableEq, Inhabited

namespace SetStore

/-- The store without variables. -/
def empty : SetStore := ⟨.empty, [], [], [], []⟩

/-! ### Variables -/

/-- The representative of a variable. A variable that was never given out is its own. -/
def resolve (s : SetStore) (v : SetVar) : SetVar := s.reprs.getD v.id v

/-- Give out a variable. -/
def fresh (s : SetStore) : SetVar × SetStore :=
  let v : SetVar := ⟨s.reprs.length⟩
  (v, { s with reprs := s.reprs ++ [v] })

/-- Give out a variable under a name that is not taken. -/
def declare? (s : SetStore) (name : String) : Option (SetVar × SetStore) :=
  match s.names.get? name with
  | some _ => none
  | none =>
    let (v, s) := s.fresh
    some (v, { s with names := s.names.insert name v })

/-- The variable with a name. -/
def lookup? (s : SetStore) (name : String) : Option SetVar := (s.names.get? name).map s.resolve

/-- The first name, in the order of names, of a variable or of an alias of it. -/
def nameOf? (s : SetStore) (v : SetVar) : Option String :=
  (s.names.entries.find? fun (_, w) => s.resolve w = s.resolve v).map Prod.fst

/-- How a variable is named in a message. -/
def describe (s : SetStore) (v : SetVar) : String := (s.nameOf? v).getD (s.resolve v).text

/-- Whether a variable or an alias of it has a name. -/
def isDeclared (s : SetStore) (v : SetVar) : Bool :=
  s.names.entries.any fun (_, w) => s.resolve w = s.resolve v

/-! ### Inclusion, membership and emptiness -/

/-- The inclusions that are recorded, a split included, between representatives. -/
def edges (s : SetStore) : List (SetVar × SetVar) :=
  s.subsets.map (fun (a, b) => (s.resolve a, s.resolve b)) ++
    s.splits.map fun p => (s.resolve p.rest, s.resolve p.whole)

/-- Whether a set is empty because it, or a set that it is recorded to be included in, is
    recorded as empty. -/
def isKnownEmpty (s : SetStore) (v : SetVar) : Bool :=
  s.empties.any fun e =>
    s.resolve e = s.resolve v ||
      s.subsets.any fun (a, b) => s.resolve a = s.resolve v && s.resolve b = s.resolve e

/-- Whether it follows that one set is included in another. -/
def isSubset (s : SetStore) (sub sup : SetVar) : Bool :=
  s.resolve sub = s.resolve sup || s.isKnownEmpty sub ||
    (Reach.closure s.edges [s.resolve sub]).contains (s.resolve sup)

/-- Record an inclusion. -/
def assumeSubset (s : SetStore) (sub sup : SetVar) : SetStore :=
  if s.resolve sub = s.resolve sup then s
  else { s with subsets := s.subsets.insert (s.resolve sub, s.resolve sup) }

/-- What the first recorded split of a set by an element leaves. -/
def splitOf? (s : SetStore) (whole : SetVar) (elem : Loc) : Option SetVar :=
  (s.splits.find? fun p => p.elem = elem && s.resolve p.whole = s.resolve whole).map
    fun p => s.resolve p.rest

/-- The set that was first split by an element. -/
def wholeOf? (s : SetStore) (elem : Loc) : Option SetVar :=
  (s.splits.find? fun p => p.elem = elem).map fun p => s.resolve p.whole

/-- Record a split, unless the set is known to be empty. -/
def addSplit? (s : SetStore) (whole : SetVar) (elem : Loc) (rest : SetVar) : Option SetStore :=
  if s.isKnownEmpty whole then none
  else
    let p : Split := ⟨s.resolve whole, elem, s.resolve rest⟩
    some (if s.splits.contains p then s else { s with splits := s.splits ++ [p] })

/-- Whether it follows that a location is in a set. -/
def contains (s : SetStore) (set : SetVar) (loc : Loc) : Bool :=
  s.splits.any fun p => p.elem = loc && s.isSubset p.whole set

/-- Record that a set is empty, unless it is known to have an element. -/
def setEmpty? (s : SetStore) (v : SetVar) : Option SetStore :=
  if s.splits.any fun p => s.isSubset p.whole v then none
  else some { s with empties := s.empties.insert (s.resolve v) }

/-! ### Aliases -/

/-- Whether nothing is recorded about a variable. -/
def isUnconstrained (s : SetStore) (v : SetVar) : Bool :=
  !s.isDeclared v && !s.empties.any (fun e => s.resolve e = s.resolve v) &&
    !s.subsets.any (fun (a, b) => s.resolve a = s.resolve v || s.resolve b = s.resolve v) &&
    !s.splits.any (fun p => s.resolve p.whole = s.resolve v || s.resolve p.rest = s.resolve v)

/-- Give `b` as the representative to all variables that `a` represents. -/
def redirect (s : SetStore) (a b : SetVar) : Except Misuse SetStore :=
  if a.id < s.reprs.length then
    .ok { s with reprs := s.reprs.map fun c => if c = a then b else c }
  else
    .error .outOfBounds

/-- Make two variables aliases, if they are or if nothing is recorded about one of them.
    The result is nothing if they stay apart. -/
def unify (s : SetStore) (a b : SetVar) : Except Misuse (Option SetStore) :=
  let a := s.resolve a
  let b := s.resolve b
  if a = b then .ok (some s)
  else if s.isUnconstrained a then (s.redirect a b).map some
  else if s.isUnconstrained b then (s.redirect b a).map some
  else .ok none

/-- Assume that two sets are equal: as aliases, or else by inclusion both ways. -/
def equate (s : SetStore) (a b : SetVar) : Except Misuse SetStore := do
  match ← s.unify a b with
  | some s => .ok s
  | none => .ok ((s.assumeSubset a b).assumeSubset b a)

/-! ### Locations that change or die -/

/-- Put a value in the place of a location. A split by a location that turned out to be no
    address is forgotten. -/
def substLoc (s : SetStore) (loc : Loc) (w : Value) : SetStore :=
  { s with splits := s.splits.filterMap fun p =>
      if p.elem = loc then w.loc?.map fun l => { p with elem := l } else some p }

/-- The representatives that live variables and declared ones have, in order. -/
def live (s : SetStore) (vars : List SetVar) : List SetVar :=
  Sorted.ofList ((vars ++ s.names.entries.map Prod.snd).map s.resolve)

/-- The inclusions that follow between different sets of a list. -/
def inclusions (s : SetStore) (vars : List SetVar) : List (SetVar × SetVar) :=
  vars.flatMap fun a => (vars.filter fun b => a ≠ b && s.isSubset a b).map fun b => (a, b)

/-- Forget what is not about live variables and locations. Declared variables are live. An
    inclusion between live variables that followed through others is recorded. -/
def retain (s : SetStore) (vars : List SetVar) (locs : List Loc) : SetStore :=
  let live := s.live vars
  { s with
    subsets := s.inclusions live
    splits := (s.splits.map fun p => ⟨s.resolve p.whole, p.elem, s.resolve p.rest⟩).filter fun p =>
      locs.contains p.elem && live.contains p.whole && live.contains p.rest
    empties := Sorted.ofList ((s.empties.map s.resolve).filter live.contains) }

/-! ### Writing constraints -/

/-- The constraints whose variables and locations have names, as lines in order. -/
def render (s : SetStore) (setName : SetVar → Option String) (locName : Loc → Option String) :
    List String :=
  let name v := setName (s.resolve v)
  let subsets := s.subsets.filterMap fun (a, b) => do
    return (← name a) ++ " <= " ++ (← name b)
  let splits := s.splits.filterMap fun p => do
    return (← name p.whole) ++ " = \x7b" ++ (← locName p.elem) ++ "\x7d + " ++ (← name p.rest)
  let empties := s.empties.filterMap fun e => do
    return (← name e) ++ " = \x7b\x7d"
  Sorted.ofList (subsets ++ splits ++ empties)

/-- A store as it is written, in braces. -/
def text (s : SetStore) : String :=
  let lines := s.render (fun v => some (s.describe v)) fun loc => some loc.text
  "\x7b" ++ ", ".intercalate lines ++ "\x7d"

end SetStore

end HeapShape
