import HeapShape.Defect
import HeapShape.Instance

/-!
# Folding

A structure of cells and summaries is taken out of a heap and becomes one summary at its
root. The search for it has *goals*: values that have to be an instance of a predicate,
and values that have to be a reference into a set.

* Null meets a goal by the base case.
* A summary of the same predicate with equal parameters meets it, and the goal moves on
  to its hole, if it has one.
* A cell of the inductive case meets it with new goals for its fields.
* A *stop*, other than the root, ends the search: it becomes the hole of the summary, but
  only once, and only as an instance of the predicate that is folded.

Nothing else meets a goal, and each location is taken once.

* `Folding.visit`: how one goal is met. A fact is taken, or no goals are new
  (`Folding.visit_decreases`), so the search ends;
* `Heap.gather`: a structure taken out of a heap as a summary, which leaves fewer facts
  (`Heap.factCount_gather_lt`);
* `Heap.fold`: the heap with the summary at its root. How a fold that succeeds came about is told
  by `Heap.fold_eq_ok`, `Heap.gather_steps` and `Folding.steps_of_visit`.
-/

namespace HeapShape

/-- What is fixed in the search for a structure. -/
structure Folding.Setting where
  /-- The structures of the program. -/
  structs : Structs
  /-- The locations where the search ends. -/
  stops : List Loc
  /-- The root. -/
  root : Loc
  /-- The predicate that is folded. -/
  pred : Predicate

/-- Something to be found in the search for a structure. -/
inductive Folding.Goal where
  /-- A value is an instance of a predicate. -/
  | inst (value : Value) (pred : Predicate) (ty : StructId) (params : Params)
  /-- A value is null or a reference into a set. -/
  | ref (value : Value) (set : Option SetVar)
  /-- A field that the record does not have. -/
  | missing
  deriving DecidableEq

/-- The state of the search for a structure. -/
structure Folding where
  /-- The heap without what was taken. -/
  heap : Heap
  /-- The stop where the search ended. -/
  hole : Option Hole
  /-- The locations that were taken. -/
  visited : List Loc

namespace Folding

/-- The heap does not have the shape at a location. -/
def mismatch {α : Type} (loc : Option Loc) (cause : Mismatch.Cause) : Except Refusal α :=
  .error (.mismatch ⟨loc, cause⟩)

/-! ### Parameters and references -/

/-- Make the sets of a summary at a location the sets that are expected. -/
def unifySets (loc : Loc) : List SetVar → List SetVar → SetStore → Except Refusal SetStore
  | a :: as, b :: bs, s =>
    match s.unify a b with
    | .ok (some s) => unifySets loc as bs s
    | .ok none => mismatch loc (.setDiffers (s.describe a) (s.describe b))
    | .error m => .error (.misuse m)
  | _, _, s => .ok s

/-- Make the parameters of a summary at a location the parameters that are expected. -/
def matchParams (loc : Loc) (actual expected : Params) (s : SetStore) : Except Refusal SetStore :=
  if actual.ptrs ≠ expected.ptrs then mismatch loc .ptrsDiffer
  else if actual.sets.length ≠ expected.sets.length then mismatch loc .setsDiffer
  else unifySets loc actual.sets expected.sets s

/-- The constraints under which a location is in a set, if it can be. -/
def inside (h : Heap) (loc : Loc) (set : SetVar) : Except Misuse (Option SetStore) :=
  match h.slot loc with
  | .occupied (.member own _) =>
    if h.sets.isSubset own set then .ok (some h.sets) else h.sets.unify own set
  | .occupied _ => .ok (if h.sets.contains set loc then some h.sets else none)
  | _ => .ok none

/-- The constraints under which a value is null or a reference into a set. -/
def checkRef (h : Heap) (value : Value) (set : Option SetVar) : Except Refusal SetStore :=
  match value, set with
  | .null, _ => .ok h.sets
  | .ptr loc, some set =>
    match inside h loc set with
    | .ok (some sets) => .ok sets
    | .ok none => mismatch loc (.outside (h.sets.describe set))
    | .error m => .error (.misuse m)
  | value, _ => mismatch value.loc? .unexpectedReference

/-! ### Records -/

/-- The back pointer of a record is the one that is expected. -/
def checkBack (loc : Loc) (c : Cell) (layout : Layout) (params : Params) : Except Refusal Unit :=
  match layout.back with
  | none => .ok ()
  | some i =>
    match c.fields[i]? with
    | none => .error (.misuse .outOfBounds)
    | some v =>
      let expected := params.ptrs.headD .null
      if v = expected then .ok () else mismatch loc (.back v expected)

/-- The goal for a field of a record. -/
def Goal.ofField (c : Cell) (index : Nat) (goal : Value → Goal) : Goal :=
  match c.fields[index]? with
  | some v => goal v
  | none => .missing

/-- The goals for the fields of a record: first for the successors, then for the instances
    of other predicates, then for the references. -/
def cellGoals (c : Cell) (pred : Predicate) (layout : Layout) (step : Step) : List Goal :=
  layout.successors.map (fun i => .ofField c i fun v => .inst v pred c.ty step.succ) ++
    layout.nested.map (fun (i, p, target) => .ofField c i fun v => .inst v p target step.nested) ++
    layout.refs.map fun (i, _) => .ofField c i fun v => .ref v step.refs

/-- Meet a goal with a record: the constraints and the new goals. -/
def meetCell (structs : Structs) (sets : SetStore) (loc : Loc) (c : Cell) (pred : Predicate)
    (ty : StructId) (params : Params) : Except Refusal (SetStore × List Goal) :=
  if c.ty ≠ ty then mismatch loc (.otherStruct ty c.ty)
  else match pred.layout? structs ty with
    | none => mismatch loc (.layout pred ty)
    | some layout => do
      checkBack loc c layout params
      match pred.step loc params sets with
      | (sets, some step) => .ok (sets, cellGoals c pred layout step)
      | (_, none) => mismatch loc (.nodesEmpty pred)

/-- Meet a goal with a summary: the constraints and the goal for its hole. -/
def meetSummary (sets : SetStore) (loc : Loc) (s : Summary) (pred : Predicate) (ty : StructId)
    (params : Params) : Except Refusal (SetStore × List Goal) :=
  if s.pred ≠ pred ∨ s.ty ≠ ty then mismatch loc (.otherPredicate pred s.pred)
  else do
    let sets ← matchParams loc s.params params sets
    .ok (sets, s.hole.toList.map fun o => .inst o.value pred ty o.params)

/-! ### The search -/

/-- Take the fact about a location to meet a goal. -/
def enter (cfg : Setting) (st : Folding) (loc : Loc) (pred : Predicate) (ty : StructId)
    (params : Params) : Except Refusal (Folding × List Goal) :=
  if loc ∈ st.visited then mismatch loc .cycle
  else
    let taken (r : SetStore × List Goal) : Folding × List Goal :=
      ({ st with heap := { st.heap.write loc .vacant with sets := r.1 }, visited := loc :: st.visited }, r.2)
    match st.heap.slot loc with
    | .vacant => mismatch loc .insideUnknown
    | .tombstone => mismatch loc .insideFreed
    | .occupied (.member ..) => mismatch loc .insideShared
    | .occupied (.summary s) => (meetSummary st.heap.sets loc s pred ty params).map taken
    | .occupied (.cell c) => (meetCell cfg.structs st.heap.sets loc c pred ty params).map taken

/-- Meet a goal. -/
def visit (cfg : Setting) (st : Folding) : Goal → Except Refusal (Folding × List Goal)
  | .missing => .error (.misuse .outOfBounds)
  | .ref value set =>
    (checkRef st.heap value set).map fun sets => ({ st with heap := { st.heap with sets } }, [])
  | .inst .null pred _ params =>
    match pred.baseCase params st.heap.sets with
    | some sets => .ok ({ st with heap := { st.heap with sets } }, [])
    | none => mismatch none (.nodesLeft pred)
  | .inst .int .. => mismatch none .scalar
  | .inst (.ptr loc) pred ty params =>
    if loc ≠ cfg.root ∧ loc ∈ cfg.stops then
      if pred = cfg.pred ∧ st.hole = none then .ok ({ st with hole := some ⟨.ptr loc, params⟩ }, [])
      else mismatch loc .heldByVariable
    else st.enter cfg loc pred ty params

/-- Meet a goal with a fact: the constraints and the new goals. -/
def meet (structs : Structs) (s : SetStore) (loc : Loc) (f : Fact) (pred : Predicate) (ty : StructId)
    (params : Params) : Except Refusal (SetStore × List Goal) :=
  match f with
  | .member .. => mismatch loc .insideShared
  | .summary q => meetSummary s loc q pred ty params
  | .cell c => meetCell structs s loc c pred ty params

/-- The search after the fact about a location was taken under new constraints. -/
def takeWith (st : Folding) (loc : Loc) (sets : SetStore) : Folding :=
  { st with heap := { st.heap.write loc .vacant with sets }, visited := loc :: st.visited }

/-- What the search can do to meet a goal: change the constraints, stop, or enter a location. -/
inductive Steps (cfg : Setting) (st : Folding) : Goal → Folding → List Goal → Prop
  | ref {value : Value} {set : Option SetVar} {sets : SetStore}
      (hc : checkRef st.heap value set = .ok sets) :
      Steps cfg st (.ref value set) { st with heap := { st.heap with sets } } []
  | null {pred : Predicate} {ty : StructId} {params : Params} {sets : SetStore}
      (hb : pred.baseCase params st.heap.sets = some sets) :
      Steps cfg st (.inst .null pred ty params) { st with heap := { st.heap with sets } } []
  | stop {loc : Loc} {ty : StructId} {params : Params} (hroot : loc ≠ cfg.root)
      (hloc : loc ∈ cfg.stops) (hhole : st.hole = none) :
      Steps cfg st (.inst (.ptr loc) cfg.pred ty params)
        { st with hole := some ⟨.ptr loc, params⟩ } []
  | enter {loc : Loc} {pred : Predicate} {ty : StructId} {params : Params} {st' : Folding}
      {new : List Goal} (he : st.enter cfg loc pred ty params = .ok (st', new))
      (hfree : loc ≠ cfg.root → loc ∉ cfg.stops) :
      Steps cfg st (.inst (.ptr loc) pred ty params) st' new

section

variable {cfg : Setting} {st st' : Folding} {loc : Loc} {pred : Predicate} {ty : StructId}
  {params : Params} {goal : Goal} {new : List Goal}

/-- A location that was not taken is entered by the fact about it. -/
theorem enter_eq_meet {f : Fact} (hnew : loc ∉ st.visited) (hs : st.heap.slot loc = .occupied f) :
    st.enter cfg loc pred ty params =
      (meet cfg.structs st.heap.sets loc f pred ty params).map fun r => (st.takeWith loc r.1, r.2) := by
  rw [enter, if_neg hnew, hs]
  cases f <;> rfl

/-- A location is entered once, by the fact about it. -/
theorem enter_eq_ok (he : st.enter cfg loc pred ty params = .ok (st', new)) :
    ∃ f sets, loc ∉ st.visited ∧ st.heap.slot loc = .occupied f ∧
      meet cfg.structs st.heap.sets loc f pred ty params = .ok (sets, new) ∧
      st' = st.takeWith loc sets := by
  by_cases hnew : loc ∈ st.visited
  · rw [enter, if_pos hnew] at he
    cases he
  · rcases hs : st.heap.slot loc with _ | f | _
    · rw [enter, if_neg hnew, hs] at he
      cases he
    · rw [enter_eq_meet hnew hs] at he
      obtain ⟨⟨sets, goals⟩, hm, hr⟩ := ok_of_map he
      cases hr
      exact ⟨f, sets, hnew, rfl, hm, rfl⟩
    · rw [enter, if_neg hnew, hs] at he
      cases he

theorem enter_decreases (h : st.enter cfg loc pred ty params = .ok (st', new)) :
    st'.heap.factCount < st.heap.factCount := by
  obtain ⟨f, sets, -, hs, -, rfl⟩ := enter_eq_ok h
  exact Heap.factCount_write_lt hs rfl

theorem steps_of_visit (h : st.visit cfg goal = .ok (st', new)) :
    st.Steps cfg goal st' new := by
  rw [visit.eq_def] at h
  split at h
  · cases h
  · obtain ⟨sets, hc, hr⟩ := ok_of_map h
    cases hr
    exact .ref hc
  · split at h
    · rename_i hb
      cases h
      exact .null hb
    · cases h
  · cases h
  · split at h
    · rename_i hstop
      split at h
      · rename_i hfirst
        cases h
        rw [hfirst.1]
        exact .stop hstop.1 hstop.2 hfirst.2
      · cases h
    · rename_i hfree
      exact .enter h fun hroot hloc => hfree ⟨hroot, hloc⟩

/-- A goal is met by taking a fact, or without new goals. -/
theorem visit_decreases (h : st.visit cfg goal = .ok (st', new)) :
    st'.heap.factCount < st.heap.factCount ∨
      (st'.heap.factCount = st.heap.factCount ∧ new = []) := by
  cases steps_of_visit h with
  | ref | null | stop => exact .inr ⟨rfl, rfl⟩
  | enter he => exact .inl (enter_decreases he)

end

/-- Meet all goals, and those that come up, depth first. -/
def absorb (cfg : Setting) (st : Folding) (goals : List Goal) : Except Refusal Folding :=
  match goals with
  | [] => .ok st
  | goal :: goals =>
    match _hv : st.visit cfg goal with
    | .error e => .error e
    | .ok (st', new) => st'.absorb cfg (new ++ goals)
  termination_by (st.heap.factCount, goals.length)
  decreasing_by
    rcases visit_decreases _hv with hlt | ⟨heq, rfl⟩
    · exact Prod.Lex.left _ _ hlt
    · rw [heq]
      exact Prod.Lex.right _ (by simp)

section

variable {cfg : Setting} {st st' : Folding} {goal : Goal} {goals new : List Goal}

theorem absorb_cons (hv : st.visit cfg goal = .ok (st', new)) :
    st.absorb cfg (goal :: goals) = st'.absorb cfg (new ++ goals) := by
  rw [absorb, hv]

theorem absorb_refused {e : Refusal} (hv : st.visit cfg goal = .error e) :
    st.absorb cfg (goal :: goals) = .error e := by
  rw [absorb, hv]

/-- What each visit keeps of a search and of its goals holds when the search ends. -/
theorem absorb_keeps {I : Folding → Prop} {G : Goal → Prop}
    (hvisit : ∀ {st goal st₁ new}, I st → G goal → st.visit cfg goal = .ok (st₁, new) →
      I st₁ ∧ ∀ g ∈ new, G g)
    (hst : I st) (hg : ∀ g ∈ goals, G g) (h : st.absorb cfg goals = .ok st') : I st' := by
  induction st, goals using absorb.induct cfg with
  | case1 st =>
    rw [absorb] at h
    cases h
    exact hst
  | case2 st goal goals e hv =>
    rw [absorb, hv] at h
    cases h
  | case3 st goal goals st₁ new hv ih =>
    rw [absorb, hv] at h
    obtain ⟨hst₁, hnew⟩ := hvisit hst (hg goal (.head _)) hv
    exact ih hst₁ (List.forall_mem_append.2 ⟨hnew, fun g hmem => hg g (.tail _ hmem)⟩) h

theorem factCount_absorb_le (h : st.absorb cfg goals = .ok st') :
    st'.heap.factCount ≤ st.heap.factCount := by
  refine absorb_keeps (I := fun s => s.heap.factCount ≤ st.heap.factCount) (G := fun _ => True)
    (fun hs _ hv => ⟨?_, fun _ _ => trivial⟩) (Nat.le_refl _) (fun _ _ => trivial) h
  rcases visit_decreases hv with hlt | ⟨heq, -⟩
  · exact Nat.le_trans (Nat.le_of_lt hlt) hs
  · exact heq ▸ hs

end

end Folding

namespace Heap

open Folding

/-- The numbers of parameters, if any are given, are those of the predicate. -/
def checkArity (pred : Predicate) (params : Option Params) (loc : Option Loc) : Except Refusal Unit :=
  match params with
  | some p =>
    if p.ptrs.length = pred.signature.ptrArity ∧ p.sets.length = pred.signature.setArity then .ok ()
    else mismatch loc (.arity pred)
  | none => .ok ()

section

variable {pred : Predicate} {params : Option Params} {loc : Option Loc}

theorem checkArity_eq_ok {p : Params} (ha : checkArity pred (some p) loc = .ok ()) :
    p.ptrs.length = pred.signature.ptrArity ∧ p.sets.length = pred.signature.setArity := by
  rw [checkArity] at ha
  split at ha
  · assumption
  · cases ha

theorem checkArity_eq_error {e : Refusal} (ha : checkArity pred params loc = .error e) :
    ∃ m, e = .mismatch m := by
  rcases params with _ | p
  · cases ha
  · rw [checkArity] at ha
    split at ha
    · cases ha
    · cases ha
      exact ⟨_, rfl⟩

end

/-- The structure of the root of a fold. -/
def rootStruct (h : Heap) (loc : Loc) : Except Refusal StructId :=
  match h.slot loc with
  | .occupied (.cell c) => .ok c.ty
  | .occupied (.summary s) => .ok s.ty
  | .vacant => mismatch loc .rootUnknown
  | .tombstone => mismatch loc .rootFreed
  | .occupied (.member ..) => mismatch loc .rootShared

/-- The parameters of an instance as its root shows them: those of a summary, the back
    pointer of a tree, the set that a node was taken out of, and new sets otherwise. -/
def inferParams (h : Heap) (loc : Loc) (pred : Predicate) (layout : Layout) :
    Except Refusal (Params × SetStore) :=
  match h.summary? loc with
  | some s =>
    if s.pred = pred then .ok (s.params, h.sets) else mismatch loc (.otherPredicate pred s.pred)
  | none =>
    match pred with
    | .list => .ok (.none, h.sets)
    | .tree =>
      match layout.back.bind fun i => (h.cell? loc).bind fun c => c.fields[i]? with
      | some back => .ok (⟨[back], []⟩, h.sets)
      | none => mismatch loc .noBack
    | .graph =>
      let (nodes, sets) := match h.sets.wholeOf? loc with
        | some nodes => (nodes, h.sets)
        | none => h.sets.fresh
      let (targets, sets) := sets.fresh
      .ok (⟨[], [nodes, targets]⟩, sets)
    | .edges =>
      let (targets, sets) := h.sets.fresh
      .ok (⟨[], [targets]⟩, sets)

/-- The parameters that are given, or else those that the root shows. -/
def chooseParams (h : Heap) (loc : Loc) (pred : Predicate) (layout : Layout) (params : Option Params) :
    Except Refusal (Params × SetStore) :=
  match params with
  | some p => .ok (p, h.sets)
  | none => h.inferParams loc pred layout

/-- Take the structure at a root out of the heap. -/
def gather (h : Heap) (structs : Structs) (loc : Loc) (pred : Predicate) (params : Option Params)
    (stops : List Loc) : Except Refusal (Summary × Heap) := do
  checkArity pred params (some loc)
  let ty ← h.rootStruct loc
  match pred.layout? structs ty with
  | none => mismatch loc (.layout pred ty)
  | some layout =>
    let (params, sets) ← h.chooseParams loc pred layout params
    let cfg : Setting := ⟨structs, stops, loc, pred⟩
    let start : Folding := ⟨{ h with sets }, none, []⟩
    let (st, goals) ← start.enter cfg loc pred ty params
    let st ← st.absorb cfg goals
    let hole := st.hole.map fun o => { o with params := st.heap.resolveParams o.params }
    return (⟨pred, ty, st.heap.resolveParams params, hole⟩, st.heap)

/-- Fold the structure at a root into an instance of a predicate, with the parameters that
    are given or else with those that the root shows. The hole is the stop where the
    structure ends, if it ends at one. Null is only an empty instance. -/
def fold (h : Heap) (structs : Structs) (root : Value) (pred : Predicate) (params : Option Params)
    (stops : List Loc) : Except Refusal (Heap × Option Hole) :=
  match root with
  | .ptr loc => do
    let (s, h) ← h.gather structs loc pred params stops
    return (h.write loc (.occupied (.summary s)), s.hole)
  | .null => do
    checkArity pred params none
    match params with
    | none => return (h, none)
    | some p =>
      match pred.baseCase p h.sets with
      | some sets => return ({ h with sets }, none)
      | none => mismatch none (.nullNotEmpty pred)
  | .int => do
    checkArity pred params none
    mismatch none .scalar

/-- Fold a structure that has to be whole. -/
def check (h : Heap) (structs : Structs) (root : Value) (pred : Predicate) (params : Option Params) :
    Except Refusal Heap := do
  match ← h.fold structs root pred params [] with
  | (h, none) => return h
  | (_, some o) => mismatch o.value.loc? .endsAtShared

section

variable {h h' : Heap} {structs : Structs} {loc : Loc} {pred : Predicate} {params : Option Params}
  {stops : List Loc} {s : Summary}

/-- The steps by which a structure is taken out. -/
theorem gather_steps (hg : h.gather structs loc pred params stops = .ok (s, h')) :
    ∃ ty layout p sets st₁ goals st, checkArity pred params (some loc) = .ok () ∧
      h.rootStruct loc = .ok ty ∧ pred.layout? structs ty = some layout ∧
      h.chooseParams loc pred layout params = .ok (p, sets) ∧
      enter ⟨structs, stops, loc, pred⟩ ⟨{ h with sets }, none, []⟩ loc pred ty p = .ok (st₁, goals) ∧
      st₁.absorb ⟨structs, stops, loc, pred⟩ goals = .ok st ∧ h' = st.heap ∧
      s = ⟨pred, ty, st.heap.resolveParams p,
        st.hole.map fun o => { o with params := st.heap.resolveParams o.params }⟩ := by
  rw [gather] at hg
  obtain ⟨⟨⟩, harity, hg⟩ := ok_of_bind hg
  obtain ⟨ty, hty, hg⟩ := ok_of_bind hg
  split at hg
  · cases hg
  · rename_i layout hlayout
    obtain ⟨⟨p, sets⟩, hp, hg⟩ := ok_of_bind hg
    obtain ⟨⟨st₁, goals⟩, henter, hg⟩ := ok_of_bind hg
    obtain ⟨st, habsorb, hg⟩ := ok_of_bind hg
    cases hg
    exact ⟨ty, layout, p, sets, st₁, goals, st, harity, hty, hlayout, hp, henter, habsorb, rfl, rfl⟩

/-- A fold puts the summary of what it takes out at its root, or finds that null is empty. -/
theorem fold_eq_ok {root : Value} {o : Option Hole}
    (hf : h.fold structs root pred params stops = .ok (h', o)) :
    (∃ loc s h₁, root = .ptr loc ∧ h.gather structs loc pred params stops = .ok (s, h₁) ∧
      h' = h₁.write loc (.occupied (.summary s)) ∧ o = s.hole) ∨
    root = .null ∧ o = none ∧ checkArity pred params none = .ok () ∧
      (params = none ∧ h' = h ∨
        ∃ p sets, params = some p ∧ pred.baseCase p h.sets = some sets ∧ h' = { h with sets }) := by
  rw [fold.eq_def] at hf
  split at hf
  · obtain ⟨⟨s, h₁⟩, hg, hf⟩ := ok_of_bind hf
    cases hf
    exact .inl ⟨_, s, h₁, rfl, hg, rfl, rfl⟩
  · obtain ⟨⟨⟩, harity, hf⟩ := ok_of_bind hf
    refine .inr ⟨rfl, ?_⟩
    split at hf
    · cases hf
      exact ⟨rfl, harity, .inl ⟨rfl, rfl⟩⟩
    · split at hf
      · cases hf
        exact ⟨rfl, harity, .inr ⟨_, _, rfl, ‹_›, rfl⟩⟩
      · cases hf
  · obtain ⟨-, -, hf⟩ := ok_of_bind hf
    cases hf

/-- A structure has at least one fact. -/
theorem factCount_gather_lt (hg : h.gather structs loc pred params stops = .ok (s, h')) :
    h'.factCount < h.factCount := by
  obtain ⟨ty, layout, p, sets, st₁, goals, st, -, -, -, -, henter, habsorb, rfl, -⟩ := gather_steps hg
  exact Nat.lt_of_le_of_lt (factCount_absorb_le habsorb) (enter_decreases henter)

end

end Heap

end HeapShape
