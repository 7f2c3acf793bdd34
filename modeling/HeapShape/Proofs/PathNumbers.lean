import HeapShape.Proofs.Composition
import HeapShape.Proofs.Outcomes

/-!
# The numbers of paths

A state carries the number of its path, but no operation looks at it: on a state with another
number an operation has the same outcomes, with this number. So all outcomes of an operation have
the number of the state that it started with, until they are numbered anew.

* `Exec.Blind`: an operation does not look at the number of the path;
* `Exploration.perform_withPath`, `Exploration.blind_branch`: instructions and the choice of a side
  do not.
-/

namespace HeapShape

namespace State

/-- The state with another number of the path. -/
def withPath (s : State) (n : PathId) : State := { s with path := n }

variable (s : State) (n : PathId)

theorem set_withPath (var : String) (v : Value) :
    (s.withPath n).set var v = (s.set var v).map (·.withPath n) := by
  simp only [set, withPath]
  split <;> rfl

@[simp] theorem heap_withPath : (s.withPath n).heap = s.heap := rfl

@[simp] theorem setNull_withPath (loc : Loc) :
    (s.withPath n).setNull loc = (s.setNull loc).map (·.withPath n) := by
  simp only [setNull, withPath]
  rcases s.heap.take loc with m | ⟨f, heap⟩ <;> rfl

theorem equate_withPath (a b : Value) :
    (s.withPath n).equate a b = (s.equate a b).map (Option.map (·.withPath n)) := by
  have hnull (loc : Loc) : ((s.withPath n).setNull loc).map some =
      ((s.setNull loc).map some).map (Option.map (·.withPath n)) := by
    rw [setNull_withPath]
    rcases s.setNull loc with m | t <;> rfl
  have hsubst (loc : Loc) (w : Value) : (s.withPath n).subst loc w = (s.subst loc w).withPath n := rfl
  rw [equate.eq_def, equate.eq_def]
  simp only [hnull, heap_withPath, hsubst]
  split
  · rfl
  · split
    · split <;> rfl
    · split <;> rfl
    · split
      · rfl
      · split <;> rfl
    · rfl

theorem equateAll_withPath (l : List (Value × Value)) :
    (s.withPath n).equateAll l = (s.equateAll l).map (Option.map (·.withPath n)) := by
  induction l generalizing s with
  | nil => rfl
  | cons p l ih =>
    simp only [equateAll, equate_withPath, bind, Except.bind]
    rcases s.equate p.1 p.2 with m | _ | t
    · rfl
    · rfl
    · exact ih t

@[simp] theorem closeSegment_withPath (loc : Loc) (sum : Summary) (o : Hole) :
    (s.withPath n).closeSegment loc sum o =
      (s.closeSegment loc sum o).map (Option.map (·.withPath n)) := by
  have hclosed : ({ s.withPath n with heap := s.heap.write loc .vacant } : State).subst loc o.value =
      (({ s with heap := s.heap.write loc .vacant } : State).subst loc o.value).withPath n := rfl
  simp only [closeSegment]
  rw [State.heap_withPath, hclosed, equateAll_withPath]
  rcases equateAll _ _ with m | _ | t
  · rfl
  · rfl
  · simp only [bind, Except.bind, Except.map, Option.map, withPath]
    rcases equateSets _ _ with m | sets <;> rfl

@[simp] theorem discharge_withPath (loc : Loc) (sum : Summary) :
    (s.withPath n).discharge loc sum = (s.discharge loc sum).map (·.withPath n) := by
  simp only [discharge, Option.map_map]
  rfl

end State

/-- The outcomes with another number of the path. -/
def Outcomes.withPath {α : Type} (l : Outcomes α) (n : PathId) : Outcomes α :=
  l.map fun o => (o.1.withPath n, o.2)

namespace Outcomes

variable {α : Type} (l l' : Outcomes α) (n : PathId)

@[simp] theorem withPath_nil : withPath ([] : Outcomes α) n = [] := rfl

@[simp] theorem withPath_cons (s : State) (r : Except Defect α) :
    withPath ((s, r) :: l) n = (s.withPath n, r) :: l.withPath n := rfl

@[simp] theorem withPath_append : (l ++ l').withPath n = l.withPath n ++ l'.withPath n := List.map_append

/-- The outcomes that are heaps of one state. -/
@[simp] theorem withPath_heaps (s : State) (heaps : List Heap) (r : Except Defect α) :
    withPath (heaps.map fun heap => (({ s with heap } : State), r)) n =
      heaps.map fun heap => (({ s.withPath n with heap } : State), r) := List.map_map

end Outcomes

namespace Exec

variable {α β : Type} {x y : Exec α} {f : α → Exec β}

/-- An operation does not look at the number of the path. -/
def Blind (x : Exec α) : Prop := ∀ s n, x (s.withPath n) = Outcomes.withPath (x s) n

namespace Blind

theorem pure (a : α) : (Pure.pure a : Exec α).Blind := fun _ _ => rfl

theorem impossible : (impossible : Exec α).Blind := fun _ _ => rfl

theorem either (hx : x.Blind) (hy : y.Blind) : (x.either y).Blind := by
  intro s n
  rw [Exec.either, hx s n, hy s n]
  exact (Outcomes.withPath_append _ _ n).symm

theorem bind (hx : x.Blind) (hf : ∀ a, (f a).Blind) : (x >>= f).Blind := by
  intro s n
  rw [bind_apply, bind_apply, hx s n, Outcomes.withPath, Outcomes.withPath, List.flatMap_map,
    List.map_flatMap]
  congr 1
  funext ⟨t, r⟩
  rcases r with d | a
  · rfl
  · exact hf a t n

theorem ask {g : State → Except Defect α} (hg : ∀ s n, g (s.withPath n) = g s) : (ask g).Blind :=
  fun s n => by rw [Exec.ask, hg s n]; rfl

theorem update {g : State → Except Defect State}
    (hg : ∀ s n, g (s.withPath n) = (g s).map (·.withPath n)) : (update g).Blind := by
  intro s n
  rw [Exec.update, Exec.update, hg s n]
  rcases g s with d | t <;> rfl

end Blind

variable (structs : Structs)

/-! ### Cases of a pointer -/

theorem blind_materialize (v : Value) : (materialize structs v).Blind := by
  intro s n
  show (s.withPath n).materialize structs v = (s.materialize structs v).withPath n
  fun_induction State.materialize structs s v with
  | case1 | case2 => rw [State.materialize]; rfl
  | case3 s loc c hs | case4 s loc hs | case5 s loc hs | case6 s loc set ty hs =>
    simp [State.materialize_ptr, hs]
  | case7 s loc sum hs m hu => simp [State.materialize_ptr, hs, hu]
  | case8 s loc sum hs heaps hu cells o ho closed hc ih =>
    simp [State.materialize_ptr, hs, hu, ho, hc, Except.map, ih, cells]
  | case9 s loc sum hs heaps hu cells o ho hc | case10 s loc sum hs heaps hu cells o ho m hc =>
    simp [State.materialize_ptr, hs, hu, ho, hc, Except.map, cells]
  | case11 s loc sum hs heaps hu cells ho base hd | case12 s loc sum hs heaps hu cells ho hd =>
    simp [State.materialize_ptr, hs, hu, ho, hd, cells]

theorem blind_testNull (v : Value) : (testNull structs v).Blind := by
  intro s n
  show (s.withPath n).testNull structs v = (s.testNull structs v).withPath n
  fun_induction State.testNull structs s v with
  | case1 | case2 => rw [State.testNull]; rfl
  | case3 s loc c hs | case4 s loc hs => simp [State.testNull_ptr, hs]
  | case5 s loc hs null hn | case6 s loc hs null hn | case7 s loc set ty hs null hn
  | case8 s loc set ty hs null hn => simp [State.testNull_ptr, hs, hn, Except.map]
  | case9 s loc sum hs m hu => simp [State.testNull_ptr, hs, hu]
  | case10 s loc sum hs heaps hu cells o ho closed hc ih =>
    simp [State.testNull_ptr, hs, hu, ho, hc, Except.map, ih, cells]
  | case11 s loc sum hs heaps hu cells o ho hc =>
    simp [State.testNull_ptr, hs, hu, ho, hc, Except.map, cells]
  | case12 s loc sum hs heaps hu o ho m hc => simp [State.testNull_ptr, hs, hu, ho, hc, Except.map]
  | case13 s loc sum hs heaps hu cells ho base hd | case14 s loc sum hs heaps hu cells ho hd =>
    simp [State.testNull_ptr, hs, hu, ho, hd, cells]

/-! ### Paths and expressions -/

theorem blind_loadMember (loc : Loc) (set : SetVar) (ty : StructId) (index : Nat) :
    (loadMember structs loc set ty index).Blind := by
  intro s n
  rw [loadMember, loadMember]
  split <;> rfl

theorem blind_loadCell (index : Nat) (loc : Loc) : (loadCell index loc).Blind :=
  .ask fun _ _ => rfl

theorem blind_loadField (v : Value) (index : Nat) : (loadField structs v index).Blind := by
  intro s n
  rw [loadField, loadField]
  rw [State.heap_withPath]
  split
  · exact blind_loadMember structs _ _ _ index s n
  · exact (blind_materialize structs v).bind (blind_loadCell index) s n

theorem blind_storeCell (index : Nat) (new : Value) (loc : Loc) : (storeCell index new loc).Blind := by
  refine .update fun s n => ?_
  rw [State.heap_withPath]
  split <;> rfl

/-! ### Statements and conditions -/

theorem blind_newCell (ty : StructId) : (newCell structs ty).Blind := by
  intro s n
  rw [newCell, newCell]
  split <;> rfl

theorem blind_freeValue (v : Value) : (freeValue v).Blind := by
  refine .update fun s n => ?_
  rcases v with _ | loc | _
  · rfl
  · simp only [State.heap_withPath]
    split <;> rfl
  · rfl

theorem Blind.refute {x : Exec Unit} (c : Cond) (hx : x.Blind) : (refute c x).Blind := by
  intro s n
  rw [Exec.refute, Exec.refute, hx s n, Outcomes.withPath, Outcomes.withPath, List.filterMap_map,
    List.map_filterMap]
  congr 1
  funext ⟨t, r⟩
  dsimp only [Function.comp_apply]
  split <;> rfl

variable {structs} in
/-- No operation that a program is made of looks at the number of the path. -/
theorem Composed.blind {vars : List String} {w : Writes} {known : List Value} {gives : α → List Value}
    (h : Composed structs vars w known gives x) : x.Blind := by
  induction h with
  | pure => exact .pure _
  | bind _ _ ihx ihf => exact ihx.bind ihf
  | either _ _ ihx ihy => exact ihx.either ihy
  | impossible => exact .impossible
  | refute c _ ih => exact ih.refute c
  | lookup => exact .ask fun _ _ => rfl
  | @set _ var v => exact .update fun s n => State.set_withPath s n var v
  | materialize => exact blind_materialize structs _
  | testNull => exact blind_testNull structs _
  | loadField index => exact blind_loadField structs _ index
  | storeCell => exact blind_storeCell _ _ _
  | newCell ty => exact blind_newCell structs ty
  | freeValue v => exact blind_freeValue v

end Exec

/-! ### Directives and instructions -/

namespace State

variable (structs : Structs) (s : State) (n : PathId)

theorem opaqueLoc_withPath (var : String) :
    (s.withPath n).opaqueLoc var = (s.opaqueLoc var).map fun q => (q.1, q.2.withPath n) := by
  have fresh : opaqueLoc.fresh (s.withPath n) var =
      (opaqueLoc.fresh s var).map fun q => (q.1, q.2.withPath n) := by
    have hset := set_withPath { s with heap := s.heap.fresh.2 } n var (.ptr s.heap.fresh.1)
    simp only [opaqueLoc.fresh]
    generalize ({ s with heap := s.heap.fresh.2 } : State).set var (.ptr s.heap.fresh.1) = r at hset ⊢
    refine (congrArg (· >>= _) hset).trans ?_
    rcases r with d | t <;> rfl
  simp only [opaqueLoc, fresh]
  rw [show (s.withPath n).lookup var = s.lookup var from rfl]
  rcases s.lookup var with d | v
  · rfl
  · rcases v with _ | loc | _
    · rfl
    · simp only [bind, Except.bind, show (s.withPath n).heap = s.heap from rfl]
      split <;> rfl
    · rfl

theorem addInductive_withPath (var : String) (pred : Predicate) (block : ParamBlock) :
    (s.withPath n).addInductive structs var pred block =
      (s.addInductive structs var pred block).map fun q => (q.1, q.2.withPath n) := by
  simp only [addInductive]
  rw [show (s.withPath n).pointee var = s.pointee var from rfl,
    show (s.withPath n).params block = s.params block from rfl, opaqueLoc_withPath]
  rcases s.pointee var with d | ty
  · rfl
  simp only [bind, Except.bind]
  split
  · rfl
  rcases s.params block with d | params
  · rfl
  rcases s.opaqueLoc var with d | ⟨loc, t⟩
  · rfl
  simp only [Except.map, show (t.withPath n).heap = t.heap from rfl]
  split <;> rfl

theorem checkInductive_withPath (var : String) (pred : Predicate) (block : Option ParamBlock) :
    (s.withPath n).checkInductive structs var pred block =
      (s.checkInductive structs var pred block).map fun q => (q.1, q.2.withPath n) := by
  simp only [checkInductive]
  rw [show (s.withPath n).lookup var = s.lookup var from rfl,
    show (s.withPath n).params = s.params from rfl, State.heap_withPath]
  rcases s.lookup var with d | root
  · rfl
  simp only [bind, Except.bind]
  rcases block.mapM s.params with d | params
  · rfl
  dsimp only
  split <;> rfl

theorem judge_withPath (d : Directive) :
    (s.withPath n).judge structs d = (s.judge structs d).map fun q => (q.1, q.2.withPath n) := by
  rcases d with names | ⟨sub, sup⟩ | ⟨var, pred, block⟩ | ⟨var, pred, block⟩ | names
  · rfl
  · simp only [judge]
    rw [show (s.withPath n).setVar sub = s.setVar sub from rfl,
      show (s.withPath n).setVar sup = s.setVar sup from rfl]
    rcases s.setVar sub with d | a
    · rfl
    rcases s.setVar sup with d | b <;> rfl
  · exact addInductive_withPath structs s n var pred block
  · exact checkInductive_withPath structs s n var pred block
  · simp only [judge, show (s.withPath n).isKnown = s.isKnown from rfl]
    split <;> rfl

end State

namespace Exploration

variable (task : Task)

theorem direct_withPath (d : Directive) (s : State) (n : PathId) :
    direct task d (s.withPath n) = ((direct task d s).1, (direct task d s).2.withPath n) := by
  simp only [direct, State.judge_withPath]
  rcases s.judge task.structs d with e | ⟨j, t⟩
  · rfl
  · rcases j with _ | _ | _ | _ | _ <;> rfl

/-- An instruction does not look at the number of the path. -/
theorem perform_withPath (instr : Instr) (s : State) (n : PathId) :
    perform task instr (s.withPath n) =
      ((perform task instr s).1, (perform task instr s).2.withPath n) := by
  rcases instr with ⟨var, ty⟩ | ⟨lhs, rhs⟩ | ⟨lhs, ty⟩ | path | cond | d | vars
  · rcases ty with _ | _ <;> rfl
  · exact congrArg _ ((Exec.Composed.assign lhs rhs).blind s n)
  · exact congrArg _ ((Exec.Composed.alloc lhs ty).blind s n)
  · exact congrArg _ ((Exec.Composed.free path).blind s n)
  · exact congrArg _ ((Exec.Composed.assert cond).blind s n)
  · simp only [perform, direct_withPath]
  · rfl

/-- The choice of a side does not look at the number of the path. -/
theorem blind_branch (structs : Structs) (cond : Cond) (thenTarget elseTarget : BlockId) :
    (branch structs cond thenTarget elseTarget).Blind :=
  (Exec.Composed.branch cond thenTarget elseTarget).blind

end Exploration

end HeapShape
