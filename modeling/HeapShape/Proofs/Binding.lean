import HeapShape.Proofs.Composition
import HeapShape.Proofs.Outcomes

/-!
# Variables in scope

Which variables an operation needs. A state has some variables in scope. Only a declaration
and the end of a scope change which ones, and an operation finds a variable to be undefined
only if it names the variable and the variable is not in scope.

* `Exec.Uses`: an operation keeps the scope and names no other variables than given;
* `Exec.Composed.uses`: so does every operation that is composed of the basic ones;
* `Exploration.binds_of_perform`, `Exploration.undefined_of_perform`: what an instruction leaves
  in scope, and which variables it can find to be undefined.
-/

namespace HeapShape

open List

theorem mem_removeAll {l names : List String} {var : String} :
    var ∈ l.removeAll names ↔ var ∈ l ∧ var ∉ names := by
  simp [List.removeAll]

namespace State

variable {s t u : State} {loc : Loc}

/-- A variable is in scope. -/
def Bound (s : State) (var : String) : Prop := (s.env.get? var).isSome

/-- Some variables are in scope. -/
def Binds (s : State) (names : List String) : Prop := ∀ var ∈ names, s.Bound var

/-- Two states have the same variables in scope. -/
def SameScope (s t : State) : Prop := ∀ var, t.Bound var ↔ s.Bound var

theorem SameScope.refl (s : State) : s.SameScope s := fun _ => .rfl

theorem SameScope.trans (h : s.SameScope t) (h' : t.SameScope u) : s.SameScope u :=
  fun var => (h' var).trans (h var)

theorem SameScope.of_env (h : t.env = s.env) : s.SameScope t := fun var => by rw [Bound, h, Bound]

theorem SameScope.binds {names : List String} (h : s.SameScope t) (hs : s.Binds names) :
    t.Binds names := fun var hv => (h var).2 (hs var hv)

theorem Binds.mono {names names' : List String} (h : s.Binds names) (hsub : names' ⊆ names) :
    s.Binds names' := fun var hv => h var (hsub hv)

/-! ### Changes of a state -/

theorem sameScope_subst (s : State) (loc : Loc) (w : Value) : s.SameScope (s.subst loc w) := by
  intro var
  rw [Bound, subst, NameMap.get?_map, Option.isSome_map, Bound]

theorem sameScope_setNull (h : s.setNull loc = .ok t) : s.SameScope t := by
  obtain ⟨⟨f, heap⟩, -, h⟩ := ok_of_bind h
  cases h
  exact sameScope_subst { s with heap } loc .null

theorem sameScope_equate {a b : Value} (h : s.equate a b = .ok (some t)) : s.SameScope t := by
  rcases equate_replaces h with rfl | ⟨k, w, rfl, -, -⟩
  · exact .refl _
  · exact sameScope_subst { s with heap := s.heap.write k .vacant } k w

theorem sameScope_equateAll {l : List (Value × Value)} (h : s.equateAll l = .ok (some t)) :
    s.SameScope t := by
  induction l generalizing s with
  | nil =>
    cases h
    exact .refl _
  | cons p l ih =>
    obtain ⟨s₁, he, h⟩ := equateAll_cons h
    exact (sameScope_equate he).trans (ih h)

theorem sameScope_closeSegment {sum : Summary} {o : Hole} (h : s.closeSegment loc sum o = .ok (some t)) :
    s.SameScope t := by
  obtain ⟨s₁, sets, he, rfl⟩ := closeSegment_eq_some h
  have hclosed : s.SameScope (s.emptied loc o.value) :=
    sameScope_subst { s with heap := s.heap.write loc .vacant } loc o.value
  have hequated : s.SameScope s₁ := hclosed.trans (sameScope_equateAll he)
  exact hequated

theorem sameScope_discharge {sum : Summary} (h : s.discharge loc sum = some t) : s.SameScope t := by
  obtain ⟨sets, -, rfl⟩ := Option.map_eq_some_iff.1 h
  exact sameScope_subst { s with heap := { s.heap.write loc .vacant with sets } } loc .null

theorem sameScope_insert {var : String} {b c : Binding} (hb : s.env.get? var = some b) :
    s.SameScope { s with env := s.env.insert var c } := by
  intro other
  rw [Bound, NameMap.get?_insert]
  split
  · rename_i heq
    rw [Bound, heq, hb]
    exact .rfl
  · exact .rfl

theorem sameScope_set {var : String} {v : Value} (h : s.set var v = .ok t) : s.SameScope t := by
  rw [set] at h
  split at h
  · rename_i b hb
    cases h
    exact sameScope_insert hb
  · cases h

theorem bound_declare {var other : String} {ty : Ty} :
    (s.declare var ty).Bound other ↔ other = var ∨ s.Bound other := by
  rcases ty with _ | target
  all_goals
    rw [Bound, declare, NameMap.get?_insert]
    split <;> simp_all [Bound]

theorem bound_kill {vars : List String} {other : String} :
    (s.kill vars).Bound other ↔ other ∉ vars ∧ s.Bound other := by
  induction vars generalizing s with
  | nil => simp [kill, Bound]
  | cons var vars ih =>
    have hkill : s.kill (var :: vars) = ({ s with env := s.env.erase var } : State).kill vars := rfl
    rw [hkill, ih, Bound, NameMap.get?_erase]
    split <;> simp_all [Bound]

end State

namespace Exec

variable {α β : Type} {x y : Exec α} {f : α → Exec β} {vars vars' : List String} (structs : Structs)

/-- The outcomes have the same variables in scope as a state, and a variable that is undefined is one
    of those given and not in scope. -/
def UsesAt (vars : List String) (s : State) : Outcomes α → Prop :=
  All fun s' r => s.SameScope s' ∧ ∀ var, r = .error (.undefined var) → var ∈ vars ∧ ¬ s.Bound var

/-- Every outcome of an operation has the same variables in scope, and a variable that is undefined
    is one of those given and not in scope. -/
def Uses (x : Exec α) (vars : List String) : Prop := ∀ s, UsesAt vars s (x s)

namespace UsesAt

variable {s t : State} {l : Outcomes α}

theorem after (h : s.SameScope t) (hl : UsesAt vars t l) : UsesAt vars s l := by
  intro s' r hr
  obtain ⟨hs', hu⟩ := hl s' r hr
  exact ⟨h.trans hs', fun var hv => ⟨(hu var hv).1, fun hb => (hu var hv).2 ((h var).2 hb)⟩⟩

theorem here {r : Except Defect α} (hr : ∀ var, r ≠ .error (.undefined var)) : UsesAt vars s [(s, r)] :=
  .single ⟨.refl s, fun var hv => (hr var hv).elim⟩

/-- The heap may be another one. -/
theorem heaps {a : α} (hs : List Heap) : UsesAt vars s (hs.map fun heap => ({ s with heap }, .ok a)) :=
  .cells fun _ _ => ⟨.of_env rfl, nofun⟩

end UsesAt

namespace Uses

theorem bind (hx : x.Uses vars) (hf : ∀ a, (f a).Uses vars) : (x >>= f).Uses vars := by
  refine fun s => (hx s).bind (fun s₁ a h₁ => (hf a s₁).after h₁.1) fun s' d hd => ⟨hd.1, ?_⟩
  rintro var ⟨⟩
  exact hd.2 var rfl

theorem pure (a : α) : (Pure.pure a : Exec α).Uses vars := fun s => .single ⟨.refl s, nofun⟩

theorem either (hx : x.Uses vars) (hy : y.Uses vars) : (x.either y).Uses vars :=
  fun s => (hx s).append (hy s)

theorem ask {g : State → Except Defect α}
    (h : ∀ s var, g s = .error (.undefined var) → var ∈ vars ∧ ¬ s.Bound var) :
    (ask g).Uses vars := fun s => .single ⟨.refl s, h s⟩

theorem update {g : State → Except Defect State} (hok : ∀ s t, g s = .ok t → s.SameScope t)
    (herr : ∀ s var, g s = .error (.undefined var) → var ∈ vars ∧ ¬ s.Bound var) :
    (update g).Uses vars := by
  refine fun s => .update (fun t ht => ⟨hok s t ht, nofun⟩) fun d hd => ⟨.refl s, fun var hv => ?_⟩
  cases hv
  exact herr s var hd

end Uses

/-! ### Cases of a pointer -/

theorem uses_materialize (v : Value) : (materialize structs v).Uses vars := by
  intro s
  show UsesAt vars s (s.materialize structs v)
  fun_induction State.materialize structs s v with
  | case1 | case2 | case3 | case4 | case5 | case6 | case7 => exact .here nofun
  | case8 s loc sum hs heaps hu cells o ho closed hc ih =>
    exact (UsesAt.heaps heaps).append (ih.after (State.sameScope_closeSegment hc))
  | case9 s loc sum hs heaps | case12 s loc sum hs heaps => exact .heaps heaps
  | case10 s loc sum hs heaps => exact (UsesAt.heaps heaps).append (UsesAt.here nofun)
  | case11 s loc sum hs heaps hu cells ho base hd =>
    exact (UsesAt.heaps heaps).append (.single ⟨State.sameScope_discharge hd, nofun⟩)

theorem uses_testNull (v : Value) : (testNull structs v).Uses vars := by
  intro s
  show UsesAt vars s (s.testNull structs v)
  fun_induction State.testNull structs s v with
  | case1 | case2 | case3 | case4 | case6 | case8 | case9 | case12 => exact .here nofun
  | case5 s loc hs null hn | case7 s loc set ty hs null hn =>
    exact .cons ⟨State.sameScope_setNull hn, nofun⟩ (UsesAt.here nofun)
  | case10 s loc sum hs heaps hu cells o ho closed hc ih =>
    exact (ih.after (State.sameScope_closeSegment hc)).append (UsesAt.heaps heaps)
  | case11 s loc sum hs heaps | case14 s loc sum hs heaps => exact .heaps heaps
  | case13 s loc sum hs heaps hu cells ho base hd =>
    exact .cons ⟨State.sameScope_discharge hd, nofun⟩ (UsesAt.heaps heaps)

/-! ### Paths and expressions -/

theorem uses_loadMember (loc : Loc) (set : SetVar) (ty : StructId) (index : Nat) :
    (loadMember structs loc set ty index).Uses vars := by
  intro s
  show UsesAt vars s _
  rw [loadMember]
  split
  · exact .single ⟨.of_env rfl, nofun⟩
  · exact .here nofun
  · exact .here nofun

theorem uses_loadCell (index : Nat) (loc : Loc) : (loadCell index loc).Uses vars := by
  refine .ask fun s var h => ?_
  split at h
  · cases h
  · cases h

theorem uses_loadField (v : Value) (index : Nat) : (loadField structs v index).Uses vars := by
  intro s
  show ∀ s' r, (s', r) ∈ loadField structs v index s → _
  rw [loadField]
  split
  · exact uses_loadMember structs _ _ _ index s
  · exact (uses_materialize structs v).bind (uses_loadCell index) s

theorem uses_storeCell (index : Nat) (new : Value) (loc : Loc) :
    (storeCell index new loc).Uses vars := by
  refine .update (fun s t h => ?_) fun s var h => ?_
  · split at h
    · cases h
      exact .of_env rfl
    · cases h
  · split at h
    · cases h
    · cases h

theorem uses_lookup {var : String} (hx : var ∈ vars) : (ask fun s => s.lookup var).Uses vars := by
  refine .ask fun s var' h => ?_
  rw [State.lookup] at h
  split at h
  · cases h
  · rename_i hnone
    cases h
    refine ⟨hx, fun hb => ?_⟩
    rw [State.Bound, hnone] at hb
    exact Bool.false_ne_true hb

theorem uses_set {var : String} (hx : var ∈ vars) (v : Value) :
    (update fun s => s.set var v).Uses vars := by
  refine .update (fun s t h => State.sameScope_set h) fun s var' h => ?_
  rw [State.set] at h
  split at h
  · cases h
  · rename_i hnone
    cases h
    refine ⟨hx, fun hb => ?_⟩
    rw [State.Bound, hnone] at hb
    exact Bool.false_ne_true hb

/-! ### Statements and conditions -/

theorem uses_newCell (ty : StructId) : (newCell structs ty).Uses vars := by
  intro s
  show UsesAt vars s _
  rw [newCell]
  split
  · exact .single ⟨.of_env rfl, nofun⟩
  · exact .here nofun

theorem uses_freeValue (v : Value) : (freeValue v).Uses vars := by
  refine .update (fun s t h => ?_) fun s var h => ?_
  · split at h
    · cases h
    · cases h
    · split at h
      · cases h
        exact .of_env rfl
      all_goals cases h
  · split at h
    · cases h
    · cases h
    · split at h
      all_goals cases h

theorem uses_refute {x : Exec Unit} (c : Cond) (h : x.Uses vars) : (refute c x).Uses vars :=
  fun s => (h s).refute c (fun _ ht => ⟨ht.1, nofun⟩) fun _ _ ht => ⟨ht.1, nofun⟩

variable {structs} in
/-- An operation names no other variables than those that it is composed with. -/
theorem Composed.uses {w : Writes} {known : List Value} {gives : α → List Value}
    (h : Composed structs vars w known gives x) : x.Uses vars := by
  induction h with
  | pure => exact .pure _
  | bind _ _ ihx ihf => exact ihx.bind ihf
  | either _ _ ihx ihy => exact ihx.either ihy
  | impossible => exact fun s => .nil
  | refute c _ ih => exact uses_refute c ih
  | lookup hx => exact uses_lookup hx
  | @set _ _ v hx => exact uses_set hx v
  | materialize => exact uses_materialize structs _
  | testNull => exact uses_testNull structs _
  | loadField index => exact uses_loadField structs _ index
  | storeCell => exact uses_storeCell _ _ _
  | newCell ty => exact uses_newCell structs ty
  | freeValue v => exact uses_freeValue v

end Exec

/-! ### Directives and instructions -/

namespace State

variable {structs : Structs} {s t : State} {var : String} {j : Judgement}

theorem sameScope_opaqueLoc {loc : Loc} (h : s.opaqueLoc var = .ok (loc, t)) : s.SameScope t := by
  rcases hb : s.env.get? var with _ | b
  · rw [opaqueLoc_undefined hb] at h
    cases h
  · rcases opaqueLoc_cases hb with ⟨_, -, -, ho⟩ | ho
    · cases h.symm.trans ho
      exact .refl s
    · cases h.symm.trans ho
      have hinsert := sameScope_insert (c := { b with value := .ptr s.heap.fresh.1 }) hb
      exact hinsert

theorem sameScope_addInductive {pred : Predicate} {block : ParamBlock}
    (h : s.addInductive structs var pred block = .ok (j, t)) : s.SameScope t := by
  obtain ⟨ty, -, h⟩ := ok_of_bind h
  split at h
  · cases h
    exact .refl s
  · obtain ⟨params, -, h⟩ := ok_of_bind h
    obtain ⟨⟨loc, s₁⟩, ho, h⟩ := ok_of_bind h
    have hs₁ := sameScope_opaqueLoc ho
    dsimp only at h
    split at h
    · cases h
      exact hs₁
    · cases h

theorem sameScope_checkInductive {pred : Predicate} {block : Option ParamBlock}
    (h : s.checkInductive structs var pred block = .ok (j, t)) : s.SameScope t := by
  obtain ⟨root, -, h⟩ := ok_of_bind h
  obtain ⟨params, -, h⟩ := ok_of_bind h
  split at h
  · cases h
    exact .of_env rfl
  · cases h
    exact .refl s
  · cases h

/-- A directive changes no variable in scope. -/
theorem sameScope_judge {d : Directive} (h : s.judge structs d = .ok (j, t)) : s.SameScope t := by
  rcases d with names | ⟨sub, sup⟩ | ⟨var, pred, block⟩ | ⟨var, pred, block⟩ | names
  · cases h
    exact .of_env rfl
  · obtain ⟨sub, -, h⟩ := ok_of_bind h
    obtain ⟨sup, -, h⟩ := ok_of_bind h
    cases h
    exact .of_env rfl
  · exact sameScope_addInductive h
  · exact sameScope_checkInductive h
  · rw [judge] at h
    split at h
    · cases h
    · cases h
      exact .refl s

end State

namespace Instr

/-- The variables that must be in scope for an instruction. A directive judges this itself. -/
def uses : Instr → List String
  | .assign lhs rhs => lhs.var :: rhs.paths.map Path.var
  | .alloc lhs _ => [lhs.var]
  | .free path => [path.var]
  | .assert cond => cond.paths.map Path.var
  | .decl .. | .directive _ | .kill _ => []

/-- The variables in scope after an instruction. -/
def leaves (names : List String) : Instr → List String
  | .decl var _ => var :: names
  | .kill vars => names.removeAll vars
  | .assign .. | .alloc .. | .free _ | .assert _ | .directive _ => names

end Instr

namespace Exploration

variable {task : Task} {s s' : State}

theorem sameScope_direct {d : Directive} {r : Except Defect Unit}
    (h : (s', r) ∈ (direct task d s).2) : s.SameScope s' := by
  rw [direct] at h
  split at h
  · cases mem_singleton.1 h
    exact .refl s
  · rename_i hj
    cases mem_singleton.1 h
    exact State.sameScope_judge hj
  · rename_i hj
    cases mem_singleton.1 h
    exact State.sameScope_judge hj

/-- A directive that names what is not declared is judged to fail for this. -/
theorem judgement_of_undefined {d : Directive} {var : String}
    (h : (s', .error (.undefined var)) ∈ (direct task d s).2) :
    s' = s ∧ (direct task d s).1 = .fail (.defect (.undefined var)) := by
  rw [direct] at h ⊢
  split at h
  · cases mem_singleton.1 h
    exact ⟨rfl, rfl⟩
  · have hr := congrArg Prod.snd (mem_singleton.1 h)
    dsimp only at hr
    split at hr
    · cases hr
    · cases hr
  · cases mem_singleton.1 h

theorem binds_of_perform {instr : Instr} {names : List String}
    (h : (s', .ok ()) ∈ (perform task instr s).2) (hb : s.Binds names) :
    s'.Binds (instr.leaves names) := by
  rcases instr with ⟨var, ty⟩ | ⟨lhs, rhs⟩ | ⟨lhs, ty⟩ | p | c | d | vars
  · cases mem_singleton.1 h
    intro other ho
    rcases mem_cons.1 ho with rfl | ho
    · exact State.bound_declare.2 (.inl rfl)
    · exact State.bound_declare.2 (.inr (hb other ho))
  · exact ((Exec.Composed.assign lhs rhs).uses s s' _ h).1.binds hb
  · exact ((Exec.Composed.alloc lhs ty).uses s s' _ h).1.binds hb
  · exact ((Exec.Composed.free p).uses s s' _ h).1.binds hb
  · exact ((Exec.Composed.assert c).uses s s' _ h).1.binds hb
  · exact (sameScope_direct h).binds hb
  · cases mem_singleton.1 h
    intro other ho
    obtain ⟨ho, hkept⟩ := mem_removeAll.1 ho
    exact State.bound_kill.2 ⟨hkept, hb other ho⟩

theorem undefined_of_perform {instr : Instr} {var : String} (hn : ∀ d, instr ≠ .directive d)
    (h : (s', .error (.undefined var)) ∈ (perform task instr s).2) :
    var ∈ instr.uses ∧ ¬ s.Bound var := by
  rcases instr with ⟨var', ty⟩ | ⟨lhs, rhs⟩ | ⟨lhs, ty⟩ | p | c | d | vars
  · cases mem_singleton.1 h
  · exact ((Exec.Composed.assign lhs rhs).uses s s' _ h).2 var rfl
  · exact ((Exec.Composed.alloc lhs ty).uses s s' _ h).2 var rfl
  · exact ((Exec.Composed.free p).uses s s' _ h).2 var rfl
  · exact ((Exec.Composed.assert c).uses s s' _ h).2 var rfl
  · exact (hn d rfl).elim
  · cases mem_singleton.1 h

theorem uses_branch (structs : Structs) (c : Cond) (thenTarget elseTarget : BlockId) :
    (branch structs c thenTarget elseTarget).Uses (c.paths.map Path.var) :=
  (Exec.Composed.branch c thenTarget elseTarget).uses

end Exploration

end HeapShape
