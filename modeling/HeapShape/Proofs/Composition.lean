import HeapShape.Exploration

/-!
# How operations are composed

The operations that a program is made of are composed of few: they look up and set variables, take
pointers apart into cases, read and write fields, and make and free cells. What holds of these and
is kept along composition holds of all operations.

* `Writes`: the variables and fields that an operation may write to;
* `Exec.Composed`: how an operation is composed, which variables it names, what it may write to, and
  that it only uses values that it was given or came to;
* `Exec.Composed.assign`, `Exec.Composed.alloc`, `Exec.Composed.free`, `Exec.Composed.assert`,
  `Exec.Composed.branch`: what a program does is composed in this way.
-/

namespace HeapShape

open List

/-- What may be written to: variables, and fields by their place. -/
structure Writes where
  /-- The variables. -/
  vars : List String
  /-- The places of the fields. -/
  fields : List Nat

/-- Nothing is written to. -/
def Writes.none : Writes := ⟨[], []⟩

/-- What a write to a path writes to. -/
def Path.writes (p : Path) : Writes :=
  match p.fields.getLast? with
  | some f => ⟨[], [f.index]⟩
  | none => ⟨[p.var], []⟩

namespace Exec

/-- How an operation is composed that names some variables, writes to no more than given, uses
    values that are known, and gives results with further ones. -/
inductive Composed (structs : Structs) (vars : List String) (w : Writes) :
    {α : Type} → List Value → (α → List Value) → Exec α → Prop
  | pure {α : Type} {known : List Value} {gives : α → List Value} {a : α}
      (h : ∀ v ∈ gives a, v ∈ known ∨ v.loc? = none) :
      Composed structs vars w known gives (Pure.pure a)
  | bind {α β : Type} {known : List Value} {gives : α → List Value} {gives' : β → List Value}
      {x : Exec α} {f : α → Exec β} (hx : Composed structs vars w known gives x)
      (hf : ∀ a, Composed structs vars w (gives a ++ known) gives' (f a)) :
      Composed structs vars w known gives' (x >>= f)
  | either {α : Type} {known : List Value} {gives : α → List Value} {x y : Exec α}
      (hx : Composed structs vars w known gives x) (hy : Composed structs vars w known gives y) :
      Composed structs vars w known gives (either x y)
  | impossible {α : Type} {known : List Value} {gives : α → List Value} :
      Composed structs vars w known gives impossible
  | refute {known : List Value} {gives : Unit → List Value} {x : Exec Unit} (c : Cond)
      (hx : Composed structs vars w known gives x) : Composed structs vars w known gives (refute c x)
  | lookup {known : List Value} {var : String} (hx : var ∈ vars) :
      Composed structs vars w known ([·]) (ask fun s => s.lookup var)
  | set {known : List Value} {var : String} {v : Value} (hx : var ∈ vars) (hw : var ∈ w.vars)
      (hv : v ∈ known) : Composed structs vars w known (fun _ => []) (update fun s => s.set var v)
  | materialize {known : List Value} {v : Value} (hv : v ∈ known) :
      Composed structs vars w known ([.ptr ·]) (materialize structs v)
  | testNull {known : List Value} {v : Value} (hv : v ∈ known) :
      Composed structs vars w known (fun _ => []) (testNull structs v)
  | loadField {known : List Value} {v : Value} (index : Nat) (hv : v ∈ known) :
      Composed structs vars w known ([·]) (loadField structs v index)
  | storeCell {known : List Value} {index : Nat} {v : Value} {loc : Loc} (hi : index ∈ w.fields)
      (hv : v ∈ known) (hl : .ptr loc ∈ known) :
      Composed structs vars w known (fun _ => []) (storeCell index v loc)
  | newCell {known : List Value} (ty : StructId) :
      Composed structs vars w known ([·]) (newCell structs ty)
  | freeValue {known : List Value} (v : Value) :
      Composed structs vars w known (fun _ => []) (freeValue v)

namespace Composed

variable {structs : Structs} {vars : List String} {w : Writes} {known : List Value} {v u : Value}

theorem follow (hv : v ∈ known) (fs : List FieldRef) :
    Composed structs vars w known ([·]) (follow structs v fs) := by
  induction fs generalizing v known with
  | nil => exact .pure fun u hu => .inl (mem_singleton.1 hu ▸ hv)
  | cons f fs ih => exact .bind (.loadField f.index hv) fun u => ih (.head _)

theorem read {p : Path} (hp : p.var ∈ vars) :
    Composed structs vars w known ([·]) (read structs p) :=
  .bind (.lookup hp) fun _ => .follow (.head _) p.fields

theorem readAll {ps : List Path} (hps : ps.map Path.var ⊆ vars) :
    Composed structs vars w known (fun _ => []) (readAll structs ps) := by
  induction ps generalizing known with
  | nil => exact .pure (forall_mem_nil _)
  | cons p ps ih =>
    obtain ⟨hp, hps⟩ := cons_subset.1 hps
    exact .bind (.read hp) fun _ => ih hps

theorem eval {e : Expr} (he : e.paths.map Path.var ⊆ vars) :
    Composed structs vars w known ([·]) (eval structs e) := by
  rcases e with _ | p | ps
  · exact .pure fun u hu => .inr (mem_singleton.1 hu ▸ rfl)
  · exact .read (he (.head _))
  · exact .bind (.readAll he) fun _ => .pure fun u hu => .inr (mem_singleton.1 hu ▸ rfl)

theorem write {p : Path} (hp : p.var ∈ vars) (hv : v ∈ known) :
    Composed structs vars p.writes known (fun _ => []) (write structs p v) := by
  rw [Exec.write, Path.splitLast?, Path.writes]
  cases p.fields.getLast? with
  | none => exact .set hp (.head _) hv
  | some f =>
    exact .bind (.read hp) fun _ => .bind (.materialize (.head _)) fun _ =>
      .storeCell (.head _) (.tail _ (.tail _ hv)) (.head _)

theorem compare (hv : v ∈ known) (hu : u ∈ known) :
    Composed structs vars w known (fun _ => []) (compare structs v u) := by
  have answer {known : List Value} (b : Bool) :
      Composed structs vars w known (fun _ => []) (Pure.pure b) := .pure (forall_mem_nil _)
  rw [compare.eq_def]
  split
  · exact .either (answer true) (answer false)
  · exact .either (answer true) (answer false)
  · exact answer true
  · exact .testNull hu
  · exact .testNull hv
  · split
    · exact answer true
    · refine .bind (.testNull hv) fun null => ?_
      split
      · exact .testNull hu
      · exact answer false

theorem assume {c : Cond} (hc : c.paths.map Path.var ⊆ vars) (truth : Bool) :
    Composed structs vars w known (fun _ => []) (assume structs c truth) := by
  induction c generalizing truth known with
  | unknown ps => exact .readAll hc
  | not c ih => exact ih hc !truth
  | and c d ihc ihd =>
    rw [Cond.paths, map_append, append_subset] at hc
    rcases truth with _ | _
    · exact .either (ihc hc.1 false) (.bind (ihc hc.1 true) fun _ => ihd hc.2 false)
    · exact .bind (ihc hc.1 true) fun _ => ihd hc.2 true
  | or c d ihc ihd =>
    rw [Cond.paths, map_append, append_subset] at hc
    rcases truth with _ | _
    · exact .bind (ihc hc.1 false) fun _ => ihd hc.2 false
    · exact .either (ihc hc.1 true) (.bind (ihc hc.1 false) fun _ => ihd hc.2 true)
  | cmp eq lhs rhs =>
    rw [Cond.paths, map_append, append_subset] at hc
    refine .bind (.eval hc.1) fun a => .bind (.eval hc.2) fun b =>
      .bind (.compare (.tail _ (.head _)) (.head _)) fun same => ?_
    split
    · exact .pure (forall_mem_nil _)
    · exact .impossible

/-! ### Statements -/

theorem assign (lhs : Path) (rhs : Expr) : Composed structs (lhs.var :: rhs.paths.map Path.var)
    lhs.writes [] (fun _ => []) (assign structs lhs rhs) :=
  .bind (.eval (subset_cons_self _ _)) fun _ => .write (.head _) (.head _)

theorem alloc (lhs : Path) (ty : StructId) :
    Composed structs [lhs.var] lhs.writes [] (fun _ => []) (alloc structs lhs ty) :=
  .bind (.newCell ty) fun _ => .write (.head _) (.head _)

theorem free (p : Path) : Composed structs [p.var] .none [] (fun _ => []) (free structs p) :=
  .bind (.read (.head _)) fun v => .freeValue v

theorem assert (c : Cond) :
    Composed structs (c.paths.map Path.var) .none [] (fun _ => []) (assert structs c) := by
  rw [Exec.assert]
  split
  · exact .readAll (Subset.refl _)
  · exact .either (.assume (Subset.refl _) true) (.refute c (.assume (Subset.refl _) false))

theorem branch (c : Cond) (thenTarget elseTarget : BlockId) :
    Composed structs (c.paths.map Path.var) .none [] (fun _ => [])
      (Exploration.branch structs c thenTarget elseTarget) :=
  .either (.bind (.assume (Subset.refl _) true) fun _ => .pure (forall_mem_nil _))
    (.bind (.assume (Subset.refl _) false) fun _ => .pure (forall_mem_nil _))

end Composed

end Exec

end HeapShape
