import HeapShape.Proofs.Placement

/-!
# Types of programs

A program is well typed if its paths, assignments, allocations and releases agree with the types of
the variables in scope and of the fields of its structures. A declaration comes into scope before its
initial value. Of a condition only the paths matter, since a comparison of any two values has an
outcome. A directive that assumes an instance may only name parameters of the type of its root.

All this can be computed, and is told of the statements. It is then told of the points of the flow
graph: a scope that ends gives back the variables that were in scope before.

* `Path.type?`: the type of an access path;
* `Program.WellTyped`: a program is well typed;
* `FlowGraph.Accepts`: what is met from a point of a flow graph in so many steps is well typed;
* `FlowGraph.accepts_ofProgram`: the flow graph of a well typed program is, for any number of steps.
-/

namespace HeapShape

open List

/-- The type of the field of a structure at a place. -/
def Structs.fieldType? (structs : Structs) (T : StructId) (index : Nat) : Option Ty :=
  ((structs.decl? T).bind (·.fields[index]?)).map FieldDecl.ty

/-- The type behind some fields that are followed. -/
def Ty.follow? (structs : Structs) : Ty → List FieldRef → Option Ty
  | ty, [] => some ty
  | .int, _ :: _ => none
  | .ptr T, f :: fs => (structs.fieldType? T f.index).bind fun ty => ty.follow? structs fs

theorem Ty.follow?_append {structs : Structs} {ty : Ty} (fs gs : List FieldRef) :
    ty.follow? structs (fs ++ gs) = (ty.follow? structs fs).bind fun ty' => ty'.follow? structs gs := by
  induction fs generalizing ty with
  | nil => rfl
  | cons f fs ih =>
    rcases ty with _ | T
    · rfl
    · rcases hf : structs.fieldType? T f.index with _ | ty'
      · simp [follow?, hf]
      · simpa [follow?, hf] using ih

/-! ### Statements -/

section

variable (structs : Structs) (Γ : Context)

/-- The type of an access path. -/
def Path.type? (p : Path) : Option Ty :=
  (Γ.lookup p.var).bind fun ty => ty.follow? structs p.fields

/-- An expression has a type. Null has every pointer type, and a scalar is computed from paths of
    any type. -/
def Expr.HasType (ty : Ty) : Expr → Prop
  | .null => ty.isPtr = true
  | .path p => p.type? structs Γ = some ty
  | .scalar ps => ty = .int ∧ ∀ p ∈ ps, (p.type? structs Γ).isSome

instance (ty : Ty) : (e : Expr) → Decidable (e.HasType structs Γ ty)
  | .null => inferInstanceAs (Decidable (ty.isPtr = true))
  | .path p => inferInstanceAs (Decidable (p.type? structs Γ = some ty))
  | .scalar ps => inferInstanceAs (Decidable (ty = .int ∧ ∀ p ∈ ps, (p.type? structs Γ).isSome))

/-- An expression has the type of the path that it is assigned to. -/
def Path.Takes (lhs : Path) (rhs : Expr) : Prop := ∃ ty ∈ lhs.type? structs Γ, rhs.HasType structs Γ ty

instance (lhs : Path) (rhs : Expr) : Decidable (lhs.Takes structs Γ rhs) :=
  inferInstanceAs (Decidable (∃ ty ∈ lhs.type? structs Γ, rhs.HasType structs Γ ty))

/-- The paths of a condition can be followed. -/
def Cond.WellTyped (c : Cond) : Prop := ∀ p ∈ c.paths, (p.type? structs Γ).isSome

instance (c : Cond) : Decidable (c.WellTyped structs Γ) :=
  inferInstanceAs (Decidable (∀ p ∈ c.paths, (p.type? structs Γ).isSome))

/-- The pointer parameters of an instance that is assumed are null, or variables of the pointer type
    of its root. -/
def Directive.WellTyped : Directive → Prop
  | .addInductive var _ block => ∀ name ∈ block.ptrs, (name = "null" ∨ name = "NULL") ∨
      Γ.lookup name = Γ.lookup var ∧ (Γ.lookup var).any Ty.isPtr
  | _ => True

instance : (d : Directive) → Decidable (d.WellTyped Γ)
  | .addInductive var _ block => inferInstanceAs (Decidable (∀ name ∈ block.ptrs,
      (name = "null" ∨ name = "NULL") ∨ Γ.lookup name = Γ.lookup var ∧ (Γ.lookup var).any Ty.isPtr))
  | .declareSets _ | .assumeSubset .. | .checkInductive .. | .forceLive _ =>
    inferInstanceAs (Decidable True)

end

namespace Stmt

variable (structs : Structs)

mutual

/-- A statement agrees with the types of the variables in scope. -/
def WellTyped (Γ : Context) : Stmt → Prop
  | .decl _ var ty init => ∀ e ∈ init, e.HasType structs ((var, ty) :: Γ) ty
  | .assign _ lhs rhs => lhs.Takes structs Γ rhs
  | .alloc _ lhs T => lhs.type? structs Γ = some (.ptr T)
  | .free _ path => (path.type? structs Γ).any Ty.isPtr = true
  | .ite _ cond thenBody elseBody =>
    cond.WellTyped structs Γ ∧ WellTypedIn Γ thenBody ∧ WellTypedIn Γ elseBody
  | .loop _ cond body => cond.WellTyped structs Γ ∧ WellTypedIn Γ body
  | .block _ body => WellTypedIn Γ body
  | .assert _ cond => cond.WellTyped structs Γ
  | .directive _ d => d.WellTyped Γ
  | .return _ => True

/-- The statements of a body do, one after the other. -/
def WellTypedIn (Γ : Context) : List Stmt → Prop
  | [] => True
  | s :: rest => s.WellTyped Γ ∧ WellTypedIn (s.scope Γ) rest

end

mutual

/-- Whether a statement is well typed. -/
def decWellTyped : (Γ : Context) → (s : Stmt) → Decidable (s.WellTyped structs Γ)
  | Γ, .decl _ var ty init =>
    inferInstanceAs (Decidable (∀ e ∈ init, e.HasType structs ((var, ty) :: Γ) ty))
  | Γ, .assign _ lhs rhs => inferInstanceAs (Decidable (lhs.Takes structs Γ rhs))
  | Γ, .alloc _ lhs T => inferInstanceAs (Decidable (lhs.type? structs Γ = some (.ptr T)))
  | Γ, .free _ path => inferInstanceAs (Decidable ((path.type? structs Γ).any Ty.isPtr = true))
  | Γ, .ite _ cond thenBody elseBody =>
    have := decWellTypedIn Γ thenBody
    have := decWellTypedIn Γ elseBody
    inferInstanceAs (Decidable (cond.WellTyped structs Γ ∧ WellTypedIn structs Γ thenBody ∧
      WellTypedIn structs Γ elseBody))
  | Γ, .loop _ cond body =>
    have := decWellTypedIn Γ body
    inferInstanceAs (Decidable (cond.WellTyped structs Γ ∧ WellTypedIn structs Γ body))
  | Γ, .block _ body => decWellTypedIn Γ body
  | Γ, .assert _ cond => inferInstanceAs (Decidable (cond.WellTyped structs Γ))
  | Γ, .directive _ d => inferInstanceAs (Decidable (d.WellTyped Γ))
  | _, .return _ => inferInstanceAs (Decidable True)

/-- Whether a body is well typed. -/
def decWellTypedIn : (Γ : Context) → (body : List Stmt) → Decidable (WellTypedIn structs Γ body)
  | _, [] => inferInstanceAs (Decidable True)
  | Γ, s :: rest =>
    have := decWellTyped Γ s
    have := decWellTypedIn (s.scope Γ) rest
    inferInstanceAs (Decidable (s.WellTyped structs Γ ∧ WellTypedIn structs (s.scope Γ) rest))

end

end Stmt

/-- The body of a program is well typed. -/
def Program.WellTyped (p : Program) : Prop := Stmt.WellTypedIn p.structs [] p.body

instance (p : Program) : Decidable p.WellTyped := Stmt.decWellTypedIn p.structs [] p.body

/-! ### Points of a flow graph -/

/-- The variables in scope after an instruction. The end of a scope takes away as many as it kills. -/
def Instr.scope (Γ : Context) : Instr → Context
  | .decl var ty => (var, ty) :: Γ
  | .kill vars => Γ.drop vars.length
  | _ => Γ

/-- An instruction agrees with the types of the variables in scope. At the end of a scope, the
    variables that are not killed are those that stay. -/
def Instr.WellTyped (structs : Structs) (Γ : Context) : Instr → Prop
  | .decl .. => True
  | .assign lhs rhs => lhs.Takes structs Γ rhs
  | .alloc lhs T => lhs.type? structs Γ = some (.ptr T)
  | .free path => (path.type? structs Γ).any Ty.isPtr = true
  | .assert cond => cond.WellTyped structs Γ
  | .directive d => d.WellTyped Γ
  | .kill vars => ∀ x ∉ vars, (Γ.drop vars.length).lookup x = Γ.lookup x

/-- The condition of an exit agrees with the types of the variables in scope. -/
def Exit.WellTyped (structs : Structs) (Γ : Context) : Exit → Prop
  | .branch _ cond _ _ => cond.WellTyped structs Γ
  | .goto _ | .return => True

namespace Stmt

variable {Γ : Context}

theorem drop_scopeIn (Γ : Context) (body : List Stmt) :
    (scopeIn Γ body).drop (locals body).length = Γ := by
  obtain ⟨Δ, hΔ, hnames⟩ := exists_scopeIn Γ body
  rw [hΔ, ← hnames, length_reverse, length_map, drop_left]

theorem lookup_scopeIn {x : String} {body : List Stmt} (hx : x ∉ locals body) :
    (scopeIn Γ body).lookup x = Γ.lookup x := by
  obtain ⟨Δ, hΔ, hnames⟩ := exists_scopeIn Γ body
  rw [← hnames, mem_reverse] at hx
  have hnone : Δ.lookup x = none := by
    refine lookup_eq_none_iff.2 fun e he => bne_iff_ne.2 ?_
    rintro rfl
    exact hx (mem_map_of_mem he)
  rw [hΔ, lookup_append, hnone, Option.none_or]

end Stmt

namespace FlowGraph

variable (g : FlowGraph) (structs : Structs)

/-- What is met from a point in so many steps is well typed, if some variables are in scope there. -/
def Accepts : Nat → Point → Context → Prop
  | 0, _, _ => True
  | n + 1, p, Γ =>
    (∀ span instr, g.InstrAt p span instr →
      instr.WellTyped structs Γ ∧ Accepts n p.next (instr.scope Γ)) ∧
    ∀ exit, g.ExitAt p exit →
      exit.WellTyped structs Γ ∧ ∀ target ∈ exit.targets, Accepts n (.first target) Γ

variable {g structs} {p q : Point} {Γ : Context} {m n : Nat} {span : Span} {instr : Instr} {exit : Exit}

theorem Accepts.mono (h : g.Accepts structs n p Γ) (hle : m ≤ n) : g.Accepts structs m p Γ := by
  induction m generalizing n p Γ with
  | zero => trivial
  | succ m ih =>
    obtain ⟨n, rfl⟩ : ∃ k, n = k + 1 := ⟨n - 1, by omega⟩
    have hle := Nat.le_of_succ_le_succ hle
    refine ⟨fun span instr hi => ⟨(h.1 span instr hi).1, ih (h.1 span instr hi).2 hle⟩,
      fun exit he => ⟨(h.2 exit he).1, fun target ht => ih ((h.2 exit he).2 target ht) hle⟩⟩

theorem accepts_instr (hi : g.InstrAt p span instr) (hw : instr.WellTyped structs Γ)
    (hn : g.Accepts structs n p.next (instr.scope Γ)) : g.Accepts structs n p Γ := by
  refine Accepts.mono (n := n + 1) ⟨fun span' instr' hi' => ?_, fun exit he => ?_⟩ (Nat.le_succ n)
  · obtain ⟨-, rfl⟩ := hi.unique hi'
    exact ⟨hw, hn⟩
  · exact (hi.not_exitAt he).elim

theorem accepts_exit (he : g.ExitAt p exit) (hw : exit.WellTyped structs Γ)
    (hn : ∀ target ∈ exit.targets, g.Accepts structs n (.first target) Γ) :
    g.Accepts structs (n + 1) p Γ := by
  refine ⟨fun span instr hi => (hi.not_exitAt he).elim, fun exit' he' => ?_⟩
  obtain rfl := he.unique he'
  exact ⟨hw, hn⟩

theorem accepts_goto {target : BlockId} (he : g.ExitAt p (.goto target))
    (hn : g.Accepts structs n (.first target) Γ) : g.Accepts structs n p Γ :=
  (accepts_exit he trivial (forall_mem_singleton.2 hn)).mono (Nat.le_succ n)

/-- A scope gives back the variables that were in scope before. -/
theorem accepts_scope {body : List Stmt} {placed : Point → Point → Prop}
    (hbody : ∀ r, placed p r → g.Accepts structs n r (Stmt.scopeIn Γ body) → g.Accepts structs n p Γ)
    (hp : Stmt.ScopePlaced g span body placed p q) (hq : g.Accepts structs n q Γ) :
    g.Accepts structs n p Γ := by
  obtain ⟨r, hr, hrow⟩ := hp
  refine hbody r hr ?_
  have hdrop := Stmt.drop_scopeIn Γ body
  rw [Stmt.scopeEnd, Stmt.introduced_eq_locals] at hrow
  rcases hvars : Stmt.locals body with _ | ⟨var, vars⟩
  · rw [hvars] at hrow hdrop
    obtain rfl : q = r := hrow
    rwa [show Stmt.scopeIn Γ body = Γ from hdrop]
  · rw [hvars] at hrow hdrop
    obtain ⟨hkill, rfl⟩ := hrow
    refine accepts_instr hkill (fun x hx => ?_) ?_
    · rw [hdrop, Stmt.lookup_scopeIn (hvars ▸ hx)]
    · show g.Accepts structs n r.next ((Stmt.scopeIn Γ body).drop (var :: vars).length)
      rw [hdrop]
      exact hq

mutual

/-- In front of a well typed statement all is well typed if it is behind it. -/
theorem accepts_stmt : ∀ (s : Stmt) {Γ : Context} {p q : Point} {n : Nat}, s.WellTyped structs Γ →
    s.Placed g p q → g.Accepts structs n q (s.scope Γ) → g.Accepts structs n p Γ
  | .decl span var ty init, Γ, p, q, n, hs, hp, hq => by
    obtain ⟨hdecl, hrow⟩ := hp
    refine accepts_instr hdecl trivial ?_
    rcases init with _ | e
    · obtain rfl : q = p.next := hrow
      exact hq
    · obtain ⟨hassign, rfl⟩ := hrow
      refine accepts_instr hassign ⟨ty, ?_, hs e rfl⟩ hq
      simp [Path.type?, Path.ofVar, Instr.scope, Ty.follow?]
  | .assign .., _, _, _, _, hs, hp, hq | .alloc .., _, _, _, _, hs, hp, hq
  | .free .., _, _, _, _, hs, hp, hq | .assert .., _, _, _, _, hs, hp, hq
  | .directive .., _, _, _, _, hs, hp, hq => by
    obtain ⟨hi, rfl⟩ := hp
    exact accepts_instr hi hs hq
  | .block span body, _, _, _, _, hs, hp, hq =>
    accepts_scope (fun _ hr => accepts_body body hs hr) hp hq
  | .ite span cond thenBody elseBody, Γ, p, q, n, hs, hp, hq => by
    obtain ⟨thenBlock, elseBlock, join, thenEnd, elseEnd, hbranch, -, hthen, hthenEnd, helse, helseEnd,
      rfl⟩ := hp
    refine (accepts_exit hbranch hs.1 ?_).mono (Nat.le_succ n)
    refine forall_mem_cons.2 ⟨?_, forall_mem_singleton.2 ?_⟩
    · exact accepts_scope (fun _ hr => accepts_body thenBody hs.2.1 hr) hthen (accepts_goto hthenEnd hq)
    · exact accepts_scope (fun _ hr => accepts_body elseBody hs.2.2 hr) helse (accepts_goto helseEnd hq)
  | .loop span cond body, Γ, p, q, n, hs, hp, hq => by
    obtain ⟨head, start, after, bodyEnd, hgoto, hhead, hbody, hback, rfl⟩ := hp
    -- The head comes back at the end of the body, with a step less to go.
    have hloop (m : Nat) (hm : m ≤ n) : g.Accepts structs m (.first head) Γ := by
      induction m with
      | zero => trivial
      | succ m ih =>
        refine accepts_exit hhead hs.1 (forall_mem_cons.2 ⟨?_, forall_mem_singleton.2 ?_⟩)
        · exact accepts_scope (fun _ hr => accepts_body body hs.2 hr) hbody
            (accepts_goto hback (ih (Nat.le_of_succ_le hm)))
        · exact hq.mono (Nat.le_of_succ_le hm)
    exact accepts_goto hgoto (hloop n (Nat.le_refl n))
  | .return _, Γ, p, _, n, _, hp, _ =>
    (accepts_exit hp trivial fun _ ht => (not_mem_nil ht).elim).mono (Nat.le_succ n)

theorem accepts_body : ∀ (body : List Stmt) {Γ : Context} {p q : Point} {n : Nat},
    Stmt.WellTypedIn structs Γ body → Stmt.PlacedIn g body p q →
    g.Accepts structs n q (Stmt.scopeIn Γ body) → g.Accepts structs n p Γ
  | [], _, _, _, _, _, hp, hq => by
    obtain rfl := hp
    exact hq
  | s :: rest, _, _, _, _, hs, hp, hq => by
    obtain ⟨r, hr, hrest⟩ := hp
    exact accepts_stmt s hs.1 hr (accepts_body rest hs.2 hrest hq)

end

/-- All that is met in the flow graph of a well typed program is well typed. -/
theorem accepts_ofProgram {program : Program} (hp : program.WellTyped) (n : Nat) :
    (ofProgram program).Accepts program.structs n (.first entry) [] := by
  obtain ⟨q, hplaced, hend⟩ := exists_placed program
  refine accepts_body program.body hp hplaced ?_
  exact (accepts_exit hend trivial fun _ ht => (not_mem_nil ht).elim).mono (Nat.le_succ n)

end FlowGraph

end HeapShape
