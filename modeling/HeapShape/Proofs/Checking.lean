import HeapShape.Proofs.Declarations
import HeapShape.Proofs.ProgramTypes

/-!
# Types that are checked

A program that is read passes the checks of its types (`Program.Checked`). All structures that it
mentions are in its table, its paths follow declared fields from variables in scope, what is stored
has the type of its target, only pointers are released, and pointers are compared with null or with
pointers of their own type. This asks more of a comparison than `Program.WellTyped` does, and nothing
of a directive.

The checks are made before all is declared: a structure may be mentioned before it is defined, and a
global variable may be declared behind the main function. What is checked is therefore told of every
table that the declarations can end up in, and it stays so with the global variables that come later,
since their names are new (`Context.Keeps`).

* `Structs.Types`: the types of paths;
* `Scope.Checks`: what holds of statements that are read from one scope to another;
* `Parser.statement_checks`: it holds of every statement;
* `Program.checked_of_parse`: a program that is read is checked.
-/

namespace HeapShape

open List

/-! ### Types of paths -/

/-- The types of paths, with a table of structures and some variables in scope. -/
def Structs.Types (structs : Structs) (Γ : Context) : Path → Ty → Prop :=
  Path.HasType (Γ.lookup ·) structs.decl?

/-- The variables of a context have the same types in another. -/
def Context.Keeps (Γ Γ' : Context) : Prop := ∀ x ty, Γ.lookup x = some ty → Γ'.lookup x = some ty

namespace Context.Keeps

variable {Γ Γ' : Context}

theorem cons (h : Keeps Γ Γ') (v : String × Ty) : Keeps (v :: Γ) (v :: Γ') := by
  intro x ty hx
  rw [lookup_cons] at hx ⊢
  split at hx
  · exact hx
  · exact h x ty hx

theorem scope (h : Keeps Γ Γ') (s : Stmt) : Keeps (s.scope Γ) (s.scope Γ') := by
  cases s with
  | decl span var ty init => exact h.cons (var, ty)
  | _ => exact h

theorem types (h : Keeps Γ Γ') {structs : Structs} (p : Path) (ty : Ty) (hp : structs.Types Γ p ty) :
    structs.Types Γ' p ty :=
  Path.HasType.mono h (fun _ _ => id) hp

end Context.Keeps

/-! ### Expressions and conditions -/

section

variable (types : Path → Ty → Prop)

/-- An expression can be stored in a target of a type. A pointer holds null or what a path of its
    type holds, and a scalar what is computed from any paths. -/
inductive Expr.Fits : Ty → Expr → Prop
  | null (T : StructId) : Fits (.ptr T) .null
  | path {p : Path} {T : StructId} (hp : types p (.ptr T)) : Fits (.ptr T) (.path p)
  | scalar {ps : List Path} (hps : ∀ p ∈ ps, ∃ ty, types p ty) : Fits .int (.scalar ps)

/-- The comparisons of a condition are between pointers of one type, and its other paths have some
    type. -/
def Cond.Checked : Cond → Prop
  | .unknown ps => ∀ p ∈ ps, ∃ ty, types p ty
  | .cmp _ lhs rhs => ∃ T, lhs.Fits types (.ptr T) ∧ rhs.Fits types (.ptr T)
  | .not c => c.Checked
  | .and c d => c.Checked ∧ d.Checked
  | .or c d => c.Checked ∧ d.Checked

end

section

variable {types types' : Path → Ty → Prop} (h : ∀ p ty, types p ty → types' p ty)
include h

theorem Expr.Fits.mono {ty : Ty} {e : Expr} (he : e.Fits types ty) : e.Fits types' ty := by
  cases he with
  | null T => exact .null T
  | path hp => exact .path (h _ _ hp)
  | scalar hps => exact .scalar fun p hp => (hps p hp).imp (h p)

theorem Cond.Checked.mono {c : Cond} (hc : c.Checked types) : c.Checked types' := by
  induction c with
  | unknown ps => exact fun p hp => (hc p hp).imp (h p)
  | cmp eq lhs rhs => exact hc.imp fun T hT => ⟨hT.1.mono h, hT.2.mono h⟩
  | not c ih => exact ih hc
  | and c d ihc ihd | or c d ihc ihd => exact ⟨ihc hc.1, ihd hc.2⟩

end

namespace Formula

variable {types : Path → Ty → Prop} {span : Span}

theorem fits_of_pointer {e : Formula} (he : e.Holds types) {T : StructId} {x : Expr}
    (h : e.pointer (some T) span = .ok x) : x.Fits types (.ptr T) := by
  rw [pointer.eq_def] at h
  split at h
  · obtain rfl := Except.ok.inj h
    exact .null T
  · split at h
    · obtain rfl := Except.ok.inj h
      exact .null T
    · cases h
  · split at h
    · rename_i hT
      obtain rfl := Except.ok.inj h
      obtain rfl := of_decide_eq_true hT
      exact .path he
    · cases h
  all_goals cases h

/-- Only null is taken for a pointer without a type. -/
theorem eq_null_of_pointer {e : Formula} (he : e.pointee? = none) {x : Expr}
    (h : e.pointer none span = .ok x) : x = .null := by
  rw [pointer.eq_def] at h
  split at h
  · exact (Except.ok.inj h).symm
  · split at h
    · exact (Except.ok.inj h).symm
    · cases h
  · cases he
  all_goals cases h

theorem checked_of_comparison {eq : Bool} {lhs rhs : Formula} (hl : lhs.Holds types)
    (hr : rhs.Holds types) {c : Cond} (h : comparison eq lhs rhs span = .ok c) : c.Checked types := by
  obtain ⟨x, hx, h⟩ := ok_of_bind h
  obtain ⟨y, hy, h⟩ := ok_of_bind h
  obtain rfl := Except.ok.inj h
  rcases hexpected : lhs.pointee?.or rhs.pointee? with _ | T
  · -- No side tells a type, so both are null.
    obtain ⟨hlnone, hrnone⟩ := Option.or_eq_none_iff.1 hexpected
    rw [hexpected] at hx hy
    obtain rfl := eq_null_of_pointer hlnone hx
    obtain rfl := eq_null_of_pointer hrnone hy
    exact ⟨⟨0⟩, .null _, .null _⟩
  · rw [hexpected] at hx hy
    exact ⟨T, fits_of_pointer hl hx, fits_of_pointer hr hy⟩

theorem checked_of_cond (e : Formula) (he : e.Holds types) {c : Cond} (h : e.cond span = .ok c) :
    c.Checked types := by
  fun_induction Formula.cond span e generalizing c with
  | case1 lhs rhs ihl ihr | case2 lhs rhs ihl ihr =>
    obtain ⟨x, hx, h⟩ := ok_of_bind h
    obtain ⟨y, hy, h⟩ := ok_of_bind h
    obtain rfl := Except.ok.inj h
    exact ⟨ihl he.1 hx, ihr he.2 hy⟩
  | case3 e ih =>
    obtain ⟨x, hx, h⟩ := ok_of_bind h
    obtain rfl := Except.ok.inj h
    exact (ih he hx : x.Checked types)
  | case4 lhs rhs hp | case6 lhs rhs hp => exact checked_of_comparison he.1 he.2 h
  | case8 p T =>
    obtain rfl := Except.ok.inj h
    exact ⟨T, .path he, .null T⟩
  | case5 | case7 | case9 =>
    obtain rfl := Except.ok.inj h
    exact he.paths

theorem checked_readCond {scope : Scope} : (readCond scope).Returns (Cond.Checked scope.Types) :=
  .after _ fun _ => .after _ fun _ => holds_readExpr.bind fun e he =>
    .after _ fun _ => .lift fun _ hc => checked_of_cond e he hc

end Formula

/-! ### Statements and programs -/

namespace Stmt

variable (structs : Structs)

mutual

/-- A statement passes the checks of types, with some variables in scope. A declaration comes into
    scope before its initial value. -/
def Checked (Γ : Context) : Stmt → Prop
  | .decl _ var ty init =>
    ty.Below structs.length ∧ ∀ e ∈ init, e.Fits (structs.Types ((var, ty) :: Γ)) ty
  | .assign _ lhs rhs => ∃ ty, structs.Types Γ lhs ty ∧ rhs.Fits (structs.Types Γ) ty
  | .alloc _ lhs T => T.index < structs.length ∧ structs.Types Γ lhs (.ptr T)
  | .free _ path => ∃ T, structs.Types Γ path (.ptr T)
  | .ite _ cond thenBody elseBody =>
    cond.Checked (structs.Types Γ) ∧ CheckedIn Γ thenBody ∧ CheckedIn Γ elseBody
  | .loop _ cond body => cond.Checked (structs.Types Γ) ∧ CheckedIn Γ body
  | .block _ body => CheckedIn Γ body
  | .assert _ cond => cond.Checked (structs.Types Γ)
  | .directive .. | .return _ => True

/-- The statements of a body do, one after the other. -/
def CheckedIn (Γ : Context) : List Stmt → Prop
  | [] => True
  | s :: rest => s.Checked Γ ∧ CheckedIn (s.scope Γ) rest

end

variable {structs} {Γ : Context}

theorem scopeIn_append {body body' : List Stmt} :
    scopeIn Γ (body ++ body') = scopeIn (scopeIn Γ body) body' :=
  foldl_append

theorem checkedIn_append {body body' : List Stmt} : CheckedIn structs Γ (body ++ body') ↔
    CheckedIn structs Γ body ∧ CheckedIn structs (scopeIn Γ body) body' := by
  induction body generalizing Γ with
  | nil => exact (true_and _).to_iff.symm
  | cons s body ih => exact (and_congr_right fun _ => ih).trans and_assoc.symm

mutual

theorem Checked.mono : ∀ (s : Stmt) {Γ Γ' : Context}, Context.Keeps Γ Γ' → s.Checked structs Γ →
    s.Checked structs Γ'
  | .decl .., _, _, h, hs => ⟨hs.1, fun e he => (hs.2 e he).mono (h.cons _).types⟩
  | .assign .., _, _, h, hs => hs.imp fun _ hty => ⟨h.types _ _ hty.1, hty.2.mono h.types⟩
  | .alloc .., _, _, h, hs => ⟨hs.1, h.types _ _ hs.2⟩
  | .free .., _, _, h, hs => hs.imp fun _ => h.types _ _
  | .ite _ _ thenBody elseBody, _, _, h, hs =>
    ⟨hs.1.mono h.types, CheckedIn.mono thenBody h hs.2.1, CheckedIn.mono elseBody h hs.2.2⟩
  | .loop _ _ body, _, _, h, hs => ⟨hs.1.mono h.types, CheckedIn.mono body h hs.2⟩
  | .block _ body, _, _, h, hs => CheckedIn.mono body h hs
  | .assert .., _, _, h, hs => Cond.Checked.mono h.types hs
  | .directive .., _, _, _, _ | .return _, _, _, _, _ => trivial

/-- What is checked stays so if more variables are in scope. -/
theorem CheckedIn.mono : ∀ (body : List Stmt) {Γ Γ' : Context}, Context.Keeps Γ Γ' →
    CheckedIn structs Γ body → CheckedIn structs Γ' body
  | [], _, _, _, _ => trivial
  | s :: rest, _, _, h, hs => ⟨Checked.mono s h hs.1, CheckedIn.mono rest (h.scope s) hs.2⟩

end

end Stmt

/-- A program passes the checks of types: the fields of its structures point to structures of its
    table, and its body agrees with the types. -/
structure Program.Checked (p : Program) : Prop where
  fields : ∀ decl ∈ p.structs, ∀ f ∈ decl.fields, f.ty.Below p.structs.length
  body : Stmt.CheckedIn p.structs [] p.body

/-! ### Statements that are read -/

namespace Scope

variable {s s' s'' : Scope} {structs : Structs} {body body' : List Stmt}

/-- The types that are found are those of the table. -/
theorem Within.types (h : s.Within structs) (p : Path) (ty : Ty) (hp : s.Types p ty) :
    structs.Types s.vars.flatten p ty :=
  Path.HasType.mono (fun x _ hx => (s.var?_eq_lookup x).symm.trans hx) h.decl? hp

/-- Statements that are read from one scope to another. They are checked with any table for what is
    declared, and what they declare is new in the innermost of the open scopes. -/
structure Checks (s s' : Scope) (body : List Stmt) : Prop where
  grows : s.Grows s'
  outer : s'.vars.tail = s.vars.tail
  inner : Context.Keeps (s.vars.headD []) (s'.vars.headD [])
  context : s'.vars.flatten = Stmt.scopeIn s.vars.flatten body
  checked : ∀ structs, s'.Within structs → Stmt.CheckedIn structs s.vars.flatten body

namespace Checks

theorem nil (h : s.Learns s') : s.Checks s' [] where
  grows := h.toGrows
  outer := by rw [h.vars]
  inner := by rw [h.vars]; exact fun _ _ => id
  context := by rw [h.vars]; rfl
  checked := fun _ _ => trivial

theorem append (h : s.Checks s' body) (h' : s'.Checks s'' body') : s.Checks s'' (body ++ body') where
  grows := h.grows.trans h'.grows
  outer := h'.outer.trans h.outer
  inner := fun x ty hx => h'.inner x ty (h.inner x ty hx)
  context := by rw [h'.context, h.context, Stmt.scopeIn_append]
  checked := fun structs hw =>
    Stmt.checkedIn_append.2 ⟨h.checked structs (h'.grows.within hw), h.context ▸ h'.checked structs hw⟩

/-- A statement that declares nothing. -/
theorem single {stmt : Stmt} (h : s.Learns s') (hnone : stmt.declared? = none)
    (hc : ∀ structs, s'.Within structs → stmt.Checked structs s.vars.flatten) :
    s.Checks s' [stmt] := by
  have hscope : stmt.scope s.vars.flatten = s.vars.flatten := by
    cases stmt with
    | decl => cases hnone
    | _ => rfl
  obtain ⟨hgrows, houter, hinner, hcontext, -⟩ := nil h
  exact ⟨hgrows, houter, hinner, hcontext.trans hscope.symm, fun structs hw => ⟨hc structs hw, trivial⟩⟩

/-- A declaration. Its initial value may name the variable. -/
theorem decl {name : String} {ty : Ty} {inner : List (String × Ty)} {outer : List (List (String × Ty))}
    (h : s.Grows s') (hs : s.vars = inner :: outer) (hs' : s'.vars = ((name, ty) :: inner) :: outer)
    (hnew : inner.lookup name = none) (hty : ty.Below s'.structs.length) {init : Option Expr}
    (hinit : ∀ e ∈ init, e.Fits s'.Types ty) (span : Span) : s.Checks s' [.decl span name ty init] where
  grows := h
  outer := by rw [hs, hs']; rfl
  inner := by
    intro x ty' hx
    rw [hs] at hx
    rw [hs', headD_cons, lookup_cons]
    split
    · -- A variable of the scope would have the new name.
      rename_i heq
      obtain rfl := eq_of_beq heq
      rw [headD_cons, hnew] at hx
      cases hx
    · exact hx
  context := by rw [hs, hs']; rfl
  checked := fun structs hw => by
    refine ⟨⟨hty.mono hw.length_le, fun e he => (hinit e he).mono fun p ty' hp => ?_⟩, trivial⟩
    have hp := hw.types p ty' hp
    rw [hs'] at hp
    rw [hs]
    exact hp

end Checks

/-- A body that is read in a scope of its own. -/
structure ChecksBody (s s' : Scope) (body : List Stmt) : Prop where
  learns : s.Learns s'
  checked : ∀ structs, s'.Within structs → Stmt.CheckedIn structs s.vars.flatten body

end Scope

namespace Parser

open Reader Formula Scope

variable {scope : Scope} {base : BaseType}

/-- What stands to the right of an assignment can be stored in a target of a type. -/
def Rhs.Fits (s : Scope) (ty : Ty) : Rhs → Prop
  | .expr e => e.Fits s.Types ty
  | .alloc T => ty = .ptr T ∧ T.index < s.structs.length

theorem rhs_checks (hs : scope.Closed) (ty : Ty) : (rhs ty).Ensures scope fun s r =>
    scope.Learns s ∧ r.Fits s ty := by
  refine .skip _ fun here => ?_
  split
  · exact .getting (.reading holds_readExpr fun e he => .pure ⟨.refl hs, .scalar he.paths⟩)
  · rename_i T
    refine (cast_learns hs _).bind fun s _ hlearns => .skip _ fun b => .skip _ fun b' => ?_
    split
    · refine (allocation_learns hlearns.closed).bind fun s' target h => ?_
      split
      · rename_i heq
        exact .pure ⟨hlearns.trans h.1, heq ▸ rfl, h.2⟩
      · exact .malformed _ _
    · exact .getting (.reading holds_readExpr fun e he => .lifting fun x hx =>
        .pure ⟨hlearns, fits_of_pointer he hx⟩)

theorem declare_ensures (name : String) (ty : Ty) (span : Span) :
    (declare name ty span).Ensures scope fun s _ => ∃ inner outer, scope.vars = inner :: outer ∧
      inner.lookup name = none ∧ s = { scope with vars := ((name, ty) :: inner) :: outer } := by
  refine .getting ?_
  split
  · rename_i s hs
    refine .setting ?_
    rw [declare?] at hs
    split at hs
    · cases hs
    · rename_i inner outer hvars
      split at hs
      · cases hs
      · rename_i hnew
        obtain rfl := Option.some.inj hs
        exact ⟨inner, outer, hvars, Option.not_isSome_iff_eq_none.1 hnew, rfl⟩
  · exact .malformed _ _

theorem declarator_checks (hs : scope.Closed) (hb : base.Below scope.structs.length) (stars : Nat)
    (name : String) (span : Span) :
    (declarator base stars name span).Ensures scope fun s body => scope.Checks s body := by
  refine .skip _ fun b => ?_
  split
  · exact .unsupported _ _
  · refine .lifting fun ty hty => (declare_ensures name ty span).bind fun s _ h => ?_
    obtain ⟨inner, outer, hscope, hnew, hs'⟩ := h
    -- The variable is in scope before what stands behind it is read.
    have hvars : s.vars = ((name, ty) :: inner) :: outer := congrArg Scope.vars hs'
    have hgrows : scope.Grows s := hs' ▸ (Grows.refl hs).of_vars scope.vars _
    have hty : ty.Below scope.structs.length := hb.withStars hty
    have hplain : scope.Checks s [.decl span name ty none] :=
      .decl hgrows hscope hvars hnew (hty.mono hgrows.length_le) (fun e he => by cases he) span
    have hvar : s.Types (.ofVar name) ty := .var (by rw [var?, hvars]; simp)
    refine .skip _ fun b => ?_
    split
    · refine (rhs_checks hgrows.closed ty).bind fun s' r h => ?_
      obtain ⟨hlearns, hfits⟩ := h
      split
      · have hgrows := hgrows.trans hlearns.toGrows
        refine .pure (.decl hgrows hscope (hlearns.vars.trans hvars) hnew (hty.mono hgrows.length_le) ?_
          span)
        rintro _ ⟨⟩
        exact hfits
      · obtain ⟨rfl, hT⟩ := hfits
        exact .pure (hplain.append (.single hlearns rfl fun structs hw =>
          ⟨Nat.lt_of_lt_of_le hT hw.length_le, (hlearns.within hw).types _ _ hvar⟩))
    · exact .pure hplain

theorem declarators_checks (hs : scope.Closed) (hb : base.Below scope.structs.length) (stars : Nat)
    (name : String) (span : Span) :
    (declarators base stars name span).Ensures scope fun s body => scope.Checks s body := by
  -- What was read before is read from some scope to the one of the call.
  refine (Ensures.fix (P := fun (arg : List Stmt × Nat × String × Span) s s' body =>
    s.Closed → base.Below s.structs.length → ∀ s₀ : Scope, s₀.Checks s arg.1 → s₀.Checks s' body)
    (fun more hmore arg s => .of_imp fun hs => .of_imp fun hb => ?_) _ scope).mono
    fun s body h => h hs hb scope (.nil (.refl hs))
  obtain ⟨read, n, name, nameSpan⟩ := arg
  refine (declarator_checks hs hb n name nameSpan).bind fun s₁ one hone => .skip _ fun b => ?_
  split
  · exact .skip _ fun _ => .skip _ fun _ => (hmore _ s₁).mono fun _ _ h s₀ h₀ =>
      h hone.grows.closed (hb.mono hone.grows.length_le) s₀ (h₀.append hone)
  · exact .skip _ fun _ => .pure fun s₀ h₀ => h₀.append hone

theorem assignment_checks (hs : scope.Closed) :
    assignment.Ensures scope fun s body => scope.Checks s body := by
  refine .skip _ fun here => .skip _ fun token => .skip _ fun kind => ?_
  split
  · exact .unsupported _ _
  · refine .getting (.reading returns_readPath fun r hr => ?_)
    obtain ⟨lhs, ty⟩ := r
    refine .skip _ fun op => ?_
    split
    · split
      · extract_lets finish
        have hfinish {read : List Path} (hread : ∀ p ∈ read, ∃ ty, scope.Types p ty) :
            (finish read).Ensures scope fun s body => scope.Checks s body := by
          rename_i hint
          refine .pure (.single (.refl hs) rfl fun structs hw => ⟨.int, ?_, ?_⟩)
          · exact hw.types _ _ (hint ▸ hr)
          · exact (Expr.Fits.scalar (forall_mem_cons.2 ⟨⟨ty, hr⟩, hread⟩)).mono hw.types
        split
        · exact .getting (.reading holds_readExpr fun e he => hfinish he.paths)
        · exact hfinish (forall_mem_nil _)
      · exact .unsupported _ _
    · refine .skip _ fun _ => (rhs_checks hs ty).bind fun s r h => ?_
      obtain ⟨hlearns, hfits⟩ := h
      split
      · refine .pure (.single hlearns rfl fun structs hw => ⟨ty, ?_, ?_⟩)
        · exact (hlearns.within hw).types _ _ hr
        · rw [← hlearns.vars]
          exact Expr.Fits.mono hw.types hfits
      · obtain ⟨rfl, hT⟩ := hfits
        exact .pure (.single hlearns rfl fun structs hw =>
          ⟨Nat.lt_of_lt_of_le hT hw.length_le, (hlearns.within hw).types _ _ hr⟩)

theorem freed_checks : freed.Ensures scope fun s p => s = scope ∧ ∃ T, scope.Types p (.ptr T) := by
  refine .skip _ fun _ => .skip _ fun here => .getting (.reading returns_readPath fun r hr => ?_)
  obtain ⟨p, ty⟩ := r
  dsimp only
  split
  · rename_i hptr
    obtain ⟨T, rfl⟩ : ∃ T, ty = .ptr T := by
      cases ty with
      | int => cases hptr
      | ptr T => exact ⟨T, rfl⟩
    exact .skip _ fun _ => .skip _ fun _ => .pure ⟨rfl, T, hr⟩
  · exact .malformed _ _

theorem directive_ensures : directive.Ensures scope fun s _ => s = scope := by
  refine .skip _ fun _ => .skip _ fun token => ?_
  split
  · exact .lifting fun d _ => .skip _ fun _ => .skip _ fun _ => .pure rfl
  · exact .malformed _ _

/-! ### Inner scopes -/

theorem inScope_checks {p : Parser (List Stmt)}
    (hp : p.Ensures scope.push fun s body => scope.push.Checks s body) :
    (inScope p).Ensures scope fun s body => scope.ChecksBody s body :=
  .modifying (hp.bind fun s _ h => .modifying (.pure
    { learns := ⟨h.grows.of_vars scope.vars s.vars.tail, h.outer⟩
      checked := fun structs hw => h.checked structs ⟨hw.length_le, hw.decl?⟩ }))

section

variable {statement : Parser (List Stmt)}
  (hstatement : ∀ s : Scope, s.Closed → statement.Ensures s fun s' body => s.Checks s' body)

include hstatement

theorem block_checks (hs : scope.Closed) :
    (block statement).Ensures scope fun s body => scope.ChecksBody s body := by
  have hpush : scope.push.Closed := ⟨hs.fields, hs.aliases⟩
  refine .skip _ fun _ => inScope_checks ?_
  -- As with declarators, what was read before is read up to the scope of the call.
  refine (Ensures.fix (P := fun (read : List Stmt) s s' body =>
    s.Closed → ∀ s₀ : Scope, s₀.Checks s read → s₀.Checks s' body)
    (fun more hmore read s => .of_imp fun hs => ?_) [] scope.push).mono
    fun s body h => h hpush scope.push (.nil (.refl hpush))
  refine .skip _ fun b => ?_
  split
  · exact .pure fun s₀ h₀ => h₀
  · refine .skip _ fun b => ?_
    split
    · exact .skip _ fun _ => .malformed _ _
    · exact (hstatement s hs).bind fun s₁ one hone => (hmore _ s₁).mono fun _ _ h s₀ h₀ =>
        h hone.grows.closed s₀ (h₀.append hone)

theorem body_checks (hs : scope.Closed) :
    (body statement).Ensures scope fun s body => scope.ChecksBody s body := by
  refine .skip _ fun b => ?_
  split
  · exact block_checks hstatement hs
  · exact inScope_checks (hstatement scope.push ⟨hs.fields, hs.aliases⟩)

theorem statementFrom_checks (hs : scope.Closed) (here : Span) (word : String) :
    (statementFrom statement here word).Ensures scope fun s body => scope.Checks s body := by
  rw [statementFrom]
  split
  · exact .unsupported _ _
  split
  · refine .skip _ fun _ => .getting (.reading checked_readCond fun cond hc => ?_)
    refine (body_checks hstatement hs).bind fun s₁ thenBody hthen => .skip _ fun b => ?_
    extract_lets finish
    -- What was checked in front of a body is told with the declarations behind it.
    have hfinish {s₂ : Scope} {elseBody : List Stmt} (helse : s₁.ChecksBody s₂ elseBody) :
        (finish elseBody).Ensures s₂ fun s body => scope.Checks s body := by
      have hlearns := hthen.learns.trans helse.learns
      refine .pure (.single hlearns rfl fun structs hw => ⟨?_, ?_, ?_⟩)
      · exact hc.mono (hlearns.within hw).types
      · exact hthen.checked structs (helse.learns.within hw)
      · rw [← hthen.learns.vars]
        exact helse.checked structs hw
    split
    · exact (body_checks hstatement hthen.learns.closed).bind fun s₂ elseBody helse => hfinish helse
    · exact hfinish ⟨.refl hthen.learns.closed, fun _ _ => trivial⟩
  split
  · refine .skip _ fun _ => .getting (.reading checked_readCond fun cond hc => ?_)
    refine (body_checks hstatement hs).bind fun s₁ inner hinner => ?_
    exact .pure (.single hinner.learns rfl fun structs hw =>
      ⟨hc.mono (hinner.learns.within hw).types, hinner.checked structs hw⟩)
  split
  · refine .skip _ fun _ => .skip _ fun b => ?_
    split
    · exact .pure (.single (.refl hs) rfl fun _ _ => trivial)
    · exact .unsupported _ _
  split
  · refine .skip _ fun _ => freed_checks.bind fun s p h => ?_
    obtain ⟨rfl, T, hT⟩ := h
    exact .pure (.single (.refl hs) rfl fun structs hw => ⟨T, hw.types _ _ hT⟩)
  split
  · exact .skip _ fun _ => .getting (.reading checked_readCond fun cond hc => .skip _ fun _ =>
      .pure (.single (.refl hs) rfl fun structs hw => hc.mono hw.types))
  split
  · refine .skip _ fun _ => directive_ensures.bind fun s d h => ?_
    obtain rfl := h
    exact .pure (.single (.refl hs) rfl fun _ _ => trivial)
  refine atType_keeps.bind fun s b h => ?_
  obtain rfl := h
  split
  · refine (baseType?_learns hs).bind fun s₁ base h => ?_
    obtain ⟨hlearns, hbase⟩ := h
    split
    · exact .malformed _ _
    · exact .skip _ fun _ => .skip _ fun _ => (declarators_checks hlearns.closed hbase _ _ _).mono
        fun _ _ h => (Checks.nil hlearns).append h
  · exact (assignment_checks hs).bind fun _ _ h => .skip _ fun _ => .pure h

end

theorem statement_checks (hs : scope.Closed) :
    statement.Ensures scope fun s body => scope.Checks s body := by
  refine (Ensures.fix (P := fun (_ : Unit) s s' body => s.Closed → s.Checks s' body)
    (fun self hself _ s => .of_imp fun hs => ?_) () scope).mono fun _ _ h => h hs
  have hself (s : Scope) (hs : s.Closed) : (self ()).Ensures s fun s' body => s.Checks s' body :=
    (hself () s).mono fun _ _ h => h hs
  refine .skip _ fun here => .skip _ fun b => ?_
  split
  · exact (block_checks hself hs).bind fun s₁ inner h => .pure (.single h.learns rfl h.checked)
  · refine .skip _ fun b => ?_
    split
    · exact .pure (.nil (.refl hs))
    · refine .skip _ fun token => ?_
      split
      · exact statementFrom_checks hself hs here _
      · exact .malformed _ _

/-! ### Programs that are read -/

/-- What the top level has given so far is checked. The global variables are those of the only open
    scope. -/
structure TopLevel.Checked (top : TopLevel) (s : Scope) : Prop where
  closed : s.Closed
  outer : s.vars.tail = []
  context : s.vars.flatten = Stmt.scopeIn [] top.globals
  globals : ∀ structs, s.Within structs → Stmt.CheckedIn structs [] top.globals
  main : ∀ body, top.main = some body →
    ∀ structs, s.Within structs → Stmt.CheckedIn structs s.vars.flatten body

namespace TopLevel.Checked

variable {top : TopLevel} {s : Scope}

theorem learn (h : top.Checked scope) (hlearns : scope.Learns s) : top.Checked s where
  closed := hlearns.closed
  outer := by rw [hlearns.vars]; exact h.outer
  context := by rw [hlearns.vars]; exact h.context
  globals := fun structs hw => h.globals structs (hlearns.within hw)
  main := fun body hb structs hw => by
    rw [hlearns.vars]
    exact h.main body hb structs (hlearns.within hw)

/-- More global variables. The body of the main function may come before. -/
theorem declare (h : top.Checked scope) {more : List Stmt} (hmore : scope.Checks s more) :
    TopLevel.Checked { top with globals := top.globals ++ more } s where
  closed := hmore.grows.closed
  outer := hmore.outer.trans h.outer
  context := by rw [hmore.context, h.context, Stmt.scopeIn_append]
  globals := fun structs hw => Stmt.checkedIn_append.2
    ⟨h.globals structs (hmore.grows.within hw), h.context ▸ hmore.checked structs hw⟩
  main := fun body hb structs hw => by
    have hflatten {vars : List (List (String × Ty))} (hvars : vars.tail = []) :
        vars.flatten = vars.headD [] := by
      cases vars with
      | nil => rfl
      | cons inner outer =>
        obtain rfl : outer = [] := hvars
        exact append_nil inner
    -- The names in the only open scope are not hidden by those that come later.
    refine Stmt.CheckedIn.mono body ?_ (h.main body hb structs (hmore.grows.within hw))
    rw [hflatten h.outer, hflatten (hmore.outer.trans h.outer)]
    exact hmore.inner

end TopLevel.Checked

theorem mainFunction_checks {top : TopLevel} (h : top.Checked scope) (name : String) (span : Span) :
    (mainFunction top name span).Ensures scope fun s top' => top'.Checked s := by
  rw [mainFunction]
  split
  · exact .unsupported _ _
  · split
    · exact .malformed _ _
    · refine .skip _ fun _ => .skip _ fun _ => .skip _ fun _ => ?_
      refine (block_checks (fun _ => statement_checks) h.closed).bind fun s body hbody => .pure ?_
      obtain ⟨hclosed, houter, hcontext, hglobals, -⟩ := h.learn hbody.learns
      refine ⟨hclosed, houter, hcontext, hglobals, ?_⟩
      rintro _ ⟨⟩ structs hw
      rw [hbody.learns.vars]
      exact hbody.checked structs hw

theorem declaration_checks {top : TopLevel} (h : top.Checked scope) :
    (declaration top).Ensures scope fun s top' => top'.Checked s := by
  refine .skip _ fun here => .skip _ fun b => ?_
  split
  · exact (typeDefinition_learns h.closed).bind fun s _ hlearns => .pure (h.learn hlearns)
  · refine .skip _ fun b => .skip _ fun kind => ?_
    split
    · refine .skip _ fun _ => .skip _ fun _ => (structFields_learns h.closed).bind fun s fields hs => ?_
      have h := h.learn hs.1
      exact (defineStruct_learns h.closed hs.2 _ _).bind fun s' T hs' => .skip _ fun _ =>
        .pure (h.learn hs'.1)
    · refine (baseType?_learns h.closed).bind fun s base hs => ?_
      obtain ⟨hlearns, hbase⟩ := hs
      have h := h.learn hlearns
      split
      · exact .skip _ fun _ => .malformed _ _
      · refine .skip _ fun n => .skip _ fun r => .skip _ fun b => ?_
        split
        · exact mainFunction_checks h _ _
        · exact (declarators_checks h.closed hbase _ _ _).bind fun _ _ hmore =>
            .pure (h.declare hmore)

theorem topLevel_checks : topLevel.Ensures .empty fun s top => top.Checked s := by
  refine (Ensures.fix (P := fun (top : TopLevel) s s' (top' : TopLevel) =>
    top.Checked s → top'.Checked s') (fun more hmore top s => .of_imp fun h => .skip _ fun b => ?_)
    _ _).mono fun s top h =>
      h ⟨closed_empty, rfl, rfl, fun _ _ => trivial, fun _ hb => by cases hb⟩
  split
  · exact .pure h
  · exact (declaration_checks h).bind fun s' top' h' => (hmore top' s').mono fun _ _ hm => hm h'

theorem program_checks : program.Ensures .empty fun _ p => p.Checked := by
  refine topLevel_checks.bind fun s top htop => .getting (.lifting fun structs htable => ?_)
  split
  · rename_i body hbody
    have hw := within_of_table htable
    refine .pure ⟨fun decl hdecl => below_of_table htop.closed htable hdecl, ?_⟩
    exact Stmt.checkedIn_append.2
      ⟨htop.globals structs hw, htop.context ▸ htop.main body hbody structs hw⟩
  · exact .skip _ fun _ => .malformed _ _

end Parser

/-- A program that is read is checked. -/
theorem Program.checked_of_parse {source : String} {p : Program} (h : Program.parse source = .ok p) :
    p.Checked :=
  of_parse Parser.program_checks h

/-- A list that is taken apart, with a structure that is mentioned before it is defined and a
    variable that is declared behind the main function. -/
def Sample.drained : String :=
  "typedef struct cell *list; struct cell \x7b list next; \x7d; list p; void main() \x7b " ++
  "p = alloc(struct cell); while (p != 0) \x7b list q = p; p = p->next; free(q); \x7d \x7d int n;"

theorem Program.checked_of_parse_drained : ∃ p, Program.parse Sample.drained = .ok p ∧
    p.structs = [⟨"cell", [⟨"next", .ptr ⟨0⟩⟩]⟩] ∧ p.Checked := by
  have hread : (Program.parse Sample.drained).toOption.map Program.structs =
      some [⟨"cell", [⟨"next", .ptr ⟨0⟩⟩]⟩] := by
    decide +kernel
  rcases hp : Program.parse Sample.drained with e | p
  · rw [hp] at hread
    cases hread
  · rw [hp] at hread
    exact ⟨p, rfl, Option.some.inj hread, checked_of_parse hp⟩

end HeapShape
