import HeapShape.Proofs.Checking

/-!
# Names that are resolved

A program that is read names only variables that are declared in a scope around it. A path can
still find one of them to be undefined, but only one that an inner scope declares again: while
a program is read scopes are kept apart (`Stmt.apart`), and when it runs they are not
(`Stmt.ended`).

* `Stmt.missingIn_of_checked`: a body whose types are checked names only what is declared;
* `Stmt.missingIn_ended`: what gets lost is declared again;
* `Program.undefined_of_redeclared`: which variables can be found to be undefined when a program
  is checked.
-/

namespace HeapShape

open List

/-! ### Scopes one within the other -/

namespace Stmt

/-- No variable leaves scope with a statement, if scopes are kept apart. -/
def apart : Stmt → List String := fun _ => []

variable {names names' : List String} {var : String}

theorem removeAll_apart (s : Stmt) : names.removeAll s.apart = names := removeAll_nil

theorem missing_loop (span : Span) (cond : Cond) (body : List Stmt) :
    (loop span cond body).missing apart names =
      (cond.paths.map Path.var).removeAll names ++ missingIn apart names body := by
  rw [missing, removeAll_apart]

mutual

/-- The variables that an inner scope declares where they are in scope already. -/
def redeclared (names : List String) : Stmt → List String
  | .block _ body => (locals body).filter (· ∈ names) ++ redeclaredIn names body
  | .ite _ _ thenBody elseBody =>
    ((locals thenBody).filter (· ∈ names) ++ redeclaredIn names thenBody) ++
      ((locals elseBody).filter (· ∈ names) ++ redeclaredIn names elseBody)
  | .loop _ _ body => (locals body).filter (· ∈ names) ++ redeclaredIn names body
  | .decl .. | .assign .. | .alloc .. | .free .. | .assert .. | .directive .. | .return _ => []

/-- The variables that the inner scopes of a body declare where they are in scope already. -/
def redeclaredIn (names : List String) : List Stmt → List String
  | [] => []
  | s :: body => s.redeclared names ++ redeclaredIn (s.leaves apart names) body

end

mutual

/-- A variable in scope that an inner scope takes away is declared there again. -/
theorem redeclared_of_ended : ∀ (s : Stmt) {names : List String}, var ∈ s.ended → var ∈ names →
    var ∈ s.redeclared names
  | .block _ body, _, he, hn => redeclared_of_scope body he hn
  | .ite _ _ thenBody elseBody, _, he, hn =>
    mem_append.2 ((mem_append.1 he).imp (redeclared_of_scope thenBody · hn)
      (redeclared_of_scope elseBody · hn))
  | .loop _ _ body, _, he, hn => redeclared_of_scope body he hn
  | .decl .., _, he, _ | .assign .., _, he, _ | .alloc .., _, he, _ | .free .., _, he, _
  | .assert .., _, he, _ | .directive .., _, he, _ | .return _, _, he, _ => (not_mem_nil he).elim

theorem redeclared_of_scope : ∀ (body : List Stmt) {names : List String},
    var ∈ locals body ++ endedIn body → var ∈ names →
      var ∈ (locals body).filter (· ∈ names) ++ redeclaredIn names body
  | body, _, he, hn => mem_append.2 ((mem_append.1 he).imp
      (fun hl => mem_filter.2 ⟨hl, decide_eq_true hn⟩) (redeclaredIn_of_endedIn body · hn))

theorem redeclaredIn_of_endedIn : ∀ (body : List Stmt) {names : List String}, var ∈ endedIn body →
    var ∈ names → var ∈ redeclaredIn names body
  | [], _, he, _ => he
  | s :: body, _, he, hn => mem_append.2 ((mem_append.1 he).imp (redeclared_of_ended s · hn)
      (redeclaredIn_of_endedIn body · (mem_leaves.2 ⟨.inr hn, not_mem_nil⟩)))

end

/-- A declaration ends no scope. -/
theorem ended_of_declared? {s : Stmt} (h : s.declared? = some var) : s.ended = [] := by
  cases s with
  | decl => rfl
  | _ => cases h

section

variable {again : List String}

/-- What is named and not in scope was not in scope with scopes kept apart, or is lost. -/
theorem missing_or_lost {l : List String} (h : ∀ var ∈ names, var ∈ names' ∨ var ∈ again)
    (hv : var ∈ l.removeAll names') : var ∈ l.removeAll names ∨ var ∈ again := by
  obtain ⟨hl, hn'⟩ := mem_removeAll.1 hv
  by_cases hn : var ∈ names
  · exact .inr ((h var hn).resolve_left hn')
  · exact .inl (mem_removeAll.2 ⟨hl, hn⟩)

/-- After a statement no more is lost than what inner scopes declare again. -/
theorem leaves_or_lost {s : Stmt} (h : ∀ var ∈ names, var ∈ names' ∨ var ∈ again)
    (hs : s.redeclared names ⊆ again) (hv : var ∈ s.leaves apart names) :
    var ∈ s.leaves ended names' ∨ var ∈ again := by
  rcases (mem_leaves.1 hv).1 with hd | hn
  · refine .inl (mem_leaves.2 ⟨.inl hd, ?_⟩)
    rw [ended_of_declared? hd]
    exact not_mem_nil
  · by_cases he : var ∈ s.ended
    · exact .inr (hs (redeclared_of_ended s he hn))
    · exact (h var hn).imp_left fun hn' => mem_leaves.2 ⟨.inr hn', he⟩

mutual

theorem missing_ended : ∀ (s : Stmt) {names names' : List String},
    (∀ var ∈ names, var ∈ names' ∨ var ∈ again) → s.redeclared names ⊆ again →
      ∀ var ∈ s.missing ended names', var ∈ s.missing apart names ∨ var ∈ again
  | .decl _ var _ _, names, names', h, _, _, hv => by
    refine missing_or_lost (fun other ho => ?_) hv
    rcases mem_cons.1 ho with rfl | ho
    · exact .inl mem_cons_self
    · exact (h other ho).imp_left (mem_cons_of_mem var)
  | .assign .., _, _, h, _, _, hv | .alloc .., _, _, h, _, _, hv | .free .., _, _, h, _, _, hv
  | .assert .., _, _, h, _, _, hv => missing_or_lost h hv
  | .directive .., _, _, _, _, _, hv | .return _, _, _, _, _, _, hv => (not_mem_nil hv).elim
  | .block _ body, _, _, h, hs, var, hv => missingIn_ended body h (append_subset.1 hs).2 var hv
  | .ite _ cond thenBody elseBody, _, _, h, hs, var, hv => by
    obtain ⟨hthen, helse⟩ := append_subset.1 hs
    rcases mem_append.1 hv with hv | hv
    · exact (missing_or_lost h hv).imp_left (mem_append_left _)
    · refine Or.imp_left (mem_append_right _) ?_
      rcases mem_append.1 hv with hv | hv
      · exact (missingIn_ended thenBody h (append_subset.1 hthen).2 var hv).imp_left
          (mem_append_left _)
      · exact (missingIn_ended elseBody h (append_subset.1 helse).2 var hv).imp_left
          (mem_append_right _)
  | .loop span cond body, names, names', h, hs, var, hv => by
    -- What a loop loses is lost from its start on.
    have hkept : ∀ var ∈ names.removeAll (apart (.loop span cond body)),
        var ∈ names'.removeAll (ended (.loop span cond body)) ∨ var ∈ again :=
      fun _ hvar => leaves_or_lost h hs hvar
    rw [removeAll_apart] at hkept
    rw [missing_loop]
    rcases mem_append.1 hv with hv | hv
    · exact (missing_or_lost hkept hv).imp_left (mem_append_left _)
    · exact (missingIn_ended body hkept (append_subset.1 hs).2 var hv).imp_left
        (mem_append_right _)

theorem missingIn_ended : ∀ (body : List Stmt) {names names' : List String},
    (∀ var ∈ names, var ∈ names' ∨ var ∈ again) → redeclaredIn names body ⊆ again →
      ∀ var ∈ missingIn ended names' body, var ∈ missingIn apart names body ∨ var ∈ again
  | [], _, _, _, _, _, hv => (not_mem_nil hv).elim
  | s :: body, names, names', h, hs, var, hv => by
    obtain ⟨hs, hbody⟩ := append_subset.1 hs
    rcases mem_append.1 hv with hv | hv
    · exact (missing_ended s h hs var hv).imp_left (mem_append_left _)
    · exact (missingIn_ended body (fun _ => leaves_or_lost h hs) hbody var hv).imp_left
        (mem_append_right _)

end

end

end Stmt

/-! ### Names that are checked -/

/-- A path with a type starts with a variable in scope. -/
theorem Structs.Types.mem_names {structs : Structs} {Γ : Context} {p : Path} {ty : Ty}
    (h : structs.Types Γ p ty) : p.var ∈ Γ.map Prod.fst := by
  induction h with
  | var hx =>
    obtain ⟨before, after, rfl, -⟩ := lookup_eq_some_iff.1 hx
    simp [Path.ofVar]
  | field _ _ _ ih => exact ih

theorem Expr.Fits.paths {types : Path → Ty → Prop} {ty : Ty} {e : Expr} (h : e.Fits types ty) :
    ∀ p ∈ e.paths, ∃ ty, types p ty := by
  cases h with
  | null T => exact forall_mem_nil _
  | path hp => exact forall_mem_singleton.2 ⟨_, hp⟩
  | scalar hps => exact hps

theorem Cond.Checked.paths {types : Path → Ty → Prop} {c : Cond} (h : c.Checked types) :
    ∀ p ∈ c.paths, ∃ ty, types p ty := by
  induction c with
  | unknown ps => exact h
  | cmp eq lhs rhs =>
    obtain ⟨T, hl, hr⟩ := h
    exact forall_mem_append.2 ⟨hl.paths, hr.paths⟩
  | not c ih => exact ih h
  | and c d ihc ihd | or c d ihc ihd => exact forall_mem_append.2 ⟨ihc h.1, ihd h.2⟩

namespace Stmt

variable {structs : Structs} {Γ : Context}

/-- Nothing is missing from paths that have a type. -/
theorem removeAll_of_types {ps : List Path} (h : ∀ p ∈ ps, ∃ ty, structs.Types Γ p ty) :
    (ps.map Path.var).removeAll (Γ.map Prod.fst) ⊆ [] := by
  intro var hv
  obtain ⟨hl, hn⟩ := mem_removeAll.1 hv
  obtain ⟨p, hp, rfl⟩ := mem_map.1 hl
  obtain ⟨ty, hty⟩ := h p hp
  exact (hn hty.mem_names).elim

theorem leaves_apart (s : Stmt) (Γ : Context) :
    s.leaves apart (Γ.map Prod.fst) = (s.scope Γ).map Prod.fst := by
  rw [leaves, removeAll_apart]
  cases s <;> rfl

mutual

theorem missing_of_checked : ∀ (s : Stmt) {Γ : Context}, s.Checked structs Γ →
    s.missing apart (Γ.map Prod.fst) ⊆ []
  | .decl _ var ty init, Γ, hs => by
    have hinit : ∀ p ∈ init.elim [] Expr.paths, ∃ ty', structs.Types ((var, ty) :: Γ) p ty' := by
      cases init with
      | none => exact forall_mem_nil _
      | some e => exact (hs.2 e rfl).paths
    exact removeAll_of_types hinit
  | .assign _ lhs rhs, Γ, hs => by
    obtain ⟨ty, hlhs, hrhs⟩ := hs
    have hpaths : ∀ p ∈ lhs :: rhs.paths, ∃ ty, structs.Types Γ p ty :=
      forall_mem_cons.2 ⟨⟨ty, hlhs⟩, hrhs.paths⟩
    exact removeAll_of_types hpaths
  | .alloc _ lhs T, Γ, hs => by
    have hpath : ∀ p ∈ [lhs], ∃ ty, structs.Types Γ p ty := forall_mem_singleton.2 ⟨.ptr T, hs.2⟩
    exact removeAll_of_types hpath
  | .free _ path, Γ, hs => by
    obtain ⟨T, hT⟩ := hs
    have hpath : ∀ p ∈ [path], ∃ ty, structs.Types Γ p ty := forall_mem_singleton.2 ⟨.ptr T, hT⟩
    exact removeAll_of_types hpath
  | .assert .., _, hs => removeAll_of_types (Cond.Checked.paths hs)
  | .block _ body, _, hs => missingIn_of_checked body hs
  | .ite _ _ thenBody elseBody, _, hs => append_subset.2
      ⟨removeAll_of_types hs.1.paths, append_subset.2
        ⟨missingIn_of_checked thenBody hs.2.1, missingIn_of_checked elseBody hs.2.2⟩⟩
  | .loop _ _ body, _, hs => by
    rw [missing_loop]
    exact append_subset.2 ⟨removeAll_of_types hs.1.paths, missingIn_of_checked body hs.2⟩
  | .directive .., _, _ | .return _, _, _ => List.Subset.refl _

/-- A body whose types are checked names only what is declared. -/
theorem missingIn_of_checked : ∀ (body : List Stmt) {Γ : Context}, CheckedIn structs Γ body →
    missingIn apart (Γ.map Prod.fst) body ⊆ []
  | [], _, _ => List.Subset.refl _
  | s :: body, Γ, hs => by
    rw [missingIn, leaves_apart]
    exact append_subset.2 ⟨missing_of_checked s hs.1, missingIn_of_checked body hs.2⟩

end

end Stmt

namespace Program

variable {source : String} {p : Program}

/-- The variables that a program names where they are lost, if scopes that end take variables
    away by name. -/
def exposed (p : Program) : List String := Stmt.missingIn Stmt.ended [] p.body

/-- The variables that an inner scope of a program declares again. -/
def redeclared (p : Program) : List String := Stmt.redeclaredIn [] p.body

theorem missingIn_of_parse (h : Program.parse source = .ok p) :
    Stmt.missingIn Stmt.apart [] p.body ⊆ [] :=
  Stmt.missingIn_of_checked p.body (of_parse Parser.program_checks h).body

/-- A program that is read loses only variables that it declares again. -/
theorem exposed_subset_redeclared (h : Program.parse source = .ok p) : p.exposed ⊆ p.redeclared := by
  intro var hv
  rcases Stmt.missingIn_ended p.body (fun _ hn => (not_mem_nil hn).elim) (List.Subset.refl _)
    var hv with hm | hm
  · exact (not_mem_nil (missingIn_of_parse h hm)).elim
  · exact hm

/-- An instruction that is not a directive, or a condition, finds only variables to be
    undefined that an inner scope of the program declares again, and that the program names
    where they are lost. So it is on every path that is explored, and in the report. -/
theorem undefined_of_redeclared (hp : Program.parse source = .ok p) (config : Config) :
    let task : Task := ⟨p.structs, FlowGraph.ofProgram p, config⟩
    (∀ n e, Exploration.run task n .start = .ok e → ∀ f ∈ e.waiting.toList, ∀ var,
      f.Misses task var → var ∈ p.exposed ∧ var ∈ p.redeclared) ∧
    ∀ report, p.check config = .ok report → ∀ v ∈ report.violations, ∀ var,
      v.defect = .undefined var → (var ∈ p.exposed ∧ var ∈ p.redeclared) ∨ report.Tells v := by
  intro task
  obtain ⟨start, hfits⟩ := FlowGraph.fits_ofProgram p
  have hexposed {var : String} (hv : var ∈ p.exposed) : var ∈ p.exposed ∧ var ∈ p.redeclared :=
    ⟨hv, exposed_subset_redeclared hp hv⟩
  have hsound {n : Nat} {e : Exploration} (he : Exploration.run task n .start = .ok e) :
      e.Sound task start p.exposed :=
    Exploration.sound_run hfits (Exploration.sound_start hfits) he
  refine ⟨fun n e he f hf var hm => ?_, fun report hr v hv var hvar => ?_⟩
  · exact hexposed (((hsound he).waiting f hf).exempt_of_misses hfits hm)
  · obtain ⟨e, he, rfl⟩ := ok_of_map hr
    exact ((hsound he).violations v hv var hvar).imp_left hexposed

end Program

/-! ### Scopes with and without a name that comes back -/

namespace Sample

/-- A loop with a scope within its scope. -/
def nest : String := "void main() \x7b int x; while (x) \x7b int y; \x7b int z = y; \x7d x = y; \x7d \x7d"

/-- An inner scope that declares a variable of the outer one again. -/
def eclipse : String := "void main() \x7b int x; \x7b int x; \x7d x = 1; \x7d"

end Sample

namespace Program

theorem undefined_of_redeclared_nest : ∃ p, Program.parse Sample.nest = .ok p ∧ p.redeclared = [] ∧
    ∀ report, p.check .standard = .ok report → ∀ v ∈ report.violations, ∀ var,
      v.defect = .undefined var → report.Tells v := by
  have hread : (Program.parse Sample.nest).toOption.map redeclared = some [] := by decide +kernel
  rcases hp : Program.parse Sample.nest with e | p
  · rw [hp] at hread
    cases hread
  · rw [hp] at hread
    have hnone : p.redeclared = [] := Option.some.inj hread
    refine ⟨p, rfl, hnone, fun report hr v hv var hvar => ?_⟩
    refine ((undefined_of_redeclared hp .standard).2 report hr v hv var hvar).resolve_left fun h => ?_
    exact not_mem_nil (hnone ▸ h.2)

/-- The outer variable is lost with the inner one, and no directive is there to tell it. -/
theorem undefined_in_eclipse : ∃ p report, Program.parse Sample.eclipse = .ok p ∧
    p.check .standard = .ok report ∧ report.violations = #[⟨0, ⟨1, 33⟩, .undefined "x"⟩] ∧
      report.verdicts = #[] := by
  have hread : ((Program.parse Sample.eclipse).toOption.bind fun p =>
      (p.check .standard).toOption.map fun r => (r.violations, r.verdicts)) =
        some (#[⟨0, ⟨1, 33⟩, .undefined "x"⟩], #[]) := by
    decide +kernel
  rcases hp : Program.parse Sample.eclipse with e | p
  · rw [hp] at hread
    cases hread
  · rw [hp] at hread
    obtain ⟨report, hreport, heq⟩ := Option.map_eq_some_iff.1 hread
    obtain ⟨hviolations, hverdicts⟩ := Prod.mk.inj heq
    refine ⟨p, report, rfl, ?_, hviolations, hverdicts⟩
    rcases hr : p.check .standard with m | r
    · rw [hr] at hreport
      cases hreport
    · rw [hr] at hreport
      exact congrArg Except.ok (Option.some.inj hreport)

end Program

end HeapShape
