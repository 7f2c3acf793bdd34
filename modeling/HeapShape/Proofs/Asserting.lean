import HeapShape.Proofs.Binding
import HeapShape.Proofs.Faults

/-!
# What an assertion reads

An assertion of a condition with unknown parts makes all reads of the condition, from left to right.
It does not follow the connectives, so it also reads what stands behind a comparison that rules the
rest out, as in `x == null || x->data > 0`.

* `Cond.Exposed`: no comparison of pointers stands in front of a part that follows a field. Such a
  part is reached by an evaluation, too, after the reads of what stands in front of it
  (`Exec.readAll_subset_assume`);
* `Cond.blurred`: the condition with its comparisons taken for unknown. This is what an assertion
  evaluates in any case;
* `Exec.assert_defects_occur`: where the defects of an assertion come from;
* `Exec.assert_reads_ruled_out`: a field of null that a comparison rules out is read.
-/

namespace HeapShape

open List

/-- Whether an expression is a scalar. -/
def Expr.isScalar : Expr → Bool
  | .scalar _ => true
  | .null | .path _ => false

namespace Cond

/-- Whether only scalars decide a condition, so that it can have either truth value after its
    reads. -/
def isScalar : Cond → Bool
  | .unknown _ => true
  | .cmp _ lhs rhs => lhs.isScalar || rhs.isScalar
  | .not c => c.isScalar
  | .and c d => c.isScalar && d.isScalar
  | .or c d => c.isScalar && d.isScalar

/-- A condition only names variables that are in scope, and follows no field. -/
def Names (s : State) (c : Cond) : Prop := ∀ p ∈ c.paths, p.fields = [] ∧ s.Bound p.var

/-- Every part that does more than to name variables stands behind parts that only scalars
    decide. -/
def Exposed (s : State) : Cond → Prop
  | .unknown _ => True
  | .cmp .. => True
  | .not c => c.Exposed s
  | .and c d => c.Exposed s ∧ (d.Names s ∨ c.isScalar = true ∧ d.Exposed s)
  | .or c d => c.Exposed s ∧ (d.Names s ∨ c.isScalar = true ∧ d.Exposed s)

/-- The condition with its comparisons taken for unknown. -/
def blurred : Cond → Cond
  | .unknown ps => .unknown ps
  | .cmp _ lhs rhs => .unknown (lhs.paths ++ rhs.paths)
  | .not c => .not c.blurred
  | .and c d => .and c.blurred d.blurred
  | .or c d => .or c.blurred d.blurred

theorem paths_blurred (c : Cond) : c.blurred.paths = c.paths := by
  induction c with
  | unknown ps => rfl
  | cmp eq lhs rhs => rfl
  | not c ih => exact ih
  | and c d ihc ihd | or c d ihc ihd => exact congrArg₂ _ ihc ihd

theorem isScalar_blurred (c : Cond) : c.blurred.isScalar = true := by
  induction c with
  | unknown ps => rfl
  | cmp eq lhs rhs => rfl
  | not c ih => exact ih
  | and c d ihc ihd | or c d ihc ihd => exact Bool.and_eq_true_iff.2 ⟨ihc, ihd⟩

variable {s t : State}

theorem Names.of_sameScope {c : Cond} (h : c.Names s) (hst : s.SameScope t) : c.Names t :=
  fun p hp => ⟨(h p hp).1, (hst p.var).2 (h p hp).2⟩

theorem Exposed.of_sameScope {c : Cond} (h : c.Exposed s) (hst : s.SameScope t) : c.Exposed t := by
  induction c with
  | unknown ps => trivial
  | cmp eq lhs rhs => trivial
  | not c ih => exact ih h
  | and c d ihc ihd | or c d ihc ihd =>
    exact ⟨ihc h.1, h.2.imp (·.of_sameScope hst) fun hd => ⟨hd.1, ihd hd.2⟩⟩

end Cond

namespace Exec

variable {structs : Structs} {s s' s₁ : State} {d : Defect} {e : Expr} {c : Cond}

/-! ### Reads -/

theorem readAll_append (l l' : List Path) :
    readAll structs (l ++ l') = (do readAll structs l; readAll structs l') := by
  induction l with
  | nil => exact (pure_bind _ _).symm
  | cons p l ih =>
    show (do let _ ← read structs p; readAll structs (l ++ l')) = _
    rw [ih, readAll, bind_assoc]

/-- The reads of an expression are made by its evaluation. -/
theorem eval_reads (e : Expr) : (do let _ ← eval structs e; return ()) = readAll structs e.paths := by
  cases e with
  | null => exact pure_bind _ _
  | path p => rfl
  | scalar ps =>
    rw [eval, bind_assoc]
    simp only [pure_bind]
    exact bind_pure _

theorem mem_eval_of_error (h : (s', .error d) ∈ readAll structs e.paths s) :
    (s', .error d) ∈ eval structs e s := by
  rw [← eval_reads, mem_bind] at h
  rcases h with ⟨s₁, v, -, h⟩ | ⟨d', h, heq⟩
  · cases mem_singleton.1 h
  · cases heq
    exact h

theorem exists_mem_eval (h : (s', .ok ()) ∈ readAll structs e.paths s) :
    ∃ v, (s', .ok v) ∈ eval structs e s := by
  rw [← eval_reads, mem_bind] at h
  rcases h with ⟨s₁, v, hv, h⟩ | ⟨d', -, heq⟩
  · cases mem_singleton.1 h
    exact ⟨v, hv⟩
  · cases heq

theorem eq_int_of_mem_eval (he : e.isScalar = true) {v : Value} (h : (s', .ok v) ∈ eval structs e s) :
    v = .int := by
  cases e with
  | null => cases he
  | path p => cases he
  | scalar ps =>
    rw [eval, mem_bind] at h
    rcases h with ⟨s₁, _, -, h⟩ | ⟨d', -, heq⟩
    · cases mem_singleton.1 h
      rfl
    · cases heq

/-- With a scalar both answers are possible. -/
theorem mem_compare_int {a b : Value} (h : a = .int ∨ b = .int) (same : Bool) :
    (s, .ok same) ∈ compare structs a b s := by
  have hboth : (s, .ok same) ∈ (either (pure true) (pure false) : Exec Bool) s := by
    cases same with
    | true => exact .head _
    | false => exact .tail _ (.head _)
  rcases h with rfl | rfl
  · rw [compare]
    exact hboth
  · cases a <;> exact hboth

/-- Variables that are in scope can be read. -/
theorem readAll_of_names {ps : List Path} (h : ∀ p ∈ ps, p.fields = [] ∧ s.Bound p.var) :
    readAll structs ps s = [(s, .ok ())] := by
  induction ps with
  | nil => rfl
  | cons p ps ih =>
    obtain ⟨hfields, hbound⟩ := h p (.head _)
    obtain ⟨b, hb⟩ := Option.isSome_iff_exists.1 hbound
    have hlookup : ask (fun s => s.lookup p.var) s = [(s, .ok b.value)] := by
      rw [ask, State.lookup, hb]
    have hread : read structs p s = [(s, .ok b.value)] := by
      rw [read, hfields, bind_of_single hlookup]
      rfl
    rw [readAll, bind_of_single hread]
    exact ih fun q hq => h q (.tail _ hq)

/-! ### Reads in an evaluation -/

section Connect

variable {x y : Bool → Exec Unit}

/-- What goes wrong in the first part of a condition goes wrong in the whole. -/
theorem mem_connect_of_error (h : ∀ truth, (s', .error d) ∈ x truth s) (stop truth : Bool) :
    (s', .error d) ∈ connect stop x y truth s := by
  rw [connect]
  split
  · exact mem_append_left _ (h stop)
  · exact mem_bind.2 (.inr ⟨d, h (!stop), rfl⟩)

/-- The second part is evaluated where the first one does not decide the whole. -/
theorem mem_connect_of_second {stop truth : Bool} {r : Except Defect Unit}
    (hx : (s₁, .ok ()) ∈ x (!stop) s) (hy : (s', r) ∈ y truth s₁) :
    (s', r) ∈ connect stop x y truth s := by
  rw [connect]
  split
  · rename_i ht
    exact mem_append_right _ (mem_bind.2 (.inl ⟨s₁, (), hx, ht ▸ hy⟩))
  · rename_i ht
    obtain rfl := Bool.eq_not_of_ne ht
    exact mem_bind.2 (.inl ⟨s₁, (), hx, hy⟩)

end Connect

/-- A comparison makes its reads. -/
theorem mem_assume_cmp_of_error {eq truth : Bool} {lhs rhs : Expr}
    (h : (s', .error d) ∈ readAll structs (lhs.paths ++ rhs.paths) s) :
    (s', .error d) ∈ assume structs (.cmp eq lhs rhs) truth s := by
  rw [readAll_append, mem_bind] at h
  rw [assume, mem_bind]
  rcases h with ⟨s₁, ⟨⟩, hl, hr⟩ | ⟨d', hl, heq⟩
  · obtain ⟨v, hv⟩ := exists_mem_eval hl
    exact .inl ⟨s₁, v, hv, mem_bind.2 (.inr ⟨d, mem_eval_of_error hr, rfl⟩)⟩
  · cases heq
    exact .inr ⟨d, mem_eval_of_error hl, rfl⟩

/-- A comparison with a scalar can have either truth value after its reads. -/
theorem mem_assume_cmp_of_scalar {eq truth : Bool} {lhs rhs : Expr}
    (hs : (lhs.isScalar || rhs.isScalar) = true)
    (h : (s', .ok ()) ∈ readAll structs (lhs.paths ++ rhs.paths) s) :
    (s', .ok ()) ∈ assume structs (.cmp eq lhs rhs) truth s := by
  rw [readAll_append, mem_bind] at h
  rcases h with ⟨s₁, ⟨⟩, hl, hr⟩ | ⟨d', -, heq⟩
  · obtain ⟨a, ha⟩ := exists_mem_eval hl
    obtain ⟨b, hb⟩ := exists_mem_eval hr
    have hint : a = .int ∨ b = .int := (Bool.or_eq_true_iff.1 hs).imp
      (fun he => eq_int_of_mem_eval he ha) fun he => eq_int_of_mem_eval he hb
    have hcompare : (s', .ok (eq == truth)) ∈ compare structs a b s' := mem_compare_int hint _
    refine mem_bind.2 (.inl ⟨s₁, a, ha, mem_bind.2 (.inl ⟨s', b, hb, mem_bind.2 (.inl ?_)⟩)⟩)
    refine ⟨s', _, hcompare, ?_⟩
    rw [if_pos rfl]
    exact mem_singleton_self _
  · cases heq

/-- A condition that only scalars decide can have either truth value wherever its reads come to. -/
theorem readAll_subset_assume (hc : c.isScalar = true) (truth : Bool) (s : State) :
    readAll structs c.paths s ⊆ assume structs c truth s := by
  have parts {c d : Cond} (ihc : ∀ truth s, readAll structs c.paths s ⊆ assume structs c truth s)
      (ihd : ∀ truth s, readAll structs d.paths s ⊆ assume structs d truth s) (stop truth : Bool)
      (s : State) : readAll structs (c.paths ++ d.paths) s ⊆
        connect stop (assume structs c) (assume structs d) truth s := by
    rintro ⟨s', r⟩ h
    rw [readAll_append, mem_bind] at h
    rcases h with ⟨s₁, ⟨⟩, hfirst, hsecond⟩ | ⟨d', herror, rfl⟩
    · exact mem_connect_of_second (ihc (!stop) s hfirst) (ihd truth s₁ hsecond)
    · exact mem_connect_of_error (fun truth => ihc truth s herror) stop truth
  induction c generalizing truth s with
  | unknown ps => exact List.Subset.refl _
  | cmp eq lhs rhs =>
    rintro ⟨s', d | ⟨⟩⟩ h
    · exact mem_assume_cmp_of_error h
    · exact mem_assume_cmp_of_scalar hc h
  | not c ih => exact ih hc (!truth) s
  | and c d ihc ihd =>
    obtain ⟨hc, hd⟩ := Bool.and_eq_true_iff.1 hc
    rw [assume_and]
    exact parts (ihc hc) (ihd hd) false truth s
  | or c d ihc ihd =>
    obtain ⟨hc, hd⟩ := Bool.and_eq_true_iff.1 hc
    rw [assume_or]
    exact parts (ihc hc) (ihd hd) true truth s

/-- Where no comparison stands in front of a part that follows a field, an evaluation goes wrong
    with every read that goes wrong. -/
theorem mem_assume_of_exposed (hc : c.Exposed s) (h : (s', .error d) ∈ readAll structs c.paths s)
    (truth : Bool) : (s', .error d) ∈ assume structs c truth s := by
  have parts {c d' : Cond} {s : State} (stop truth : Bool)
      (hd : d'.Names s ∨ c.isScalar = true ∧ d'.Exposed s)
      (h : (s', .error d) ∈ readAll structs (c.paths ++ d'.paths) s)
      (ihc : (s', .error d) ∈ readAll structs c.paths s → ∀ t, (s', .error d) ∈ assume structs c t s)
      (ihd : ∀ s₁, d'.Exposed s₁ → (s', .error d) ∈ readAll structs d'.paths s₁ →
        ∀ t, (s', .error d) ∈ assume structs d' t s₁) :
      (s', .error d) ∈ connect stop (assume structs c) (assume structs d') truth s := by
    rw [readAll_append, mem_bind] at h
    rcases h with ⟨s₁, ⟨⟩, hfirst, hsecond⟩ | ⟨e, herror, heq⟩
    · have hreads : Composed structs (c.paths.map Path.var) .none [] (fun _ => [])
          (readAll structs c.paths) := .readAll (Subset.refl _)
      have hscope := (hreads.uses s s₁ _ hfirst).1
      rcases hd with hnames | ⟨hscalar, hexposed⟩
      · rw [readAll_of_names (hnames.of_sameScope hscope)] at hsecond
        cases mem_singleton.1 hsecond
      · exact mem_connect_of_second (readAll_subset_assume hscalar (!stop) s hfirst)
          (ihd s₁ (hexposed.of_sameScope hscope) hsecond truth)
    · cases heq
      exact mem_connect_of_error (ihc herror) stop truth
  induction c generalizing truth s with
  | unknown ps => exact h
  | cmp eq lhs rhs => exact mem_assume_cmp_of_error h
  | not c ih => exact ih hc h (!truth)
  | and c d' ihc ihd =>
    rw [assume_and]
    exact parts false truth hc.2 h (ihc hc.1) fun s₁ hd h => ihd hd h
  | or c d' ihc ihd =>
    rw [assume_or]
    exact parts true truth hc.2 h (ihc hc.1) fun s₁ hd h => ihd hd h

/-! ### Assertions -/

/-- Whatever goes wrong in an assertion, apart from the assertion itself, goes wrong in an evaluation
    of its condition, if the condition has no unknown parts or if no comparison of pointers stands in
    front of a part that follows a field. In any case it goes wrong in an evaluation that takes
    comparisons for unknown. -/
theorem assert_defects_occur {c : Cond} (h : (s', .error d) ∈ assert structs c s)
    (hd : ∀ c', d ≠ .assertion c') :
    (c.hasUnknown = false ∨ c.Exposed s → (s', .error d) ∈ assume structs c true s) ∧
      (c.hasUnknown = true → (s', .error d) ∈ assume structs c.blurred true s) := by
  have reads (hc : c.hasUnknown = true) : (s', .error d) ∈ readAll structs c.paths s := by
    rwa [assert, if_pos hc] at h
  have plain (hc : c.hasUnknown = false) : (s', .error d) ∈ assume structs c true s := by
    rcases (mem_defects_assert hc).1 (Outcomes.mem_defects.2 h) with ⟨truth, ht⟩ | ⟨heq, -⟩
    · exact Outcomes.mem_defects.1 (mem_defects_assume.2 (mem_defects_assume.1 ht))
    · exact absurd heq (hd c)
  refine ⟨fun hc => ?_, fun hc => ?_⟩
  · rcases hu : c.hasUnknown with _ | _
    · exact plain hu
    · rw [hu] at hc
      exact mem_assume_of_exposed (hc.resolve_left Bool.noConfusion) (reads hu) true
  · refine readAll_subset_assume c.isScalar_blurred true s ?_
    rw [c.paths_blurred]
    exact reads hc

/-- A field of null behind a part that is unknown. -/
theorem assert_defects_occur_behind_unknown :
    let c : Cond := .and (.unknown []) Sample.beyond
    (Sample.unset, .error .nullDeref) ∈ assert Sample.nodes c Sample.unset ∧ c.Exposed Sample.unset ∧
      (Sample.unset, .error .nullDeref) ∈ assume Sample.nodes c true Sample.unset ∧
      (Sample.unset, .error .nullDeref) ∈ assume Sample.nodes c.blurred true Sample.unset := by
  intro c
  have hassert : (Sample.unset, .error .nullDeref) ∈ assert Sample.nodes c Sample.unset := by
    decide +kernel
  have hexposed : c.Exposed Sample.unset := ⟨trivial, .inr ⟨rfl, trivial⟩⟩
  obtain ⟨hexact, hblurred⟩ := assert_defects_occur hassert fun _ => Defect.noConfusion
  exact ⟨hassert, hexposed, hexact (.inr hexposed), hblurred rfl⟩

/-- A field of null is read although a comparison with null rules it out, so an assertion goes
    wrong where no evaluation does. -/
theorem assert_reads_ruled_out {x : String} {f : FieldRef} {fs : List FieldRef} {ps : List Path}
    (hx : s.lookup x = .ok .null) (hc : c.hasUnknown = true) (hps : c.paths = ⟨x, f :: fs⟩ :: ps) :
    (s, .error .nullDeref) ∈ assert structs (.or (.isNull (.ofVar x)) c) s ∧
      assume structs (.or (.isNull (.ofVar x)) c) true s = [(s, .ok ())] := by
  have hlookup : ask (fun s => s.lookup x) s = [(s, .ok .null)] := by rw [ask, hx]
  have hread : read structs (.ofVar x) s = [(s, .ok .null)] := bind_of_single hlookup
  constructor
  · have hassert : assert structs (.or (.isNull (.ofVar x)) c) =
        readAll structs (.ofVar x :: c.paths) := if_pos hc
    have hfield : (s, .error .nullDeref) ∈ read structs ⟨x, f :: fs⟩ s := by
      rw [read, bind_of_single hlookup]
      refine mem_bind.2 (.inr ⟨_, ?_, rfl⟩)
      refine mem_bind.2 (.inr ⟨_, ?_, rfl⟩)
      rw [materialize, State.materialize]
      exact .head _
    rw [hassert, readAll, bind_of_single hread, hps]
    exact mem_bind.2 (.inr ⟨_, hfield, rfl⟩)
  · have hnull (truth : Bool) : assume structs (.isNull (.ofVar x)) truth s =
        if truth then [(s, .ok ())] else [] := by
      have heval : eval structs (.path (.ofVar x)) s = [(s, .ok .null)] := hread
      rw [Cond.isNull, assume, bind_of_single heval]
      cases truth <;> rfl
    show assume structs (.isNull (.ofVar x)) true s ++
      (do assume structs (.isNull (.ofVar x)) false; assume structs c true : Exec Unit) s = _
    rw [bind_apply, hnull, hnull]
    rfl

/-- In an assertion of `x == null || x->next > 0` with `x` null, the field of null goes wrong. It does
    not if the condition is assumed to be true. -/
theorem assert_defect_of_guarded_field :
    let c : Cond := .or (.isNull (.ofVar "x")) (.unknown [⟨"x", [⟨"next", 0⟩]⟩])
    (Sample.unset, .error .nullDeref) ∈ assert Sample.nodes c Sample.unset ∧
      ∀ s', (s', .error .nullDeref) ∉ assume Sample.nodes c true Sample.unset := by
  intro c
  obtain ⟨hassert, hassume⟩ : _ ∧ assume Sample.nodes c true Sample.unset = _ :=
    assert_reads_ruled_out rfl rfl rfl
  refine ⟨hassert, fun s' h => ?_⟩
  rw [hassume] at h
  cases mem_singleton.1 h

end Exec

end HeapShape
