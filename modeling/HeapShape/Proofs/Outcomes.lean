import HeapShape.State.Condition

/-!
# What the outcomes of an operation are

Two readings of the outcomes of an operation. For all of them:

* `Exec.Ensures`: every outcome is a result that a property holds of, or a defect of the
  program.

For one of them, which stands for a run that is followed:

* `Exec.Covers`: some outcome is a result that a property holds of, or tells that a shape did
  not fit;
* `Exec.Fails`: some outcome is a defect;
* `Exec.Answers`: the first for a run that has a result, and the second for a run that goes
  wrong.

Each is closed under composition (`Exec.Ensures.bind`, `Exec.Answers.bind`).
-/

namespace HeapShape

open List

/-! ### Computations that may fail -/

/-- A computation has a result with a property, or an error that is not bad. -/
def Yields {ε α : Type} (bad : ε → Prop) (x : Except ε α) (P : α → Prop) : Prop :=
  match x with
  | .ok a => P a
  | .error e => ¬ bad e

namespace Yields

variable {ε α β : Type} {bad : ε → Prop} {x : Except ε α} {P Q : α → Prop}

variable (hx : Yields bad x P)
include hx

theorem bind {R : β → Prop} {f : α → Except ε β} (hf : ∀ a, P a → Yields bad (f a) R) :
    Yields bad (x >>= f) R := by
  cases x with
  | ok a => exact hf a hx
  | error e => exact hx

theorem map {R : β → Prop} {f : α → β} (hf : ∀ a, P a → R (f a)) : Yields bad (x.map f) R := by
  cases x with
  | ok a => exact hf a hx
  | error e => exact hx

theorem mono (h : ∀ a, P a → Q a) : Yields bad x Q := by
  cases x with
  | ok a => exact h a hx
  | error e => exact hx

theorem and_ok : Yields bad x fun a => P a ∧ x = .ok a := by
  cases x with
  | ok a => exact ⟨hx, rfl⟩
  | error e => exact hx

theorem mono_bad {bad' : ε → Prop} (h : ∀ e, bad' e → bad e) : Yields bad' x P := by
  cases x with
  | ok a => exact hx
  | error e => exact fun he => hx (h e he)

theorem of_ok {a : α} (h : x = .ok a) : P a := by
  rw [h] at hx
  exact hx

omit hx in
theorem of_forall (hbad : ∀ e, ¬ bad e) (h : ∀ a, x = .ok a → P a) : Yields bad x P := by
  cases x with
  | ok a => exact h a rfl
  | error e => exact hbad e

omit hx in
/-- Where every error is bad, there is a result. -/
theorem exists_ok (hx : Yields (fun _ => True) x P) : ∃ a, x = .ok a ∧ P a := by
  cases x with
  | ok a => exact ⟨a, rfl, hx⟩
  | error e => exact absurd trivial hx

end Yields

namespace Exec

variable {α β δ ε : Type} {x y : Exec α} {f : α → Exec β} {s s' : State}

theorem mem_bind {r : Except Defect β} : (s', r) ∈ (x >>= f) s ↔
    (∃ s₁ a, (s₁, .ok a) ∈ x s ∧ (s', r) ∈ f a s₁) ∨
      ∃ d, (s', .error d) ∈ x s ∧ r = .error d := by
  rw [bind_apply, mem_flatMap]
  constructor
  · rintro ⟨⟨s₁, a | a⟩, hx, hf⟩
    · cases mem_singleton.1 hf
      exact .inr ⟨a, hx, rfl⟩
    · exact .inl ⟨s₁, a, hx, hf⟩
  · rintro (⟨s₁, a, hx, hf⟩ | ⟨d, hx, rfl⟩)
    · exact ⟨_, hx, hf⟩
    · exact ⟨_, hx, mem_singleton_self _⟩

/-- An operation with one outcome goes on there. -/
theorem bind_of_single {a : α} (h : x s = [(s', .ok a)]) : (x >>= f) s = f a s' := by
  rw [bind_apply, h, flatMap_singleton]

/-- An operation that can only fail fails as a whole. -/
theorem bind_of_error {d : Defect} (h : x s = [(s', .error d)]) : (x >>= f) s = [(s', .error d)] := by
  rw [bind_apply, h, flatMap_singleton]

/-! ### All outcomes -/

/-- A property of states and results holds of all outcomes. -/
def All (Q : State → Except Defect α → Prop) (l : Outcomes α) : Prop := ∀ s r, (s, r) ∈ l → Q s r

namespace All

variable {l l' : Outcomes α} {Q : State → Except Defect α → Prop}
  {R : State → Except Defect β → Prop}

theorem nil : All Q [] := nofun

theorem cons {r : Except Defect α} (h : Q s r) (hl : All Q l) : All Q ((s, r) :: l) := by
  intro s' r' hr
  rcases mem_cons.1 hr with heq | hmem
  · obtain ⟨rfl, rfl⟩ := Prod.mk.inj heq
    exact h
  · exact hl s' r' hmem

theorem single {r : Except Defect α} (h : Q s r) : All Q [(s, r)] := cons h nil

theorem append (hl : All Q l) (hl' : All Q l') : All Q (l ++ l') :=
  fun s r hr => (mem_append.1 hr).elim (hl s r) (hl' s r)

/-- The cases where a summary is unfolded. -/
theorem cells {heaps : List Heap} {a : α} (h : ∀ heap ∈ heaps, Q { s with heap } (.ok a)) :
    All Q (heaps.map fun heap => (({ s with heap } : State), (.ok a : Except Defect α))) := by
  intro s' r hr
  obtain ⟨heap, hmem, heq⟩ := mem_map.1 hr
  cases heq
  exact h heap hmem

theorem bind (hx : All Q (x s)) (hok : ∀ s' a, Q s' (.ok a) → All R (f a s'))
    (herror : ∀ s' d, Q s' (.error d) → R s' (.error d)) : All R ((x >>= f) s) := by
  intro s' r hr
  rcases mem_bind.1 hr with ⟨s₁, a, hxa, hfa⟩ | ⟨d, hxd, rfl⟩
  · exact hok s₁ a (hx _ _ hxa) s' r hfa
  · exact herror s' d (hx _ _ hxd)

theorem update {g : State → Except Defect State} {Q : State → Except Defect Unit → Prop}
    (hok : ∀ t, g s = .ok t → Q t (.ok ())) (herror : ∀ d, g s = .error d → Q s (.error d)) :
    All Q (update g s) := by
  rw [Exec.update]
  split
  · exact single (hok _ ‹_›)
  · exact single (herror _ ‹_›)

/-- The cases of a condition that is refuted have no results, and only misuse is kept of the defects. -/
theorem refute {x : Exec Unit} {Q R : State → Except Defect Unit → Prop} (hx : All Q (x s)) (c : Cond)
    (hok : ∀ t, Q t (.ok ()) → R t (.error (.assertion c)))
    (hmisuse : ∀ t m, Q t (.error (.misuse m)) → R t (.error (.misuse m))) : All R (refute c x s) := by
  intro s' r hr
  obtain ⟨⟨t, r'⟩, hmem, hr⟩ := mem_filterMap.1 hr
  have ht := hx t r' hmem
  dsimp only at hr
  split at hr
  · cases hr
    exact hok s' ht
  · cases hr
    exact hmisuse s' _ ht
  · cases hr

end All

/-- Each outcome of a list is a result that a property holds of, or a defect of the program. -/
def Each (P : State → α → Prop) : Outcomes α → Prop :=
  All fun s r =>
    match r with
    | .ok a => P s a
    | .error d => ∀ m, d ≠ .misuse m

theorem Each.mono {l : Outcomes α} {P Q : State → α → Prop} (hl : Each P l)
    (h : ∀ s a, P s a → Q s a) : Each Q l := by
  intro s r hr
  cases r with
  | ok a => exact h s a (hl _ _ hr)
  | error d => exact hl _ _ hr

/-- Every outcome is a result that a property holds of, or a defect of the program. -/
def Ensures (x : Exec α) (s : State) (P : State → α → Prop) : Prop := Each P (x s)

namespace Ensures

variable {P : State → α → Prop} {Q : State → β → Prop}

theorem bind (hx : x.Ensures s P) (hf : ∀ s' a, P s' a → (f a).Ensures s' Q) :
    (x >>= f).Ensures s Q := All.bind hx hf fun _ _ => id

theorem pure {a : α} (h : P s a) : (Pure.pure a : Exec α).Ensures s P := All.single h

theorem ask {f : State → Except Defect α}
    (h : match f s with | .ok a => P s a | .error d => ∀ m, d ≠ .misuse m) : (ask f).Ensures s P :=
  All.single h

theorem update {f : State → Except Defect State} {P : State → Unit → Prop}
    (h : match f s with | .ok s' => P s' () | .error d => ∀ m, d ≠ .misuse m) :
    (update f).Ensures s P := by
  refine All.update (fun t ht => ?_) fun d hd => ?_
  · rwa [ht] at h
  · rwa [hd] at h

theorem either (hx : x.Ensures s P) (hy : y.Ensures s P) : (x.either y).Ensures s P := All.append hx hy

theorem mono {P' : State → α → Prop} (hx : x.Ensures s P) (h : ∀ s' a, P s' a → P' s' a) :
    x.Ensures s P' := Each.mono hx h

/-- A refuted condition has no results, and no misuse that was not there. -/
theorem refute {x : Exec Unit} {P : State → Unit → Prop} (hx : x.Ensures s P) (c : Cond)
    (Q : State → Unit → Prop) : (refute c x).Ensures s Q :=
  All.refute hx c (fun _ _ => nofun) fun _ _ => id

end Ensures

/-! ### One outcome -/

/-- Some outcome is a result that a property holds of, or tells that a shape did not fit. -/
def Covers (x : Exec α) (s : State) (P : State → α → Prop) : Prop :=
  (∃ s' a, (s', .ok a) ∈ x s ∧ P s' a) ∨ ∃ s' m, (s', .error (.mismatch m)) ∈ x s

/-- Some outcome is a defect. -/
def Fails (x : Exec α) (s : State) : Prop := ∃ s' d, (s', .error d) ∈ x s

/-- For a run that has a result, some outcome is covered, and for one that goes wrong, some
    outcome is a defect. -/
def Answers (x : Exec α) (s : State) (P : δ → State → α → Prop) : Option δ → Prop
  | some d => x.Covers s (P d)
  | none => x.Fails s

namespace Covers

variable {P P' : State → α → Prop} {Q : State → β → Prop}

theorem bind (hx : x.Covers s P) (hf : ∀ s' a, P s' a → (f a).Covers s' Q) : (x >>= f).Covers s Q := by
  rcases hx with ⟨s₁, a, hxa, hP⟩ | ⟨s', m, hm⟩
  · rcases hf s₁ a hP with ⟨s', b, hfb, hQ⟩ | ⟨s', m, hm⟩
    · exact .inl ⟨s', b, mem_bind.2 (.inl ⟨s₁, a, hxa, hfb⟩), hQ⟩
    · exact .inr ⟨s', m, mem_bind.2 (.inl ⟨s₁, a, hxa, hm⟩)⟩
  · exact .inr ⟨s', m, mem_bind.2 (.inr ⟨_, hm, rfl⟩)⟩

theorem bind_fails (hx : x.Covers s P) (hf : ∀ s' a, P s' a → (f a).Fails s') : (x >>= f).Fails s := by
  rcases hx with ⟨s₁, a, hxa, hP⟩ | ⟨s', m, hm⟩
  · obtain ⟨s', d, hd⟩ := hf s₁ a hP
    exact ⟨s', d, mem_bind.2 (.inl ⟨s₁, a, hxa, hd⟩)⟩
  · exact ⟨s', _, mem_bind.2 (.inr ⟨_, hm, rfl⟩)⟩

theorem pure {a : α} (h : P s a) : (Pure.pure a : Exec α).Covers s P :=
  .inl ⟨s, a, mem_singleton_self _, h⟩

theorem ask {f : State → Except Defect α} {a : α} (hf : f s = .ok a) (h : P s a) :
    (ask f).Covers s P := by
  refine .inl ⟨s, a, ?_, h⟩
  rw [Exec.ask, hf]
  exact mem_singleton_self _

theorem update {f : State → Except Defect State} {P : State → Unit → Prop} {s' : State}
    (hf : f s = .ok s') (h : P s' ()) : (update f).Covers s P := by
  refine .inl ⟨s', (), ?_, h⟩
  rw [Exec.update, hf]
  exact mem_singleton_self _

theorem mono (hx : x.Covers s P) (h : ∀ s' a, P s' a → P' s' a) : x.Covers s P' := by
  rcases hx with ⟨s', a, hxa, hP⟩ | hm
  · exact .inl ⟨s', a, hxa, h s' a hP⟩
  · exact .inr hm

/-- The outcomes may be among those of another operation on another state. -/
theorem of_subset {t : State} (hx : x.Covers s P) (hsub : x s ⊆ y t) : y.Covers t P := by
  rcases hx with ⟨s', a, hxa, hP⟩ | ⟨s', m, hm⟩
  · exact .inl ⟨s', a, hsub hxa, hP⟩
  · exact .inr ⟨s', m, hsub hm⟩

theorem either_left (hx : x.Covers s P) (y : Exec α) : (x.either y).Covers s P := by
  rcases hx with ⟨s', a, hxa, hP⟩ | ⟨s', m, hm⟩
  · exact .inl ⟨s', a, mem_append_left _ hxa, hP⟩
  · exact .inr ⟨s', m, mem_append_left _ hm⟩

theorem either_right (hy : y.Covers s P) (x : Exec α) : (x.either y).Covers s P := by
  rcases hy with ⟨s', a, hya, hP⟩ | ⟨s', m, hm⟩
  · exact .inl ⟨s', a, mem_append_right _ hya, hP⟩
  · exact .inr ⟨s', m, mem_append_right _ hm⟩

end Covers

namespace Fails

theorem bind (hx : x.Fails s) : (x >>= f).Fails s := by
  obtain ⟨s', d, hd⟩ := hx
  exact ⟨s', d, mem_bind.2 (.inr ⟨d, hd, rfl⟩)⟩

theorem ask {f : State → Except Defect α} {d : Defect} (hf : f s = .error d) : (ask f).Fails s := by
  refine ⟨s, d, ?_⟩
  rw [Exec.ask, hf]
  exact mem_singleton_self _

theorem update {f : State → Except Defect State} {d : Defect} (hf : f s = .error d) :
    (update f).Fails s := by
  refine ⟨s, d, ?_⟩
  rw [Exec.update, hf]
  exact mem_singleton_self _

theorem either_left (hx : x.Fails s) (y : Exec α) : (x.either y).Fails s := by
  obtain ⟨s', d, hd⟩ := hx
  exact ⟨s', d, mem_append_left _ hd⟩

theorem either_right (hy : y.Fails s) (x : Exec α) : (x.either y).Fails s := by
  obtain ⟨s', d, hd⟩ := hy
  exact ⟨s', d, mem_append_right _ hd⟩

end Fails

namespace Answers

variable {P : δ → State → α → Prop} {Q : ε → State → β → Prop} {r : Option δ}

theorem bind {g : δ → Option ε} (hx : x.Answers s P r)
    (hf : ∀ d s' a, P d s' a → (f a).Answers s' Q (g d)) : (x >>= f).Answers s Q (r.bind g) := by
  cases r with
  | none => exact Fails.bind hx
  | some d =>
    have hf := hf d
    rw [Option.bind_some]
    generalize g d = r at hf
    cases r with
    | none => exact Covers.bind_fails hx hf
    | some e => exact Covers.bind hx hf

theorem mono {P' : δ → State → α → Prop} (hx : x.Answers s P r)
    (h : ∀ d s' a, P d s' a → P' d s' a) : x.Answers s P' r := by
  cases r with
  | none => exact hx
  | some d => exact Covers.mono hx (h d)

theorem of_subset {t : State} (hx : x.Answers s P r) (hsub : x s ⊆ y t) : y.Answers t P r := by
  cases r with
  | none =>
    obtain ⟨s', d, hd⟩ := hx
    exact ⟨s', d, hsub hd⟩
  | some d => exact Covers.of_subset hx hsub

/-- A shape that does not fit answers for every run. -/
theorem of_mismatch {t : State} {m : Mismatch} (h : (t, .error (.mismatch m)) ∈ x s)
    (P : δ → State → α → Prop) (r : Option δ) : x.Answers s P r := by
  cases r with
  | none => exact ⟨t, _, h⟩
  | some d => exact .inr ⟨t, m, h⟩

end Answers

end Exec

/-! ### The cases of a pointer -/

namespace State

variable {structs : Structs} {s : State} {loc : Loc}

/-- What a pointer comes to, by the fact at its location. -/
theorem materialize_ptr : s.materialize structs (.ptr loc) = match s.heap.slot loc with
    | .occupied (.cell _) => [(s, .ok loc)]
    | .tombstone => [(s, .error (.useAfterFree loc))]
    | .vacant => [(s, .error (.mismatchAt loc .derefUnknown))]
    | .occupied (.member ..) => [(s, .error (.mismatchAt loc .writeShared))]
    | .occupied (.summary sum) => match s.heap.unfold structs loc with
      | .error m => [(s, .error (.mismatch m))]
      | .ok heaps => heaps.map (fun heap => ({ s with heap }, .ok loc)) ++ match sum.hole with
        | some o => match s.closeSegment loc sum o with
          | .ok (some closed) => closed.materialize structs o.value
          | .ok none => []
          | .error m => [(s, .error (.misuse m))]
        | none => (s.discharge loc sum).toList.map fun base => (base, .error .nullDeref) := by
  generalize hv : Value.ptr loc = v
  fun_cases materialize structs s v with
  | case1 | case2 => cases hv
  | case3 | case4 | case5 | case6 | case7 =>
    cases hv
    simp only [*]
  | case8 | case9 | case10 | case11 | case12 =>
    cases hv
    simp +zetaDelta [*]

/-- The answers whether a pointer is null, by the fact at its location. -/
theorem testNull_ptr : s.testNull structs (.ptr loc) = match s.heap.slot loc with
    | .occupied (.cell _) | .tombstone => [(s, .ok false)]
    | .vacant | .occupied (.member ..) => match s.setNull loc with
      | .ok null => [(null, .ok true), (s, .ok false)]
      | .error m => [(s, .error (.misuse m))]
    | .occupied (.summary sum) => match s.heap.unfold structs loc with
      | .error m => [(s, .error (.mismatch m))]
      | .ok heaps =>
        let cells := heaps.map fun heap => ({ s with heap }, .ok false)
        match sum.hole with
        | some o => match s.closeSegment loc sum o with
          | .ok (some closed) => closed.testNull structs o.value ++ cells
          | .ok none => cells
          | .error m => [(s, .error (.misuse m))]
        | none => ((s.discharge loc sum).toList.map fun base => (base, .ok true)) ++ cells := by
  generalize hv : Value.ptr loc = v
  fun_cases testNull structs s v with
  | case1 | case2 => cases hv
  | case3 | case4 | case5 | case6 | case7 | case8 | case9 =>
    cases hv
    simp only [*]
  | case10 | case11 | case12 | case13 | case14 =>
    cases hv
    simp +zetaDelta [*]

end State

end HeapShape
