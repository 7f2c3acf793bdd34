import HeapShape.Proofs.HeapTypes
import HeapShape.Proofs.ProgramTypes
import HeapShape.Proofs.ReadBack

/-!
# Types of states

A state is typed by an assignment of structures to its locations if its heap is and every variable
holds a value of its type. Variables that are declared may be missing: the end of an inner scope
takes away an outer variable of the same name.

Operations that agree with the types lead from typed states to typed states. New locations get
structures, and all others keep theirs, also where they are merged. What goes wrong has nothing to do
with types: no scalar is followed, tested or freed, and no field is missing.

* `Defect.IsIllTyped`: what can only go wrong if types do not agree;
* `State.TypedIn`: a state is typed, with the variables that are in scope;
* `Outcomes.Typed`: so are the outcomes of an operation;
* `Exec.read_typed`, `Exec.write_typed`: paths;
* `Exec.assign_typed`, `Exec.alloc_typed`, `Exec.free_typed`, `Exec.assume_typed`,
  `Exec.assert_typed`: the operations that a program is made of.
-/

namespace HeapShape

open List

/-- The types of a program and its heap do not agree. -/
def Defect.IsIllTyped : Defect → Prop
  | .mismatch m => m.cause.IsIllTyped
  | _ => False

/-- Unfolding asks for no types. -/
theorem Heap.unfold_not_illTyped {structs : Structs} {h : Heap} {loc : Loc} {m : Mismatch}
    (hu : h.unfold structs loc = .error m) : ¬ m.cause.IsIllTyped := by
  rw [Heap.unfold] at hu
  split at hu
  · cases hu
    exact id
  · split at hu
    · cases hu
    · cases hu
      exact id

/-! ### States -/

/-- The heap is typed, and every variable holds a value of its type. -/
structure State.Typed (structs : Structs) (τ : Assignment) (s : State) : Prop where
  heap : s.heap.Typed structs τ
  vars : ∀ x b, s.env.get? x = some b → b.value.HasType τ b.ty

/-- A typed state, whose variables are among those in scope. -/
structure State.TypedIn (structs : Structs) (Γ : Context) (τ : Assignment) (s : State) : Prop
    extends s.Typed structs τ where
  declared : ∀ x b, s.env.get? x = some b → Γ.lookup x = some b.ty

/-- A variable that is there after a kill is not among the variables that were killed. -/
theorem State.of_get?_kill {s : State} {vars : List String} {x : String} {b : Binding}
    (h : (s.kill vars).env.get? x = some b) : x ∉ vars ∧ s.env.get? x = some b := by
  induction vars generalizing s with
  | nil => exact ⟨not_mem_nil, h⟩
  | cons var vars ih =>
    obtain ⟨hnot, hget⟩ := ih (s := { s with env := s.env.erase var }) h
    rw [NameMap.get?_erase] at hget
    split at hget
    · cases hget
    · exact ⟨fun hmem => (mem_cons.1 hmem).elim ‹_› hnot, hget⟩

namespace State.TypedIn

variable {structs : Structs} {Γ : Context} {τ τ' : Assignment} {s s' : State} {T : StructId} {x : String}
  {v w a b : Value} {loc : Loc}

theorem initial (path : PathId) : (State.initial path).TypedIn structs [] [] :=
  ⟨⟨Heap.typed_empty, fun _ _ h => (Option.not_mem_none _ h).elim⟩,
    fun _ _ h => (Option.not_mem_none _ h).elim⟩

variable (hs : s.TypedIn structs Γ τ) {heap : Heap}
include hs

theorem withPath (path : PathId) : ({ s with path } : State).TypedIn structs Γ τ :=
  ⟨⟨hs.heap, hs.vars⟩, hs.declared⟩

theorem withHeap (hτ : τ <+: τ') (hh : heap.Typed structs τ') :
    ({ s with heap } : State).TypedIn structs Γ τ' :=
  ⟨⟨hh, fun x b hx => (hs.vars x b hx).mono hτ⟩, hs.declared⟩

theorem withSets (sets : SetStore) :
    ({ s with heap := { s.heap with sets } } : State).TypedIn structs Γ τ :=
  hs.withHeap (prefix_refl τ) (hs.heap.withSets sets)

theorem lookup (hx : s.lookup x = .ok v) : ∃ ty, Γ.lookup x = some ty ∧ v.HasType τ ty := by
  rw [State.lookup] at hx
  split at hx
  · rename_i b hb
    cases hx
    exact ⟨b.ty, hs.declared x b hb, hs.vars x b hb⟩
  · cases hx

/-- A variable may take a value of its type, and come into scope with it. -/
theorem insert {Γ' : Context} {c : Binding} (hτ : τ <+: τ') (hh : heap.Typed structs τ')
    (hx : Γ'.lookup x = some c.ty) (hΓ : ∀ y ≠ x, Γ'.lookup y = Γ.lookup y)
    (hv : c.value.HasType τ' c.ty) :
    ({ s with heap, env := s.env.insert x c } : State).TypedIn structs Γ' τ' := by
  have hcases {y : String} {d : Binding} (hy : (s.env.insert x c).get? y = some d) :
      y = x ∧ d = c ∨ y ≠ x ∧ s.env.get? y = some d := by
    rw [NameMap.get?_insert] at hy
    split at hy
    · exact .inl ⟨‹_›, (Option.some.inj hy).symm⟩
    · exact .inr ⟨‹_›, hy⟩
  refine ⟨⟨hh, fun y d hy => ?_⟩, fun y d hy => ?_⟩
  · rcases hcases hy with ⟨-, rfl⟩ | ⟨-, hy⟩
    · exact hv
    · exact (hs.vars y d hy).mono hτ
  · rcases hcases hy with ⟨rfl, rfl⟩ | ⟨hne, hy⟩
    · exact hx
    · rw [hΓ y hne]
      exact hs.declared y d hy

/-- A location may give way to a value of its structure. -/
theorem emptied (hw : ∀ T, τ.struct? loc = some T → w.HasType τ (.ptr T)) :
    (s.emptied loc w).TypedIn structs Γ τ := by
  have hcases {y : String} {d : Binding} (hy : (s.emptied loc w).env.get? y = some d) :
      ∃ c, s.env.get? y = some c ∧ { c with value := c.value.subst loc w } = d := by
    refine Option.map_eq_some_iff.1 (Eq.trans ?_ hy)
    exact (NameMap.get?_map ..).symm
  refine ⟨⟨(hs.heap.vacate loc).subst hw, fun y d hy => ?_⟩, fun y d hy => ?_⟩
  · obtain ⟨c, hc, rfl⟩ := hcases hy
    exact (hs.vars y c hc).subst hw
  · obtain ⟨c, hc, rfl⟩ := hcases hy
    exact hs.declared y c hc

/-- Values of one structure may be assumed to be equal. -/
theorem equate (ha : a.HasType τ (.ptr T)) (hb : b.HasType τ (.ptr T))
    (he : s.equate a b = .ok (some s')) : s'.TypedIn structs Γ τ := by
  -- Whichever side gives way, it gives way to a value of its own structure.
  have hgive {k : Loc} {u : Value} (hk : (Value.ptr k).HasType τ (.ptr T)) (hu : u.HasType τ (.ptr T)) :
      (s.emptied k u).TypedIn structs Γ τ := by
    refine hs.emptied fun T' hT' => ?_
    cases hk.struct?.symm.trans hT'
    exact hu
  rcases equate_cases he with rfl | ⟨k, u, rfl, -, ⟨rfl, rfl⟩ | ⟨rfl, rfl⟩⟩
  · exact hs
  · exact hgive ha hb
  · exact hgive hb ha

theorem equateAll {l : List (Value × Value)}
    (hl : ∀ p ∈ l, p.1.HasType τ (.ptr T) ∧ p.2.HasType τ (.ptr T))
    (he : s.equateAll l = .ok (some s')) : s'.TypedIn structs Γ τ := by
  induction l generalizing s with
  | nil =>
    cases he
    exact hs
  | cons p l ih =>
    obtain ⟨s₁, hr, he⟩ := equateAll_cons he
    have hs₁ := hs.equate (hl p (.head _)).1 (hl p (.head _)).2 hr
    exact ih hs₁ (fun q hq => hl q (.tail _ hq)) he

/-- A segment that is empty has its root at its hole, and the parameters there. -/
theorem closeSegment {sum : Summary} {o : Hole} (hk : s.heap.slot loc = .occupied (.summary sum))
    (ho : sum.hole = some o) (hc : s.closeSegment loc sum o = .ok (some s')) :
    s'.TypedIn structs Γ τ := by
  obtain ⟨T, hT, hsum⟩ := hs.heap.facts loc _ hk
  obtain ⟨hvalue, hparams⟩ := Summary.Typed.hole hsum o ho
  -- The location gives way to the hole, also in the parameters that are assumed to be equal.
  have hgive (T' : StructId) (hT' : τ.struct? loc = some T') : o.value.HasType τ (.ptr T') := by
    cases hT.symm.trans hT'
    exact hvalue
  obtain ⟨s₁, sets, he, rfl⟩ := closeSegment_eq_some hc
  refine ((hs.emptied hgive).equateAll (T := T) (fun p hp => ?_) he).withSets sets
  obtain ⟨q, hq, rfl⟩ := mem_map.1 hp
  obtain ⟨hq₁, hq₂⟩ := of_mem_zip hq
  exact ⟨(Summary.Typed.params hsum _ hq₁).subst hgive, (hparams _ hq₂).subst hgive⟩

theorem discharge {sum : Summary} (hd : s.discharge loc sum = some s') : s'.TypedIn structs Γ τ := by
  obtain ⟨sets, -, rfl⟩ := Option.map_eq_some_iff.1 hd
  exact (hs.withSets sets).emptied fun T _ => .null T

theorem unfold {heaps : List Heap} (hu : s.heap.unfold structs loc = .ok heaps) (hmem : heap ∈ heaps) :
    ∃ τ', τ <+: τ' ∧ ({ s with heap } : State).TypedIn structs Γ τ' := by
  obtain ⟨τ', hτ, hh⟩ := hs.heap.unfold hu hmem
  exact ⟨τ', hτ, hs.withHeap hτ hh⟩

theorem setNull (hk : s.heap.slot loc ≠ .tombstone) (hn : s.setNull loc = .ok s') :
    s'.TypedIn structs Γ τ := by
  rw [setNull_eq_emptied hn hk]
  exact hs.emptied fun T _ => .null T

/-- A variable comes into scope with a new location, which may have any structure. -/
theorem declare (x : String) (ty : Ty) :
    ∃ τ' : Assignment, τ <+: τ' ∧ (s.declare x ty).TypedIn structs ((x, ty) :: Γ) τ' := by
  have hx : List.lookup x ((x, ty) :: Γ) = some ty := by simp
  have hΓ (y : String) (hy : y ≠ x) : List.lookup y ((x, ty) :: Γ) = Γ.lookup y := by
    rw [lookup_cons, beq_false_of_ne hy]
  rcases ty with _ | T
  · exact ⟨τ, prefix_refl τ, hs.insert (prefix_refl τ) hs.heap hx hΓ .int⟩
  · obtain ⟨hfresh, hnew⟩ := hs.heap.fresh T
    have hτ : τ <+: τ ++ [T] := prefix_append _ _
    exact ⟨τ ++ [T], hτ, hs.insert (c := ⟨.ptr T, _⟩) hτ hfresh hx hΓ (.ptr hnew)⟩

/-- The end of a scope leaves the variables that were in scope before, if they are there. -/
theorem kill {Γ' : Context} {vars : List String} (hΓ : ∀ x ∉ vars, Γ'.lookup x = Γ.lookup x) :
    (s.kill vars).TypedIn structs Γ' τ := by
  refine ⟨⟨hs.heap, fun y c hy => hs.vars y c (of_get?_kill hy).2⟩, fun y c hy => ?_⟩
  obtain ⟨hy, hget⟩ := of_get?_kill hy
  rw [hΓ y hy]
  exact hs.declared y c hget

end State.TypedIn

/-! ### Outcomes -/

/-- Each outcome has a typed state with at least the locations of `τ`. It has a result with a
    property, or a defect that has nothing to do with types. -/
def Outcomes.Typed {α : Type} (structs : Structs) (Γ : Context) (τ : Assignment)
    (P : State → Assignment → α → Prop) : Outcomes α → Prop :=
  Exec.All fun s r => ∃ τ' : Assignment, τ <+: τ' ∧ s.TypedIn structs Γ τ' ∧
    match r with
    | .ok a => P s τ' a
    | .error d => ¬ d.IsIllTyped

/-- The outcomes have any results. -/
def Outcomes.Anything {α : Type} (_ : State) (_ : Assignment) (_ : α) : Prop := True

/-- The outcomes are values of a type. -/
def Outcomes.OfType (ty : Ty) (_ : State) (τ : Assignment) (v : Value) : Prop := v.HasType τ ty

/-- The outcomes are locations of cells of a structure. -/
def Outcomes.AtCell (T : StructId) (s : State) (τ : Assignment) (loc : Loc) : Prop :=
  τ.struct? loc = some T ∧ ∃ c, s.heap.slot loc = .occupied (.cell c)

namespace Outcomes.Typed

variable {α β : Type} {structs : Structs} {Γ : Context} {τ : Assignment} {s : State}
  {P : State → Assignment → α → Prop} {R : State → Assignment → β → Prop}

theorem single {a : α} (hs : s.TypedIn structs Γ τ) (h : P s τ a) :
    Outcomes.Typed structs Γ τ P [(s, .ok a)] := Exec.All.single ⟨τ, prefix_refl τ, hs, h⟩

theorem defect {d : Defect} (hs : s.TypedIn structs Γ τ) (hd : ¬ d.IsIllTyped) :
    Outcomes.Typed structs Γ τ P [(s, .error d)] := Exec.All.single ⟨τ, prefix_refl τ, hs, hd⟩

theorem bind {x : Exec α} {f : α → Exec β} (hx : Outcomes.Typed structs Γ τ P (x s))
    (hf : ∀ s' τ' a, τ <+: τ' → s'.TypedIn structs Γ τ' → P s' τ' a →
      Outcomes.Typed structs Γ τ' R (f a s')) : Outcomes.Typed structs Γ τ R ((x >>= f) s) := by
  refine Exec.All.bind hx (fun s₁ a h₁ s' r hr => ?_) fun _ _ => id
  obtain ⟨τ₁, hτ, hs₁, hP⟩ := h₁
  obtain ⟨τ₂, hτ', hs', hR⟩ := hf s₁ τ₁ a hτ hs₁ hP s' r hr
  exact ⟨τ₂, hτ.trans hτ', hs', hR⟩

end Outcomes.Typed

open Outcomes (Anything OfType AtCell)

/-! ### Cases of a pointer -/

namespace Exec

variable {structs : Structs} {Γ : Context} {τ : Assignment} {s : State} {T : StructId} {ty : Ty}
  {v u : Value} {loc : Loc}

variable (hs : s.TypedIn structs Γ τ) {index : Nat} {p : Path}
include hs

/-- The summary at a location is taken apart. -/
theorem cells_typed {heaps : List Heap} (hT : τ.struct? loc = some T)
    (hu : s.heap.unfold structs loc = .ok heaps) : Outcomes.Typed structs Γ τ (AtCell T)
      (heaps.map fun heap => (({ s with heap } : State), (.ok loc : Except Defect Loc))) := by
  refine .cells fun heap hmem => ?_
  obtain ⟨τ', hτ, hs'⟩ := hs.unfold hu hmem
  obtain ⟨sum, decl, layout, way, sets, step, hk, -, -, -, -, rfl⟩ := Heap.unfold_cases hu hmem
  exact ⟨τ', hτ, hs', Assignment.struct?_mono hτ hT, _,
    Heap.slot_unfolded_self (h := { s.heap with sets }) (Heap.lt_size_of_occupied hk)⟩

/-- A pointer points to a cell of its structure, if it does. -/
theorem materialize_typed (hv : v.HasType τ (.ptr T)) :
    Outcomes.Typed structs Γ τ (AtCell T) (s.materialize structs v) := by
  fun_induction State.materialize structs s v with
  | case1 | case4 | case5 | case6 => exact .defect hs id
  | case2 => cases hv
  | case3 s loc c hk => exact .single hs ⟨hv.struct?, c, hk⟩
  | case7 s loc sum hk m hu => exact .defect hs (Heap.unfold_not_illTyped hu)
  | case8 s loc sum hk heaps hu cells o ho closed hc ih =>
    -- The root of an empty segment is its hole, where the search goes on.
    have hsum := hs.heap.fact hk hv.struct?
    exact (cells_typed hs hv.struct? hu).append
      (ih (hs.closeSegment hk ho hc) (Summary.Typed.hole hsum o ho).value)
  | case9 s loc sum hk heaps hu | case12 s loc sum hk heaps hu => exact cells_typed hs hv.struct? hu
  | case10 s loc sum hk heaps hu =>
    exact (cells_typed hs hv.struct? hu).append (.single ⟨τ, prefix_refl τ, hs, id⟩)
  | case11 s loc sum hk heaps hu cells ho base hd =>
    exact (cells_typed hs hv.struct? hu).append (.single ⟨τ, prefix_refl τ, hs.discharge hd, id⟩)

theorem testNull_typed (hv : v.HasType τ (.ptr T)) :
    Outcomes.Typed structs Γ τ Anything (s.testNull structs v) := by
  have hcells {s : State} {loc : Loc} {heaps : List Heap} (hs : s.TypedIn structs Γ τ)
      (hu : s.heap.unfold structs loc = .ok heaps) : Outcomes.Typed structs Γ τ Anything
        (heaps.map fun heap => (({ s with heap } : State), (.ok false : Except Defect Bool))) := by
    refine .cells fun heap hmem => ?_
    obtain ⟨τ', hτ, hs'⟩ := hs.unfold hu hmem
    exact ⟨τ', hτ, hs', trivial⟩
  have hnull {s null : State} {loc : Loc} (hs : s.TypedIn structs Γ τ)
      (hk : s.heap.slot loc ≠ .tombstone) (hn : s.setNull loc = .ok null) :
      Outcomes.Typed structs Γ τ Anything [(null, .ok true), (s, .ok false)] :=
    .cons ⟨τ, prefix_refl τ, hs.setNull hk hn, trivial⟩ (.single ⟨τ, prefix_refl τ, hs, trivial⟩)
  fun_induction State.testNull structs s v with
  | case1 | case3 | case4 => exact .single hs trivial
  | case2 => cases hv
  | case5 s loc hk null hn | case7 s loc set ty hk null hn =>
    refine hnull hs ?_ hn
    rw [hk]
    exact fun h => by cases h
  | case6 | case8 | case12 => exact .defect hs id
  | case9 s loc sum hk m hu => exact .defect hs (Heap.unfold_not_illTyped hu)
  | case10 s loc sum hk heaps hu cells o ho closed hc ih =>
    have hsum := hs.heap.fact hk hv.struct?
    exact (ih (hs.closeSegment hk ho hc) (Summary.Typed.hole hsum o ho).value).append (hcells hs hu)
  | case11 s loc sum hk heaps hu | case14 s loc sum hk heaps hu => exact hcells hs hu
  | case13 s loc sum hk heaps hu cells ho base hd =>
    exact .cons ⟨τ, prefix_refl τ, hs.discharge hd, trivial⟩ (hcells hs hu)

/-! ### Paths and expressions -/

/-- A cell has the fields of its structure. -/
theorem exists_field (hc : AtCell T s τ loc) (hf : structs.fieldType? T index = some ty) :
    ∃ c v, s.heap.slot loc = .occupied (.cell c) ∧ c.fields[index]? = some v ∧ v.HasType τ ty ∧
      ∀ u, u.HasType τ ty → Cell.Typed structs τ T { c with fields := c.fields.set index u } := by
  obtain ⟨hT, c, hk⟩ := hc
  obtain ⟨hty, decl, hd, hfields⟩ : c.Typed structs τ T := hs.heap.fact hk hT
  obtain ⟨f, hfield, rfl⟩ := Option.map_eq_some_iff.1 hf
  rw [hd, Option.bind_some] at hfield
  obtain ⟨v, hv, hvty⟩ := hfields.get hfield
  exact ⟨c, v, hk, hv, hvty, fun u hu => ⟨hty, decl, hd, hfields.set hfield hu⟩⟩

theorem loadMember_typed {set : SetVar} (hf : structs.fieldType? T index = some ty) :
    Outcomes.Typed structs Γ τ (OfType ty) (loadMember structs loc set T index s) := by
  obtain ⟨⟨name, ty'⟩, hfield, rfl⟩ := Option.map_eq_some_iff.1 hf
  rw [loadMember, hfield]
  rcases ty' with _ | target
  · exact .single hs .int
  · obtain ⟨hadd, hnew⟩ := hs.heap.add (f := .member set target) rfl
    exact All.single ⟨_, prefix_append _ _, hs.withHeap (prefix_append _ _) hadd, .ptr hnew⟩

theorem loadCell_typed (hc : AtCell T s τ loc) (hf : structs.fieldType? T index = some ty) :
    Outcomes.Typed structs Γ τ (OfType ty) (loadCell index loc s) := by
  obtain ⟨c, v, hk, hv, hty, -⟩ := exists_field hs hc hf
  have hload : (s.heap.cell? loc).bind (·.fields[index]?) = some v := by
    rw [Heap.cell?_of_slot hk]
    exact hv
  rw [loadCell, ask, hload]
  exact .single hs hty

theorem loadField_typed (hv : v.HasType τ (.ptr T)) (hf : structs.fieldType? T index = some ty) :
    Outcomes.Typed structs Γ τ (OfType ty) (loadField structs v index s) := by
  rw [loadField]
  split
  · -- A member has the structure of its location, so it has the field.
    rename_i loc set T' hk
    obtain ⟨k, hloc, heq⟩ := Option.map_eq_some_iff.1 hk
    obtain ⟨rfl, hslot⟩ := Prod.mk.inj heq
    obtain rfl : v = .ptr k := by
      rcases v with _ | k' | _
      · cases hloc
      · cases hloc
        rfl
      · cases hloc
    obtain rfl : T' = T := hs.heap.fact hslot hv.struct?
    exact loadMember_typed hs hf
  · exact (materialize_typed hs hv).bind fun s' τ' k _ hs' hk => loadCell_typed hs' hk hf

theorem follow_typed {ty' : Ty} {fs : List FieldRef} (hv : v.HasType τ ty)
    (hf : ty.follow? structs fs = some ty') :
    Outcomes.Typed structs Γ τ (OfType ty') (follow structs v fs s) := by
  induction fs generalizing s τ v ty with
  | nil =>
    cases hf
    exact .single hs hv
  | cons f fs ih =>
    rcases ty with _ | T
    · cases hf
    · obtain ⟨ty₁, hfield, hf⟩ := Option.bind_eq_some_iff.1 hf
      exact (loadField_typed hs hv hfield).bind fun s' τ' u _ hs' hu => ih hs' hu hf

theorem read_typed (hp : p.type? structs Γ = some ty) :
    Outcomes.Typed structs Γ τ (OfType ty) (read structs p s) := by
  obtain ⟨ty₀, hvar, hfields⟩ := Option.bind_eq_some_iff.1 hp
  have hlookup : Outcomes.Typed structs Γ τ (OfType ty₀) (ask (fun s => s.lookup p.var) s) := by
    rw [ask]
    rcases hx : s.lookup p.var with d | v
    · refine .defect hs ?_
      rw [State.lookup] at hx
      split at hx
      · cases hx
      · cases hx
        exact id
    · obtain ⟨ty₁, hvar', hv⟩ := hs.lookup hx
      cases hvar.symm.trans hvar'
      exact .single hs hv
  exact hlookup.bind fun s' τ' v _ hs' hv => follow_typed hs' hv hfields

theorem readAll_typed {ps : List Path} (hps : ∀ p ∈ ps, (p.type? structs Γ).isSome) :
    Outcomes.Typed structs Γ τ Anything (readAll structs ps s) := by
  induction ps generalizing s τ with
  | nil => exact .single hs trivial
  | cons p ps ih =>
    obtain ⟨hp, hps⟩ := forall_mem_cons.1 hps
    obtain ⟨ty, hp⟩ := Option.isSome_iff_exists.1 hp
    exact (read_typed hs hp).bind fun s' τ' _ _ hs' _ => ih hs' hps

theorem eval_typed {e : Expr} (he : e.HasType structs Γ ty) :
    Outcomes.Typed structs Γ τ (OfType ty) (eval structs e s) := by
  rcases e with _ | p | ps
  · rcases ty with _ | T
    · cases he
    · exact .single hs (.null T)
  · exact read_typed hs he
  · obtain ⟨rfl, hps⟩ := he
    exact (readAll_typed hs hps).bind fun s' τ' _ _ hs' _ => .single hs' .int

/-! ### Statements -/

theorem storeCell_typed (hc : AtCell T s τ loc) (hf : structs.fieldType? T index = some ty)
    (hu : u.HasType τ ty) : Outcomes.Typed structs Γ τ Anything (storeCell index u loc s) := by
  obtain ⟨c, v, hk, hv, -, hset⟩ := exists_field hs hc hf
  have hlt : index < c.fields.length := (List.getElem?_eq_some_iff.1 hv).1
  rw [storeCell, Exec.update, Heap.setField?_of_slot hk, if_pos hlt]
  exact .single (hs.withHeap (prefix_refl τ) (hs.heap.write hc.1 (hset u hu))) trivial

theorem set_typed {x : String} (hx : Γ.lookup x = some ty) (hv : v.HasType τ ty) :
    Outcomes.Typed structs Γ τ Anything (update (fun s => s.set x v) s) := by
  rw [Exec.update, State.set]
  rcases hb : s.env.get? x with _ | b
  · exact .defect hs id
  · cases hx.symm.trans (hs.declared x b hb)
    exact .single (hs.insert (c := { b with value := v }) (prefix_refl τ) hs.heap hx (fun _ _ => rfl) hv)
      trivial

/-- A path may be set to a value of its type. -/
theorem write_typed (hp : p.type? structs Γ = some ty) (hv : v.HasType τ ty) :
    Outcomes.Typed structs Γ τ Anything (write structs p v s) := by
  obtain ⟨ty₀, hvar, hfields⟩ := Option.bind_eq_some_iff.1 hp
  rw [write, Path.splitLast?]
  rcases hlast : p.fields.getLast? with _ | last
  · rw [getLast?_eq_none_iff] at hlast
    rw [hlast] at hfields
    cases hfields
    exact set_typed hs hvar hv
  · -- All fields but the last are read, and what they lead to has the last one.
    obtain ⟨fs, hfs⟩ := getLast?_eq_some_iff.1 hlast
    rw [hfs, Ty.follow?_append] at hfields
    obtain ⟨ty₁, hparent, hlast⟩ := Option.bind_eq_some_iff.1 hfields
    rcases ty₁ with _ | T
    · cases hlast
    · obtain ⟨ty₂, hfield, heq⟩ := Option.bind_eq_some_iff.1 hlast
      cases heq
      have hpath : Path.type? structs Γ ⟨p.var, p.fields.dropLast⟩ = some (.ptr T) := by
        rw [hfs, dropLast_concat, Path.type?, hvar]
        exact hparent
      refine (read_typed hs hpath).bind fun s₁ τ₁ w hτ hs₁ hw => ?_
      exact (materialize_typed hs₁ hw).bind fun s₂ τ₂ k hτ' hs₂ hk =>
        storeCell_typed hs₂ hk hfield (hv.mono (hτ.trans hτ'))

theorem assign_typed {lhs : Path} {rhs : Expr} (h : lhs.Takes structs Γ rhs) :
    Outcomes.Typed structs Γ τ Anything (assign structs lhs rhs s) := by
  obtain ⟨ty, hlhs, hrhs⟩ := h
  exact (eval_typed hs hrhs).bind fun s' τ' v _ hs' hv => write_typed hs' hlhs hv

theorem newCell_typed (T : StructId) :
    Outcomes.Typed structs Γ τ (OfType (.ptr T)) (newCell structs T s) := by
  rw [newCell]
  split
  · obtain ⟨τ', hτ, hheap, hnew⟩ := hs.heap.allocCell ‹_›
    exact All.single ⟨τ', hτ, hs.withHeap hτ hheap, .ptr hnew⟩
  · exact .defect hs id

theorem alloc_typed {lhs : Path} (h : lhs.type? structs Γ = some (.ptr T)) :
    Outcomes.Typed structs Γ τ Anything (alloc structs lhs T s) :=
  (newCell_typed hs T).bind fun _ _ _ _ hs' hv => write_typed hs' h hv

theorem freeValue_typed (hv : v.HasType τ (.ptr T)) :
    Outcomes.Typed structs Γ τ Anything (freeValue v s) := by
  rw [freeValue, Exec.update]
  rcases hv with _ | hT
  · exact .defect hs id
  · rename_i loc
    dsimp only
    rcases hk : s.heap.slot loc with _ | (c | sum | ⟨set, ty⟩) | _
    · exact .defect hs id
    · exact .single (hs.withHeap (prefix_refl τ) (hs.heap.release loc)) trivial
    · exact .defect hs id
    · exact .defect hs id
    · exact .defect hs id

theorem free_typed (hp : (p.type? structs Γ).any Ty.isPtr = true) :
    Outcomes.Typed structs Γ τ Anything (free structs p s) := by
  obtain ⟨ty, hp, hptr⟩ := (Option.any_eq_true _ _).1 hp
  rcases ty with _ | T
  · cases hptr
  · exact (read_typed hs hp).bind fun s' τ' v _ hs' hv => freeValue_typed hs' hv

/-! ### Conditions -/

omit hs in
/-- An expression whose paths can be followed has a type. -/
theorem exists_hasType {e : Expr} (he : ∀ p ∈ e.paths, (p.type? structs Γ).isSome) :
    ∃ ty, e.HasType structs Γ ty := by
  rcases e with _ | p | ps
  · exact ⟨.ptr ⟨0⟩, rfl⟩
  · exact Option.isSome_iff_exists.1 (he p (.head _))
  · exact ⟨.int, rfl, he⟩

/-- Any two values can be compared. -/
theorem compare_typed {ty' : Ty} (hv : v.HasType τ ty) (hu : u.HasType τ ty') :
    Outcomes.Typed structs Γ τ Anything (compare structs v u s) := by
  -- With a scalar on either side no pointer is tested.
  have hboth : Outcomes.Typed structs Γ τ Anything (either (pure true) (pure false) s) :=
    (Outcomes.Typed.single hs trivial).append (Outcomes.Typed.single hs trivial)
  rcases hv with T | hv | _
  · rcases hu with T' | hu | _
    · exact .single hs trivial
    · exact testNull_typed hs (.ptr hu)
    · exact hboth
  · rcases hu with T' | hu | _
    · exact testNull_typed hs (.ptr hv)
    · rw [compare]
      split
      · exact .single hs trivial
      · refine (testNull_typed hs (.ptr hv)).bind fun s' τ' null hτ hs' _ => ?_
        split
        · exact testNull_typed hs' ((Value.HasType.ptr hu).mono hτ)
        · exact .single hs' trivial
    · exact hboth
  · exact hboth

theorem assume_typed {c : Cond} (hc : c.WellTyped structs Γ) (truth : Bool) :
    Outcomes.Typed structs Γ τ Anything (assume structs c truth s) := by
  induction c generalizing s τ truth with
  | unknown ps => exact readAll_typed hs hc
  | not c ih => exact ih hs hc !truth
  | and c d ihc ihd =>
    obtain ⟨hc, hd⟩ := forall_mem_append.1 hc
    have hseq (truth : Bool) := (ihc hs hc true).bind fun s' τ' _ _ hs' _ => ihd hs' hd truth
    cases truth with
    | true => exact hseq true
    | false => exact (ihc hs hc false).append (hseq false)
  | or c d ihc ihd =>
    obtain ⟨hc, hd⟩ := forall_mem_append.1 hc
    have hseq (truth : Bool) := (ihc hs hc false).bind fun s' τ' _ _ hs' _ => ihd hs' hd truth
    cases truth with
    | false => exact hseq false
    | true => exact (ihc hs hc true).append (hseq true)
  | cmp eq lhs rhs =>
    obtain ⟨hlhs, hrhs⟩ := forall_mem_append.1 hc
    obtain ⟨ty, hlhs⟩ := exists_hasType hlhs
    obtain ⟨ty', hrhs⟩ := exists_hasType hrhs
    refine (eval_typed hs hlhs).bind fun s₁ τ₁ a _ hs₁ ha => ?_
    refine (eval_typed hs₁ hrhs).bind fun s₂ τ₂ b hτ hs₂ hb => ?_
    refine (compare_typed hs₂ (ha.mono hτ) hb).bind fun s₃ τ₃ same _ hs₃ _ => ?_
    split
    · exact .single hs₃ trivial
    · exact .nil

omit hs in
theorem refute_typed {x : Exec Unit} (hx : Outcomes.Typed structs Γ τ Anything (x s)) (c : Cond) :
    Outcomes.Typed structs Γ τ Anything (refute c x s) := by
  refine All.refute hx c ?_ ?_
  · exact fun t ⟨τ', hτ, ht, _⟩ => ⟨τ', hτ, ht, id⟩
  · exact fun t m ⟨τ', hτ, ht, _⟩ => ⟨τ', hτ, ht, id⟩

theorem assert_typed {c : Cond} (hc : c.WellTyped structs Γ) :
    Outcomes.Typed structs Γ τ Anything (assert structs c s) := by
  rw [assert]
  split
  · exact readAll_typed hs hc
  · exact (assume_typed hs hc true).append (refute_typed (assume_typed hs hc false) c)

end Exec

end HeapShape
