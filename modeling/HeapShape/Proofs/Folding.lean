import HeapShape.Heap.Fold
import HeapShape.Proofs.Pieces
import Mathlib.Control.Traversable.Instances
import Mathlib.Data.List.Permutation

/-!
# Folding, seen from memory

The search for a list or a tree takes facts out of a heap until all goals are met. Where the
heap describes memory, the footprints of the facts that were taken make up a forest: one
piece for each goal, open where the search met a stop.

Where cells have all the fields of their structure the search is never misused: it ends with a
structure, or with a mismatch. A cell that lacks a field that the search asks for ends it too, so
it never ends with a structure that is wrong.

* `Heap.lost`: the addresses that a heap with fewer facts says nothing about any more;
* `Folding.visit_cases`: the ways in which a goal is met;
* `Folding.Found`: what was found for some goals, with one rule for each of these ways;
* `Folding.absorb_cases`, `Heap.gather_cases`: the search ends with what was found, or is refused;
* `Heap.Regular.gather_cases`: where cells have all their fields, only for a mismatch;
* `Heap.fold_describes`: the folded heap describes what the heap describes.
-/

namespace HeapShape

open List

/-! ### What a heap forgets -/

namespace Heap

/-- The addresses of the facts that one heap has and another one does not have any more. -/
def lost (h h' : Heap) (foot : Loc → Finset Addr) : Set Addr :=
  {x | ∃ k f, h.slot k = .occupied f ∧ h'.slot k = .vacant ∧ x ∈ foot k}

variable {structs : Structs} {ok : Record → Prop} {ν : Valuation} {m : Memory}
  {h h₁ h₂ : Heap} {foot : Loc → Finset Addr}

theorem lost_mono_left (hf : h.Forgets h₁) : h₁.lost h₂ foot ⊆ h.lost h₂ foot := by
  rintro x ⟨k, f, hk, hk', hx⟩
  exact ⟨k, f, hf.occupied hk, hk', hx⟩

/-- The footprint of a fact has nothing in common with what was lost, if the fact was lost
    before or is still there. -/
theorem Describes.disjoint_lost (hd : h.Describes structs ok ν m foot) (hf : h.Forgets h₁)
    {k : Loc} {f : Fact} {A : Finset Addr} (hs : h.slot k = .occupied f)
    (hk : h₁.slot k = .vacant ∨ h₂.slot k = .occupied f) (hA : (A : Set Addr) ⊆ h₁.lost h₂ foot) :
    Disjoint (foot k) A := by
  refine Finset.disjoint_left.2 fun x hx hxA => ?_
  obtain ⟨k', f', hk₁, hk₂, hx'⟩ := hA hxA
  have hne : k ≠ k' := by
    rintro rfl
    rcases hk with hk | hk
    · rw [hk₁] at hk
      cases hk
    · rw [hk₂] at hk
      cases hk
  exact Finset.disjoint_left.1 (hd.apart k k' f f' hs (hf.occupied hk₁) hne) hx hx'

end Heap

/-! ### Cells with all their fields -/

/-- A cell has all the fields of its structure. -/
def Cell.Complete (structs : Structs) (c : Cell) : Prop :=
  ∀ decl, structs.decl? c.ty = some decl → decl.fields.length ≤ c.fields.length

namespace Heap

variable {structs : Structs} {h h' : Heap}

/-- The facts of a heap are cells, and lists and trees that have a meaning. -/
def WellFormed (structs : Structs) (h : Heap) : Prop :=
  ∀ k f, h.slot k = .occupied f → f.WellFormed structs

/-- The cells of a heap have all their fields. -/
def Complete (structs : Structs) (h : Heap) : Prop :=
  ∀ k c, h.slot k = .occupied (.cell c) → c.Complete structs

/-- The facts of a heap are cells with all their fields, and lists and trees that have a
    meaning. -/
structure Regular (structs : Structs) (h : Heap) : Prop where
  facts : h.WellFormed structs
  cells : h.Complete structs

theorem WellFormed.forget (hw : h.WellFormed structs) (hf : h.Forgets h') : h'.WellFormed structs :=
  fun k f hk => hw k f (hf.occupied hk)

theorem Complete.forget (hc : h.Complete structs) (hf : h.Forgets h') : h'.Complete structs :=
  fun k c hk => hc k c (hf.occupied hk)

theorem Regular.forget (hr : h.Regular structs) (hf : h.Forgets h') : h'.Regular structs :=
  ⟨hr.facts.forget hf, hr.cells.forget hf⟩

end Heap

/-- A complete cell has the fields that the shape of its structure speaks of. -/
theorem Cell.Complete.field {structs : Structs} {c : Cell} {shape : Shape}
    (hc : c.Complete structs) (hl : shape.pred.layout? structs c.ty = some shape.layout) {i : Nat}
    (hi : i ∈ shape.places) : ∃ v, c.fields[i]? = some v := by
  obtain ⟨decl, hdecl, hat⟩ := Shape.pointersAt_of_layout hl
  obtain ⟨f, hf, -⟩ := hat.target i hi
  have hlt := (List.getElem?_eq_some_iff.1 hf).1.trans_le (hc decl hdecl)
  exact ⟨_, getElem?_eq_getElem hlt⟩

/-! ### What one fact leaves to be found -/

/-- The parameters of a hole are those of an instance. -/
structure Hole.Proper (p : Predicate) (o : Hole) : Prop where
  scalar : .int ∉ o.params.ptrs
  arity : o.params.ptrs.length = p.signature.ptrArity
  sets : o.params.sets = []

theorem Summary.WellFormed.proper {structs : Structs} {s : Summary} (hw : s.WellFormed structs)
    {o : Hole} (ho : s.hole = some o) : o.Proper s.pred :=
  ⟨(hw.hole o ho).2.1, (hw.hole o ho).2.2.1, (hw.hole o ho).2.2.2⟩

/-- What the fields of a cell leave to be found, where it is the root of an instance with
    some parameters. -/
def Shape.Guides (shape : Shape) (loc : Loc) (ptrs : List Value) (c : Cell) (os : List Hole) : Prop :=
  match shape with
  | .list next => ptrs = [] ∧ ∃ v, c.fields[next]? = some v ∧ os = [⟨v, .none⟩]
  | .tree left right up => ∃ v w back, c.fields[left]? = some v ∧ c.fields[right]? = some w ∧
      c.fields[up]? = some back ∧ ptrs = [back] ∧
      os = [⟨v, ⟨[.ptr loc], []⟩⟩, ⟨w, ⟨[.ptr loc], []⟩⟩]

/-- What a fact leaves to be found, where it is a part of an instance with some parameters. -/
inductive Fact.Opens (shape : Shape) (ty : StructId) (loc : Loc) (ptrs : List Value) :
    Fact → List Hole → Prop
  /-- A cell leaves what its fields lead to. -/
  | cell {c : Cell} {os : List Hole} (hty : c.ty = ty) (hg : shape.Guides loc ptrs c os) :
      Opens shape ty loc ptrs (.cell c) os
  /-- A summary leaves what is at its hole. -/
  | summary {s : Summary} (hp : s.pred = shape.pred) (hty : s.ty = ty)
      (hptrs : s.params.ptrs = ptrs) : Opens shape ty loc ptrs (.summary s) s.hole.toList

section

variable {structs : Structs} {ok : Record → Prop} {ν : Valuation} {m : Memory} {shape : Shape}
  {ty : StructId} {loc : Loc} {ptrs : List Value} {os : List Hole}

theorem holds_field {c : Cell} {r : Record} (hr : List.Forall₂ ν.Holds c.fields r.fields) {i : Nat}
    {v : Value} (hv : c.fields[i]? = some v) : ∃ d, r.fields[i]? = some d ∧ ν.Holds v d := by
  have hrel := forall₂_getElem? hr i
  rw [hv] at hrel
  rcases hd : r.fields[i]? with _ | d
  · rw [hd] at hrel
    cases hrel
  · rw [hd] at hrel
    rcases hrel with ⟨hvd⟩ | _
    exact ⟨d, rfl, hvd⟩

/-- The record of a cell leads where the cell does. -/
theorem Shape.Guides.leads {c : Cell} {a : Addr} {r : Record} (hg : shape.Guides loc ptrs c os)
    (hr : List.Forall₂ ν.Holds c.fields r.fields) (ha : ν loc = some a) :
    ∃ ps qs, List.Forall₂ ν.Holds ptrs ps ∧ List.Forall₂ (Hole.At ν) os qs ∧
      shape.Leads a r ps qs := by
  cases shape with
  | list next =>
    obtain ⟨rfl, v, hv, rfl⟩ := hg
    obtain ⟨d, hd, hvd⟩ := holds_field hr hv
    exact ⟨[], [(d, [])], .nil, .cons ⟨hvd, .nil⟩ .nil, rfl, d, hd, rfl⟩
  | tree left right up =>
    obtain ⟨v, w, back, hv, hw, hback, rfl, rfl⟩ := hg
    obtain ⟨d, hd, hvd⟩ := holds_field hr hv
    obtain ⟨e, he, hwe⟩ := holds_field hr hw
    obtain ⟨parent, hparent, hbp⟩ := holds_field hr hback
    have hself : ν.Holds (.ptr loc) (.addr a) := by
      rw [Valuation.Holds, ha]
      rfl
    refine ⟨[parent], [(d, [.addr a]), (e, [.addr a])], .cons hbp .nil, ?_, d, e, parent, hd, he,
      hparent, rfl, rfl⟩
    exact .cons ⟨hvd, .cons hself .nil⟩ (.cons ⟨hwe, .cons hself .nil⟩ .nil)

/-- A fact that holds of memory makes a piece of a structure, together with what it leaves to
    be found. -/
theorem Fact.Opens.piece {f : Fact} {B : Finset Addr} (ho : f.Opens shape ty loc ptrs os)
    (hl : shape.pred.layout? structs ty = some shape.layout) (hw : f.WellFormed structs)
    (hm : ∀ a r, m.lookup a = some r → ok r) (hf : f.Holds structs ok ν m loc B) :
    ∃ ps qs, List.Forall₂ ν.Holds ptrs ps ∧ List.Forall₂ (Hole.At ν) os qs ∧
      ∀ o A, shape.Forest m (Record.IsOf ok ty) o qs A → Disjoint B A →
        shape.Piece m (Record.IsOf ok ty) o (.pointer (ν loc), ps) (B ∪ A) := by
  cases ho with
  | cell hty hg =>
    obtain ⟨a, r, ha, hr, hrty, hfields, rfl⟩ := hf
    obtain ⟨ps, qs, hps, hqs, hleads⟩ := hg.leads hfields ha
    refine ⟨ps, qs, hps, hqs, fun o A hforest hdisj => ?_⟩
    rw [ha, ← Finset.insert_eq]
    refine .record hr ⟨hrty.trans hty, hm a r hr⟩ hleads hforest ?_
    exact Finset.disjoint_singleton_left.1 hdisj
  | @summary s hp hty hptrs =>
    subst hty hptrs
    obtain ⟨ps, q, hps, hq, hpiece⟩ := (Summary.holds_iff_piece hw hp hl).1 hf
    cases hhole : s.hole with
    | none =>
      rw [hhole] at hq
      cases hq
      refine ⟨ps, [], hps, .nil, fun o A hforest _ => ?_⟩
      cases hforest
      rwa [Finset.union_empty]
    | some w =>
      rw [hhole] at hq
      rcases hq with ⟨hat⟩ | _
      exact ⟨ps, _, hps, .cons hat .nil, fun o A hforest hdisj => hpiece.plug hforest.single hdisj⟩

end

/-! ### One goal -/

/-- The goal to find an instance at a hole. -/
def Hole.goal (p : Predicate) (ty : StructId) (o : Hole) : Folding.Goal := .inst o.value p ty o.params

namespace Folding

variable {cfg : Setting} {st st' : Folding} {shape : Shape} {ty : StructId} {params : Params}
  {structs : Structs}

/-- A field is missing: the search is misused, or has a goal that it cannot meet. -/
def Lacks {α : Type} (x : Except Refusal (α × List Goal)) : Prop :=
  (∃ m, x = .error (.misuse m)) ∨ ∃ r, x = .ok r ∧ .missing ∈ r.2

theorem Lacks.map {α β : Type} {x : Except Refusal (α × List Goal)} (h : Lacks x)
    {g : α × List Goal → β × List Goal} (hg : ∀ r, (g r).2 = r.2) : Lacks (x.map g) := by
  rcases h with ⟨m, rfl⟩ | ⟨r, rfl, hr⟩
  · exact .inl ⟨m, rfl⟩
  · exact .inr ⟨g r, rfl, hg r ▸ hr⟩

theorem meetCell_list {c : Cell} {sets : SetStore} {loc : Loc} {next : Nat}
    (hl : Predicate.list.layout? structs c.ty = some (Shape.list next).layout) :
    meetCell structs sets loc c .list c.ty params =
      .ok (sets, [.ofField c next fun v => .inst v .list c.ty .none]) := by
  rw [meetCell, if_neg (not_not_intro rfl), hl]
  rfl

theorem meetCell_tree {c : Cell} {sets : SetStore} {loc : Loc} {left right up : Nat}
    (hl : Predicate.tree.layout? structs c.ty = some (Shape.tree left right up).layout) :
    meetCell structs sets loc c .tree c.ty params =
      (checkBack loc c (Shape.tree left right up).layout params).bind fun _ =>
        .ok (sets, [.ofField c left fun v => .inst v .tree c.ty ⟨[.ptr loc], []⟩,
          .ofField c right fun v => .inst v .tree c.ty ⟨[.ptr loc], []⟩]) := by
  rw [meetCell, if_neg (not_not_intro rfl), hl]
  rfl

/-- A cell that meets a goal has the back pointer that is expected, and leaves what its fields
    lead to. -/
theorem meetCell_cases (c : Cell) (sets : SetStore) (loc : Loc)
    (hl : shape.pred.layout? structs ty = some shape.layout)
    (ha : params.ptrs.length = shape.pred.signature.ptrArity) :
    (∃ e, meetCell structs sets loc c shape.pred ty params = .error (.mismatch e)) ∨
    (¬ c.Complete structs ∧ Lacks (meetCell structs sets loc c shape.pred ty params)) ∨
    ∃ os, (Fact.cell c).Opens shape ty loc params.ptrs os ∧ (∀ o ∈ os, o.Proper shape.pred) ∧
      meetCell structs sets loc c shape.pred ty params = .ok (sets, os.map (Hole.goal shape.pred ty)) := by
  by_cases hty : c.ty = ty
  · subst hty
    have hmissing {i : Nat} (hi : i ∈ shape.places) (hnone : c.fields[i]? = none) :
        ¬ c.Complete structs := by
      intro hc
      obtain ⟨v, hv⟩ := hc.field hl hi
      cases hnone.symm.trans hv
    rcases shape with next | ⟨left, right, up⟩
    · rw [Shape.pred, meetCell_list hl]
      rcases hv : c.fields[next]? with _ | v
      · refine .inr (.inl ⟨hmissing (by simp [Shape.places]) hv, .inr ⟨_, rfl, ?_⟩⟩)
        simp [Goal.ofField, hv]
      have hnil := eq_nil_of_length_eq_zero ha
      refine .inr (.inr ⟨[⟨v, .none⟩], .cell rfl ⟨hnil, v, hv, rfl⟩, ?_, ?_⟩)
      · rintro o ho
        rw [mem_singleton.1 ho]
        exact ⟨not_mem_nil, rfl, rfl⟩
      · simp [Goal.ofField, hv, Hole.goal]
    · obtain ⟨π, hπ⟩ := length_eq_one_iff.1 ha
      rw [Shape.pred, meetCell_tree hl]
      rcases hback : c.fields[up]? with _ | back
      · refine .inr (.inl ⟨hmissing (by simp [Shape.places]) hback, .inl ⟨.outOfBounds, ?_⟩⟩)
        simp [Shape.layout, checkBack, hback, Except.bind]
      -- Of the fields that there are only the back pointer can be wrong here.
      by_cases hb : back = π
      · subst hb
        have hcheck : checkBack loc c (Shape.tree left right up).layout params = .ok () := by
          simp [Shape.layout, checkBack, hback, hπ]
        rw [hcheck, Except.bind]
        rcases hv : c.fields[left]? with _ | v
        · refine .inr (.inl ⟨hmissing (by simp [Shape.places]) hv, .inr ⟨_, rfl, ?_⟩⟩)
          simp [Goal.ofField, hv]
        rcases hw : c.fields[right]? with _ | w
        · refine .inr (.inl ⟨hmissing (by simp [Shape.places]) hw, .inr ⟨_, rfl, ?_⟩⟩)
          simp [Goal.ofField, hw]
        refine .inr (.inr ⟨[⟨v, ⟨[.ptr loc], []⟩⟩, ⟨w, ⟨[.ptr loc], []⟩⟩],
          .cell rfl ⟨v, w, back, hv, hw, hback, hπ, rfl⟩, ?_, ?_⟩)
        · rintro o ho
          have hparams : o.params = ⟨[.ptr loc], []⟩ := by
            rcases mem_pair.1 ho with rfl | rfl <;> rfl
          exact ⟨by rw [hparams]; simp, by rw [hparams]; rfl, by rw [hparams]⟩
        · simp [Goal.ofField, hv, hw, Hole.goal]
      · left
        simp [Shape.layout, checkBack, hback, hπ, hb, Except.bind, mismatch]
  · left
    rw [meetCell, if_pos hty]
    exact ⟨_, rfl⟩

/-- A summary that meets a goal has the parameters that are expected, and leaves what is at its
    hole. -/
theorem meetSummary_cases {s : Summary} (shape : Shape) (ty : StructId) (sets : SetStore) (loc : Loc)
    (hsets : params.sets = []) (hw : s.WellFormed structs) :
    (∃ e, meetSummary sets loc s shape.pred ty params = .error (.mismatch e)) ∨
    ∃ os, (Fact.summary s).Opens shape ty loc params.ptrs os ∧ (∀ o ∈ os, o.Proper shape.pred) ∧
      meetSummary sets loc s shape.pred ty params = .ok (sets, os.map (Hole.goal shape.pred ty)) := by
  by_cases hs : s.pred ≠ shape.pred ∨ s.ty ≠ ty
  · left
    rw [meetSummary, if_pos hs]
    exact ⟨_, rfl⟩
  · obtain ⟨hp, hty⟩ := not_or.1 hs
    rw [not_ne_iff] at hp hty
    rw [meetSummary, if_neg hs, matchParams]
    by_cases hptrs : s.params.ptrs = params.ptrs
    · refine .inr ⟨s.hole.toList, .summary hp hty hptrs, ?_, ?_⟩
      · rintro o ho
        exact hp ▸ hw.proper (Option.mem_toList.1 ho)
      · simp [hptrs, hsets, hw.sets, unifySets, bind, Except.bind, Hole.goal]
    · left
      rw [if_pos hptrs]
      exact ⟨_, rfl⟩

/-- The fact about a location is taken, if it can be a part of the structure. -/
theorem enter_cases (cfg : Setting) (st : Folding) (loc : Loc)
    (hl : shape.pred.layout? cfg.structs ty = some shape.layout)
    (ha : params.ptrs.length = shape.pred.signature.ptrArity) (hsets : params.sets = [])
    (hw : st.heap.WellFormed cfg.structs) :
    (∃ e, st.enter cfg loc shape.pred ty params = .error (.mismatch e)) ∨
    (¬ st.heap.Complete cfg.structs ∧ Lacks (st.enter cfg loc shape.pred ty params)) ∨
    ∃ f os, st.heap.slot loc = .occupied f ∧ f.Opens shape ty loc params.ptrs os ∧
      (∀ o ∈ os, o.Proper shape.pred) ∧
      st.enter cfg loc shape.pred ty params =
        .ok (st.takeWith loc st.heap.sets, os.map (Hole.goal shape.pred ty)) := by
  rw [enter]
  by_cases hv : loc ∈ st.visited
  · left
    rw [if_pos hv]
    exact ⟨_, rfl⟩
  rw [if_neg hv]
  rcases hs : st.heap.slot loc with _ | f | _
  · exact .inl ⟨_, rfl⟩
  · rcases f with c | s | ⟨set, target⟩
    · rcases meetCell_cases c st.heap.sets loc hl ha with
        ⟨e, he⟩ | ⟨hc, hlacks⟩ | ⟨os, hos, hproper, hok⟩
      · exact .inl ⟨e, by simp only [he, Except.map]⟩
      · exact .inr (.inl ⟨fun hall => hc (hall loc c hs), hlacks.map fun _ => rfl⟩)
      · exact .inr (.inr ⟨_, os, rfl, hos, hproper, by simp only [hok, Except.map]; rfl⟩)
    · rcases meetSummary_cases shape ty st.heap.sets loc hsets (hw loc _ hs) with
        ⟨e, he⟩ | ⟨os, hos, hproper, hok⟩
      · exact .inl ⟨e, by simp only [he, Except.map]⟩
      · exact .inr (.inr ⟨_, os, rfl, hos, hproper, by simp only [hok, Except.map]; rfl⟩)
    · exact .inl ⟨_, rfl⟩
  · exact .inl ⟨_, rfl⟩

/-- The ways in which a goal is met: by null, by a stop, or by taking a fact. -/
theorem visit_cases {o : Hole} (hl : shape.pred.layout? cfg.structs ty = some shape.layout)
    (ho : o.Proper shape.pred) (hw : st.heap.WellFormed cfg.structs) :
    (∃ e, st.visit cfg (o.goal shape.pred ty) = .error (.mismatch e)) ∨
    (¬ st.heap.Complete cfg.structs ∧ Lacks (st.visit cfg (o.goal shape.pred ty))) ∨
    (o.value = .null ∧ st.visit cfg (o.goal shape.pred ty) = .ok (st, [])) ∨
    (∃ loc ∈ cfg.stops, o.value = .ptr loc ∧ st.hole = none ∧
      st.visit cfg (o.goal shape.pred ty) = .ok ({ st with hole := some o }, [])) ∨
    ∃ loc f os, o.value = .ptr loc ∧ st.heap.slot loc = .occupied f ∧
      f.Opens shape ty loc o.params.ptrs os ∧ (∀ o ∈ os, o.Proper shape.pred) ∧
      st.visit cfg (o.goal shape.pred ty) =
        .ok (st.takeWith loc st.heap.sets, os.map (Hole.goal shape.pred ty)) := by
  obtain ⟨value, params⟩ := o
  rcases value with _ | loc | _
  · right; right; left
    refine ⟨rfl, ?_⟩
    rcases shape with next | ⟨left, right, up⟩ <;> rfl
  · rw [Hole.goal, visit]
    by_cases hstop : loc ≠ cfg.root ∧ loc ∈ cfg.stops
    · rw [if_pos hstop]
      by_cases hfree : shape.pred = cfg.pred ∧ st.hole = none
      · rw [if_pos hfree]
        exact .inr (.inr (.inr (.inl ⟨loc, hstop.2, rfl, hfree.2, rfl⟩)))
      · rw [if_neg hfree]
        exact .inl ⟨_, rfl⟩
    · rw [if_neg hstop]
      rcases enter_cases cfg st loc hl ho.arity ho.sets hw with
        he | hlacks | ⟨f, os, hf, hos, hproper, hok⟩
      · exact .inl he
      · exact .inr (.inl hlacks)
      · exact .inr (.inr (.inr (.inr ⟨loc, f, os, rfl, hf, hos, hproper, hok⟩)))
  · exact .inl ⟨_, rfl⟩

/-! ### The search -/

/-- What the search found for some goals: it took facts, and met a stop at most once. -/
structure Found (cfg : Setting) (shape : Shape) (ty : StructId) (st : Folding) (os : List Hole)
    (st' : Folding) : Prop where
  forgets : st.heap.Forgets st'.heap
  /-- The hole is at a stop, unless it was there before. -/
  hole : st'.hole = st.hole ∨
    ∃ o, st'.hole = some o ∧ o.Proper shape.pred ∧ ∃ k ∈ cfg.stops, o.value = .ptr k
  /-- Where the heap describes memory, the footprints of the facts make up a forest. -/
  forest : ∀ ok ν m foot, (∀ a r, m.lookup a = some r → ok r) →
    st.heap.Describes cfg.structs ok ν m foot → ∀ qs, List.Forall₂ (Hole.At ν) os qs →
    ∃ o A, shape.Forest m (Record.IsOf ok ty) o qs A ∧
      (A : Set Addr) ⊆ st.heap.lost st'.heap foot ∧
      (o = none ∧ st'.hole = st.hole ∨ st.hole = none ∧ Option.Rel (Hole.At ν) st'.hole o)

namespace Found

variable {o : Hole} {os new : List Hole} {loc : Loc} {f : Fact} {ptrs : List Value}
  {ok : Record → Prop} {ν : Valuation} {m : Memory} {foot : Loc → Finset Addr}

/-- Without goals nothing is found. -/
theorem nil : Found cfg shape ty st [] st where
  forgets := .refl _
  hole := .inl rfl
  forest ok ν m foot hm hd qs hqs := by
    cases hqs
    exact ⟨none, ∅, .nil, by simp, .inl ⟨rfl, rfl⟩⟩

/-- Null meets a goal. -/
theorem null (ho : o.Proper shape.pred) (hv : o.value = .null) (h : Found cfg shape ty st os st') :
    Found cfg shape ty st (o :: os) st' where
  forgets := h.forgets
  hole := h.hole
  forest ok ν m foot hm hd qs hqs := by
    rcases hqs with _ | ⟨hat, hqs⟩
    rename_i q qs
    obtain ⟨e, A, hforest, hA, hhole⟩ := h.forest ok ν m foot hm hd qs hqs
    obtain ⟨d, ps⟩ := q
    obtain ⟨hd, hps⟩ := hat
    rw [hv] at hd
    have hd : d = .null := hd
    subst hd
    have hpiece : shape.Piece m (Record.IsOf ok ty) none (.null, ps) ∅ :=
      .null (hps.length_eq ▸ ho.arity)
    have hcons := Shape.Forest.cons hpiece hforest (Finset.disjoint_empty_left A) (.inl rfl)
    rw [Option.none_or, Finset.empty_union] at hcons
    exact ⟨e, A, hcons, hA, hhole⟩

/-- A stop meets a goal, if none did so before. -/
theorem stop (ho : o.Proper shape.pred) (hv : o.value = .ptr loc) (hloc : loc ∈ cfg.stops)
    (hnone : st.hole = none) (h : Found cfg shape ty { st with hole := some o } os st') :
    Found cfg shape ty st (o :: os) st' where
  forgets := h.forgets
  hole := .inr <| h.hole.elim (fun he => ⟨o, he, ho, loc, hloc, hv⟩) id
  forest ok ν m foot hm hd qs hqs := by
    rcases hqs with _ | ⟨hat, hqs⟩
    rename_i q qs
    obtain ⟨e, A, hforest, hA, hhole⟩ := h.forest ok ν m foot hm hd qs hqs
    -- The rest was found without another stop.
    obtain ⟨rfl, hsame⟩ | ⟨hne, -⟩ := hhole
    · have hpiece : shape.Piece m (Record.IsOf ok ty) (some q) q ∅ :=
        .gap (hat.2.length_eq ▸ ho.arity)
      have hcons := Shape.Forest.cons hpiece hforest (Finset.disjoint_empty_left A) (.inr rfl)
      rw [Option.or_none, Finset.empty_union] at hcons
      exact ⟨some q, A, hcons, hA, .inr ⟨hnone, hsame ▸ .some hat⟩⟩
    · cases hne

/-- A fact that was taken makes a piece, together with some of what was found after it. -/
theorem piece (h : Found cfg shape ty (st.takeWith loc st.heap.sets) (new ++ os) st')
    (hl : shape.pred.layout? cfg.structs ty = some shape.layout)
    (hw : st.heap.WellFormed cfg.structs) (hs : st.heap.slot loc = .occupied f)
    (hf : f.Opens shape ty loc ptrs new) (hm : ∀ a r, m.lookup a = some r → ok r)
    (hd : st.heap.Describes cfg.structs ok ν m foot) {qs : List Position}
    (hqs : List.Forall₂ (Hole.At ν) os qs) :
    ∃ ps o₁ o₂ A₁ A₂, List.Forall₂ ν.Holds ptrs ps ∧
      shape.Piece m (Record.IsOf ok ty) o₁ (.pointer (ν loc), ps) A₁ ∧
      shape.Forest m (Record.IsOf ok ty) o₂ qs A₂ ∧ Disjoint A₁ A₂ ∧ (o₁ = none ∨ o₂ = none) ∧
      ((A₁ ∪ A₂ : Finset Addr) : Set Addr) ⊆ st.heap.lost st'.heap foot ∧
      (o₁.or o₂ = none ∧ st'.hole = st.hole ∨
        st.hole = none ∧ Option.Rel (Hole.At ν) st'.hole (o₁.or o₂)) := by
  obtain ⟨ps, qs₁, hps, hqs₁, hpiece⟩ := hf.piece hl (hw loc f hs) hm (hd.facts loc f hs)
  obtain ⟨e, A, hforest, hA, hhole⟩ :=
    h.forest ok ν m foot hm (hd.vacate loc) (qs₁ ++ qs) (rel_append hqs₁ hqs)
  obtain ⟨o₁, o₂, A₁, A₂, hf₁, hf₂, hdisj, ho, rfl, rfl⟩ := hforest.append_inv
  rw [Finset.coe_union, Set.union_subset_iff] at hA
  -- The fact was taken before anything else, so its footprint is apart from all that follows.
  have hgone : (st.takeWith loc st.heap.sets).heap.slot loc = .vacant :=
    (Heap.slot_write_vacant ..).trans (if_pos rfl)
  have hfoot {B : Finset Addr}
      (hB : (B : Set Addr) ⊆ (st.takeWith loc st.heap.sets).heap.lost st'.heap foot) : Disjoint (foot loc) B :=
    hd.disjoint_lost (st.heap.forgets_vacate loc) hs (.inl hgone) hB
  refine ⟨ps, o₁, o₂, foot loc ∪ A₁, A₂, hps, hpiece o₁ A₁ hf₁ (hfoot hA.1), hf₂, ?_, ho, ?_, hhole⟩
  · exact Finset.disjoint_union_left.2 ⟨hfoot hA.2, hdisj⟩
  · have hmono : (st.takeWith loc st.heap.sets).heap.lost st'.heap foot ⊆ st.heap.lost st'.heap foot :=
      Heap.lost_mono_left (st.heap.forgets_vacate loc)
    rw [Finset.coe_union, Finset.coe_union]
    refine Set.union_subset (Set.union_subset (fun x hx => ⟨loc, f, hs, ?_, hx⟩)
      (hA.1.trans hmono)) (hA.2.trans hmono)
    rcases h.forgets.slot loc with hsame | hvacant
    · exact hsame.trans hgone
    · exact hvacant

/-- A fact meets a goal, together with what is found for the goals that it leaves. -/
theorem fact (hl : shape.pred.layout? cfg.structs ty = some shape.layout)
    (hw : st.heap.WellFormed cfg.structs) (ho : o.Proper shape.pred) (hv : o.value = .ptr loc)
    (hs : st.heap.slot loc = .occupied f) (hf : f.Opens shape ty loc o.params.ptrs new)
    (h : Found cfg shape ty (st.takeWith loc st.heap.sets) (new ++ os) st') :
    Found cfg shape ty st (o :: os) st' where
  forgets := (st.heap.forgets_vacate loc).trans h.forgets
  hole := h.hole
  forest ok ν m foot hm hd qs hqs := by
    rcases hqs with _ | ⟨hat, hqs⟩
    rename_i q qs
    obtain ⟨ps, o₁, o₂, A₁, A₂, hps, hpiece, hforest, hdisj, ho₁₂, hA, hhole⟩ :=
      h.piece hl hw hs hf hm hd hqs
    have hq : q = (.pointer (ν loc), ps) := by
      rw [Hole.At, hv] at hat
      exact Prod.ext hat.1 (Valuation.Holds.unique_list ho.scalar hat.2 hps)
    subst hq
    exact ⟨o₁.or o₂, A₁ ∪ A₂, .cons hpiece hforest hdisj ho₁₂, hA, hhole⟩

end Found

/-- A search that asks for a missing field is refused. -/
theorem absorb_missing (cfg : Setting) (st : Folding) {goals : List Goal} (h : .missing ∈ goals) :
    ∃ e, st.absorb cfg goals = .error e := by
  induction st, goals using absorb.induct cfg with
  | case1 st => cases h
  | case2 st goal goals e hv =>
    rw [absorb, hv]
    exact ⟨e, rfl⟩
  | case3 st goal goals st₁ new hv ih =>
    rw [absorb, hv]
    rcases mem_cons.1 h with rfl | h
    · cases hv
    · exact ih (mem_append_right _ h)

/-- The search ends with what was found, or is refused. -/
theorem absorb_cases (cfg : Setting) (st : Folding) {os : List Hole}
    (hl : shape.pred.layout? cfg.structs ty = some shape.layout)
    (hos : ∀ o ∈ os, o.Proper shape.pred) (hw : st.heap.WellFormed cfg.structs) :
    (∃ e, st.absorb cfg (os.map (Hole.goal shape.pred ty)) = .error e ∧
      (st.heap.Complete cfg.structs → ∃ w, e = .mismatch w)) ∨
    ∃ st', st.absorb cfg (os.map (Hole.goal shape.pred ty)) = .ok st' ∧
      Found cfg shape ty st os st' := by
  generalize hg : os.map (Hole.goal shape.pred ty) = goals
  induction st, goals using absorb.induct cfg generalizing os with
  | case1 st =>
    rw [map_eq_nil_iff.1 hg, absorb]
    exact .inr ⟨st, rfl, .nil⟩
  | case2 st goal goals e hv =>
    obtain ⟨o, os, rfl, rfl, rfl⟩ := map_eq_cons_iff.1 hg
    rw [absorb, hv]
    refine .inl ⟨e, rfl, fun hc => ?_⟩
    rcases visit_cases hl (hos o (.head _)) hw with
      ⟨e', he⟩ | ⟨hno, -⟩ | ⟨-, hok⟩ | ⟨loc, -, -, -, hok⟩ | ⟨loc, f, new, -, -, -, -, hok⟩
    · cases hv.symm.trans he
      exact ⟨e', rfl⟩
    · exact (hno hc).elim
    all_goals cases hv.symm.trans hok
  | case3 st goal goals st₁ new hv ih =>
    obtain ⟨o, os, rfl, rfl, rfl⟩ := map_eq_cons_iff.1 hg
    rw [absorb, hv]
    have ho := hos o (.head _)
    have hos' := fun w hw => hos w (.tail _ hw)
    -- In each case the goals that are left are again some holes, for which the search goes on.
    rcases visit_cases hl ho hw with
      ⟨e', he⟩ | ⟨hno, hlacks⟩ | ⟨hnull, hok⟩ | ⟨loc, hloc, hptr, hnone, hok⟩ |
        ⟨loc, f, new, hptr, hs, hf, hnew, hok⟩
    · cases hv.symm.trans he
    · rcases hlacks with ⟨m, he⟩ | ⟨r, hok, hr⟩
      · cases hv.symm.trans he
      · cases hv.symm.trans hok
        obtain ⟨e, he⟩ := absorb_missing cfg st₁ (mem_append_left (os.map _) hr)
        exact .inl ⟨e, he, fun hc => (hno hc).elim⟩
    · cases hv.symm.trans hok
      refine (ih hos' hw rfl).imp_right ?_
      rintro ⟨st', hst', h⟩
      exact ⟨st', hst', h.null ho hnull⟩
    · cases hv.symm.trans hok
      refine (ih hos' hw rfl).imp_right ?_
      rintro ⟨st', hst', h⟩
      exact ⟨st', hst', h.stop ho hptr hloc hnone⟩
    · cases hv.symm.trans hok
      have hforgets := st.heap.forgets_vacate loc
      rcases ih (forall_mem_append.2 ⟨hnew, hos'⟩) (hw.forget hforgets) map_append with
        ⟨e, he, hsure⟩ | ⟨st', hst', h⟩
      · exact .inl ⟨e, he, fun hc => hsure (hc.forget hforgets)⟩
      · exact .inr ⟨st', hst', h.fact hl hw ho hptr hs hf⟩

end Folding

namespace Heap

open Folding

variable {structs : Structs} {h : Heap} {loc : Loc} {pred : Predicate} {params : Option Params}
  {stops : List Loc}

theorem resolveParams_of_sets {p : Params} (hp : p.sets = []) : h.resolveParams p = p := by
  obtain ⟨ptrs, sets⟩ := p
  cases hp
  rfl

/-- The parameters of a list or a tree are as many as the predicate asks for. -/
theorem chooseParams_cases (layout : Layout) (hp : pred = .list ∨ pred = .tree)
    (hw : h.WellFormed structs) (ha : checkArity pred params (some loc) = .ok ()) :
    (∃ e, h.chooseParams loc pred layout params = .error (.mismatch e)) ∨
    ∃ p, h.chooseParams loc pred layout params = .ok (p, h.sets) ∧ p.sets = [] ∧
      p.ptrs.length = pred.signature.ptrArity ∧ (params = none ∨ params = some p) := by
  rcases params with _ | p
  · rw [chooseParams, inferParams.eq_def]
    rcases hs : h.summary? loc with _ | s
    · rcases hp with rfl | rfl
      · exact .inr ⟨.none, rfl, rfl, rfl, .inl rfl⟩
      · rcases hb : layout.back.bind fun i => (h.cell? loc).bind fun c => c.fields[i]? with _ | back
        · exact .inl ⟨_, rfl⟩
        · exact .inr ⟨⟨[back], []⟩, rfl, rfl, rfl, .inl rfl⟩
    · have hws : s.WellFormed structs := hw loc _ (slot_of_summary? hs)
      by_cases hsp : s.pred = pred
      · exact .inr ⟨s.params, by simp only [if_pos hsp], hws.sets, hsp ▸ hws.ptrs, .inl rfl⟩
      · exact .inl ⟨_, by simp only [if_neg hsp]; rfl⟩
  · refine .inr ⟨p, rfl, ?_⟩
    obtain ⟨hptrs, hsets⟩ := checkArity_eq_ok ha
    have hzero : pred.signature.setArity = 0 := by rcases hp with rfl | rfl <;> rfl
    exact ⟨eq_nil_of_length_eq_zero (hsets.trans hzero), hptrs, .inr rfl⟩

/-- A structure that was taken out of a heap as a summary. -/
structure Gathers (structs : Structs) (h : Heap) (loc : Loc) (stops : List Loc) (s : Summary)
    (h' : Heap) : Prop where
  root : ∃ f, h.slot loc = .occupied f
  forgets : h.Forgets h'
  wellFormed : s.WellFormed structs
  hole : ∀ o, s.hole = some o → ∃ k ∈ stops, o.value = .ptr k
  struct : ∀ c, h.slot loc = .occupied (.cell c) → s.ty = c.ty
  /-- Where the heap describes memory, the summary holds of what was lost. -/
  holds : ∀ ok ν m foot, (∀ a r, m.lookup a = some r → ok r) →
    h.Describes structs ok ν m foot → ∃ A, s.Holds structs ok ν m loc A ∧
      (A : Set Addr) ⊆ h.lost h' foot

/-- What was found below a root makes a summary. -/
theorem Gathers.of_found {cfg : Setting} {start st : Folding} {shape : Shape} {ty : StructId}
    {p : Params} {f : Fact} {os : List Hole}
    (hl : shape.pred.layout? cfg.structs ty = some shape.layout)
    (hw : start.heap.WellFormed cfg.structs) (hstart : start.hole = none) (hsets : p.sets = [])
    (ha : p.ptrs.length = shape.pred.signature.ptrArity) (hs : start.heap.slot loc = .occupied f)
    (hf : f.Opens shape ty loc p.ptrs os)
    (hst : Found cfg shape ty (start.takeWith loc start.heap.sets) os st) :
    start.heap.Gathers cfg.structs loc cfg.stops ⟨shape.pred, ty, p, st.hole⟩ st.heap := by
  have hhole : ∀ o, st.hole = some o → o.Proper shape.pred ∧ ∃ k ∈ cfg.stops, o.value = .ptr k := by
    intro o ho
    rcases hst.hole with hsame | ⟨w, hw, hproper, hstop⟩
    · cases ho.symm.trans (hsame.trans hstart)
    · cases ho.symm.trans hw
      exact ⟨hproper, hstop⟩
  have hws : (⟨shape.pred, ty, p, st.hole⟩ : Summary).WellFormed cfg.structs := by
    refine ⟨shape.kind, Option.isSome_of_eq_some hl, ha, hsets, fun o ho => ?_⟩
    obtain ⟨hproper, k, -, hk⟩ := hhole o ho
    exact ⟨by rw [hk]; simp, hproper.scalar, hproper.arity, hproper.sets⟩
  refine ⟨⟨f, hs⟩, (start.heap.forgets_vacate loc).trans hst.forgets, hws, fun o ho => (hhole o ho).2,
    fun c hc => ?_, fun ok ν m foot hm hd => ?_⟩
  · cases hs.symm.trans hc
    rcases hf with ⟨hty, -⟩ | _
    exact hty.symm
  · -- The root makes a piece with all that was found after it, so nothing is left over.
    rw [← append_nil os] at hst
    obtain ⟨ps, o₁, o₂, A₁, A₂, hps, hpiece, hforest, -, -, hA, hrel⟩ :=
      hst.piece hl hw hs hf hm hd .nil
    cases hforest
    rw [Finset.union_empty] at hA
    rw [Option.or_none] at hrel
    refine ⟨A₁, (Summary.holds_iff_piece hws rfl hl).2 ⟨ps, o₁, hps, ?_, hpiece⟩, hA⟩
    rcases hrel with ⟨rfl, hsame⟩ | ⟨-, hrel⟩
    · show Option.Rel (Hole.At ν) st.hole none
      rw [hsame, hstart]
      exact .none
    · exact hrel

/-- A list or a tree is taken out of a heap as a summary, or the search is refused. -/
theorem gather_cases (loc : Loc) (params : Option Params) (stops : List Loc)
    (hp : pred = .list ∨ pred = .tree) (hw : h.WellFormed structs) :
    (∃ e, h.gather structs loc pred params stops = .error e ∧
      (h.Complete structs → ∃ w, e = .mismatch w)) ∨
    ∃ s h', h.gather structs loc pred params stops = .ok (s, h') ∧ s.pred = pred ∧
      (params = none ∨ params = some s.params) ∧ h.Gathers structs loc stops s h' := by
  simp only [gather, bind, Except.bind, pure, Except.pure]
  rcases ha : checkArity pred params (some loc) with e | ⟨⟩
  · exact .inl ⟨e, rfl, fun _ => checkArity_eq_error ha⟩
  rcases hty : h.rootStruct loc with e | ty
  · left
    rw [rootStruct] at hty
    split at hty <;> cases hty <;> exact ⟨_, rfl, fun _ => ⟨_, rfl⟩⟩
  rcases hl : pred.layout? structs ty with _ | layout
  · simp only [hl]
    exact .inl ⟨_, rfl, fun _ => ⟨_, rfl⟩⟩
  obtain ⟨shape, rfl, rfl, -⟩ := Shape.exists_of_layout hp hl
  rcases chooseParams_cases shape.layout hp hw ha with ⟨e, he⟩ | ⟨p, hchoose, hsets, harity, hparams⟩
  · simp only [hl, he]
    exact .inl ⟨_, rfl, fun _ => ⟨e, rfl⟩⟩
  let cfg : Setting := ⟨structs, stops, loc, shape.pred⟩
  let start : Folding := ⟨h, none, []⟩
  rcases enter_cases cfg start loc hl harity hsets hw with
    ⟨e, he⟩ | ⟨hno, hlacks⟩ | ⟨f, os, hs, hf, hproper, henter⟩
  · simp only [hl, hchoose]
    exact .inl ⟨.mismatch e, by rw [he], fun _ => ⟨e, rfl⟩⟩
  · simp only [hl, hchoose]
    left
    rcases hlacks with ⟨m, he⟩ | ⟨⟨st, goals⟩, hok, hr⟩
    · exact ⟨.misuse m, by rw [he], fun hc => (hno hc).elim⟩
    · obtain ⟨e, he⟩ := absorb_missing cfg st hr
      exact ⟨e, by rw [hok]; simp only [cfg, he], fun hc => (hno hc).elim⟩
  have hforgets := h.forgets_vacate loc
  rcases absorb_cases cfg (start.takeWith loc start.heap.sets) hl hproper (hw.forget hforgets) with
    ⟨e, he, hsure⟩ | ⟨st, habsorb, hst⟩
  · simp only [hl, hchoose]
    exact .inl ⟨e, by rw [henter]; simp only [cfg, he], fun hc => hsure (hc.forget hforgets)⟩
  have hg := Gathers.of_found hl hw rfl hsets harity hs hf hst
  refine .inr ⟨⟨shape.pred, ty, p, st.hole⟩, st.heap, ?_, rfl, hparams, hg⟩
  -- There are no sets among the parameters that could be resolved.
  have hhole : (st.hole.map fun o => { o with params := st.heap.resolveParams o.params }) = st.hole := by
    rcases ho : st.hole with _ | o
    · rfl
    · rw [Option.map_some, resolveParams_of_sets (hg.wellFormed.proper ho).sets]
  simp only [hl, hchoose]
  rw [henter]
  simp only [cfg, habsorb, hhole, resolveParams_of_sets hsets]

/-- Where cells have all their fields, the search ends with a structure or with a mismatch. -/
theorem Regular.gather_cases (hr : h.Regular structs) (loc : Loc) (params : Option Params)
    (stops : List Loc) (hp : pred = .list ∨ pred = .tree) :
    (∃ e, h.gather structs loc pred params stops = .error (.mismatch e)) ∨
    ∃ s h', h.gather structs loc pred params stops = .ok (s, h') ∧ s.pred = pred ∧
      (params = none ∨ params = some s.params) ∧ h.Gathers structs loc stops s h' := by
  rcases Heap.gather_cases loc params stops hp hr.facts with ⟨e, he, hsure⟩ | hok
  · obtain ⟨w, rfl⟩ := hsure hr.cells
    exact .inl ⟨w, he⟩
  · exact .inr hok

/-! ### The fold -/

/-- What a heap describes, where all records are as they should be, another one describes. -/
def Entails (structs : Structs) (ok : Record → Prop) (h h' : Heap) : Prop :=
  ∀ ν m, (∀ a r, m.lookup a = some r → ok r) → h.Sat structs ok ν m → h'.Sat structs ok ν m

/-- A structure may come back as the summary that it was taken out as. -/
theorem Gathers.entails {h' : Heap} {s : Summary} (hg : h.Gathers structs loc stops s h')
    (ok : Record → Prop) : h.Entails structs ok (h'.write loc (.occupied (.summary s))) := by
  rintro ν m hm ⟨foot, hd⟩
  obtain ⟨f, hs⟩ := hg.root
  obtain ⟨A, hA, hlost⟩ := hg.holds ok ν m foot hm hd
  refine ⟨_, (hd.forget hg.forgets).write (hg.forgets.size ▸ lt_size_of_occupied hs) hA ?_⟩
  -- What was taken is gone from the heap, so what is left is apart from it.
  intro k g _ hk
  exact hd.disjoint_lost (.refl h) (hg.forgets.occupied hk) (.inr hk) hlost

/-- A fold of a list or a tree that succeeds puts an instance at its root, with the parameters that
    were given and with the hole that is told. The heap that it leaves describes all the memory
    that the heap described before, with the same addresses for all locations. -/
theorem fold_describes {h' : Heap} {root : Value} {hole : Option Hole} (hw : h.WellFormed structs)
    (hp : pred = .list ∨ pred = .tree)
    (hf : h.fold structs root pred params stops = .ok (h', hole)) :
    (∀ loc, root = .ptr loc → ∃ s, h'.slot loc = .occupied (.summary s) ∧ s.pred = pred ∧
      s.hole = hole ∧ (params = none ∨ params = some s.params)) ∧
    ∀ ok, h.Entails structs ok h' := by
  rcases fold_eq_ok hf with ⟨loc, s, h₁, rfl, hok, rfl, rfl⟩ | ⟨rfl, rfl, -, hnull⟩
  · rcases gather_cases loc params stops hp hw with ⟨e, he, -⟩ | ⟨s', h', hok', hpred, hparams, hg⟩
    · cases hok.symm.trans he
    · cases hok.symm.trans hok'
      obtain ⟨f, hs⟩ := hg.root
      refine ⟨fun loc' hloc => ?_, hg.entails⟩
      cases hloc
      refine ⟨s, ?_, hpred, rfl, hparams⟩
      rw [slot_write (hg.forgets.size ▸ lt_size_of_occupied hs), if_pos rfl]
  · -- An empty list or tree asks nothing of the heap.
    obtain rfl : h' = h := by
      rcases hnull with ⟨-, rfl⟩ | ⟨p, sets, -, hb, rfl⟩
      · rfl
      · rcases hp with rfl | rfl <;> cases hb <;> rfl
    exact ⟨fun _ hr => Value.noConfusion hr, fun _ _ _ _ hs => hs⟩

end Heap

/-! ### A list with a segment in it -/

namespace Sample

/-- A table with one structure, for lists. -/
def oneList : Structs := [⟨"a", [⟨"next", .ptr ⟨0⟩⟩]⟩]

/-- A segment of a list that ends at the third location. -/
def segment : Summary := ⟨.list, ⟨0⟩, .none, some ⟨.ptr ⟨2⟩, .none⟩⟩

/-- A list: a cell, a segment, and a last cell. -/
def strung : Heap :=
  ⟨.ofSlots [.occupied (.cell ⟨⟨0⟩, [.ptr ⟨1⟩]⟩), .occupied (.summary segment),
    .occupied (.cell ⟨⟨0⟩, [.null]⟩)], .empty⟩

/-- The list where the first cell is folded, up to the last one. -/
def gathered : Heap :=
  ⟨.ofSlots [.occupied (.summary segment), .vacant, .occupied (.cell ⟨⟨0⟩, [.null]⟩)], .empty⟩

/-- Memory with three records, each at the address of its location. -/
def three : Memory :=
  ((Finmap.singleton 2 ⟨⟨0⟩, [.null]⟩).insert 1 ⟨⟨0⟩, [.addr 2]⟩).insert 0 ⟨⟨0⟩, [.addr 1]⟩

theorem fold_strung :
    strung.fold oneList (.ptr ⟨0⟩) .list none [⟨2⟩] = .ok (gathered, some ⟨.ptr ⟨2⟩, .none⟩) := by
  cbv

theorem strung_slot_cases {k : Loc} {f : Fact} (hk : strung.slot k = .occupied f) :
    k = ⟨0⟩ ∧ f = .cell ⟨⟨0⟩, [.ptr ⟨1⟩]⟩ ∨ k = ⟨1⟩ ∧ f = .summary segment ∨
      k = ⟨2⟩ ∧ f = .cell ⟨⟨0⟩, [.null]⟩ := by
  rcases k with ⟨_ | _ | _ | i⟩
  · cases hk
    exact .inl ⟨rfl, rfl⟩
  · cases hk
    exact .inr (.inl ⟨rfl, rfl⟩)
  · cases hk
    exact .inr (.inr ⟨rfl, rfl⟩)
  · cases hk

theorem strung_wellFormed : strung.WellFormed oneList := by
  intro k f hk
  rcases strung_slot_cases hk with ⟨-, rfl⟩ | ⟨-, rfl⟩ | ⟨-, rfl⟩
  · trivial
  · refine ⟨.inl rfl, rfl, rfl, rfl, fun o ho => ?_⟩
    cases ho
    exact ⟨Value.noConfusion, not_mem_nil, rfl, rfl⟩
  · trivial

theorem strung_sat :
    strung.Sat oneList (fun _ => True) (fun k => some k.index) three := by
  refine ⟨fun k => {k.index}, fun k f hk => ?_, fun k k' f f' _ _ hne => ?_, fun k hk => ?_⟩
  · rcases strung_slot_cases hk with ⟨rfl, rfl⟩ | ⟨rfl, rfl⟩ | ⟨rfl, rfl⟩
    · exact ⟨0, _, rfl, Finmap.lookup_insert _, rfl, .cons rfl .nil, rfl⟩
    · refine ⟨.addr 2, rfl, ?_⟩
      have hr : three.lookup 1 = some ⟨⟨0⟩, [.addr 2]⟩ := by
        rw [three, Finmap.lookup_insert_of_ne _ (by decide), Finmap.lookup_insert]
      exact .cons hr ⟨rfl, trivial⟩ rfl (Finset.notMem_empty 1) .nil
    · have hr : three.lookup 2 = some ⟨⟨0⟩, [.null]⟩ := by
        rw [three, Finmap.lookup_insert_of_ne _ (by decide), Finmap.lookup_insert_of_ne _ (by decide),
          Finmap.lookup_singleton_eq]
      exact ⟨2, _, rfl, hr, rfl, .cons rfl .nil, rfl⟩
  · refine Finset.disjoint_singleton.2 fun he => hne ?_
    obtain ⟨i⟩ := k
    obtain ⟨j⟩ := k'
    exact congrArg Loc.mk he
  · rcases k with ⟨_ | _ | _ | i⟩ <;> cases hk

end Sample

/-- The first cell and the segment become one segment, with the same records. -/
theorem Heap.fold_describes_strung :
    Sample.strung.WellFormed Sample.oneList ∧
      Sample.strung.fold Sample.oneList (.ptr ⟨0⟩) .list none [⟨2⟩] =
        .ok (Sample.gathered, some ⟨.ptr ⟨2⟩, .none⟩) ∧
      Sample.strung.Sat Sample.oneList (fun _ => True) (fun k => some k.index) Sample.three ∧
      Sample.gathered.Sat Sample.oneList (fun _ => True) (fun k => some k.index) Sample.three :=
  ⟨Sample.strung_wellFormed, Sample.fold_strung, Sample.strung_sat,
    (fold_describes Sample.strung_wellFormed (.inl rfl) Sample.fold_strung).2 _ _ _
      (fun _ _ _ => trivial) Sample.strung_sat⟩

end HeapShape
