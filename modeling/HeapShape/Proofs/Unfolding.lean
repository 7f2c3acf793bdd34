import HeapShape.Heap.Unfold
import HeapShape.Proofs.Description

/-!
# Unfolding, seen from memory

A *plain* summary is a list, a segment of a list, or a full tree. It unfolds in one way only.
Where such a summary holds of memory, either it is empty, and its root is null or the hole, or
there is a record at its root of which the unfolded heap holds.

* `Heap.unfold_plain`: the heap that a plain summary unfolds into;
* `Summary.Plain.cases`: the two cases of a plain summary that holds of memory;
* `Heap.Describes.unfolded`: in the second case the unfolded heap describes memory.
-/

namespace HeapShape

open List hiding Disjoint

/-- A list, a segment of a list or a full tree. -/
structure Summary.Plain (structs : Structs) (s : Summary) : Prop extends s.WellFormed structs where
  full : s.pred = .tree → s.hole = none

/-- A cell or a plain summary. -/
def Fact.Plain (structs : Structs) : Fact → Prop
  | .cell _ => True
  | .summary s => s.Plain structs
  | .member .. => False

variable {structs : Structs} {ok : Record → Prop} {ν : Valuation} {m : Memory} {s : Summary} {loc : Loc}
  {A : Finset Addr} {d : Datum} {decl : StructDecl}

/-- A plain summary is of a structure that is laid out as a list, or of one that is laid out
    as a tree, and is full then. -/
theorem Summary.Plain.layout_cases (hp : s.Plain structs) :
    (s.pred = .list ∧ s.params = .none ∧ ∃ decl next, structs.decl? s.ty = some decl ∧
      Predicate.list.layout? structs s.ty = some ⟨[next], none, [], []⟩) ∨
    (s.pred = .tree ∧ s.hole = none ∧ (∃ π, s.params = ⟨[π], []⟩) ∧
      ∃ decl left right up, structs.decl? s.ty = some decl ∧ [left, right, up].Nodup ∧
        Predicate.tree.layout? structs s.ty = some ⟨[left, right], some up, [], []⟩) := by
  obtain ⟨layout, hl⟩ := Option.isSome_iff_exists.1 hp.layout
  obtain ⟨pred, ty, ⟨ptrs, sets⟩, hole⟩ := s
  have hsets : sets = [] := hp.sets
  subst hsets
  rcases hp.kind with rfl | rfl
  · obtain ⟨decl, next, hdecl, rfl, -⟩ := Predicate.layout?_list hl
    have hptrs : ptrs = [] := length_eq_zero_iff.1 hp.ptrs
    exact .inl ⟨rfl, by rw [hptrs]; rfl, decl, next, hdecl, hl⟩
  · obtain ⟨decl, left, right, up, hdecl, rfl, hnodup, -⟩ := Predicate.layout?_tree hl
    obtain ⟨π, hptrs⟩ : ∃ π, ptrs = [π] := length_eq_one_iff.1 hp.ptrs
    exact .inr ⟨rfl, hp.full rfl, ⟨π, by rw [hptrs]⟩, decl, left, right, up, hdecl, hnodup, hl⟩

/-! ### What is at the root -/

/-- What the fields of the root of a list hold. -/
def Summary.listContents (s : Summary) (decl : StructDecl) (next : Nat) : List Content :=
  decl.fields.mapIdx fun i f =>
    if i = next then .fact (.summary { s with params := .none }) else Heap.unknownField f

/-- What the fields of the root of a tree hold. -/
def Summary.treeContents (s : Summary) (loc : Loc) (decl : StructDecl) (left right up : Nat) :
    List Content :=
  decl.fields.mapIdx fun i f =>
    if i = left ∨ i = right then .fact (.summary { s with params := ⟨[.ptr loc], []⟩ })
    else if up = i then .value (s.params.ptrs.headD .null)
    else Heap.unknownField f

/-- A summary has a record at its root, whose fields are filled by the given contents, each
    with a part of the footprint. -/
def Summary.RootAt (structs : Structs) (ok : Record → Prop) (ν : Valuation) (m : Memory) (loc : Loc)
    (A : Finset Addr) (ty : StructId) (cs : List Content) : Prop :=
  ∃ (a : Addr) (r : Record) (qs : List (Datum × Finset Addr)),
    ν loc = some a ∧ m.lookup a = some r ∧ r.ty = ty ∧ a ∈ A ∧ qs.map Prod.fst = r.fields ∧
      List.Forall₂ (fun c q => c.Holds structs ok ν m q.1 q.2) cs qs ∧
      qs.Pairwise (fun q q' => Disjoint q.2 q'.2) ∧ ∀ q ∈ qs, q.2 ⊆ A ∧ a ∉ q.2

/-- A summary is empty: its root is null, or the hole of a segment. -/
def Summary.Empty (ν : Valuation) (loc : Loc) (s : Summary) : Prop :=
  match s.hole with
  | none => ν loc = none
  | some o => ν.Holds o.value (.pointer (ν loc))

theorem unknownField_holds {f : FieldDecl} (h : d.OfType f.ty) :
    (Heap.unknownField f).Holds structs ok ν m d ∅ := by
  obtain ⟨name, ty⟩ := f
  cases ty with
  | int => exact ⟨h, rfl⟩
  | ptr target => exact ⟨h, rfl⟩

theorem Datum.addr_of_pointer {p : Option Addr} {a : Addr} (h : Datum.addr a = .pointer p) :
    p = some a := by
  cases p with
  | none => cases h
  | some b => cases h; rfl

theorem Datum.null_of_pointer {p : Option Addr} (h : Datum.null = .pointer p) : p = none := by
  cases p with
  | none => rfl
  | some b => cases h

theorem Valuation.Holds.pointer {v : Value} (hv : v ≠ .int) (h : ν.Holds v d) : ∃ p, d = .pointer p := by
  cases v with
  | null => exact ⟨none, h⟩
  | ptr l => exact ⟨ν l, h⟩
  | int => exact absurd rfl hv

theorem Hole.StopsAt.congr {ν' : Valuation} {o : Option Hole} (h : Hole.StopsAt ν o d)
    (hν : ∀ q, o = some q → ∀ k, q.value = .ptr k → ν' k = ν k) : Hole.StopsAt ν' o d := by
  cases o with
  | none => exact h
  | some q => exact Valuation.Holds.congr h (hν q rfl)

theorem Memory.Chain.pointer {node : Record → Prop} {next : Nat} {stop : Datum}
    (hstop : ∃ p, stop = .pointer p) (h : m.Chain node next stop d A) : ∃ p, d = .pointer p := by
  cases h with
  | nil => exact hstop
  | @cons a => exact ⟨some a, rfl⟩

theorem Memory.Tree.pointer {node : Record → Prop} {left right up : Nat} {parent : Datum}
    (h : m.Tree node left right up none parent d A) : ∃ p, d = .pointer p := by
  generalize ho : (none : Option (Datum × Datum)) = o at h
  cases h with
  | empty => exact ⟨none, rfl⟩
  | hole => cases ho
  | @node a => exact ⟨some a, rfl⟩

theorem forall₂_mapIdx {α β γ δ : Type} {R : α → β → Prop} {S : γ → δ → Prop} {l : List α}
    {k : List β} {f : Nat → α → γ} {g : Nat → β → δ} (h : List.Forall₂ R l k)
    (hS : ∀ i a b, k[i]? = some b → R a b → S (f i a) (g i b)) :
    List.Forall₂ S (l.mapIdx f) (k.mapIdx g) := by
  induction h generalizing f g with
  | nil => exact .nil
  | cons hab _ ih =>
    rw [mapIdx_cons, mapIdx_cons]
    exact .cons (hS 0 _ _ rfl hab) (ih fun i a b hb => hS (i + 1) a b hb)

/-- The part of a footprint that a field has, by a table of the fields that have one. -/
def footAt : List (Nat × Finset Addr) → Nat → Finset Addr
  | [], _ => ∅
  | (j, B) :: parts, i => if i = j then B else footAt parts i

theorem footAt_holds {parts : List (Nat × Finset Addr)} {P : Finset Addr → Prop} (hempty : P ∅)
    (h : ∀ p ∈ parts, P p.2) (i : Nat) : P (footAt parts i) := by
  induction parts with
  | nil => exact hempty
  | cons p parts ih =>
    obtain ⟨hp, hparts⟩ := forall_mem_cons.1 h
    rw [footAt]
    split
    · exact hp
    · exact ih hparts

theorem disjoint_footAt {parts : List (Nat × Finset Addr)} {i j : Nat}
    (h : parts.Pairwise fun p q => Disjoint p.2 q.2) (hij : i ≠ j) :
    Disjoint (footAt parts i) (footAt parts j) := by
  induction parts with
  | nil => exact Finset.disjoint_empty_left _
  | cons p parts ih =>
    obtain ⟨hp, hparts⟩ := pairwise_cons.1 h
    have hfirst (k : Nat) : Disjoint p.2 (footAt parts k) :=
      footAt_holds (Finset.disjoint_empty_right _) hp k
    rw [footAt, footAt]
    by_cases hi : i = p.1
    · rw [if_pos hi, if_neg fun hj => hij (hi.trans hj.symm)]
      exact hfirst j
    · rw [if_neg hi]
      split
      · exact (hfirst i).symm
      · exact ih hparts

/-- The contents of the fields of a record, each with its part of a footprint. -/
theorem Summary.rootAt_of_fields {a : Addr} {r : Record} {ty : StructId}
    {content : Nat → FieldDecl → Content} (parts : List (Nat × Finset Addr)) (ha : ν loc = some a)
    (hr : m.lookup a = some r) (hty : r.ty = ty)
    (hfit : List.Forall₂ (fun f d => d.OfType f.ty) decl.fields r.fields)
    (hcontent : ∀ i f d, r.fields[i]? = some d → d.OfType f.ty →
      (content i f).Holds structs ok ν m d (footAt parts i))
    (hmem : a ∈ A) (hparts : ∀ p ∈ parts, p.2 ⊆ A ∧ a ∉ p.2)
    (hdisj : parts.Pairwise fun p q => Disjoint p.2 q.2) :
    RootAt structs ok ν m loc A ty (decl.fields.mapIdx content) := by
  refine ⟨a, r, r.fields.mapIdx fun i d => (d, footAt parts i), ha, hr, hty, hmem, ?_, ?_, ?_, ?_⟩
  · exact ext_getElem (by simp) fun i _ _ => by simp
  · exact forall₂_mapIdx hfit fun i f d hd => hcontent i f d hd
  · rw [pairwise_iff_getElem]
    intro i j hi hj hij
    rw [getElem_mapIdx, getElem_mapIdx]
    exact disjoint_footAt hdisj (Nat.ne_of_lt hij)
  · intro q hq
    obtain ⟨i, hi, rfl⟩ := mem_mapIdx.1 hq
    exact footAt_holds (P := fun B => B ⊆ A ∧ a ∉ B) ⟨Finset.empty_subset A, Finset.notMem_empty a⟩ hparts i

/-! ### Lists -/

/-- A list that holds of memory is empty or has a record at its root. -/
theorem Summary.Plain.cases_list {next : Nat} (hp : s.Plain structs) (hpred : s.pred = .list)
    (hdecl : structs.decl? s.ty = some decl)
    (hlay : Predicate.list.layout? structs s.ty = some ⟨[next], none, [], []⟩)
    (h : s.Holds structs (Record.Fits structs) ν m loc A) : s.Empty ν loc ∨
      RootAt structs (Record.Fits structs) ν m loc A s.ty (s.listContents decl next) := by
  obtain ⟨stop, hstop, hchain⟩ := (holds_list hpred hlay).1 h
  have hptr : ∃ p, stop = .pointer p := by
    cases ho : s.hole with
    | none =>
      rw [ho] at hstop
      exact ⟨none, hstop⟩
    | some o =>
      rw [ho] at hstop
      exact Valuation.Holds.pointer (hp.hole o ho).1 hstop
  generalize hroot : Datum.pointer (ν loc) = root at hchain
  cases hchain with
  | nil =>
    refine .inl ?_
    rw [Empty]
    cases ho : s.hole with
    | none =>
      rw [ho, Hole.StopsAt, ← hroot] at hstop
      exact Datum.null_of_pointer hstop.symm
    | some o =>
      rw [ho, ← hroot] at hstop
      exact hstop
  | @cons a r d B hr hnode hd ha htail =>
    obtain ⟨hty, decl', hdecl', hfit⟩ := hnode
    rw [hty, hdecl] at hdecl'
    cases hdecl'
    refine .inr (rootAt_of_fields [(next, B)] (Datum.addr_of_pointer hroot.symm) hr hty hfit
      (fun i f e he hof => ?_) (Finset.mem_insert_self a B)
      (forall_mem_singleton.2 ⟨Finset.subset_insert a B, ha⟩) (pairwise_singleton _ _))
    rw [footAt]
    by_cases hi : i = next
    · -- The rest of the chain, from wherever the new location is.
      subst hi
      rw [hd] at he
      cases he
      rw [if_pos rfl, if_pos rfl]
      obtain ⟨p, rfl⟩ := htail.pointer hptr
      refine ⟨p, rfl, fun ν' k hν hk => ?_⟩
      refine (holds_list (s := { s with params := .none }) hpred hlay).2 ⟨stop, ?_, hk ▸ htail⟩
      exact hstop.congr fun o ho => hν _ (Fact.mem_values_of_hole ho (.head _))
    · rw [if_neg hi, if_neg hi]
      exact unknownField_holds hof

/-! ### Trees -/

/-- A full tree that holds of memory is empty or has a record at its root. -/
theorem Summary.Plain.cases_tree {left right up : Nat} {π : Value} (hpred : s.pred = .tree)
    (hhole : s.hole = none) (hparams : s.params = ⟨[π], []⟩) (hdecl : structs.decl? s.ty = some decl)
    (hnodup : [left, right, up].Nodup)
    (hlay : Predicate.tree.layout? structs s.ty = some ⟨[left, right], some up, [], []⟩)
    (h : s.Holds structs (Record.Fits structs) ν m loc A) : s.Empty ν loc ∨
      RootAt structs (Record.Fits structs) ν m loc A s.ty (s.treeContents loc decl left right up) := by
  obtain ⟨q, parent, hq, hparent, htree⟩ := (holds_tree hpred hlay).1 h
  rw [hhole] at hq
  cases (show q = none from hq)
  rw [hparams] at hparent
  obtain _ | ⟨hπ, -⟩ := hparent
  generalize hroot : Datum.pointer (ν loc) = root at htree
  generalize ho : (none : Option (Datum × Datum)) = o at htree
  cases htree with
  | empty =>
    refine .inl ?_
    rw [Empty, hhole]
    exact Datum.null_of_pointer hroot.symm
  | hole => cases ho
  | @node a r _ d e o₁ o₂ B C hr hnode hd he hup ho' ha hBC hl hr' =>
    have hnone : o₁ = none ∧ o₂ = none := Option.or_eq_none_iff.1 ho.symm
    rw [hnone.1] at hl
    rw [hnone.2] at hr'
    obtain ⟨hty, decl', hdecl', hfit⟩ := hnode
    rw [hty, hdecl] at hdecl'
    cases hdecl'
    have ha' : ν loc = some a := Datum.addr_of_pointer hroot.symm
    simp only [nodup_cons, mem_cons, not_mem_nil, or_false, not_or] at hnodup
    rw [Finset.mem_union, not_or] at ha
    -- A tree below the root, from wherever the new location is.
    have child {d : Datum} {D : Finset Addr}
        (ht : m.Tree (Record.IsOf (Record.Fits structs) s.ty) left right up none (.addr a) d D) :
        (Content.fact (.summary { s with params := ⟨[.ptr loc], []⟩ })).Holds structs
          (Record.Fits structs) ν m d D := by
      obtain ⟨p, rfl⟩ := ht.pointer
      refine ⟨p, rfl, fun ν' k hν hk => ?_⟩
      refine (holds_tree (s := { s with params := ⟨[.ptr loc], []⟩ }) hpred hlay).2
        ⟨none, .addr a, by rw [hhole]; rfl, .cons ?_ .nil, hk ▸ ht⟩
      show Datum.addr a = .pointer (ν' loc)
      rw [hν (.ptr loc) (Fact.mem_values_of_param (mem_singleton_self _)) loc rfl, ha']
      rfl
    have hparts : ∀ p ∈ [(left, B), (right, C)], p.2 ⊆ insert a (B ∪ C) ∧ a ∉ p.2 :=
      forall_mem_cons.2 ⟨⟨Finset.subset_union_left.trans (Finset.subset_insert a _), ha.1⟩,
        forall_mem_singleton.2 ⟨Finset.subset_union_right.trans (Finset.subset_insert a _), ha.2⟩⟩
    refine .inr (rootAt_of_fields _ ha' hr hty hfit (fun i f e' he' hof => ?_)
      (Finset.mem_insert_self a _) hparts (pairwise_pair.2 hBC))
    rw [footAt, footAt]
    by_cases hi : i = left
    · subst hi
      rw [hd] at he'
      cases he'
      rw [if_pos rfl, if_pos (Or.inl rfl)]
      exact child hl
    · by_cases hi' : i = right
      · subst hi'
        rw [he] at he'
        cases he'
        rw [if_neg hi, if_pos rfl, if_pos (Or.inr rfl)]
        exact child hr'
      · rw [if_neg hi, if_neg hi', if_neg (not_or.2 ⟨hi, hi'⟩)]
        by_cases hi'' : up = i
        · subst hi''
          rw [hup] at he'
          cases he'
          rw [if_pos rfl, hparams]
          exact ⟨hπ, rfl⟩
        · rw [if_neg hi'']
          exact unknownField_holds hof

/-! ### The unfolded heap -/

namespace Heap

variable {h : Heap}

/-- A cell in the place of a fact, with new locations for its fields. -/
def unfolded (h : Heap) (loc : Loc) (ty : StructId) (cs : List Content) : Heap :=
  (h.grow cs).2.write loc (.occupied (.cell ⟨ty, (h.grow cs).1⟩))

theorem unfold_list {decl : StructDecl} {next : Nat} (hs : h.slot loc = .occupied (.summary s))
    (hpred : s.pred = .list) (hdecl : structs.decl? s.ty = some decl)
    (hlay : Predicate.list.layout? structs s.ty = some ⟨[next], none, [], []⟩) :
    h.unfold structs loc = .ok [h.unfolded loc s.ty (s.listContents decl next)] := by
  obtain ⟨pred, ty, params, hole⟩ := s
  cases hpred
  have hcontent (way : Option Nat) (hway : hole = none ∨ way = some next) :
      (Summary.content ⟨.list, ty, params, hole⟩ ⟨[next], none, [], []⟩ ⟨.none, .none, none⟩ way) =
        fun i f => if i = next then .fact (.summary ⟨.list, ty, .none, hole⟩) else unknownField f := by
    funext i f
    rw [Summary.content, Layout.part_list]
    by_cases hi : i = next
    · subst hi
      rw [if_pos rfl, if_pos rfl]
      rcases hway with rfl | rfl
      · simp only [ite_self]
      · simp only [if_true]
    · rw [if_neg hi, if_neg hi]
  rw [unfold, summary?_of_slot hs]
  simp only [hdecl, hlay]
  cases hole with
  | none | some o => simp [Summary.ways, Summary.isSegment, unfoldCase, Predicate.step, hcontent, unfolded,
      Summary.listContents]

theorem unfold_tree {decl : StructDecl} {left right up : Nat}
    (hs : h.slot loc = .occupied (.summary s)) (hpred : s.pred = .tree) (hhole : s.hole = none)
    (hdecl : structs.decl? s.ty = some decl)
    (hlay : Predicate.tree.layout? structs s.ty = some ⟨[left, right], some up, [], []⟩) :
    h.unfold structs loc = .ok [h.unfolded loc s.ty (s.treeContents loc decl left right up)] := by
  obtain ⟨pred, ty, params, hole⟩ := s
  cases hpred
  cases hhole
  have hcontent : (Summary.content ⟨.tree, ty, params, none⟩ ⟨[left, right], some up, [], []⟩
      ⟨⟨[.ptr loc], []⟩, .none, none⟩ none) = fun i f =>
        if i = left ∨ i = right then .fact (.summary ⟨.tree, ty, ⟨[.ptr loc], []⟩, none⟩)
        else if up = i then .value (params.ptrs.headD .null) else unknownField f := by
    funext i f
    rw [Summary.content, Layout.part_tree]
    by_cases hi : i = left ∨ i = right
    · rw [if_pos hi, if_pos hi]
      simp only [ite_self]
    · rw [if_neg hi, if_neg hi]
      by_cases hu : up = i
      · rw [if_pos hu, if_pos hu]
      · rw [if_neg hu, if_neg hu]
  rw [unfold, summary?_of_slot hs]
  simp only [hdecl, hlay]
  simp [Summary.ways, Summary.isSegment, unfoldCase, Predicate.step, hcontent, unfolded,
    Summary.treeContents]

theorem unknownField_values {f : FieldDecl} {v : Value} {k : Loc} (hv : v ∈ (unknownField f).values) :
    v ≠ .ptr k := by
  obtain ⟨name, ty⟩ := f
  cases ty with
  | int =>
    cases mem_singleton.1 hv
    exact nofun
  | ptr target => exact absurd hv not_mem_nil

theorem unknownField_ne_fact (f : FieldDecl) (g : Fact) : unknownField f ≠ .fact g := by
  obtain ⟨name, _ | _⟩ := f <;> exact nofun

/-- A plain summary unfolds in one way. The new facts are plain again, and mention nothing but
    the root and what the summary mentions. -/
theorem unfold_plain (hs : h.slot loc = .occupied (.summary s)) (hp : s.Plain structs) :
    ∃ cs, h.unfold structs loc = .ok [h.unfolded loc s.ty cs] ∧
      (∀ f, .fact f ∈ cs → f.Plain structs) ∧
      (∀ c ∈ cs, ∀ v ∈ c.values, ∀ k, v = .ptr k → k = loc ∨ v ∈ (Fact.summary s).values) ∧
      ∀ ν m A, s.Holds structs (Record.Fits structs) ν m loc A →
        s.Empty ν loc ∨ Summary.RootAt structs (Record.Fits structs) ν m loc A s.ty cs := by
  -- Both kinds of summary unfold into one cell, and its fields mention only the root and what
  -- the summary mentions.
  rcases hp.layout_cases with ⟨hpred, hparams, decl, next, hdecl, hlay⟩ |
    ⟨hpred, hhole, ⟨π, hparams⟩, decl, left, right, up, hdecl, hnodup, hlay⟩
  · refine ⟨_, unfold_list hs hpred hdecl hlay, fun f hf => ?_, fun c hc v hv k hk => ?_,
      fun ν m A => hp.cases_list hpred hdecl hlay⟩
    · obtain ⟨i, hi, he⟩ := mem_mapIdx.1 hf
      split at he
      · cases he
        rw [← hparams]
        exact hp
      · exact absurd he (unknownField_ne_fact _ _)
    · obtain ⟨i, hi, rfl⟩ := mem_mapIdx.1 hc
      split at hv
      · rw [← hparams] at hv
        exact .inr hv
      · exact absurd hk (unknownField_values hv)
  · refine ⟨_, unfold_tree hs hpred hhole hdecl hlay, fun f hf => ?_, fun c hc v hv k hk => ?_,
      fun ν m A => Summary.Plain.cases_tree hpred hhole hparams hdecl hnodup hlay⟩
    · obtain ⟨i, hi, he⟩ := mem_mapIdx.1 hf
      split at he
      · cases he
        refine ⟨⟨.inr hpred, hp.layout, ?_, rfl, hp.hole⟩, hp.full⟩
        rw [hpred]
        rfl
      · split at he
        · cases he
        · exact absurd he (unknownField_ne_fact _ _)
    · obtain ⟨i, hi, rfl⟩ := mem_mapIdx.1 hc
      split at hv
      · simp only [Content.values, Fact.values, hhole, Option.toList_none, flatMap_nil,
          append_nil, mem_singleton] at hv
        rw [hv] at hk
        cases hk
        exact .inl rfl
      · split at hv
        · cases mem_singleton.1 hv
          refine .inr (Fact.mem_values_of_param ?_)
          rw [hparams]
          exact mem_singleton_self π
        · exact absurd hk (unknownField_values hv)

variable {cs : List Content} {ty : StructId} {foot : Loc → Finset Addr}

theorem size_le_unfolded (h : Heap) (loc : Loc) (ty : StructId) (cs : List Content) :
    h.size ≤ (h.unfolded loc ty cs).size := by
  rw [unfolded, size_write]
  exact size_le_grow h cs

theorem slot_unfolded_self (hl : loc.index < h.size) :
    (h.unfolded loc ty cs).slot loc = .occupied (.cell ⟨ty, (h.grow cs).1⟩) :=
  slot_write_self (hl.trans_le (size_le_grow h cs)) _

/-- A location of an unfolded heap other than the root has the fact that it had, or a new one. -/
theorem occupied_unfolded_cases {k : Loc} {f : Fact} (hf : (h.unfolded loc ty cs).slot k = .occupied f) :
    f = .cell ⟨ty, (h.grow cs).1⟩ ∨ h.slot k = .occupied f ∨ .fact f ∈ cs := by
  obtain ⟨-, he⟩ | ⟨-, hf⟩ := occupied_write_cases hf
  · exact .inl (Arena.Slot.occupied.inj he).symm
  · exact .inr (occupied_grow_cases hf)

theorem Closed.unfolded (hc : h.Closed) (hcs : ∀ c ∈ cs, ∀ v ∈ c.values, h.Knows v) :
    (h.unfolded loc ty cs).Closed := (hc.grow hcs).write (knows_grow hcs)

/-- Each heap that a summary of any predicate unfolds into has a cell at the root. -/
theorem unfold_cases {heaps : List Heap} {h' : Heap} (hu : h.unfold structs loc = .ok heaps)
    (hmem : h' ∈ heaps) : ∃ s decl layout way sets step,
      h.slot loc = .occupied (.summary s) ∧ structs.decl? s.ty = some decl ∧
      s.pred.layout? structs s.ty = some layout ∧ way ∈ s.ways layout ∧
      s.pred.step loc s.params h.sets = (sets, some step) ∧
      h' = ({ h with sets } : Heap).unfolded loc s.ty (decl.fields.mapIdx (s.content layout step way)) := by
  rw [unfold] at hu
  split at hu
  · cases hu
  · rename_i s hs
    split at hu
    · rename_i decl layout hdecl hlay
      cases hu
      obtain ⟨way, hway, hcase⟩ := mem_filterMap.1 hmem
      rw [unfoldCase] at hcase
      rcases hstep : s.pred.step loc s.params h.sets with ⟨sets, _ | step⟩
      · rw [hstep] at hcase
        cases hcase
      · rw [hstep] at hcase
        cases hcase
        exact ⟨s, decl, layout, way, sets, step, slot_of_summary? hs, hdecl, hlay, hway, hstep, rfl⟩
    · cases hu

/-- If there is a record at the root, and no other fact has a part of the footprint, the
    unfolded heap describes memory. -/
theorem Describes.unfolded (hd : h.Describes structs ok ν m foot) (hc : h.Closed)
    (hl : loc.index < h.size) (hcs : ∀ c ∈ cs, ∀ v ∈ c.values, h.Knows v)
    (hroot : Summary.RootAt structs ok ν m loc A ty cs)
    (hA : ∀ k f, k ≠ loc → h.slot k = .occupied f → Disjoint (foot k) A) :
    ∃ ν' foot', (∀ k, k.index < h.size → ν' k = ν k) ∧
      (h.unfolded loc ty cs).Describes structs ok ν' m foot' := by
  obtain ⟨a, r, qs, ha, hr, hty, hmem, hfields, hholds, hdisj, hpart⟩ := hroot
  have old {k : Loc} {g : Fact} (hg : (h.write loc .vacant).slot k = .occupied g) :
      Disjoint (foot k) A :=
    hA k g (of_occupied_write rfl hg).1 (of_occupied_write rfl hg).2
  -- The new locations are added to the heap without the fact, whose footprint they share out.
  obtain ⟨ν', foot', hext, hd', hvals, hnew⟩ := (hd.vacate loc).grow (hc.empty loc rfl) hholds
    (fun c hcm v hv => (hcs c hcm v hv).mono (size_write _).ge) hdisj
    fun k g hg q hq => (old hg).mono_right (hpart q hq).1
  rw [grow_write hl] at hd' hvals hnew
  have hcell : (Fact.cell ⟨ty, (h.grow cs).1⟩).Holds structs ok ν' m loc {a} :=
    ⟨a, r, (hext loc (by rwa [size_write])).1.trans ha, hr, hty, hfields ▸ hvals, rfl⟩
  have hl' : loc.index < ((h.grow cs).2.write loc .vacant).size := by
    rw [size_write]
    exact hl.trans_le (size_le_grow h cs)
  have hd'' := hd'.write hl' hcell fun k g hk hg => by
    rw [Finset.disjoint_singleton_right]
    by_cases hlt : k.index < (h.write loc .vacant).size
    · have hg' : (h.write loc .vacant).slot k = .occupied g := by
        rw [← hg, slot_write_of_ne hk, slot_write_of_ne hk, slot_grow_of_lt (size_write (h := h) _ ▸ hlt)]
      rw [(hext k hlt).2]
      exact fun hak => Finset.disjoint_left.1 (old hg') hak hmem
    · obtain ⟨q, hq, he⟩ := hnew k g hg (Nat.not_lt.1 hlt)
      rw [he]
      exact (hpart q hq).2
  rw [write_write] at hd''
  exact ⟨ν', _, fun k hk => (hext k (by rwa [size_write])).1, hd''⟩

end Heap

end HeapShape
