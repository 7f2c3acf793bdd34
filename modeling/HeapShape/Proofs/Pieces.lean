import HeapShape.Proofs.Description

/-!
# Pieces of lists and trees

A list and a tree differ in which fields lead on, and in whether a record points back. What
is said here is said of both at once, in terms of the *shape* of the structure.

A *position* is a pointer together with the parameters that an instance there has. A *piece*
is a part of a structure that starts at a position and has at most one open end, at another
position; a *forest* is some separate pieces that together have at most one open end. Pieces
are put together in two ways: a record goes on top of a forest, and a piece fills the open
end of another.

* `Shape.Piece.record`, `Shape.Piece.plug`: the two ways to put pieces together;
* `Summary.holds_iff_piece`: a summary holds of memory if there is such a piece;
* `Summary.Holds.plug`: what stands at the hole of a segment may become a part of it.
-/

namespace HeapShape

/-! ### Shapes -/

/-- The fields of a list, or of a tree. -/
inductive Shape where
  /-- A list: the field that leads on. -/
  | list (next : Nat)
  /-- A tree: the fields that lead on, and the field that points back. -/
  | tree (left right up : Nat)

namespace Shape

/-- The predicate for a shape. -/
def pred : Shape → Predicate
  | list _ => .list
  | tree .. => .tree

/-- The layout of a structure of a shape. -/
def layout : Shape → Layout
  | list next => ⟨[next], none, [], []⟩
  | tree left right up => ⟨[left, right], some up, [], []⟩

/-- The fields that a shape speaks of. -/
def places : Shape → List Nat
  | list next => [next]
  | tree left right up => [left, right, up]

/-- Structures for lists and trees have a shape. -/
theorem exists_of_layout {structs : Structs} {p : Predicate} {ty : StructId} {l : Layout}
    (hp : p = .list ∨ p = .tree) (hl : p.layout? structs ty = some l) :
    ∃ shape : Shape, p = shape.pred ∧ l = shape.layout ∧ ∃ decl, structs.decl? ty = some decl ∧
      decl.PointersAt ty shape.places := by
  rcases hp with rfl | rfl
  · obtain ⟨decl, next, hdecl, rfl, hat⟩ := Predicate.layout?_list hl
    exact ⟨.list next, rfl, rfl, decl, hdecl, hat⟩
  · obtain ⟨decl, left, right, up, hdecl, rfl, -, hat⟩ := Predicate.layout?_tree hl
    exact ⟨.tree left right up, rfl, rfl, decl, hdecl, hat⟩

theorem kind (shape : Shape) : shape.pred = .list ∨ shape.pred = .tree := by
  rcases shape with _ | _
  · exact .inl rfl
  · exact .inr rfl

theorem eq_of_layout {shape shape' : Shape} (h : shape.layout = shape'.layout) : shape = shape' := by
  cases shape <;> cases shape' <;> cases h <;> rfl

/-- The fields that a shape speaks of are the pointer fields of a structure of this shape. -/
theorem pointersAt_of_layout {structs : Structs} {shape : Shape} {ty : StructId}
    (hl : shape.pred.layout? structs ty = some shape.layout) :
    ∃ decl, structs.decl? ty = some decl ∧ decl.PointersAt ty shape.places := by
  obtain ⟨shape', -, he, decl, hdecl, hat⟩ := exists_of_layout shape.kind hl
  exact ⟨decl, hdecl, eq_of_layout he ▸ hat⟩

end Shape

/-! ### Putting chains and trees together -/

namespace Memory

variable {m : Memory} {node : Record → Prop}

/-- A chain that stops where another one starts goes on with it. -/
theorem Chain.append {next : Nat} {stop mid d : Datum} {A B : Finset Addr}
    (h : m.Chain node next mid d A) (h' : m.Chain node next stop mid B) (hAB : Disjoint A B) :
    m.Chain node next stop d (A ∪ B) := by
  induction h with
  | nil => rwa [Finset.empty_union]
  | @cons a r d A hr hnode hd ha tail ih =>
    obtain ⟨haB, hAB⟩ := Finset.disjoint_insert_left.1 hAB
    rw [Finset.insert_union]
    exact .cons hr hnode hd (Finset.notMem_union.2 ⟨ha, haB⟩) (ih hAB)

/-- A tree with an open position may have another one there. -/
theorem Tree.fill {left right up : Nat} {o q : Option (Datum × Datum)} {e parent' : Datum}
    {parent d : Datum} {A B : Finset Addr} (h : m.Tree node left right up q parent d A)
    (hq : q = some (e, parent')) (h' : m.Tree node left right up o parent' e B)
    (hAB : Disjoint A B) : m.Tree node left right up o parent d (A ∪ B) := by
  induction h with
  | empty => cases hq
  | hole =>
    cases hq
    rwa [Finset.empty_union]
  | @node a r parent d d' o₁ o₂ A₁ A₂ hr hnode hd hd' hup ho ha hdisj ltree rtree ihl ihr =>
    obtain ⟨haB, hAB⟩ := Finset.disjoint_insert_left.1 hAB
    obtain ⟨h₁, h₂⟩ := Finset.disjoint_union_left.1 hAB
    obtain ⟨ha₁, ha₂⟩ := Finset.notMem_union.1 ha
    rw [Finset.insert_union]
    -- The open position is in one of the two subtrees, and the other one stays as it is.
    rcases ho with rfl | rfl
    · rw [Option.none_or] at hq
      have hfull := Tree.node (o := none) hr hnode hd hd' hup (.inl rfl) (A := A₁) (B := A₂ ∪ B)
        (by simp [ha₁, ha₂, haB]) (Finset.disjoint_union_right.2 ⟨hdisj, h₁⟩) ltree (ihr hq h₂)
      rwa [Option.none_or, ← Finset.union_assoc] at hfull
    · rw [Option.or_none] at hq
      have hfull := Tree.node hr hnode hd hd' hup (.inr rfl) (A := A₁ ∪ B) (B := A₂)
        (by simp [ha₁, ha₂, haB]) (Finset.disjoint_union_left.2 ⟨hdisj, h₂.symm⟩) (ihl hq h₁) rtree
      rwa [Option.or_none, Finset.union_right_comm] at hfull

end Memory

/-! ### Pieces -/

/-- A pointer, and the parameters of an instance there. -/
abbrev Position := Datum × List Datum

namespace Shape

section

variable (m : Memory) (node : Record → Prop) (shape : Shape)

/-- A piece of a structure that starts at a position. If it has an open end, the position
    there is told. -/
def Piece (o : Option Position) (p : Position) (A : Finset Addr) : Prop :=
  match shape with
  | .list next => p.2 = [] ∧ ∃ stop, o.getD (.null, []) = (stop, []) ∧ m.Chain node next stop p.1 A
  | .tree left right up => ∃ q parent, o = q.map (fun e => (e.1, [e.2])) ∧ p.2 = [parent] ∧
      m.Tree node left right up q parent p.1 A

/-- Separate pieces that start at some positions and have at most one open end. -/
inductive Forest : Option Position → List Position → Finset Addr → Prop
  /-- No pieces. -/
  | nil : Forest none [] ∅
  /-- One piece more. -/
  | cons {o o' : Option Position} {p : Position} {ps : List Position} {A B : Finset Addr}
      (head : shape.Piece m node o p A) (tail : Forest o' ps B) (hAB : Disjoint A B)
      (ho : o = none ∨ o' = none) : Forest (o.or o') (p :: ps) (A ∪ B)

/-- The positions where a record at an address leads, where it is the root of an instance
    with some parameters. -/
def Leads (a : Addr) (r : Record) (ps : List Datum) (qs : List Position) : Prop :=
  match shape with
  | .list next => ps = [] ∧ ∃ d, r.fields[next]? = some d ∧ qs = [(d, [])]
  | .tree left right up => ∃ d e parent, r.fields[left]? = some d ∧ r.fields[right]? = some e ∧
      r.fields[up]? = some parent ∧ ps = [parent] ∧ qs = [(d, [.addr a]), (e, [.addr a])]

end

variable {m : Memory} {node : Record → Prop} {shape : Shape} {ps : List Datum} {p : Position}
  {o : Option Position} {A : Finset Addr}

/-- Null is a piece without records. -/
theorem Piece.null (hps : ps.length = shape.pred.signature.ptrArity) :
    shape.Piece m node none (.null, ps) ∅ := by
  cases shape with
  | list next => exact ⟨List.eq_nil_of_length_eq_zero hps, .null, rfl, .nil⟩
  | tree left right up =>
    obtain ⟨parent, rfl⟩ := List.length_eq_one_iff.1 hps
    exact ⟨none, parent, rfl, rfl, .empty⟩

/-- An open end is a piece without records. -/
theorem Piece.gap (hp : p.2.length = shape.pred.signature.ptrArity) :
    shape.Piece m node (some p) p ∅ := by
  obtain ⟨d, ps⟩ := p
  cases shape with
  | list next =>
    have hps : ps = [] := List.eq_nil_of_length_eq_zero hp
    subst hps
    exact ⟨rfl, d, rfl, .nil⟩
  | tree left right up =>
    obtain ⟨parent, hps⟩ := List.length_eq_one_iff.1 hp
    cases hps
    exact ⟨some (d, parent), parent, rfl, rfl, .hole⟩

/-- What starts at the open end of a piece may become a part of it. -/
theorem Piece.plug {q : Position} {B : Finset Addr} (h : shape.Piece m node (some q) p A)
    (h' : shape.Piece m node o q B) (hAB : Disjoint A B) : shape.Piece m node o p (A ∪ B) := by
  cases shape with
  | list next =>
    obtain ⟨hp, mid, hmid, hA⟩ := h
    obtain ⟨-, stop, hstop, hB⟩ := h'
    cases hmid
    exact ⟨hp, stop, hstop, hA.append hB hAB⟩
  | tree left right up =>
    obtain ⟨_ | e, parent, he, hp, hA⟩ := h
    · cases he
    · obtain ⟨e', parent', rfl, hq, hB⟩ := h'
      cases he
      cases hq
      exact ⟨e', parent, rfl, hp, hA.fill rfl hB hAB⟩

/-- A forest of the first pieces and one of the others. -/
theorem Forest.append_inv {ps qs : List Position} (h : shape.Forest m node o (ps ++ qs) A) :
    ∃ o₁ o₂ A₁ A₂, shape.Forest m node o₁ ps A₁ ∧ shape.Forest m node o₂ qs A₂ ∧
      Disjoint A₁ A₂ ∧ (o₁ = none ∨ o₂ = none) ∧ o = o₁.or o₂ ∧ A = A₁ ∪ A₂ := by
  induction ps generalizing o A with
  | nil =>
    refine ⟨none, o, ∅, A, .nil, h, Finset.disjoint_empty_left A, .inl rfl, ?_, ?_⟩
    · rw [Option.none_or]
    · rw [Finset.empty_union]
  | cons p ps ih =>
    rcases h with _ | ⟨head, tail, hAB, ho⟩
    obtain ⟨o₁, o₂, A₁, A₂, h₁, h₂, hdisj, ho', rfl, rfl⟩ := ih tail
    obtain ⟨hA₁, hA₂⟩ := Finset.disjoint_union_right.1 hAB
    rename_i o' A'
    -- At most one piece is open: it is the head, or among the first ones, or among the others.
    refine ⟨o'.or o₁, o₂, A' ∪ A₁, A₂, .cons head h₁ hA₁ ?_, h₂, ?_, ?_, ?_, ?_⟩
    · exact ho.imp_right fun hn => (Option.or_eq_none_iff.1 hn).1
    · exact Finset.disjoint_union_left.2 ⟨hA₂, hdisj⟩
    · rcases ho with rfl | hn
      · rwa [Option.none_or]
      · exact .inr (Option.or_eq_none_iff.1 hn).2
    · rw [Option.or_assoc]
    · rw [Finset.union_assoc]

/-- A forest of one piece. -/
theorem Forest.single (h : shape.Forest m node o [p] A) : shape.Piece m node o p A := by
  rcases h with _ | ⟨head, tail, -, -⟩
  cases tail
  rwa [Option.or_none, Finset.union_empty]

/-- A record goes on top of the forest where it leads. -/
theorem Piece.record {a : Addr} {r : Record} {qs : List Position} (hr : m.lookup a = some r)
    (hnode : node r) (hl : shape.Leads a r ps qs) (hf : shape.Forest m node o qs A) (ha : a ∉ A) :
    shape.Piece m node o (.addr a, ps) (insert a A) := by
  cases shape with
  | list next =>
    obtain ⟨rfl, d, hd, rfl⟩ := hl
    obtain ⟨-, stop, hstop, hchain⟩ := hf.single
    exact ⟨rfl, stop, hstop, .cons hr hnode hd ha hchain⟩
  | tree left right up =>
    obtain ⟨d, e, parent, hd, he, hup, rfl, rfl⟩ := hl
    rcases hf with _ | ⟨hleft, hrest, hAB, ho⟩
    obtain ⟨q₁, p₁, rfl, hp₁, htree₁⟩ := hleft
    obtain ⟨q₂, p₂, rfl, hp₂, htree₂⟩ := hrest.single
    cases hp₁
    cases hp₂
    rw [Option.map_eq_none_iff, Option.map_eq_none_iff] at ho
    refine ⟨q₁.or q₂, parent, ?_, rfl, .node hr hnode hd he hup ho ha hAB htree₁ htree₂⟩
    rw [Option.map_or]

/-- There is a record at the root of a piece without an open end, unless it is null. -/
theorem Piece.root {a : Addr} (h : shape.Piece m node none (.addr a, ps) A) :
    ∃ r, m.lookup a = some r ∧ node r := by
  cases shape with
  | list next =>
    obtain ⟨-, stop, hstop, hchain⟩ := h
    cases hstop
    rcases hchain with _ | ⟨hr, hnode⟩
    exact ⟨_, hr, hnode⟩
  | tree left right up =>
    obtain ⟨_ | q, parent, hq, -, htree⟩ := h
    · generalize hd : Datum.addr a = d at htree
      generalize ho : (none : Option (Datum × Datum)) = o at htree
      cases htree with
      | empty => cases hd
      | hole => cases ho
      | node hr hnode => cases hd; exact ⟨_, hr, hnode⟩
    · cases hq

end Shape

/-! ### Summaries as pieces -/

/-- A hole can be at a position. -/
def Hole.At (ν : Valuation) (o : Hole) (p : Position) : Prop :=
  ν.Holds o.value p.1 ∧ List.Forall₂ ν.Holds o.params.ptrs p.2

variable {ν : Valuation}

/-- A chain stops at the position of a hole without parameters. -/
theorem Hole.stopsAt_iff {o : Option Hole} {stop : Datum} (ho : ∀ w, o = some w → w.params.ptrs = []) :
    Hole.StopsAt ν o stop ↔ ∃ q, Option.Rel (Hole.At ν) o q ∧ q.getD (.null, []) = (stop, []) := by
  rcases o with _ | w
  · constructor
    · intro hstop
      exact ⟨none, .none, Prod.ext (Eq.symm hstop) rfl⟩
    · rintro ⟨q, hq, hstop⟩
      cases hq
      exact (congrArg Prod.fst hstop).symm
  · have hnil := ho w rfl
    constructor
    · intro hstop
      exact ⟨some (stop, []), .some ⟨hstop, hnil ▸ .nil⟩, rfl⟩
    · rintro ⟨q, hq, hstop⟩
      rcases hq with ⟨hat⟩ | _
      cases hstop
      exact hat.1

/-- The open position of a tree is that of the hole. -/
theorem Hole.openAt_iff {o : Option Hole} {q : Option (Datum × Datum)} :
    Hole.OpenAt ν o q ↔ Option.Rel (Hole.At ν) o (q.map fun e => (e.1, [e.2])) := by
  rcases o with _ | w
  · rcases q with _ | e
    · exact ⟨fun _ => .none, fun _ => rfl⟩
    · exact ⟨fun h => (Option.some_ne_none _ h).elim, fun h => by cases h⟩
  · constructor
    · rintro ⟨d, parent, hd, hparent, rfl⟩
      exact .some ⟨hd, hparent⟩
    · intro h
      rcases q with _ | e
      · cases h
      · rcases h with ⟨hat⟩ | _
        exact ⟨e.1, e.2, hat.1, hat.2, rfl⟩

/-- Pointer values can only be one list of data. -/
theorem Valuation.Holds.unique_list {vs : List Value} {ds es : List Datum} (hv : .int ∉ vs)
    (hd : List.Forall₂ ν.Holds vs ds) (he : List.Forall₂ ν.Holds vs es) : ds = es := by
  induction hd generalizing es with
  | nil => cases he; rfl
  | cons h _ ih =>
    rcases he with _ | ⟨h', he⟩
    obtain ⟨hne, hv⟩ := not_or.1 (mt List.mem_cons.2 hv)
    rw [h.unique (Ne.symm hne) h', ih hv he]

namespace Summary

variable {structs : Structs} {ok : Record → Prop} {ν : Valuation} {m : Memory} {s : Summary}
  {loc : Loc} {A : Finset Addr} {shape : Shape}

/-- A summary holds of memory if there is a piece at its root that is open where its hole is. -/
theorem holds_iff_piece (hw : s.WellFormed structs) (hp : s.pred = shape.pred)
    (hl : shape.pred.layout? structs s.ty = some shape.layout) :
    s.Holds structs ok ν m loc A ↔ ∃ ps q, List.Forall₂ ν.Holds s.params.ptrs ps ∧
      Option.Rel (Hole.At ν) s.hole q ∧
      shape.Piece m (Record.IsOf ok s.ty) q (.pointer (ν loc), ps) A := by
  have hptrs := hw.ptrs
  have hhole := hw.hole
  rw [hp] at hptrs hhole
  cases shape with
  | list next =>
    -- A list has no parameters, so the position of its hole is the pointer there.
    have hnil := List.eq_nil_of_length_eq_zero hptrs
    rw [holds_list hp hl, hnil]
    have hstops {d : Datum} : Hole.StopsAt ν s.hole d ↔ _ := Hole.stopsAt_iff fun o ho =>
      List.eq_nil_of_length_eq_zero (hhole o ho).2.2.1
    constructor
    · rintro ⟨stop, hstop, hchain⟩
      obtain ⟨q, hq, hget⟩ := hstops.1 hstop
      exact ⟨[], q, .nil, hq, rfl, stop, hget, hchain⟩
    · rintro ⟨ps, q, -, hq, -, stop, hget, hchain⟩
      exact ⟨stop, hstops.2 ⟨q, hq, hget⟩, hchain⟩
  | tree left right up =>
    rw [holds_tree hp hl]
    constructor
    · rintro ⟨q, parent, hq, hparent, htree⟩
      exact ⟨[parent], _, hparent, Hole.openAt_iff.1 hq, q, parent, rfl, rfl, htree⟩
    · rintro ⟨ps, q, hps, hq, e, parent, rfl, rfl, htree⟩
      exact ⟨e, parent, Hole.openAt_iff.2 hq, hps, htree⟩

/-- What stands at the hole of a segment and goes on as the segment does may become a part
    of it. -/
theorem Holds.plug {rest : Summary} {next : Loc} {params : Params} {B : Finset Addr}
    (hs : s.Holds structs ok ν m loc A) (hrest : rest.Holds structs ok ν m next B)
    (hw : s.WellFormed structs) (hwr : rest.WellFormed structs)
    (ho : s.hole = some ⟨.ptr next, params⟩) (hp : rest.pred = s.pred) (hty : rest.ty = s.ty)
    (hparams : rest.params = params) (hAB : Disjoint A B) :
    ({ s with hole := rest.hole } : Summary).Holds structs ok ν m loc (A ∪ B) := by
  obtain ⟨layout, hl⟩ := Option.isSome_iff_exists.1 hw.layout
  obtain ⟨shape, hshape, rfl, -⟩ := Shape.exists_of_layout hw.kind hl
  rw [hshape] at hl
  obtain ⟨ps, q, hps, hq, hpiece⟩ := (holds_iff_piece hw hshape hl).1 hs
  obtain ⟨ps', q', hps', hq', hpiece'⟩ :=
    (holds_iff_piece hwr (hp.trans hshape) (hty ▸ hl)).1 hrest
  have hw' : ({ s with hole := rest.hole } : Summary).WellFormed structs :=
    { hw with hole := fun o ho => hp ▸ hwr.hole o ho }
  refine (holds_iff_piece hw' hshape hl).2 ⟨ps, q', hps, hq', ?_⟩
  rw [ho] at hq
  rcases hq with ⟨hat⟩ | _
  -- The hole is a pointer whose parameters are no scalars, so there is one position it can be at.
  have hpos : _ = (Datum.pointer (ν next), ps') :=
    Prod.ext hat.1 (Valuation.Holds.unique_list (hw.hole _ ho).2.1 hat.2 (hparams ▸ hps'))
  rw [hpos] at hpiece
  rw [hty] at hpiece'
  exact hpiece.plug hpiece' hAB

end Summary

end HeapShape
