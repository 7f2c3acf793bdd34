import HeapShape.Proofs.Retention

/-!
# Values that are refused

Two values that are assumed to be equal are made the same, or refused. This does not look into
what is folded: null and the root of a summary are refused, and so are two locations of which
something is known. A comparison does look there, and takes two locations to be equal where both
are null. So a refusal tells that the values differ only if one of them cannot be null.

* `Heap.Apart`: the values that are refused (`State.equate_eq_none_iff`);
* `Heap.Solid`: segments lead from a value to a cell or to a freed location;
* `State.testNull_solid`: a value that is taken to be null is not solid, and solid values stay so;
* `Heap.Yields`: locations that can all be null, since their summaries can be empty
  (`Summary.Vanishing`);
* `State.exists_testNull`: a location of these can be taken to be null, and the others still can;
* `Exec.equate_refusal_iff`: two values that are refused are never equal if one of them is solid,
  and where summaries can be empty, only then.
-/

namespace HeapShape

open List

/-- A summary that can be empty. It is taken apart by the layout of its structure, a full one is
    not a graph, and the hole of a segment is a pointer, with the parameters of the root. -/
structure Summary.Vanishing (structs : Structs) (sum : Summary) : Prop where
  laid : ∃ decl layout, structs.decl? sum.ty = some decl ∧
    sum.pred.layout? structs sum.ty = some layout
  full : sum.hole = none → sum.pred ≠ .graph
  hole : ∀ o, sum.hole = some o →
    o.value ≠ .int ∧ ∀ p ∈ sum.params.ptrs.zip o.params.ptrs, p.1 = p.2

theorem Predicate.baseCase_of_ne_graph {p : Predicate} (hp : p ≠ .graph) (params : Params)
    (sets : SetStore) : p.baseCase params sets = some sets := by
  cases p
  case graph => exact absurd rfl hp
  all_goals rfl

/-- A pointer may be put in the place of a location. -/
theorem Summary.Vanishing.subst {structs : Structs} {sum : Summary} (h : sum.Vanishing structs)
    {k : Loc} {w : Value} (hw : w ≠ .int) : (sum.mapValues (·.subst k w)).Vanishing structs where
  laid := h.laid
  full hnone := h.full (Option.map_eq_none_iff.1 hnone)
  hole o ho := by
    obtain ⟨o', ho', rfl⟩ := Option.map_eq_some_iff.1 ho
    obtain ⟨hvalue, hparams⟩ := h.hole o' ho'
    refine ⟨Value.subst_ne_int hvalue hw, fun p hp => ?_⟩
    have hp : p ∈ (sum.params.ptrs.map (·.subst k w)).zip (o'.params.ptrs.map (·.subst k w)) := hp
    rw [zip_map, mem_map] at hp
    obtain ⟨q, hq, rfl⟩ := hp
    exact congrArg (Value.subst · k w) (hparams q hq)

namespace Heap

variable {structs : Structs} {h : Heap} {W : Set Loc} {a b k : Loc} {v w : Value} {sum : Summary}

/-! ### Solid values -/

/-- Segments lead from a value to a cell, or to a location that is freed. -/
def Solid (h : Heap) (v : Value) : Prop := ∃ a k, v = .ptr a ∧ h.LeadsTo a k ∧ ¬ h.Loose k

theorem not_solid_null : ¬ h.Solid .null := by
  rintro ⟨a, k, hv, -⟩
  cases hv

theorem solid_of_not_loose (ha : ¬ h.Loose a) : h.Solid (.ptr a) := ⟨a, a, rfl, .refl, ha⟩

theorem EndsAt.solid (hab : h.EndsAt a b) (hb : h.Solid (.ptr b)) : h.Solid (.ptr a) := by
  obtain ⟨b', k, he, hlead, hk⟩ := hb
  cases he
  exact ⟨a, k, rfl, .head hab hlead, hk⟩

theorem Solid.cases (ha : h.Solid (.ptr a)) :
    ¬ h.Loose a ∨ ∃ b k, h.EndsAt a b ∧ h.LeadsTo b k ∧ ¬ h.Loose k := by
  obtain ⟨a', k, he, hlead, hk⟩ := ha
  cases he
  rcases Relation.ReflTransGen.cases_head hlead with rfl | ⟨b, hab, hlead⟩
  · exact .inl hk
  · exact .inr ⟨b, k, hab, hlead, hk⟩

theorem Undetermined.not_solid (hk : h.Undetermined k) : ¬ h.Solid (.ptr k) := by
  intro hsolid
  rcases hsolid.cases with hl | ⟨b, -, ⟨sum, o, hs, -⟩, -⟩
  · exact hl (loose_of_not_settled hk.not_settled)
  · rcases hk with hk | ⟨set, ty, hk⟩
    · cases hs.symm.trans hk
    · cases hs.symm.trans hk

theorem not_solid_of_full (hs : h.slot k = .occupied (.summary sum)) (ho : sum.hole = none) :
    ¬ h.Solid (.ptr k) := by
  intro hsolid
  rcases hsolid.cases with hl | ⟨b, -, ⟨sum', o, hs', ho', -⟩, -⟩
  · exact hl (loose_of_summary hs)
  · cases hs.symm.trans hs'
    cases ho.symm.trans ho'

/-! ### Values that are refused -/

/-- The values that are refused: null and a location that is a cell, a summary or freed, and two
    locations of which something is known. -/
def Apart (h : Heap) : Value → Value → Prop
  | .null, .ptr k | .ptr k, .null => ¬ h.Undetermined k
  | .ptr j, .ptr k => j ≠ k ∧ h.slot j ≠ .vacant ∧ h.slot k ≠ .vacant
  | .null, .null | .int, .int => False
  | .int, _ | _, .int => True

/-! ### Locations that can be null -/

/-- Locations that segments do not lead out of, and that can all be null: none of them is a cell
    or freed, and their summaries can be empty. -/
structure Yields (structs : Structs) (h : Heap) (W : Set Loc) : Prop where
  next : ∀ a ∈ W, ∀ b, h.EndsAt a b → b ∈ W
  loose : ∀ a ∈ W, h.Loose a
  sums : ∀ a ∈ W, ∀ sum, h.slot a = .occupied (.summary sum) → sum.Vanishing structs

theorem Yields.of_slot {h' : Heap} (hW : h.Yields structs W) (hs : ∀ a, h'.slot a = h.slot a) :
    h'.Yields structs W where
  next a ha b := by
    rintro ⟨sum, o, hsum, ho⟩
    exact hW.next a ha b ⟨sum, o, hs a ▸ hsum, ho⟩
  loose a ha := by
    rw [Loose, hs a]
    exact hW.loose a ha
  sums a ha sum hsum := hW.sums a ha sum (hs a ▸ hsum)

theorem Yields.unfold (hW : h.Yields structs W) (ha : a ∈ W)
    (hs : h.slot a = .occupied (.summary sum)) : ∃ heaps, h.unfold structs a = .ok heaps := by
  obtain ⟨decl, layout, hdecl, hlay⟩ := (hW.sums a ha sum hs).laid
  rw [Heap.unfold, summary?_of_slot hs]
  simp only [hdecl, hlay]
  exact ⟨_, rfl⟩

/-- What segments lead to from values that are not solid. -/
theorem yields_onWay (hv : ¬ h.Solid v) (hw : ¬ h.Solid w)
    (hsums : ∀ k sum, Exec.OnWay h v w k → h.slot k = .occupied (.summary sum) →
      sum.Vanishing structs) : h.Yields structs {k | Exec.OnWay h v w k} where
  next := by
    rintro a ⟨c, hc, hca⟩ b hab
    exact ⟨c, hc, hca.tail hab⟩
  loose := by
    rintro a ⟨c, hc, hca⟩
    by_contra hl
    rcases hc with rfl | rfl
    · exact hv ⟨c, a, rfl, hca, hl⟩
    · exact hw ⟨c, a, rfl, hca, hl⟩
  sums a ha sum := hsums a sum ha

end Heap

namespace State

variable {structs : Structs} {lost : Loc → Prop} {s s' : State} {W : Set Loc} {a b loc k : Loc}
  {v w : Value} {sum : Summary} {o : Hole}

/-- Two values are refused exactly if they are apart. -/
theorem equate_eq_none_iff {a b : Value} : s.equate a b = .ok none ↔ s.heap.Apart a b := by
  -- A location next to null is refused unless it gives way to null.
  have null (k : Loc) : s.equate .null (.ptr k) = .ok none ↔ ¬ s.heap.Undetermined k := by
    have hset : (s.setNull k).map some ≠ .ok none := by
      intro h
      obtain ⟨t, -, ht⟩ := ok_of_map h
      cases ht
    rw [equate.eq_def, if_neg Value.noConfusion, Heap.Undetermined]
    dsimp only
    split
    · rename_i hk
      exact ⟨fun h => absurd h hset, fun h => absurd (.inl hk) h⟩
    · rename_i set ty hk
      exact ⟨fun h => absurd h hset, fun h => absurd (.inr ⟨set, ty, hk⟩) h⟩
    · rename_i hvacant hmember
      refine ⟨fun _ => ?_, fun _ => rfl⟩
      rintro (hk | ⟨set, ty, hk⟩)
      · exact hvacant hk
      · exact hmember set ty hk
  rcases a with _ | j | _
  · rcases b with _ | k | _
    · simp [equate, Heap.Apart]
    · exact null k
    · simp [equate, Heap.Apart]
  · rcases b with _ | k | _
    · exact null j
    · by_cases hjk : j = k
      · simp [equate, Heap.Apart, hjk]
      · by_cases hj : s.heap.slot j = .vacant <;> by_cases hk : s.heap.slot k = .vacant <;>
          simp [equate, Heap.Apart, Heap.isOpaque, hjk, hj, hk]
    · simp [equate, Heap.Apart]
  · cases b <;> simp [equate, Heap.Apart]

/-! ### Locations that give way -/

theorem loose_emptied (hne : a ≠ k) : (s.emptied k w).heap.Loose a ↔ s.heap.Loose a := by
  rw [Heap.Loose, slot_emptied, if_neg hne, Heap.Loose]
  rcases s.heap.slot a with _ | f | _
  · exact .rfl
  · rcases f with c | sum | ⟨set, ty⟩
    · simp [Arena.Slot.map, Fact.mapValues]
    · simp [Arena.Slot.map, Fact.mapValues]
    · simp [Arena.Slot.map, Fact.mapValues]
  · exact .rfl

/-- What is solid stays so if a location gives way that is not. -/
theorem solid_emptied (hk : ¬ s.heap.Solid (.ptr k)) (hv : s.heap.Solid v) :
    (s.emptied k w).heap.Solid v := by
  obtain ⟨a, c, rfl, hlead, hc⟩ := hv
  -- All locations on the way to the cell are solid, so none of them is the one that gives way.
  have hne {l : Loc} (hl : s.heap.LeadsTo l c) : l ≠ k := by
    rintro rfl
    exact hk ⟨l, c, rfl, hl, hc⟩
  induction hlead using Relation.ReflTransGen.head_induction_on with
  | refl => exact Heap.solid_of_not_loose (mt (loose_emptied (hne .refl)).1 hc)
  | head hab hbc ih =>
    exact (Heap.endsAt_emptied.2 ⟨hne (.head hab hbc), .inr ⟨hab, hne hbc⟩⟩).solid ih

theorem solid_equateAll {l : List (Value × Value)} (h : s.equateAll l = .ok (some s'))
    (hv : s.heap.Solid v) : s'.heap.Solid v := by
  induction l generalizing s with
  | nil =>
    cases h
    exact hv
  | cons p l ih =>
    obtain ⟨s₁, he, hrest⟩ := equateAll_cons h
    rcases equate_replaces he with rfl | ⟨k, w, rfl, hk, -⟩
    · exact ih hrest hv
    · exact ih hrest (solid_emptied hk.not_solid hv)

/-- The hole of a segment that is solid is solid where the segment is closed. -/
theorem solid_closeSegment_hole (hs : s.heap.slot loc = .occupied (.summary sum))
    (ho : sum.hole = some o) (h : s.closeSegment loc sum o = .ok (some s'))
    (hloc : s.heap.Solid (.ptr loc)) : s'.heap.Solid o.value := by
  have hloose : s.heap.Loose loc := Heap.loose_of_summary hs
  rcases hloc.cases with hl | ⟨j, k, hend, hlead, hk⟩
  · exact absurd hloose hl
  · have hne : k ≠ loc := by
      rintro rfl
      exact hk hloose
    obtain ⟨sum', o', hs', ho', hv⟩ := id hend
    cases hs.symm.trans hs'
    cases ho.symm.trans ho'
    obtain ⟨s₁, sets, he, rfl⟩ := closeSegment_eq_some h
    rw [hv] at he ⊢
    have hlead' := leadsTo_emptied hlead hne hend
    rw [ite_self] at hlead'
    have hj : (s.emptied loc (.ptr j)).heap.Solid (.ptr j) :=
      ⟨j, k, rfl, hlead', mt (loose_emptied hne).1 hk⟩
    show s₁.heap.Solid (.ptr j)
    exact solid_equateAll he hj

theorem solid_closeSegment (h : s.closeSegment loc sum o = .ok (some s'))
    (hloc : ¬ s.heap.Solid (.ptr loc)) (hv : s.heap.Solid v) : s'.heap.Solid v := by
  obtain ⟨s₁, sets, he, rfl⟩ := closeSegment_eq_some h
  show s₁.heap.Solid v
  exact solid_equateAll he (solid_emptied hloc hv)

/-- A value that is taken to be null is not solid, and what is solid stays so. -/
theorem testNull_solid (h : (s', .ok true) ∈ s.testNull structs v) :
    ¬ s.heap.Solid v ∧ ∀ u, s.heap.Solid u → s'.heap.Solid u := by
  have cells {s : State} {heaps : List Heap} :
      (s', .ok true) ∉ heaps.map fun heap =>
        (({ s with heap } : State), (.ok false : Except Defect Bool)) := by
    intro hm
    obtain ⟨heap, -, he⟩ := mem_map.1 hm
    cases he
  -- A location that is taken to be null and is no segment.
  have null {s t : State} {k : Loc} (hk : s.heap.Undetermined k) (hn : s.setNull k = .ok t)
      (h : (s', .ok true) ∈ [(t, .ok true), (s, (.ok false : Except Defect Bool))]) :
      ¬ s.heap.Solid (.ptr k) ∧ ∀ u, s.heap.Solid u → s'.heap.Solid u := by
    rcases mem_pair.1 h with he | he
    · cases he
      rw [setNull_eq_emptied hn (Heap.loose_of_not_settled hk.not_settled).1]
      exact ⟨hk.not_solid, fun u => solid_emptied hk.not_solid⟩
    · cases he
  fun_induction State.testNull structs s v with
  | case1 s =>
    cases mem_singleton.1 h
    exact ⟨Heap.not_solid_null, fun u => id⟩
  | case2 | case3 | case4 | case6 | case8 | case9 | case12 => cases mem_singleton.1 h
  | case5 s k hk t hn => exact null (.inl hk) hn h
  | case7 s k set ty hk t hn => exact null (.inr ⟨set, ty, hk⟩) hn h
  | case10 s loc sum hs heaps hu falseCells o ho closed hc ih =>
    rcases mem_append.1 h with h | h
    · -- If the root were solid, the hole, which is taken to be null, would be solid too.
      obtain ⟨hhole, hkeep⟩ := ih h
      have hloc : ¬ s.heap.Solid (.ptr loc) := fun hloc =>
        hhole (solid_closeSegment_hole hs ho hc hloc)
      exact ⟨hloc, fun u hu => hkeep u (solid_closeSegment hc hloc hu)⟩
    · exact absurd h cells
  | case11 | case14 => exact absurd h cells
  | case13 s loc sum hs heaps hu falseCells ho base hd =>
    rcases mem_cons.1 h with he | h
    · cases he
      have hloc := Heap.not_solid_of_full hs ho
      obtain ⟨sets, -, rfl⟩ := Option.map_eq_some_iff.1 hd
      exact ⟨hloc, fun u hu => solid_emptied (w := .null) hloc hu⟩
    · exact absurd h cells

/-! ### Summaries that are empty -/

theorem equateAll_of_eq {l : List (Value × Value)} (hl : ∀ p ∈ l, p.1 = p.2) :
    s.equateAll l = .ok (some s) := by
  induction l with
  | nil => rfl
  | cons p l ih =>
    have hp : s.equate p.1 p.2 = .ok (some s) := if_pos (hl p (.head _))
    show s.equate p.1 p.2 >>= _ = _
    rw [hp]
    exact ih fun q hq => hl q (.tail _ hq)

/-- A segment with the same parameters at its root and its hole is closed by putting the hole in
    the place of the root. -/
theorem closeSegment_of_vanishing (hs : s.Sound structs lost)
    (hk : s.heap.slot loc = .occupied (.summary sum)) (ho : sum.hole = some o)
    (hsum : sum.Vanishing structs) :
    ∃ sets, s.closeSegment loc sum o =
      .ok (some { s.emptied loc o.value with heap := { (s.emptied loc o.value).heap with sets } }) := by
  obtain ⟨r, hr, -⟩ := hs.closeSegment (w := .none) hk ho
  let pairs := (sum.params.ptrs.zip o.params.ptrs).map fun q =>
    (q.1.subst loc o.value, q.2.subst loc o.value)
  have hpairs : (s.emptied loc o.value).equateAll pairs = .ok (some (s.emptied loc o.value)) := by
    refine equateAll_of_eq fun p hp => ?_
    obtain ⟨q, hq, rfl⟩ := mem_map.1 hp
    exact congrArg (Value.subst · loc o.value) ((hsum.hole o ho).2 q hq)
  have hclose : s.closeSegment loc sum o =
      equateSets (s.emptied loc o.value).heap.sets (sum.params.sets.zip o.params.sets) >>= fun sets =>
        pure (some
          { s.emptied loc o.value with heap := { (s.emptied loc o.value).heap with sets } }) := by
    rw [show s.closeSegment loc sum o = (s.emptied loc o.value).equateAll pairs >>= _ from rfl, hpairs]
    rfl
  rw [hclose] at hr ⊢
  obtain ⟨sets, hsets, -⟩ := ok_of_bind hr
  rw [hsets]
  exact ⟨sets, rfl⟩

theorem yields_emptied (hW : s.heap.Yields structs W) (hw : w ≠ .int)
    (hnext : ∀ j, w = .ptr j → j ∈ W) : (s.emptied k w).heap.Yields structs W where
  next a ha b hab := by
    obtain ⟨-, ⟨-, hb⟩ | ⟨hab, -⟩⟩ := Heap.endsAt_emptied.1 hab
    · exact hnext b hb
    · exact hW.next a ha b hab
  loose a ha := by
    by_cases hak : a = k
    · subst hak
      exact Heap.loose_of_vacant (slot_emptied_self s a w)
    · exact (loose_emptied hak).2 (hW.loose a ha)
  sums a ha sum hs := by
    obtain ⟨-, sum', hs', rfl⟩ := Heap.slot_emptied_eq_summary.1 hs
    exact (hW.sums a ha sum' hs').subst hw

/-- A value among locations that can be null is null in some case, and they still can be then. -/
theorem exists_testNull (hs : s.Sound structs lost) (hv : s.heap.Usable lost v) (hi : v ≠ .int)
    (hW : s.heap.Yields structs W) (hvW : ∀ a, v = .ptr a → a ∈ W) :
    ∃ s', (s', .ok true) ∈ s.testNull structs v ∧ s'.heap.Yields structs W := by
  have null {s t : State} {k : Loc} (hk : s.heap.Loose k) (hn : s.setNull k = .ok t)
      (hW : s.heap.Yields structs W) : t.heap.Yields structs W := by
    rw [setNull_eq_emptied hn hk.1]
    exact yields_emptied hW nofun nofun
  fun_induction State.testNull structs s v with
  | case1 s => exact ⟨s, mem_singleton_self _, hW⟩
  | case2 => exact absurd rfl hi
  | case3 s k c hk => exact absurd hk ((hW.loose k (hvW k rfl)).2 c)
  | case4 s k hk => exact absurd hk (hW.loose k (hvW k rfl)).1
  | case5 s k hk t hn | case7 s k set ty hk t hn =>
    exact ⟨t, .head _, null (hW.loose k (hvW k rfl)) hn hW⟩
  | case6 s k hk m hn | case8 s k set ty hk m hn =>
    obtain ⟨t, ht⟩ := exists_setNull (Heap.usable_ptr.1 hv).1
    cases hn.symm.trans ht
  | case9 s k sum hk m hu =>
    obtain ⟨heaps, hheaps⟩ := hW.unfold (hvW k rfl) hk
    cases hu.symm.trans hheaps
  | case10 s k sum hk heaps hu cells o ho closed hc ih =>
    have hkW : k ∈ W := hvW k rfl
    have hsum := hW.sums k hkW sum hk
    have hnext : ∀ j, o.value = .ptr j → j ∈ W := fun j hj => hW.next k hkW j ⟨sum, o, hk, ho, hj⟩
    obtain ⟨sets, hclose⟩ := closeSegment_of_vanishing hs hk ho hsum
    cases hc.symm.trans hclose
    obtain ⟨r, hr, hp⟩ := hs.closeSegment (w := .none) hk ho
    have hclosed := hp _ (Except.ok.inj (hr.symm.trans hclose))
    have hvalue := ((Heap.admits_summary.1 (hs.heap.facts k _ hk)).2 o ho).1
    obtain ⟨s', hs', hW'⟩ := ih hclosed.sound (hclosed.usable hvalue) (hsum.hole o ho).1
      ((yields_emptied hW (hsum.hole o ho).1 hnext).of_slot fun _ => rfl) hnext
    exact ⟨s', mem_append_left _ hs', hW'⟩
  | case11 s k sum hk heaps hu cells o ho hc | case12 s k sum hk heaps hu o ho m hc =>
    obtain ⟨sets, hclose⟩ := closeSegment_of_vanishing hs hk ho (hW.sums k (hvW k rfl) sum hk)
    cases hc.symm.trans hclose
  | case13 s k sum hk heaps hu cells ho base hd =>
    obtain ⟨sets, -, rfl⟩ := Option.map_eq_some_iff.1 hd
    have hW' : (s.emptied k .null).heap.Yields structs W := yields_emptied hW nofun nofun
    exact ⟨_, .head _, hW'.of_slot fun _ => rfl⟩
  | case14 s k sum hk heaps hu cells ho hd =>
    have hpred := (hW.sums k (hvW k rfl) sum hk).full ho
    rw [discharge, Predicate.baseCase_of_ne_graph hpred] at hd
    cases hd

end State

/-! ### A list and a cell -/

namespace Sample

/-- A list at `y` and a cell at `z`, and `x` is null. -/
def listAndCell : State :=
  ⟨0, ⟨.ofSlots [.occupied (.summary ⟨.list, ⟨0⟩, .none, none⟩), .occupied (.cell ⟨⟨0⟩, [.null]⟩)], .empty⟩,
    ⟨[("x", ⟨.ptr ⟨0⟩, .null⟩), ("y", ⟨.ptr ⟨0⟩, .ptr ⟨0⟩⟩), ("z", ⟨.ptr ⟨0⟩, .ptr ⟨1⟩⟩)]⟩⟩

theorem listAndCell_cases {k : Loc} {f : Fact} (h : listAndCell.heap.slot k = .occupied f) :
    f = .summary ⟨.list, ⟨0⟩, .none, none⟩ ∨ f = .cell ⟨⟨0⟩, [.null]⟩ := by
  obtain ⟨_ | _ | i⟩ := k
  · cases h
    exact .inl rfl
  · cases h
    exact .inr rfl
  · cases h

theorem listAndCell_sound : listAndCell.Sound nodes fun _ => False where
  heap := {
    facts k f hf := by
      rcases listAndCell_cases hf with rfl | rfl
      · exact Heap.admits_summary.2 ⟨⟨forall_mem_nil _, forall_mem_nil _⟩, nofun⟩
      · refine ⟨fun v hv => ?_, forall_mem_nil _, fun c hc => ?_⟩
        · rw [mem_singleton.1 hv]
          exact Heap.usable_null
        · cases hc
          intro decl hdecl
          cases hdecl
          exact Nat.le_refl 1
    lost := nofun
    sets := SetStore.issued_empty }
  vars e he := by
    rcases he with _ | ⟨_, _ | ⟨_, _ | ⟨_, ⟨⟩⟩⟩⟩
    · exact Heap.usable_null
    · exact Heap.usable_ptr.2 ⟨Nat.zero_lt_two, id⟩
    · exact Heap.usable_ptr.2 ⟨Nat.one_lt_two, id⟩

theorem listAndCell_vanishing {k : Loc} {sum : Summary}
    (h : listAndCell.heap.slot k = .occupied (.summary sum)) : sum.Vanishing nodes := by
  rcases listAndCell_cases h with he | he
  · cases he
    exact ⟨⟨_, _, rfl, rfl⟩, fun _ => Predicate.noConfusion, fun o ho => by cases ho⟩
  · cases he

end Sample

namespace Exec

variable {structs : Structs} {lost : Loc → Prop} {s s' : State} {W : Set Loc} {x y : String} {v w : Value}

/-! ### Refusals -/

/-- No case takes two variables to be equal. -/
def Differ (structs : Structs) (s : State) (x y : String) : Prop :=
  ∀ s', (s', .ok ()) ∉ assume structs (.cmp true (.path (.ofVar x)) (.path (.ofVar y))) true s

/-- Different values that are taken to be equal are not solid. -/
theorem not_solid_of_compare (hv : v ≠ .int) (hw : w ≠ .int) (hne : v ≠ w)
    (h : (s', .ok true) ∈ compare structs v w s) : ¬ s.heap.Solid v ∧ ¬ s.heap.Solid w := by
  rcases v with _ | j | _
  · rcases w with _ | k | _
    · exact absurd rfl hne
    · exact ⟨Heap.not_solid_null, (State.testNull_solid h).1⟩
    · exact absurd rfl hw
  · rcases w with _ | k | _
    · exact ⟨(State.testNull_solid h).1, Heap.not_solid_null⟩
    · rw [compare, if_neg fun he => hne (congrArg _ he), mem_bind] at h
      rcases h with ⟨s₁, first, h₁, h₂⟩ | ⟨d, -, hd⟩
      · cases first with
        | false => cases mem_singleton.1 h₂
        | true =>
          obtain ⟨hj, hkeep⟩ := State.testNull_solid h₁
          exact ⟨hj, fun hk => (State.testNull_solid h₂).1 (hkeep _ hk)⟩
      · cases hd
    · exact absurd rfl hw
  · exact absurd rfl hv

/-- Values among locations that can all be null are taken to be equal in some case. -/
theorem exists_compare (hs : s.Sound structs lost) (hv : s.heap.Usable lost v)
    (hw : s.heap.Usable lost w) (hvi : v ≠ .int) (hwi : w ≠ .int) (hW : s.heap.Yields structs W)
    (hvW : ∀ a, v = .ptr a → a ∈ W) (hwW : ∀ a, w = .ptr a → a ∈ W) :
    ∃ s', (s', .ok true) ∈ compare structs v w s := by
  rcases v with _ | j | _
  · rcases w with _ | k | _
    · exact ⟨s, mem_singleton_self _⟩
    · obtain ⟨s', hs', -⟩ := State.exists_testNull hs hw hwi hW hwW
      exact ⟨s', hs'⟩
    · exact absurd rfl hwi
  · obtain ⟨s₁, hs₁, hW₁⟩ := State.exists_testNull hs hv hvi hW hvW
    rcases w with _ | k | _
    · exact ⟨s₁, hs₁⟩
    · by_cases hjk : j = k
      · rw [compare, if_pos hjk]
        exact ⟨s, mem_singleton_self _⟩
      · -- Both are null: what was closed for the first one can be null for the second one too.
        have hp : s.Proceeds structs lost .none s₁ := testNull_proceeds hs hv _ _ hs₁
        obtain ⟨s', hs', -⟩ := State.exists_testNull hp.sound (hp.usable hw) hwi hW₁ hwW
        rw [compare, if_neg hjk]
        exact ⟨s', mem_bind.2 (.inl ⟨s₁, true, hs₁, hs'⟩)⟩
    · exact absurd rfl hwi
  · exact absurd rfl hvi

/-- Two pointers that are assumed to be equal are refused exactly if they are apart. Pointers
    that are refused are never taken to be equal if one of them is solid. Where the summaries on
    the way can be empty, it is only then that they are not. -/
theorem equate_refusal_iff (hx : s.lookup x = .ok v) (hy : s.lookup y = .ok w) (hv : v ≠ .int)
    (hw : w ≠ .int) :
    (s.equate v w = .ok none ↔ s.heap.Apart v w) ∧
      (s.equate v w = .ok none → s.heap.Solid v ∨ s.heap.Solid w → Differ structs s x y) ∧
      (s.equate v w = .ok none → s.Sound structs lost →
        (∀ k sum, OnWay s.heap v w k → s.heap.slot k = .occupied (.summary sum) →
          sum.Vanishing structs) →
        (Differ structs s x y ↔ s.heap.Solid v ∨ s.heap.Solid w)) := by
  have hdiffer (h : s.equate v w = .ok none) (hsolid : s.heap.Solid v ∨ s.heap.Solid w) :
      Differ structs s x y := by
    intro s' hs'
    have hne : v ≠ w := by
      rintro rfl
      rw [State.equate.eq_def, if_pos rfl] at h
      cases h
    obtain ⟨hnv, hnw⟩ := not_solid_of_compare hv hw hne ((mem_assume_cmp hx hy).1 hs')
    exact hsolid.elim hnv hnw
  refine ⟨State.equate_eq_none_iff, hdiffer, fun h hs hsums => ⟨fun hd => ?_, hdiffer h⟩⟩
  by_contra hsolid
  obtain ⟨hnv, hnw⟩ := not_or.1 hsolid
  obtain ⟨s', hs'⟩ := exists_compare hs (hs.lookup hx) (hs.lookup hy) hv hw
    (Heap.yields_onWay hnv hnw hsums) (fun a ha => ⟨a, .inl ha, .refl⟩) fun a ha => ⟨a, .inr ha, .refl⟩
  exact hd s' ((mem_assume_cmp hx hy).2 hs')

/-- A list is not the cell that another variable points to. -/
theorem equate_refusal_of_cell :
    Sample.listAndCell.equate (.ptr ⟨0⟩) (.ptr ⟨1⟩) = .ok none ∧
      Sample.listAndCell.heap.Solid (.ptr ⟨1⟩) ∧ Differ Sample.nodes Sample.listAndCell "y" "z" := by
  have hequate : Sample.listAndCell.equate (.ptr ⟨0⟩) (.ptr ⟨1⟩) = .ok none := rfl
  have hsolid : Sample.listAndCell.heap.Solid (.ptr ⟨1⟩) :=
    Heap.solid_of_not_loose fun hl => hl.2 _ rfl
  have hiff : Differ Sample.nodes Sample.listAndCell "y" "z" ↔ _ :=
    (equate_refusal_iff (v := .ptr ⟨0⟩) (w := .ptr ⟨1⟩) rfl rfl Value.noConfusion
      Value.noConfusion).2.2 hequate Sample.listAndCell_sound
      fun k sum _ => Sample.listAndCell_vanishing
  exact ⟨hequate, hsolid, hiff.2 (.inr hsolid)⟩

/-- Null and a list are refused, and still they are equal where the list is empty. -/
theorem equate_refuses_empty_list :
    Sample.listAndCell.equate .null (.ptr ⟨0⟩) = .ok none ∧
      ¬ Differ Sample.nodes Sample.listAndCell "x" "y" := by
  refine ⟨rfl, fun hdiffer => hdiffer (Sample.listAndCell.emptied ⟨0⟩ .null) ?_⟩
  decide +kernel

end Exec

end HeapShape
