import HeapShape.Proofs.Clearing
import HeapShape.Proofs.Folding
import HeapShape.Proofs.Isomorphism
import HeapShape.Proofs.Survival

/-!
# The frame of a fold

A fold takes facts away while it follows fields, nested lists and the holes of segments, all over
the heap. Still it stays within narrow bounds: it takes cells and summaries that its root leads to,
and of the stops at most the root. Everything else stays as it was.

What it puts at the root meets the same goal again, and at once: the summary has the parameters that
were asked for, and its hole is at a stop. So to fold again changes nothing.

* `Heap.Takeable`: what a fold may take;
* `Folding.Within.visit`, `Folding.Within.absorb`: a step of the search stays within these bounds,
  and so does a run of it;
* `Heap.fold_frame`: what a fold changes, and what it does not;
* `Heap.fold_fold`: a fold is idempotent.
-/

namespace HeapShape

open List

/-- What a fold may take: a cell or a summary that the root leads to, and no stop but the root. -/
structure Heap.Takeable (h : Heap) (root : Loc) (stops : List Loc) (k : Loc) : Prop where
  fact : (∃ c, h.slot k = .occupied (.cell c)) ∨ ∃ s, h.slot k = .occupied (.summary s)
  reached : h.Reaches [.ptr root] k
  free : k ≠ root → k ∉ stops

theorem Heap.Reaches.next {h : Heap} {roots : List Value} {loc k : Loc} {f : Fact}
    (hr : h.Reaches roots loc) (hs : h.slot loc = .occupied f) (hk : .ptr k ∈ f.values) :
    h.Reaches roots k := by
  refine .step hr ?_
  rw [Arena.Slot.values_node, hs]
  simpa [Arena.Slot.value?] using hk

namespace Folding

variable {cfg : Setting} {h : Heap} {st st' : Folding} {goal : Goal} {goals new : List Goal}

/-- A search that took only what it may take, and whose hole is at a stop. -/
structure Within (cfg : Setting) (h : Heap) (st : Folding) : Prop where
  size : st.heap.size = h.size
  slot : ∀ k, st.heap.slot k = h.slot k ∨ st.heap.slot k = .vacant ∧ h.Takeable cfg.root cfg.stops k
  hole : ∀ o, st.hole = some o → ∃ k ∈ cfg.stops, k ≠ cfg.root ∧ o.value = .ptr k

/-- A goal for an instance is about null or about a location that the root leads to. -/
def Goal.ReachedFrom (h : Heap) (root : Loc) : Goal → Prop
  | .inst v _ _ _ => ∀ k, v = .ptr k → h.Reaches [.ptr root] k
  | .ref .. | .missing => True

/-- The new goals are about values that the fact mentions. -/
theorem mem_values_of_meet {structs : Structs} {s : SetStore} {loc : Loc} {f : Fact}
    {pred p : Predicate} {ty t : StructId} {params q : Params} {r : SetStore × List Goal} {v : Value}
    (hm : meet structs s loc f pred ty params = .ok r) (hg : .inst v p t q ∈ r.2) : v ∈ f.values := by
  cases f with
  | member => cases hm
  | summary sum =>
    obtain ⟨-, -, -, -, -, hnew⟩ := meetSummary_eq_ok hm
    rw [hnew] at hg
    obtain ⟨o, ho, he⟩ := mem_map.1 hg
    cases he
    exact mem_append_right _ (mem_flatMap.2 ⟨o, ho, .head _⟩)
  | cell c =>
    obtain ⟨-, layout, step, -, -, -, hnew⟩ := meetCell_eq_ok hm
    -- each goal is for the value of a field
    have hfield {i : Nat} {goal : Value → Goal} (hgoal : ∀ w, goal w = .inst v p t q → w = v)
        (he : Goal.ofField c i goal = .inst v p t q) : v ∈ c.fields := by
      rw [Goal.ofField] at he
      split at he
      · rename_i w hw
        exact hgoal w he ▸ mem_of_getElem? hw
      · cases he
    rw [hnew, cellGoals, mem_append, mem_append] at hg
    rcases hg with (hg | hg) | hg
    · obtain ⟨i, -, he⟩ := mem_map.1 hg
      exact hfield (fun w hw => by cases hw; rfl) he
    · obtain ⟨i, -, he⟩ := mem_map.1 hg
      exact hfield (fun w hw => by cases hw; rfl) he
    · obtain ⟨i, -, he⟩ := mem_map.1 hg
      exact hfield (fun w hw => by cases hw) he

/-- To enter a location that may be entered stays within the bounds, and leads to what the root
    leads to. -/
theorem Within.enter {loc : Loc} {pred : Predicate} {ty : StructId} {params : Params}
    (hw : Within cfg h st) (hr : h.Reaches [.ptr cfg.root] loc) (hfree : loc ≠ cfg.root → loc ∉ cfg.stops)
    (he : st.enter cfg loc pred ty params = .ok (st', new)) :
    Within cfg h st' ∧ ∀ g ∈ new, g.ReachedFrom h cfg.root := by
  obtain ⟨f, sets, -, hs, hm, rfl⟩ := enter_eq_ok he
  -- what is there now was there before
  have hslot : h.slot loc = .occupied f := by
    rcases hw.slot loc with hk | ⟨hk, -⟩
    · rw [← hk, hs]
    · rw [hs] at hk
      cases hk
  have hfact : (∃ c, h.slot loc = .occupied (.cell c)) ∨ ∃ s, h.slot loc = .occupied (.summary s) := by
    cases f with
    | cell c => exact .inl ⟨c, hslot⟩
    | summary s => exact .inr ⟨s, hslot⟩
    | member => cases hm
  have ht := Takes.takeWith st loc sets
  refine ⟨⟨ht.size.trans hw.size, fun k => ?_, hw.hole⟩, fun g hg => ?_⟩
  · rw [ht.slot]
    split
    · rename_i hk
      rw [mem_singleton.1 hk]
      exact .inr ⟨rfl, hfact, hr, hfree⟩
    · exact hw.slot k
  · cases g with
    | inst v p t q =>
      rintro k rfl
      exact hr.next hslot (mem_values_of_meet hm hg)
    | ref => trivial
    | missing => trivial

/-- One step of the search stays within the bounds. -/
theorem Within.visit (hw : Within cfg h st) (hg : goal.ReachedFrom h cfg.root)
    (hv : st.visit cfg goal = .ok (st', new)) :
    Within cfg h st' ∧ ∀ g ∈ new, g.ReachedFrom h cfg.root := by
  cases steps_of_visit hv with
  | ref | null => exact ⟨⟨hw.size, hw.slot, hw.hole⟩, forall_mem_nil _⟩
  | @stop loc ty params hroot hloc =>
    refine ⟨⟨hw.size, hw.slot, fun o ho => ?_⟩, forall_mem_nil _⟩
    cases ho
    exact ⟨loc, hloc, hroot, rfl⟩
  | enter he hfree => exact hw.enter (hg _ rfl) hfree he

/-- A run of the search stays within the bounds. -/
theorem Within.absorb (hw : Within cfg h st) (hg : ∀ g ∈ goals, g.ReachedFrom h cfg.root)
    (ha : st.absorb cfg goals = .ok st') : Within cfg h st' :=
  absorb_keeps Within.visit hw hg ha

end Folding

namespace Heap

open Folding

variable {structs : Structs} {h h' : Heap} {loc k : Loc} {pred : Predicate} {ty : StructId}
  {layout : Layout} {params : Option Params} {p : Params} {sets : SetStore} {stops : List Loc}
  {s : Summary} {st : Folding} {root : Value} {o : Option Hole}

/-! ### The frame -/

theorem Search.within (hs : h.Search structs stops loc pred params ty layout p sets st) :
    Within ⟨structs, stops, loc, pred⟩ h st := by
  have hstart : Within ⟨structs, stops, loc, pred⟩ h ⟨{ h with sets }, none, []⟩ :=
    ⟨rfl, fun _ => .inl rfl, fun _ ho => (Option.not_mem_none _ ho).elim⟩
  refine hstart.absorb (forall_mem_singleton.2 ?_) hs.found
  rintro k hk
  cases hk
  exact .root (.head _)

/-- A fold at a location puts the summary of what the search found at its root. -/
theorem fold_ptr_eq_ok (hf : h.fold structs (.ptr loc) pred params stops = .ok (h', o)) :
    ∃ ty layout p sets st, h.Search structs stops loc pred params ty layout p sets st ∧
      o = st.hole.map (fun o => { o with params := st.heap.resolveParams o.params }) ∧
      h' = st.heap.write loc (.occupied (.summary ⟨pred, ty, st.heap.resolveParams p, o⟩)) := by
  rcases fold_eq_ok hf with ⟨_, s, h₁, ⟨⟩, hg, rfl, rfl⟩ | ⟨⟨⟩, -⟩
  obtain ⟨ty, layout, p, sets, st, hs, rfl, rfl⟩ := gather_eq_ok hg
  exact ⟨ty, layout, p, sets, st, hs, rfl, rfl⟩

/-- The frame of a fold that succeeds. Its root holds a summary of the predicate, with the structure
    that it had, and with the parameters that were given or that it shows, resolved. The hole of the
    summary is the one that is returned, and is at a stop other than the root. No location is given
    out. Of the other locations a fold only empties cells and summaries that the root leads to, but
    no stop; what is freed or a member stays. So without stops the summary is full. -/
theorem fold_frame (hf : h.fold structs (.ptr loc) pred params stops = .ok (h', o)) :
    (∃ ty layout p sets, h.rootStruct loc = .ok ty ∧ pred.layout? structs ty = some layout ∧
      h.chooseParams loc pred layout params = .ok (p, sets) ∧
      h'.slot loc = .occupied (.summary ⟨pred, ty, h'.resolveParams p, o⟩)) ∧
    (∀ q, o = some q → ∃ k ∈ stops, k ≠ loc ∧ q.value = .ptr k) ∧
    h'.size = h.size ∧
    (∀ k, k ≠ loc → h'.slot k = h.slot k ∨ h'.slot k = .vacant ∧ h.Reaches [.ptr loc] k ∧
      ((∃ c, h.slot k = .occupied (.cell c)) ∨ ∃ s, h.slot k = .occupied (.summary s))) ∧
    (∀ k, k ≠ loc → k ∈ stops ∨ h.slot k = .tombstone ∨
      (∃ set ty, h.slot k = .occupied (.member set ty)) → h'.slot k = h.slot k) ∧
    (stops = [] → o = none) := by
  obtain ⟨ty, layout, p, sets, st, hs, rfl, rfl⟩ := fold_ptr_eq_ok hf
  have hw := hs.within
  have hl : loc.index < st.heap.size := hw.size ▸ lt_size_of_rootStruct hs.struct
  have hhole : ∀ q, st.hole.map (fun o => { o with params := st.heap.resolveParams o.params }) = some q →
      ∃ k ∈ stops, k ≠ loc ∧ q.value = .ptr k := by
    intro q hq
    obtain ⟨o, ho, rfl⟩ := Option.map_eq_some_iff.1 hq
    exact hw.hole o ho
  refine ⟨⟨ty, layout, p, sets, hs.struct, hs.laid, hs.chosen, slot_write_self hl _⟩, hhole,
    (size_write _).trans hw.size, fun k hk => ?_, fun k hk hkeep => ?_, fun hnil => ?_⟩
  · rw [slot_write_of_ne hk]
    exact (hw.slot k).imp_right fun ⟨hv, ht⟩ => ⟨hv, ht.reached, ht.fact⟩
  · rw [slot_write_of_ne hk]
    refine (hw.slot k).resolve_right fun ⟨_, ht⟩ => ?_
    rcases hkeep with hstop | hfreed | ⟨set, ty, hmember⟩
    · exact ht.free hk hstop
    · rcases ht.fact with ⟨c, hc⟩ | ⟨s, hc⟩ <;> cases hc.symm.trans hfreed
    · rcases ht.fact with ⟨c, hc⟩ | ⟨s, hc⟩ <;> cases hc.symm.trans hmember
  · refine Option.eq_none_iff_forall_ne_some.2 fun q hq => ?_
    obtain ⟨k, hk, -⟩ := hhole q hq
    rw [hnil] at hk
    cases hk

/-- A fold of a node and a segment, up to the stop where the segment ends, leaves the stop. -/
theorem fold_frame_strung :
    Sample.strung.fold Sample.oneList (.ptr ⟨0⟩) .list none [⟨2⟩] =
        .ok (Sample.gathered, some ⟨.ptr ⟨2⟩, .none⟩) ∧
      Sample.gathered.slot ⟨2⟩ = Sample.strung.slot ⟨2⟩ ∧
      Sample.gathered.size = Sample.strung.size := by
  obtain ⟨-, -, hsize, -, hkeep, -⟩ := fold_frame Sample.fold_strung
  exact ⟨Sample.fold_strung, hkeep ⟨2⟩ (by decide) (.inl (.head _)), hsize⟩

end Heap

/-! ### Folding again -/

/-- A set that was recorded as empty can be recorded as empty again, and nothing changes. -/
theorem SetStore.setEmpty?_again {s s' : SetStore} {v : SetVar} (hs : s.Valid)
    (h : s.setEmpty? v = some s') : s'.setEmpty? v = some s' := by
  have hfree : s.Free v := setEmpty?_isSome.1 (Option.isSome_of_eq_some h)
  have hempty {w : SetVar} := (isKnownEmpty_setEmpty? (w := w) hs h).1
  obtain ⟨-, rfl⟩ := setEmpty?_eq_some h
  -- No split set is included in the set now that was not included in it before.
  have hfree' : Free { s with empties := s.empties.insert (s.resolve v) } v := by
    intro p hp
    rw [← Bool.not_eq_true]
    intro hsub
    refine Bool.eq_false_iff.1 (hfree p hp) (isSubset_iff.2 ?_)
    rcases isSubset_iff.1 hsub with he | hlead
    · exact (hempty he).imp_right Direct.leads
    · exact .inr hlead
  obtain ⟨s', hs'⟩ := Option.isSome_iff_exists.1 (setEmpty?_isSome.2 hfree')
  obtain ⟨-, rfl⟩ := setEmpty?_eq_some hs'
  have hin : (s.empties.insert (s.resolve v)).insert (s.resolve v) = s.empties.insert (s.resolve v) :=
    insert_of_mem mem_insert_self
  exact hs'.trans (congrArg (fun empties => some { s with empties }) hin)

theorem Predicate.baseCase_again {p : Predicate} {params : Params} {s s' : SetStore} (hs : s.Valid)
    (h : p.baseCase params s = some s') : p.baseCase params s' = some s' := by
  obtain ⟨ptrs, sets⟩ := params
  cases p with
  | list => rfl
  | tree => rfl
  | edges => rfl
  | graph =>
    cases sets with
    | nil => cases h
    | cons nodes sets => exact SetStore.setEmpty?_again hs h

namespace Heap

open Folding

variable {structs : Structs} {h h' : Heap} {loc : Loc} {pred : Predicate} {ty : StructId}
  {layout : Layout} {params : Option Params} {p q : Params} {stops : List Loc} {root : Value}
  {o : Option Hole}

theorem resolveParams_idem (hv : h.sets.Valid) (p : Params) :
    h.resolveParams (h.resolveParams p) = h.resolveParams p := by
  have hsets : (p.sets.map h.sets.resolve).map h.sets.resolve = p.sets.map h.sets.resolve := by
    rw [map_map]
    exact map_congr_left fun v _ => hv.reprs v
  exact congrArg (Params.mk p.ptrs) hsets

/-- To fold a summary that has the parameters that are asked for, and a hole at a stop, is to leave
    it as it is. -/
theorem fold_summary (hv : h.sets.Valid)
    (hs : h.slot loc = .occupied (.summary ⟨pred, ty, h.resolveParams q, o⟩))
    (harity : checkArity pred params (some loc) = .ok ()) (hl : pred.layout? structs ty = some layout)
    (hq : h.chooseParams loc pred layout params = .ok (q, h.sets))
    (ho : ∀ x, o = some x → h.resolveParams x.params = x.params ∧
      ∃ k ∈ stops, k ≠ loc ∧ x.value = .ptr k) :
    h.fold structs (.ptr loc) pred params stops = .ok (h, o) := by
  have hty : h.rootStruct loc = .ok ty := by
    rw [rootStruct, hs]
  have hc : Clears ⟨structs, stops, loc, pred⟩ h h.sets [.inst (.ptr loc) pred ty q] [loc] o h.sets [] := by
    refine clears_summary hs (fun hne => absurd rfl hne) rfl
      (congrArg Params.sets (resolveParams_idem hv q)) fun x hx => ?_
    obtain ⟨-, k, hk, hne, hvalue⟩ := ho x hx
    exact ⟨rfl, k, hvalue, hne, hk⟩
  obtain ⟨h', hf, hsize, hsets, hslot⟩ := fold_of_clears harity hty hl hq hc (nodup_singleton loc)
  have hresolve (p : Params) : h'.resolveParams p = h.resolveParams p := by
    rw [resolveParams, hsets]
    rfl
  have hsame : o.map (fun x => { x with params := h'.resolveParams x.params }) = o := by
    rcases o with _ | x
    · rfl
    · exact congrArg (fun ps => some (Hole.mk x.value ps)) ((hresolve _).trans (ho x rfl).1)
  rw [hf, hsame, eq_of_slot hsize (fun k => ?_) hsets]
  rw [hslot, hresolve, hsame, ← hs]
  split
  · next hk => rw [hk]
  · next hk => rw [if_neg (mt mem_singleton.1 hk)]

/-- To fold null again changes nothing. -/
theorem fold_null_again (hv : h.sets.Valid)
    (hf : h.fold structs .null pred params stops = .ok (h', o)) :
    h'.fold structs .null pred params stops = .ok (h', o) := by
  rcases fold_eq_ok hf with ⟨_, _, _, ⟨⟩, -⟩ | ⟨-, rfl, harity, ⟨rfl, rfl⟩ | ⟨p, sets, rfl, hb, rfl⟩⟩
  · rfl
  · have hb' : pred.baseCase p sets = some sets := Predicate.baseCase_again hv hb
    simp only [fold, harity, hb', bind, Except.bind]
    rfl

/-- The parameters of a fold are those of the summary that it put at the root, up to aliases. -/
theorem exists_chooseParams_again (hv : h'.sets.Valid)
    (hs : h'.slot loc = .occupied (.summary ⟨pred, ty, h'.resolveParams p, o⟩)) {sets : SetStore}
    (hp : h.chooseParams loc pred layout params = .ok (p, sets)) :
    ∃ q, h'.chooseParams loc pred layout params = .ok (q, h'.sets) ∧
      h'.resolveParams q = h'.resolveParams p := by
  rcases params with _ | p'
  · refine ⟨h'.resolveParams p, ?_, resolveParams_idem hv p⟩
    rw [chooseParams, inferParams.eq_def, summary?_of_slot hs]
    exact if_pos rfl
  · cases hp
    exact ⟨p, rfl, rfl⟩

/-- Folding is idempotent: to fold again with the same arguments succeeds with the same hole, and
    changes neither facts nor constraints. -/
theorem fold_fold (hv : h.sets.Valid)
    (hf : h.fold structs root pred params stops = .ok (h', o)) :
    h'.fold structs root pred params stops = .ok (h', o) := by
  have hv' : h'.sets.Valid := SetStore.Changes.valid (fold_changes hf) hv
  rcases fold_eq_ok hf with ⟨loc, -, -, rfl, -⟩ | ⟨rfl, -⟩
  · obtain ⟨ty, layout, p, sets, st, hs, ho, hh'⟩ := fold_ptr_eq_ok hf
    have hl : loc.index < st.heap.size := hs.within.size ▸ lt_size_of_rootStruct hs.struct
    have hslot : h'.slot loc = .occupied (.summary ⟨pred, ty, h'.resolveParams p, o⟩) := by
      rw [hh']
      exact slot_write_self hl _
    obtain ⟨q, hq, hqp⟩ := exists_chooseParams_again hv' hslot hs.chosen
    rw [← hqp] at hslot
    refine fold_summary hv' hslot hs.arity hs.laid hq fun x hx => ?_
    -- the hole is at a stop, and its parameters were resolved before
    rw [ho] at hx
    obtain ⟨x', hx', rfl⟩ := Option.map_eq_some_iff.1 hx
    refine ⟨?_, hs.within.hole x' hx'⟩
    rw [hh'] at hv' ⊢
    exact resolveParams_idem hv' x'.params
  · exact fold_null_again hv hf

end Heap

namespace Sample

/-- A node of a graph whose successor is held by a variable. -/
def leading : Heap :=
  ⟨.ofSlots [.occupied (.cell ⟨⟨1⟩, [.ptr ⟨1⟩, .null]⟩), .vacant],
    ⟨⟨[("E", ⟨1⟩), ("F", ⟨0⟩)]⟩, [⟨0⟩, ⟨1⟩], [], [], []⟩⟩

/-- The node is split off the nodes of the graph, and the hole has the nodes that are left. -/
theorem exists_fold_leading :
    ∃ h', leading.fold graphs (.ptr ⟨0⟩) .graph (some ⟨[], [⟨0⟩, ⟨1⟩]⟩) [⟨1⟩] =
      .ok (h', some ⟨.ptr ⟨1⟩, ⟨[], [⟨2⟩, ⟨1⟩]⟩⟩) := by
  let split : SetStore :=
    ⟨⟨[("E", ⟨1⟩), ("F", ⟨0⟩)]⟩, [⟨0⟩, ⟨1⟩, ⟨2⟩], [], [⟨⟨0⟩, ⟨0⟩, ⟨2⟩⟩], []⟩
  let segment : Summary := ⟨.graph, ⟨1⟩, ⟨[], [⟨0⟩, ⟨1⟩]⟩, some ⟨.ptr ⟨1⟩, ⟨[], [⟨2⟩, ⟨1⟩]⟩⟩⟩
  exact ⟨⟨.ofSlots [.occupied (.summary segment), .vacant], split⟩, by cbv⟩

end Sample

/-- To fold a node of a graph again leaves the set of the other nodes as it is. -/
theorem Heap.fold_fold_leading :
    Sample.leading.sets.Valid ∧
      ∃ h', Sample.leading.fold Sample.graphs (.ptr ⟨0⟩) .graph (some ⟨[], [⟨0⟩, ⟨1⟩]⟩) [⟨1⟩] =
          .ok (h', some ⟨.ptr ⟨1⟩, ⟨[], [⟨2⟩, ⟨1⟩]⟩⟩) ∧
        h'.fold Sample.graphs (.ptr ⟨0⟩) .graph (some ⟨[], [⟨0⟩, ⟨1⟩]⟩) [⟨1⟩] =
          .ok (h', some ⟨.ptr ⟨1⟩, ⟨[], [⟨2⟩, ⟨1⟩]⟩⟩) := by
  have hv : Sample.leading.sets.Valid := ⟨(by decide : ["E", "F"].Nodup), fun ⟨i⟩ => by
    rcases i with _ | _ | i <;> rfl⟩
  obtain ⟨h', hf⟩ := Sample.exists_fold_leading
  exact ⟨hv, h', hf, fold_fold hv hf⟩

end HeapShape
