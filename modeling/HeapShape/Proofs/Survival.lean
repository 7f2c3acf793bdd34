import HeapShape.Heap.Fold
import HeapShape.Proofs.Constraints
import HeapShape.Proofs.Outcomes

/-!
# Cases that survive a fold

A fold takes facts away and changes the constraints between sets. The constraints belong to
all structures, so a fold at one root can say something about a summary that it does not
touch: a `graphc` whose set of nodes becomes empty has no case with a node any more.

This happens to summaries whose set of nodes is not known to have an element, and only to
these. To meet null as an empty `graphc`, a fold records that a set of nodes is empty, and
does not ask whether the nodes are somewhere else.

* `Heap.fold_changes`: a fold is a row of changes of constraints;
* `Heap.HasCase`: a summary can be unfolded into a cell;
* `Heap.KeepsCases`: no fold elsewhere takes the cases of a summary away;
* `Heap.keepsCases_iff_hasNode`: for which summaries this is so.
-/

namespace HeapShape

/-! ### Folds as rows of changes -/

theorem SetStore.takeOut_changes (s : SetStore) (whole : SetVar) (elem : Loc) :
    s.Changes (s.takeOut whole elem).1 := by
  rw [takeOut]
  split
  · exact .refl
  · rcases h : s.fresh.2.addSplit? whole elem s.fresh.1 with _ | t
    · dsimp only
      rw [h]
      exact .single .fresh
    · dsimp only
      rw [h]
      exact .tail (.single .fresh) (.split h)

theorem Predicate.step_changes (p : Predicate) (root : Loc) (params : Params) (s : SetStore) :
    s.Changes (p.step root params s).1 := by
  rw [step.eq_def]
  split
  all_goals first | exact .refl | exact s.takeOut_changes _ _

variable {s : SetStore}

theorem Predicate.baseCase_changes {p : Predicate} {params : Params} {s' : SetStore}
    (h : p.baseCase params s = some s') : s.Changes s' := by
  rw [baseCase.eq_def] at h
  split at h
  · exact .single (.empty h)
  · cases h
  · cases h
    exact .refl

namespace Folding

variable {cfg : Setting} {st st' : Folding} {s s' : SetStore} {loc : Loc} {pred : Predicate}
  {ty : StructId} {params : Params} {new goals : List Goal}

theorem unifySets_changes {as bs : List SetVar} (h : unifySets loc as bs s = .ok s') :
    s.Changes s' := by
  induction as, bs, s using unifySets.induct with
  | case1 a as b bs s s₁ hu ih =>
    simp only [unifySets, hu] at h
    exact .head (.unify hu) (ih h)
  | case2 a as b bs s hu =>
    simp only [unifySets, hu] at h
    cases h
  | case3 a as b bs s m hu =>
    simp only [unifySets, hu] at h
    cases h
  | case4 as bs s hne =>
    rw [unifySets] at h
    · cases h
      exact .refl
    · exact hne

theorem inside_changes {h : Heap} {set : SetVar} (hi : inside h loc set = .ok (some s')) :
    h.sets.Changes s' := by
  rw [inside.eq_def] at hi
  split at hi
  · split at hi
    · cases hi
      exact .refl
    · exact .single (.unify hi)
  · split at hi
    · cases hi
      exact .refl
    · cases hi
  · cases hi

theorem checkRef_changes {h : Heap} {value : Value} {set : Option SetVar}
    (hc : checkRef h value set = .ok s') : h.sets.Changes s' := by
  rw [checkRef.eq_def] at hc
  split at hc
  · cases hc
    exact .refl
  · split at hc
    · rename_i hi
      cases hc
      exact inside_changes hi
    · cases hc
    · cases hc
  · cases hc

/-- The parts of a goal that a cell meets. -/
theorem meetCell_eq_ok {structs : Structs} {c : Cell} {r : SetStore × List Goal}
    (h : meetCell structs s loc c pred ty params = .ok r) :
    c.ty = ty ∧ ∃ layout step, pred.layout? structs ty = some layout ∧
      checkBack loc c layout params = .ok () ∧ pred.step loc params s = (r.1, some step) ∧
      r.2 = cellGoals c pred layout step := by
  rw [meetCell] at h
  split at h
  · cases h
  · rename_i hty
    split at h
    · cases h
    · rename_i layout hlay
      obtain ⟨⟨⟩, hback, h⟩ := ok_of_bind h
      rcases hstep : pred.step loc params s with ⟨sets, _ | step⟩
      · rw [hstep] at h
        cases h
      · rw [hstep] at h
        cases h
        exact ⟨Classical.not_not.1 hty, layout, step, hlay, hback, rfl, rfl⟩

/-- The parts of a goal that a summary meets. -/
theorem meetSummary_eq_ok {sum : Summary} {r : SetStore × List Goal}
    (h : meetSummary s loc sum pred ty params = .ok r) :
    sum.pred = pred ∧ sum.ty = ty ∧ sum.params.ptrs = params.ptrs ∧
      sum.params.sets.length = params.sets.length ∧
      unifySets loc sum.params.sets params.sets s = .ok r.1 ∧
      r.2 = sum.hole.toList.map fun o => .inst o.value pred ty o.params := by
  rw [meetSummary] at h
  split at h
  · cases h
  · rename_i hkind
    obtain ⟨hpred, hty⟩ := not_or.1 hkind
    obtain ⟨sets, hm, h⟩ := ok_of_bind h
    cases h
    rw [matchParams] at hm
    split at hm
    · cases hm
    · rename_i hptrs
      split at hm
      · cases hm
      · rename_i hsets
        exact ⟨Classical.not_not.1 hpred, Classical.not_not.1 hty, Classical.not_not.1 hptrs,
          Classical.not_not.1 hsets, hm, rfl⟩

theorem meetCell_changes {structs : Structs} {c : Cell}
    (h : meetCell structs s loc c pred ty params = .ok (s', new)) : s.Changes s' := by
  obtain ⟨-, layout, step, -, -, hstep, -⟩ := meetCell_eq_ok h
  have hch := pred.step_changes loc params s
  rwa [hstep] at hch

theorem meetSummary_changes {sum : Summary}
    (h : meetSummary s loc sum pred ty params = .ok (s', new)) : s.Changes s' := by
  obtain ⟨-, -, -, -, hu, -⟩ := meetSummary_eq_ok h
  exact unifySets_changes hu

/-- A fact is taken away, and the constraints change. -/
theorem enter_changes (h : st.enter cfg loc pred ty params = .ok (st', new)) :
    st.heap.sets.Changes st'.heap.sets := by
  obtain ⟨f, sets, -, -, hm, rfl⟩ := enter_eq_ok h
  cases f with
  | cell c => exact meetCell_changes hm
  | summary sum => exact meetSummary_changes hm
  | member => cases hm

theorem visit_changes {goal : Goal} (h : st.visit cfg goal = .ok (st', new)) :
    st.heap.sets.Changes st'.heap.sets := by
  cases steps_of_visit h with
  | ref hc => exact checkRef_changes hc
  | null hb => exact Predicate.baseCase_changes hb
  | stop => exact .refl
  | enter he => exact enter_changes he

theorem absorb_changes (h : st.absorb cfg goals = .ok st') : st.heap.sets.Changes st'.heap.sets :=
  absorb_keeps (I := fun s => st.heap.sets.Changes s.heap.sets) (G := fun _ => True)
    (fun hs _ hv => ⟨hs.trans (visit_changes hv), fun _ _ => trivial⟩) .refl (fun _ _ => trivial) h

end Folding

namespace Heap

open Folding

variable {structs : Structs} {h h' : Heap} {loc k : Loc} {pred : Predicate} {params : Option Params}
  {stops : List Loc} {s : Summary}

theorem chooseParams_changes {layout : Layout} {p : Params} {sets : SetStore}
    (hc : h.chooseParams loc pred layout params = .ok (p, sets)) : h.sets.Changes sets := by
  rw [chooseParams.eq_def] at hc
  split at hc
  · cases hc
    exact .refl
  · rw [inferParams.eq_def] at hc
    split at hc
    · split at hc
      · cases hc
        exact .refl
      · cases hc
    · split at hc
      · cases hc
        exact .refl
      · split at hc
        · cases hc
          exact .refl
        · cases hc
      · cases hw : h.sets.wholeOf? loc with
        | some nodes =>
          rw [hw] at hc
          cases hc
          exact .single .fresh
        | none =>
          rw [hw] at hc
          cases hc
          exact .tail (.single .fresh) .fresh
      · cases hc
        exact .single .fresh

theorem gather_changes (hg : h.gather structs loc pred params stops = .ok (s, h')) :
    h.sets.Changes h'.sets := by
  obtain ⟨ty, layout, p, sets, st₁, goals, st, -, -, -, hc, he, ha, rfl, -⟩ := gather_steps hg
  exact ((chooseParams_changes hc).trans (enter_changes he)).trans (absorb_changes ha)

/-- A fold is a row of changes of constraints. -/
theorem fold_changes {root : Value} {o : Option Hole}
    (hf : h.fold structs root pred params stops = .ok (h', o)) : h.sets.Changes h'.sets := by
  rcases fold_eq_ok hf with ⟨loc, s, h₁, -, hg, rfl, -⟩ | ⟨-, -, -, ⟨-, rfl⟩ | ⟨p, sets, -, hb, rfl⟩⟩
  · exact (gather_changes hg : h.sets.Changes h₁.sets)
  · exact .refl
  · exact Predicate.baseCase_changes hb

/-! ### Cases -/

/-- The summary at a location can be unfolded into a cell. -/
def HasCase (h : Heap) (structs : Structs) (k : Loc) : Prop :=
  ∃ c cs, h.unfold structs k = .ok (c :: cs)

/-- No fold elsewhere that leaves a summary takes its cases away. -/
def KeepsCases (h : Heap) (structs : Structs) (k : Loc) (s : Summary) : Prop :=
  ∀ root pred params stops h' o, root ≠ .ptr k → h.fold structs root pred params stops = .ok (h', o) →
    h'.summary? k = some s → h'.HasCase structs k

/-- The set of nodes of a `graphc` is known to have an element. -/
def HasNode (h : Heap) (s : Summary) : Prop :=
  s.pred = .graph → ∃ nodes, s.params.sets.head? = some nodes ∧ h.sets.HasElement nodes

/-- A summary has a case if its structure is laid out for it, and a root can be taken out of its
    sets. -/
theorem hasCase_iff (hs : h.summary? k = some s) : h.HasCase structs k ↔
    (∃ decl layout, structs.decl? s.ty = some decl ∧ s.pred.layout? structs s.ty = some layout ∧
      s.ways layout ≠ []) ∧ (s.pred.step k s.params h.sets).2.isSome := by
  have case_isSome (decl : StructDecl) (layout : Layout) (way : Option Nat) :
      (h.unfoldCase k s decl layout way).isSome = (s.pred.step k s.params h.sets).2.isSome :=
    Option.isSome_map
  simp only [HasCase, unfold, hs]
  constructor
  · rintro ⟨c, cs, hu⟩
    split at hu
    · rename_i decl layout hd hl
      have hc : c ∈ (s.ways layout).filterMap (h.unfoldCase k s decl layout) := by
        rw [Except.ok.inj hu]
        exact .head _
      obtain ⟨way, hway, hc⟩ := List.mem_filterMap.1 hc
      refine ⟨⟨decl, layout, hd, hl, List.ne_nil_of_mem hway⟩, ?_⟩
      rw [← case_isSome decl layout way, hc]
      rfl
    · cases hu
  · rintro ⟨⟨decl, layout, hd, hl, hways⟩, hstep⟩
    obtain ⟨way, ways, hw⟩ := List.exists_cons_of_ne_nil hways
    obtain ⟨c, hc⟩ := Option.isSome_iff_exists.1 ((case_isSome decl layout way).trans hstep)
    exact ⟨c, ways.filterMap (h.unfoldCase k s decl layout), by
      simp only [hd, hl, hw, List.filterMap_cons, hc]⟩

end Heap

/-- An element can be taken out of a set that is not known to be empty, or that it was taken out
    of before. -/
theorem SetStore.takeOut_isSome {v : SetVar} {loc : Loc} :
    (s.takeOut v loc).2.isSome ↔ (s.splitOf? v loc).isSome ∨ s.isKnownEmpty v = false := by
  rw [takeOut]
  rcases hsplit : s.splitOf? v loc with _ | rest
  · simp only [Option.isSome_none, Bool.false_eq_true, false_or, addSplit?, isKnownEmpty_fresh]
    rcases s.isKnownEmpty v <;> simp
  · simp

/-- Only the root of a `graphc` is taken out of a set. -/
theorem Predicate.step_isSome {p : Predicate} {root : Loc} {params : Params} :
    (p.step root params s).2.isSome ↔
      (p = .graph → ∃ nodes targets more, params.sets = nodes :: targets :: more ∧
        ((s.splitOf? nodes root).isSome ∨ s.isKnownEmpty nodes = false)) ∧
      (p = .edges → params.sets ≠ []) := by
  rw [step.eq_def]
  split
  · simp
  · simp
  · rename_i nodes targets more hsets
    simp [hsets, SetStore.takeOut_isSome]
  · rename_i hsets
    simp only [Option.isSome_none, Bool.false_eq_true, false_iff, not_and]
    intro hg
    obtain ⟨nodes, targets, more, he, -⟩ := hg trivial
    exact absurd he (hsets _ _ _)
  · rename_i hsets
    simp [hsets]
  · rename_i hsets
    simp [hsets]

namespace Heap

variable {structs : Structs} {h h' : Heap} {k : Loc} {s : Summary}

/-- The cases of a `graphc` with a node survive every row of changes. -/
theorem hasCase_of_changes (hv : h.sets.Valid) (hs : h.summary? k = some s) (hc : h.HasCase structs k)
    (hn : h.HasNode s) (hch : h.sets.Changes h'.sets) (hs' : h'.summary? k = some s) :
    h'.HasCase structs k := by
  obtain ⟨hlay, hstep⟩ := (hasCase_iff hs).1 hc
  refine (hasCase_iff hs').2 ⟨hlay, ?_⟩
  rw [Predicate.step_isSome] at hstep ⊢
  refine ⟨fun hp => ?_, hstep.2⟩
  obtain ⟨nodes, targets, more, hsets, hopen⟩ := hstep.1 hp
  obtain ⟨nodes', hhead, hel⟩ := hn hp
  rw [hsets, List.head?_cons, Option.some.injEq] at hhead
  subst hhead
  refine ⟨nodes, targets, more, hsets, ?_⟩
  rcases hopen with hsplit | hopen
  · exact .inl (SetStore.Changes.splitOf? hch hv hsplit)
  · exact .inr (SetStore.Changes.not_isKnownEmpty hch hv hel hopen).2

/-- Null is folded into an empty `graphc` over every set that is not known to have an element.
    After that no `graphc` over this set has a node. -/
theorem fold_null_rules_out (hv : h.sets.Valid) (hcons : h.sets.Consistent)
    (hs : h.summary? k = some s) (hc : h.HasCase structs k) (hn : ¬ h.HasNode s) :
    ∃ params h', h.fold structs .null .graph (some params) [] = .ok (h', none) ∧
      h'.summary? k = some s ∧ ¬ h'.HasCase structs k := by
  obtain ⟨hp, hno⟩ : s.pred = .graph ∧
      ∀ nodes, s.params.sets.head? = some nodes → ¬ h.sets.HasElement nodes := by
    simpa [HasNode] using hn
  obtain ⟨nodes, targets, more, hsets, -⟩ := (Predicate.step_isSome.1 ((hasCase_iff hs).1 hc).2).1 hp
  have hel : ¬ h.sets.HasElement nodes := hno nodes (by rw [hsets]; rfl)
  let sets : SetStore := { h.sets with empties := h.sets.empties.insert (h.sets.resolve nodes) }
  have hset : h.sets.setEmpty? nodes = some sets := SetStore.setEmpty?_of_not_hasElement hcons hel
  refine ⟨⟨[], [nodes, targets]⟩, { h with sets }, ?_, hs, fun hcase => ?_⟩
  · simp only [fold, checkArity, Predicate.baseCase, hset]
    rfl
  · obtain ⟨nodes', targets', more', hsets', hopen⟩ :=
      (Predicate.step_isSome.1 ((hasCase_iff (h := { h with sets }) hs).1 hcase).2).1 hp
    rw [hsets, List.cons.injEq] at hsets'
    obtain ⟨rfl, -⟩ := hsets'
    rcases hopen with hsplit | hempty
    · -- The splits are those from before, and none is of this set.
      exact hel (SetStore.hasElement_of_splitOf? (s := h.sets) hsplit)
    · have hknown : sets.isKnownEmpty nodes = true :=
        SetStore.isKnownEmpty_iff.2 ⟨_, List.mem_insert_self, .inl (hv.reprs nodes)⟩
      exact Bool.false_ne_true (hempty.symm.trans hknown)

theorem keepsCases_of_hasNode (hv : h.sets.Valid) (hs : h.summary? k = some s)
    (hc : h.HasCase structs k) (hn : h.HasNode s) : h.KeepsCases structs k s :=
  fun _ _ _ _ _ _ _ hf hs' => hasCase_of_changes hv hs hc hn (fold_changes hf) hs'

theorem hasNode_of_keepsCases (hv : h.sets.Valid) (hcons : h.sets.Consistent)
    (hs : h.summary? k = some s) (hc : h.HasCase structs k) (hk : h.KeepsCases structs k s) :
    h.HasNode s := by
  refine Classical.byContradiction fun hn => ?_
  obtain ⟨params, h', hf, hs', hno⟩ := fold_null_rules_out hv hcons hs hc hn
  exact hno (hk .null .graph (some params) [] h' none nofun hf hs')

/-- The cases of a summary survive every fold elsewhere if its set of nodes is known to have an
    element. In a heap whose sets do not contradict each other they do so only then. -/
theorem keepsCases_iff_hasNode (hv : h.sets.Valid) (hs : h.summary? k = some s)
    (hc : h.HasCase structs k) :
    (h.HasNode s → h.KeepsCases structs k s) ∧
      (h.sets.Consistent → (h.KeepsCases structs k s ↔ h.HasNode s)) :=
  ⟨keepsCases_of_hasNode hv hs hc, fun hcons =>
    ⟨hasNode_of_keepsCases hv hcons hs hc, keepsCases_of_hasNode hv hs hc⟩⟩

end Heap

/-! ### A node that is cut off from the others -/

namespace Sample

/-- The structures of graphs: edges and nodes. -/
def graphs : Structs :=
  [⟨"edge", [⟨"next", .ptr ⟨0⟩⟩, ⟨"dest", .ptr ⟨1⟩⟩]⟩,
    ⟨"node", [⟨"next", .ptr ⟨1⟩⟩, ⟨"edges", .ptr ⟨0⟩⟩]⟩]

/-- The other nodes, as a `graphc` over a set without a name. -/
def others : Summary := ⟨.graph, ⟨1⟩, ⟨[], [⟨2⟩, ⟨1⟩]⟩, none⟩

/-- A node that was taken out of the set `F` and has no successor. The others are at another
    location, and more may be known about their set. -/
def severed (more : List Split) : Heap :=
  ⟨.ofSlots [.occupied (.cell ⟨⟨1⟩, [.null, .null]⟩), .occupied (.summary others)],
    ⟨⟨[("E", ⟨1⟩), ("F", ⟨0⟩)]⟩, [⟨0⟩, ⟨1⟩, ⟨2⟩, ⟨3⟩], [], ⟨⟨0⟩, ⟨0⟩, ⟨2⟩⟩ :: more, []⟩⟩

theorem severed_valid (more : List Split) : (severed more).sets.Valid where
  names := (by decide : ["E", "F"].Nodup)
  reprs v := by obtain ⟨_ | _ | _ | _ | i⟩ := v <;> rfl

end Sample

namespace Heap

/-- The other nodes keep their case, if they were unfolded before. -/
theorem keepsCases_refolded :
    let h := Sample.severed [⟨⟨2⟩, ⟨1⟩, ⟨3⟩⟩]
    h.sets.Valid ∧ h.summary? ⟨1⟩ = some Sample.others ∧ h.HasCase Sample.graphs ⟨1⟩ ∧
      h.HasNode Sample.others ∧ h.KeepsCases Sample.graphs ⟨1⟩ Sample.others := by
  intro h
  have hcase : h.HasCase Sample.graphs ⟨1⟩ := ⟨_, _, rfl⟩
  have hnode : h.HasNode Sample.others := fun _ =>
    ⟨⟨2⟩, rfl, ⟨⟨2⟩, ⟨1⟩, ⟨3⟩⟩, .tail _ (.head _), .refl _⟩
  exact ⟨Sample.severed_valid _, rfl, hcase, hnode,
    (keepsCases_iff_hasNode (Sample.severed_valid _) rfl hcase).1 hnode⟩

/-- The node alone passes for all of `F`, and then the others have no case any more. -/
theorem check_rules_out_others :
    (Sample.severed []).HasCase Sample.graphs ⟨1⟩ ∧
      ∃ h', (Sample.severed []).fold Sample.graphs (.ptr ⟨0⟩) .graph (some ⟨[], [⟨0⟩, ⟨1⟩]⟩) [] =
          .ok (h', none) ∧
        h'.summary? ⟨1⟩ = (Sample.severed []).summary? ⟨1⟩ ∧ ¬ h'.HasCase Sample.graphs ⟨1⟩ := by
  let cfg : Folding.Setting := ⟨Sample.graphs, [], ⟨0⟩, .graph⟩
  let taken (empties : List SetVar) : Folding :=
    ⟨⟨.ofSlots [.vacant, .occupied (.summary Sample.others)], { (Sample.severed []).sets with empties }⟩,
      none, [⟨0⟩]⟩
  have henter : Folding.enter cfg ⟨Sample.severed [], none, []⟩ ⟨0⟩ .graph ⟨1⟩ ⟨[], [⟨0⟩, ⟨1⟩]⟩ =
      .ok (taken [], [.inst .null .graph ⟨1⟩ ⟨[], [⟨2⟩, ⟨1⟩]⟩,
        .inst .null .edges ⟨0⟩ ⟨[], [⟨1⟩]⟩]) := rfl
  -- The successor is null, so the other nodes are taken to be none.
  have hset : (Sample.severed []).sets.setEmpty? ⟨2⟩ =
      some { (Sample.severed []).sets with empties := [⟨2⟩] } := by decide +kernel
  have hempty : (taken []).visit cfg (.inst .null .graph ⟨1⟩ ⟨[], [⟨2⟩, ⟨1⟩]⟩) =
      .ok (taken [⟨2⟩], []) := by
    have hbase : Predicate.graph.baseCase ⟨[], [⟨2⟩, ⟨1⟩]⟩ (taken []).heap.sets = some _ := hset
    rw [Folding.visit, hbase]
  have hedges : (taken [⟨2⟩]).visit cfg (.inst .null .edges ⟨0⟩ ⟨[], [⟨1⟩]⟩) =
      .ok (taken [⟨2⟩], []) := rfl
  refine ⟨⟨_, _, rfl⟩, (taken [⟨2⟩]).heap.write ⟨0⟩
    (.occupied (.summary ⟨.graph, ⟨1⟩, ⟨[], [⟨0⟩, ⟨1⟩]⟩, none⟩)), ?_, rfl, ?_⟩
  · have habsorb : (taken []).absorb cfg
        [.inst .null .graph ⟨1⟩ ⟨[], [⟨2⟩, ⟨1⟩]⟩, .inst .null .edges ⟨0⟩ ⟨[], [⟨1⟩]⟩] =
          .ok (taken [⟨2⟩]) := by
      rw [Folding.absorb, hempty]
      show (taken [⟨2⟩]).absorb cfg [.inst .null .edges ⟨0⟩ ⟨[], [⟨1⟩]⟩] = _
      rw [Folding.absorb, hedges]
      show (taken [⟨2⟩]).absorb cfg [] = _
      rw [Folding.absorb]
    have hgather : (Sample.severed []).gather Sample.graphs ⟨0⟩ .graph (some ⟨[], [⟨0⟩, ⟨1⟩]⟩) [] =
        .ok (⟨.graph, ⟨1⟩, ⟨[], [⟨0⟩, ⟨1⟩]⟩, none⟩, (taken [⟨2⟩]).heap) := by
      have harity : checkArity .graph (some ⟨[], [⟨0⟩, ⟨1⟩]⟩) (some ⟨0⟩) = .ok () := rfl
      have hroot : (Sample.severed []).rootStruct ⟨0⟩ = .ok ⟨1⟩ := rfl
      have hlayout : Predicate.graph.layout? Sample.graphs ⟨1⟩ = some _ := rfl
      simp only [gather, bind, Except.bind, harity, hroot, hlayout, chooseParams]
      rw [henter]
      dsimp only
      rw [habsorb]
      rfl
    rw [fold, hgather]
    rfl
  · rintro ⟨c, cs, hu⟩
    cases hu

end Heap

end HeapShape
