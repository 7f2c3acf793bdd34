import HeapShape.Proofs.CellStructures
import HeapShape.Proofs.Issued

/-!
# Graphs of cells

A graph of which every record is known: a chain of nodes, each with a list of edges, where an edge
leads to null or to a node. The fold of it takes all nodes before it looks at any edge, since the
successor of a node comes before the edges of the node. So wherever an edge leads to a node, nothing
is known of this location any more when the edge is looked at, and the node is not found in the set
that edges lead into. The graph folds exactly if no edge leads to a node.

* `Heap.EdgeCells`, `Heap.NodeCells`: lists of edges and graphs of cells;
* `SetStore.Undivided`: a set that nothing was taken out of, and what its nodes make of it;
* `Heap.EdgeCells.clears`, `Heap.NodeCells.clears`: how far a search gets in the edges of a node and
  in a graph;
* `Heap.check_graph`: when the fold of a graph succeeds, and where it is refused otherwise.
-/

namespace HeapShape

open List

/-! ### A set of nodes -/

namespace SetStore

/-- All that is recorded is that one of two sets is included in the other. -/
structure OnlyIncluded (s : SetStore) (sub sup : SetVar) : Prop where
  issued : s.Issued
  sub_has : s.Has sub
  sup_has : s.Has sup
  subsets : s.subsets = [(sub, sup)]
  splits : s.splits = []
  empties : s.empties = []

/-- Nothing is known to be in a set, and no set is known to be empty. -/
structure Undivided (s : SetStore) (v : SetVar) : Prop where
  issued : s.Issued
  has : s.Has v
  subsets : ∀ p ∈ s.subsets, s.Has p.2
  empties : s.empties = []
  elements : ¬ s.HasElement v

variable {s s' : SetStore} {v w : SetVar}

theorem OnlyIncluded.undivided (h : s.OnlyIncluded v w) : s.Undivided v where
  issued := h.issued
  has := h.sub_has
  subsets p hp := by
    rw [h.subsets, mem_singleton] at hp
    exact hp ▸ h.sup_has
  empties := h.empties
  elements := by
    rintro ⟨p, hp, -⟩
    rw [h.splits] at hp
    exact not_mem_nil hp

/-- Nothing is known to be in a set that is not the larger one in anything recorded. -/
theorem not_hasElement (hsub : ∀ p ∈ s.subsets, s.resolve p.2 ≠ s.resolve v)
    (hsplit : ∀ p ∈ s.splits, s.resolve p.whole ≠ s.resolve v) : ¬ s.HasElement v := by
  rintro ⟨p, hp, hlead⟩
  generalize hw : s.resolve v = w at hlead
  cases hlead with
  | refl => exact hsplit p hp hw.symm
  | step _ he =>
    subst hw
    rcases mem_edges.1 he with ⟨q, hq, he⟩ | ⟨q, hq, he⟩
    · exact hsub q hq (congrArg Prod.snd he)
    · exact hsplit q hq (congrArg Prod.snd he)

theorem isKnownEmpty_of_empties (he : s.empties = []) : s.isKnownEmpty v = false := by
  rw [isKnownEmpty, he]
  rfl

namespace Undivided

/-- An element can be taken out, and nothing is known to be in what is left. -/
theorem takeOut (h : s.Undivided v) (loc : Loc) : ∃ s' r, s.takeOut v loc = (s', some r) ∧
    s'.Undivided r ∧ s'.names = s.names ∧ s'.resolve = s.resolve := by
  have hnone : s.splitOf? v loc = none := by
    rw [← Option.not_isSome_iff_eq_none]
    exact fun hs => h.elements (hasElement_of_splitOf? hs)
  have hempty : s.fresh.2.isKnownEmpty v = false := isKnownEmpty_of_empties h.empties
  obtain ⟨s', hadd⟩ : ∃ s', s.fresh.2.addSplit? v loc s.fresh.1 = some s' := by
    rw [addSplit?, hempty]
    exact ⟨_, rfl⟩
  refine ⟨s', s.fresh.1, ?_, ?_⟩
  · rw [SetStore.takeOut, hnone]
    simp only [hadd]
  -- What was there before is not about the new variable.
  have hgrown := h.issued.fresh.1
  have hnew {u : SetVar} (hu : s.Has u) : s.resolve u ≠ s.fresh.1 := fun he =>
    Nat.lt_irrefl _ (he ▸ h.issued.resolve hu : s.fresh.1.id < s.reprs.length)
  have hresolve : s.fresh.2.resolve = s.resolve := funext fun u => resolve_fresh s u
  have hself : s.resolve s.fresh.1 = s.fresh.1 := (resolve_fresh s _).symm.trans (resolve_new s)
  obtain ⟨-, rfl | rfl⟩ := addSplit?_eq_some hadd
  · refine ⟨⟨hgrown.issued, h.issued.fresh.2, fun p hp => hgrown.has (h.subsets p hp), h.empties,
      not_hasElement (fun p hp => ?_) fun p hp => ?_⟩, rfl, hresolve⟩
    · rw [hresolve, hself]
      exact hnew (h.subsets p hp)
    · rw [hresolve, hself]
      exact hnew (h.issued.splits p hp).1
  · have hgrown' := hgrown.issued.addSplit? (hgrown.has h.has) h.issued.fresh.2 hadd
    refine ⟨⟨hgrown'.issued, hgrown'.has h.issued.fresh.2, fun p hp => hgrown.has (h.subsets p hp),
      h.empties, not_hasElement (fun p hp => ?_) fun p hp => ?_⟩, rfl, hresolve⟩
    · show s.fresh.2.resolve p.2 ≠ s.fresh.2.resolve s.fresh.1
      rw [hresolve, hself]
      exact hnew (h.subsets p hp)
    · show s.fresh.2.resolve p.whole ≠ s.fresh.2.resolve s.fresh.1
      rw [hresolve, hself]
      rcases mem_append.1 hp with hp | hp
      · exact hnew (h.issued.splits p hp).1
      · rw [mem_singleton.1 hp, hresolve]
        exact hnew (h.issued.resolve h.has)

/-- The set can be empty. -/
theorem setEmpty? (h : s.Undivided v) :
    ∃ s', s.setEmpty? v = some s' ∧ s'.names = s.names ∧ s'.resolve = s.resolve :=
  ⟨_, setEmpty?_of_not_hasElement (fun _ _ => isKnownEmpty_of_empties h.empties) h.elements, rfl, rfl⟩

end Undivided

theorem describe_congr (hn : s'.names = s.names) (hr : s'.resolve = s.resolve) (v : SetVar) :
    s'.describe v = s.describe v := by
  rw [describe, describe, nameOf?, nameOf?, hn, hr]

end SetStore

/-! ### Graphs of cells -/

/-- The structures of nodes and of edges, and the fields of them that make up a graph. -/
structure GraphFields where
  node : StructId
  next : Nat
  edges : Nat
  edge : StructId
  along : Nat
  dest : Nat

/-- The structures are laid out for graphs and for edges of graphs, by these fields. -/
structure GraphFields.Fits (g : GraphFields) (structs : Structs) : Prop where
  nodes : Predicate.graph.layout? structs g.node =
    some ⟨[g.next], none, [(g.edges, .edges, g.edge)], []⟩
  edges : ∃ target, Predicate.edges.layout? structs g.edge =
    some ⟨[g.along], none, [], [(g.dest, target)]⟩

namespace Heap

/-- A list of edges, with where they lead. -/
inductive EdgeCells (h : Heap) (g : GraphFields) : Value → List Loc → List Value → Prop
  | nil : EdgeCells h g .null [] []
  | cons {loc : Loc} {c : Cell} {v d : Value} {locs : List Loc} {dests : List Value}
      (hs : h.slot loc = .occupied (.cell c)) (hty : c.ty = g.edge) (hv : c.fields[g.along]? = some v)
      (hd : c.fields[g.dest]? = some d) (tail : EdgeCells h g v locs dests) :
      EdgeCells h g (.ptr loc) (loc :: locs) (d :: dests)

/-- A chain of nodes that each have a list of edges, with the nodes, the edges and where the edges
    lead. -/
inductive NodeCells (h : Heap) (g : GraphFields) : Value → List Loc → List Loc → List Value → Prop
  | nil : NodeCells h g .null [] [] []
  | cons {loc : Loc} {c : Cell} {v w : Value} {nodes edges es : List Loc} {dests ds : List Value}
      (hs : h.slot loc = .occupied (.cell c)) (hty : c.ty = g.node) (hv : c.fields[g.next]? = some v)
      (hw : c.fields[g.edges]? = some w) (own : EdgeCells h g w es ds)
      (tail : NodeCells h g v nodes edges dests) :
      NodeCells h g (.ptr loc) (loc :: nodes) (edges ++ es) (dests ++ ds)

open Folding

variable {structs : Structs} {h : Heap} {g : GraphFields} {cfg : Setting} {s : SetStore} {v : Value}
  {nodes edges : List Loc} {dests : List Value} {goals : List Goal} {set targets : SetVar}

/-- A search for the edges of a node takes all of them before it looks at where they lead. It goes
    through if they lead nowhere, and gets to an edge that leads to a location otherwise. -/
theorem EdgeCells.clears (hg : g.Fits cfg.structs) (hstops : cfg.stops = [])
    (hc : h.EdgeCells g v edges dests) (hd : .int ∉ dests) :
    ((∀ d ∈ dests, d = .null) ∧
      Clears cfg h s (.inst v .edges g.edge ⟨[], [targets]⟩ :: goals) edges none s goals) ∨
    ∃ k left, .ptr k ∈ dests ∧
      Clears cfg h s (.inst v .edges g.edge ⟨[], [targets]⟩ :: goals) edges none s
        (.ref (.ptr k) (some targets) :: left) := by
  induction hc generalizing goals with
  | nil => exact .inl ⟨forall_mem_nil _, .null rfl .nil⟩
  | @cons loc c v d locs dests hs hty hv hdest tail ih =>
    obtain ⟨target, hl⟩ := hg.edges
    rw [mem_cons, not_or] at hd
    have hm : meet cfg.structs s loc (.cell c) .edges g.edge ⟨[], [targets]⟩ =
        .ok (s, [.inst v .edges g.edge ⟨[], [targets]⟩, .ref d (some targets)]) := by
      rw [meet, meetCell, if_neg (not_not_intro hty), hl]
      simp only [checkBack, Predicate.step, cellGoals, map_cons, map_nil, Goal.ofField, hv,
        hdest, hty]
      rfl
    have hfree : loc ≠ cfg.root → loc ∉ cfg.stops := fun _ => hstops ▸ not_mem_nil
    rcases @ih (.ref d (some targets) :: goals) hd.2 with ⟨hnull, htail⟩ | ⟨k, left, hk, htail⟩
    · rcases d with _ | k | _
      · refine .inl ⟨forall_mem_cons.2 ⟨rfl, hnull⟩, ?_⟩
        exact .fact hs hfree hm (append_nil locs ▸ htail.trans (.nullRef .nil) (.inl rfl))
      · exact .inr ⟨k, goals, .head _, .fact hs hfree hm htail⟩
      · exact absurd rfl hd.1
    · exact .inr ⟨k, left, .tail _ hk, .fact hs hfree hm htail⟩

/-- A search for a graph takes all nodes before it looks at any edge. It goes through if no edge leads
    anywhere, and gets to an edge that leads to a location otherwise. -/
theorem NodeCells.clears (hg : g.Fits cfg.structs) (hstops : cfg.stops = [])
    (hc : h.NodeCells g v nodes edges dests) (hd : .int ∉ dests) (hs : s.Undivided set) :
    ∃ s', (s'.names = s.names ∧ s'.resolve = s.resolve) ∧
      (((∀ d ∈ dests, d = .null) ∧
        Clears cfg h s (.inst v .graph g.node ⟨[], [set, targets]⟩ :: goals) (nodes ++ edges) none s' goals) ∨
      ∃ k left taken, .ptr k ∈ dests ∧ taken <+: edges ∧
        Clears cfg h s (.inst v .graph g.node ⟨[], [set, targets]⟩ :: goals) (nodes ++ taken) none s'
          (.ref (.ptr k) (some targets) :: left)) := by
  induction hc generalizing s set goals with
  | nil =>
    obtain ⟨s', he, hsame⟩ := hs.setEmpty?
    exact ⟨s', hsame, .inl ⟨forall_mem_nil _, .null he .nil⟩⟩
  | @cons loc c v w nodes edges es dests ds hslot hty hv hw own tail ih =>
    rw [mem_append, not_or] at hd
    obtain ⟨s₁, r, htake, hs₁, hnames, hresolve⟩ := hs.takeOut loc
    have hm : meet cfg.structs s loc (.cell c) .graph g.node ⟨[], [set, targets]⟩ =
        .ok (s₁, [.inst v .graph g.node ⟨[], [r, targets]⟩, .inst w .edges g.edge ⟨[], [targets]⟩]) := by
      rw [meet, meetCell, if_neg (not_not_intro hty), hg.nodes]
      simp only [checkBack, Predicate.step, htake, cellGoals, map_cons, map_nil, Goal.ofField,
        hv, hw, hty]
      rfl
    have hfree : loc ≠ cfg.root → loc ∉ cfg.stops := fun _ => hstops ▸ not_mem_nil
    obtain ⟨s', hsame, hcases⟩ := ih hd.1 hs₁
    refine ⟨s', ⟨hsame.1.trans hnames, hsame.2.trans hresolve⟩, ?_⟩
    rcases hcases with ⟨hnull, htail⟩ | ⟨k, left, taken, hk, hpre, htail⟩
    · rcases own.clears hg hstops hd.2 with ⟨hnull', hown⟩ | ⟨k, left, hk, hown⟩
      · refine .inl ⟨fun d hd => (mem_append.1 hd).elim (hnull d) (hnull' d), ?_⟩
        rw [cons_append, ← append_assoc]
        exact .fact hslot hfree hm (htail.trans hown (.inl rfl))
      · refine .inr ⟨k, left, edges ++ es, mem_append_right _ hk, prefix_rfl, ?_⟩
        rw [cons_append, ← append_assoc]
        exact .fact hslot hfree hm (htail.trans hown (.inl rfl))
    · exact .inr ⟨k, left, taken, mem_append_left _ hk, hpre.trans (prefix_append _ _),
        .fact hslot hfree hm htail⟩

/-- A reference to a location of which nothing is known is refused. -/
theorem absorb_ref_vacant {st : Folding} {k : Loc} {left : List Goal} (hk : st.heap.slot k = .vacant) :
    st.absorb cfg (.ref (.ptr k) (some targets) :: left) =
      .error (.mismatch ⟨some k, .outside (st.heap.sets.describe targets)⟩) := by
  refine absorb_refused ?_
  rw [visit, checkRef, inside, hk]
  rfl

/-- A graph of cells folds or is refused at an edge that leads to a node. -/
theorem check_graph_cases {loc : Loc} (hg : g.Fits structs) (hs : h.sets.OnlyIncluded set targets)
    (hc : h.NodeCells g (.ptr loc) nodes edges dests) (hn : (nodes ++ edges).Nodup)
    (hd : ∀ d ∈ dests, d = .null ∨ ∃ k ∈ nodes, d = .ptr k) :
    ((∀ d ∈ dests, d = .null) ∧
      ∃ h', h.check structs (.ptr loc) .graph (some ⟨[], [set, targets]⟩) = .ok h' ∧
        h.Condensed loc (nodes ++ edges) ⟨.graph, g.node, h.resolveParams ⟨[], [set, targets]⟩, none⟩ h') ∨
    ∃ k ∈ nodes, .ptr k ∈ dests ∧
      h.check structs (.ptr loc) .graph (some ⟨[], [set, targets]⟩) =
        .error (.mismatch ⟨some k, .outside (h.sets.describe targets)⟩) := by
  have hint : .int ∉ dests := by
    intro hmem
    rcases hd _ hmem with he | ⟨k, -, he⟩ <;> cases he
  have hroot : h.rootStruct loc = .ok g.node := by
    cases hc with
    | cons hslot hty _ _ _ _ => rw [rootStruct, hslot, ← hty]
  have harity : checkArity .graph (some ⟨[], [set, targets]⟩) (some loc) = .ok () := rfl
  have hparams : h.chooseParams loc .graph ⟨[g.next], none, [(g.edges, .edges, g.edge)], []⟩
      (some ⟨[], [set, targets]⟩) = .ok (⟨[], [set, targets]⟩, h.sets) := rfl
  obtain ⟨s', ⟨hnames, hresolve⟩, hcases⟩ :=
    @NodeCells.clears h g ⟨structs, [], loc, .graph⟩ h.sets _ _ _ _ [] set targets hg rfl hc hint hs.undivided
  rcases hcases with ⟨hnull, hclears⟩ | ⟨k, left, taken, hk, hpre, hclears⟩
  · obtain ⟨h', hf, hsize, hsets, hslot⟩ := fold_of_clears harity hroot hg.nodes hparams hclears hn
    have hsame : h'.resolveParams ⟨[], [set, targets]⟩ = h.resolveParams ⟨[], [set, targets]⟩ := by
      rw [resolveParams, hsets, hresolve]
      rfl
    rw [hsame] at hslot
    exact .inl ⟨hnull, h', check_of_fold hf, condensed_of_slots hsize hslot⟩
  · obtain ⟨k', hk', he⟩ := (hd _ hk).resolve_left Value.noConfusion
    cases he
    refine .inr ⟨k, hk', hk, ?_⟩
    have hn' : (nodes ++ taken).Nodup := hn.sublist (List.Sublist.append_left hpre.sublist nodes)
    obtain ⟨st, hrun, ht, hsets, -⟩ := absorb_start hclears hn'
    have hvacant : st.heap.slot k = .vacant := by
      rw [ht.slot, if_pos (mem_append_left _ hk')]
    rw [absorb_ref_vacant hvacant, hsets, SetStore.describe_congr hnames hresolve] at hrun
    exact check_refused (fold_refused harity hroot hg.nodes hparams hrun)

/-- A graph of cells, with sets of which only the inclusion of its nodes in the targets is recorded,
    folds if no edge leads to a node. Otherwise the fold is refused at a node that an edge leads to,
    although the node is one of those that the set of nodes is made of. -/
theorem check_graph {loc : Loc} (hg : g.Fits structs) (hs : h.sets.OnlyIncluded set targets)
    (hc : h.NodeCells g (.ptr loc) nodes edges dests) (hn : (nodes ++ edges).Nodup)
    (hd : ∀ d ∈ dests, d = .null ∨ ∃ k ∈ nodes, d = .ptr k) :
    ((∀ d ∈ dests, d = .null) →
      ∃ h', h.check structs (.ptr loc) .graph (some ⟨[], [set, targets]⟩) = .ok h' ∧
        h.Condensed loc (nodes ++ edges) ⟨.graph, g.node, h.resolveParams ⟨[], [set, targets]⟩, none⟩ h') ∧
    ((∃ d ∈ dests, d ≠ .null) →
      ∃ k ∈ nodes, .ptr k ∈ dests ∧
        h.check structs (.ptr loc) .graph (some ⟨[], [set, targets]⟩) =
          .error (.mismatch ⟨some k, .outside (h.sets.describe targets)⟩)) := by
  rcases check_graph_cases hg hs hc hn hd with ⟨hnull, hok⟩ | ⟨k, hk, hmem, herr⟩
  · refine ⟨fun _ => hok, ?_⟩
    rintro ⟨d, hd, hne⟩
    exact absurd (hnull d hd) hne
  · exact ⟨fun hnull => Value.noConfusion (hnull _ hmem), fun _ => ⟨k, hk, hmem, herr⟩⟩

end Heap

namespace Sample

/-- The fields that make up a graph in the structures of graphs. -/
def graphFields : GraphFields := ⟨⟨1⟩, 0, 1, ⟨0⟩, 0, 1⟩

/-- Two declared sets, the first of which is included in the second. -/
def oneInclusion : SetStore := ⟨⟨[("E", ⟨1⟩), ("F", ⟨0⟩)]⟩, [⟨0⟩, ⟨1⟩], [(⟨0⟩, ⟨1⟩)], [], []⟩

/-- A graph of one node with one edge, which leads to a given value. -/
def oneEdge (dest : Value) : Heap :=
  ⟨.ofSlots [.occupied (.cell ⟨⟨1⟩, [.null, .ptr ⟨1⟩]⟩), .occupied (.cell ⟨⟨0⟩, [.null, dest]⟩)], oneInclusion⟩

theorem graphFields_fits : graphFields.Fits graphs := ⟨rfl, ⟨1⟩, rfl⟩

theorem oneInclusion_only : oneInclusion.OnlyIncluded ⟨0⟩ ⟨1⟩ := by
  have hsub : oneInclusion.Has ⟨0⟩ := Nat.zero_lt_two
  have hsup : oneInclusion.Has ⟨1⟩ := Nat.one_lt_two
  refine ⟨⟨fun v hv => ?_, fun name v hv => ?_, forall_mem_nil _⟩, hsub, hsup, rfl, rfl, rfl⟩
  · rcases mem_pair.1 hv with rfl | rfl
    · exact hsub
    · exact hsup
  · rcases mem_pair.1 (NameMap.mem_of_get? hv) with he | he
    · cases he
      exact hsup
    · cases he
      exact hsub

theorem oneEdge_cells (dest : Value) :
    (oneEdge dest).NodeCells graphFields (.ptr ⟨0⟩) [⟨0⟩] [⟨1⟩] [dest] := by
  have hs : (oneEdge dest).slot ⟨0⟩ = .occupied (.cell ⟨⟨1⟩, [.null, .ptr ⟨1⟩]⟩) := rfl
  have hs' : (oneEdge dest).slot ⟨1⟩ = .occupied (.cell ⟨⟨0⟩, [.null, dest]⟩) := rfl
  exact .cons hs rfl rfl rfl (.cons hs' rfl rfl rfl .nil) .nil

end Sample

namespace Heap

/-- One node with an edge to null folds, and one node with an edge to itself does not. -/
theorem check_graph_oneEdge :
    (∃ h', (Sample.oneEdge .null).check Sample.graphs (.ptr ⟨0⟩) .graph
        (some ⟨[], [⟨0⟩, ⟨1⟩]⟩) = .ok h' ∧
      (Sample.oneEdge .null).Condensed ⟨0⟩ [⟨0⟩, ⟨1⟩] ⟨.graph, ⟨1⟩, ⟨[], [⟨0⟩, ⟨1⟩]⟩, none⟩ h') ∧
    ∃ k ∈ [(⟨0⟩ : Loc)], .ptr k ∈ [Value.ptr ⟨0⟩] ∧
      (Sample.oneEdge (.ptr ⟨0⟩)).check Sample.graphs (.ptr ⟨0⟩) .graph
        (some ⟨[], [⟨0⟩, ⟨1⟩]⟩) = .error (.mismatch ⟨some k, .outside "E"⟩) :=
  ⟨(check_graph Sample.graphFields_fits Sample.oneInclusion_only (Sample.oneEdge_cells .null)
      (by decide) (by simp)).1 (by simp),
    (check_graph Sample.graphFields_fits Sample.oneInclusion_only (Sample.oneEdge_cells (.ptr ⟨0⟩))
      (by decide) (by simp)).2 (by simp)⟩

/-- A graph of one node with an edge to itself is refused, although all is as a graph has to be: its
    only edge leads to its only node. -/
theorem check_graph_loop_refused :
    Sample.oneInclusion.OnlyIncluded ⟨0⟩ ⟨1⟩ ∧
    (Sample.oneEdge (.ptr ⟨0⟩)).NodeCells Sample.graphFields (.ptr ⟨0⟩) [⟨0⟩] [⟨1⟩] [.ptr ⟨0⟩] ∧
    (Sample.oneEdge (.ptr ⟨0⟩)).check Sample.graphs (.ptr ⟨0⟩) .graph
      (some ⟨[], [⟨0⟩, ⟨1⟩]⟩) = .error (.mismatch ⟨some ⟨0⟩, .outside "E"⟩) := by
  refine ⟨Sample.oneInclusion_only, Sample.oneEdge_cells _, ?_⟩
  rcases check_graph_cases Sample.graphFields_fits Sample.oneInclusion_only
    (Sample.oneEdge_cells (.ptr ⟨0⟩)) (by decide) (by simp) with ⟨hnull, -⟩ | ⟨k, hk, -, herr⟩
  · cases hnull _ (.head _)
  · cases mem_singleton.1 hk
    exact herr

end Heap

end HeapShape
