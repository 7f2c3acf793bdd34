import HeapShape.Proofs.Correspondence
import HeapShape.Proofs.SetMeaning

/-!
# Conflicts, whichever fact comes first

A set that has an element is not empty, nor is a set that it is included in. So a store refuses one
of the two facts that a set `v` is empty and that a set `whole` has an element, where `whole` is
included in `v`. The two orders in which they may come are refused by different questions:

* if the element comes first, `v` is refused by a search along all recorded inclusions;
* if `v` comes first, `whole` is refused only if its inclusion in `v` is recorded itself, or if
  the two are aliases (`SetStore.Direct`).

So the second order lets a conflict pass that shows only along a chain of two or more inclusions.

* `SetStore.isSome_split_empty`, `SetStore.isSome_empty_split`: when both facts are recorded, in
  either order;
* `SetStore.Overlooks`: the chains for which the orders differ.
-/

namespace HeapShape

namespace SetStore

variable {s s' : SetStore} {v w whole rest : SetVar} {loc : Loc}

theorem addSplit?_isSome (whole rest : SetVar) (loc : Loc) :
    (s.addSplit? whole loc rest).isSome ↔ s.isKnownEmpty whole = false := by
  simp [addSplit?]

/-! ### The empty set first -/

/-- Both facts are recorded, the empty set first, if no inclusion that is recorded itself speaks
    against it. -/
theorem isSome_empty_split (hs : s.Valid) (whole v rest : SetVar) (loc : Loc) :
    ((s.setEmpty? v).bind (·.addSplit? whole loc rest)).isSome ↔
      s.Free v ∧ s.isKnownEmpty whole = false ∧ ¬ s.Direct whole v := by
  cases h : s.setEmpty? v with
  | none =>
    have hfree : ¬ s.Free v := by
      rw [← setEmpty?_isSome, h]
      exact Bool.false_ne_true
    exact ⟨fun hb => (Bool.false_ne_true hb).elim, fun hb => (hfree hb.1).elim⟩
  | some s' =>
    have hfree : s.Free v := setEmpty?_isSome.1 (h ▸ rfl)
    rw [Option.bind_some, addSplit?_isSome, ← Bool.not_eq_true, isKnownEmpty_setEmpty? hs h, not_or,
      Bool.not_eq_true]
    exact ⟨fun hb => ⟨hfree, hb⟩, fun hb => hb.2⟩

/-! ### The split set first -/

namespace Splits

variable {p : Split} (h : s.Splits p s')

include h

theorem resolve_eq (v : SetVar) : s'.resolve v = s.resolve v := by
  rw [resolve, h.reprs, resolve]

theorem isKnownEmpty_eq (v : SetVar) : s'.isKnownEmpty v = s.isKnownEmpty v := by
  simp only [isKnownEmpty, h.empties, h.subsets, h.resolve_eq]

theorem mem_edges_iff {e : SetVar × SetVar} :
    e ∈ s'.edges ↔ e ∈ s.edges ∨ e = (s.resolve p.rest, s.resolve p.whole) := by
  simp only [mem_edges, h.subsets, h.resolve_eq, h.mem_splits, or_assoc, or_and_right, exists_or,
    exists_eq_left, @eq_comm _ e]

/-- A way after a split is one before it, or goes to the rest first and then on from the whole. -/
theorem leads_iff {x y : SetVar} : Reach.Leads s'.edges x y ↔ Reach.Leads s.edges x y ∨
    Reach.Leads s.edges x (s.resolve p.rest) ∧ Reach.Leads s.edges (s.resolve p.whole) y := by
  constructor
  · intro hl
    induction hl with
    | refl => exact .inl (.refl _)
    | step _ he ih =>
      rcases h.mem_edges_iff.1 he with he | he
      · exact ih.imp (.step · he) (.imp_right (.step · he))
      · -- The way uses the new inclusion, so what it did before does not matter.
        obtain ⟨rfl, rfl⟩ := Prod.mk.inj he
        exact .inr ⟨ih.elim id And.left, .refl _⟩
  · have hmono : s.edges ⊆ s'.edges := fun e he => h.mem_edges_iff.2 (.inl he)
    rintro (hl | ⟨hl, hl'⟩)
    · exact hl.mono hmono
    · exact ((hl.mono hmono).step (h.mem_edges_iff.2 (.inr rfl))).trans (hl'.mono hmono)

/-- After a split, a set is free if it was and if the set that was split does not lead to it. -/
theorem free_iff (he : s.isKnownEmpty p.whole = false) :
    s'.Free v ↔ s.Free v ∧ ¬ Reach.Leads s.edges (s.resolve p.whole) (s.resolve v) := by
  have hsub (q : Split) : s'.isSubset q.whole v = true ↔ s.isSubset q.whole v = true ∨
      Reach.Leads s.edges (s.resolve q.whole) (s.resolve p.rest) ∧
        Reach.Leads s.edges (s.resolve p.whole) (s.resolve v) := by
    rw [isSubset_iff, isSubset_iff, h.isKnownEmpty_eq, h.resolve_eq, h.resolve_eq, h.leads_iff, or_assoc]
  simp only [Free, ← Bool.not_eq_true, h.mem_splits] at *
  constructor
  · intro hfree
    refine ⟨fun q hq hs => hfree q (.inl hq) ((hsub q).2 (.inl hs)), fun hl => ?_⟩
    exact hfree p (.inr rfl) ((hsub p).2 (.inl (isSubset_iff.2 (.inr hl))))
  · rintro ⟨hfree, hno⟩ q hq hs
    rcases (hsub q).1 hs with hs | ⟨-, hl⟩
    · rcases hq with hq | rfl
      · exact hfree q hq hs
      · exact (isSubset_iff.1 hs).elim he hno
    · exact hno hl

end Splits

/-- Both facts are recorded, the split set first, if no chain of inclusions speaks against it. -/
theorem isSome_split_empty (hs : s.Valid) (whole v rest : SetVar) (loc : Loc) :
    ((s.addSplit? whole loc rest).bind (·.setEmpty? v)).isSome ↔
      s.Free v ∧ s.isKnownEmpty whole = false ∧
        ¬ Reach.Leads s.edges (s.resolve whole) (s.resolve v) := by
  cases h : s.addSplit? whole loc rest with
  | none =>
    have he : ¬ s.isKnownEmpty whole = false := by
      rw [← addSplit?_isSome whole rest loc, h]
      exact Bool.false_ne_true
    exact ⟨fun hb => (Bool.false_ne_true hb).elim, fun hb => (he hb.2.1).elim⟩
  | some s' =>
    have he : s.isKnownEmpty whole = false := (addSplit?_isSome whole rest loc).1 (h ▸ rfl)
    have he' : s.isKnownEmpty (s.resolve whole) = false := by
      simpa only [isKnownEmpty, hs.reprs] using he
    rw [Option.bind_some, setEmpty?_isSome, (splits_of_addSplit? h).free_iff he', hs.reprs]
    exact ⟨fun hb => ⟨hb.1, he, hb.2⟩, fun hb => ⟨hb.1, hb.2.2⟩⟩

/-! ### The two orders -/

/-- A set that could still be split leads to a set that could still be empty, but only over
    others. -/
structure Overlooks (s : SetStore) (whole v : SetVar) : Prop where
  splittable : s.isKnownEmpty whole = false
  free : s.Free v
  leads : Reach.Leads s.edges (s.resolve whole) (s.resolve v)
  indirect : ¬ s.Direct whole v

/-- A store that records a conflict has no model. -/
theorem Overlooks.not_satisfies {s₁ s₂ : SetStore} (h : s.Overlooks whole v) (hs : s.Valid)
    (he : s.setEmpty? v = some s₁) (ha : s₁.addSplit? whole loc rest = some s₂) {α : Type}
    (M : SetModel α) : ¬ M.Satisfies s₂ := by
  intro hM
  obtain ⟨-, rfl⟩ := setEmpty?_eq_some he
  have hsplits := splits_of_addSplit? ha
  have hsplit := hM.splits _ ((hsplits.mem_splits _).2 (.inr rfl))
  have hempty := hM.empties (s.resolve v) (hsplits.empties ▸ List.mem_insert_iff.2 (.inl rfl))
  -- The element is in the split set, so it is in all sets on the way, and the last one is empty.
  have hlead : Reach.Leads s₂.edges (s₂.resolve (s.resolve whole)) (s₂.resolve (s.resolve v)) := by
    rw [hsplits.resolve_eq, hsplits.resolve_eq]
    refine hsplits.leads_iff.2 (.inl ?_)
    show Reach.Leads s.edges (s.resolve (s.resolve whole)) (s.resolve (s.resolve v))
    rw [hs.reprs, hs.reprs]
    exact h.leads
  have hmem := hM.leads hlead hsplit.mem
  rw [hempty] at hmem
  exact hmem

/-- Where both facts are recorded with the split set first, they are with the empty set first.
    The converse holds exactly where no chain of inclusions is overlooked; and where one is, the
    store that records both facts has no model. -/
theorem Reached.conflict_order_iff {told : List SetFact} (h : Reached told s) (whole v rest : SetVar)
    (loc : Loc) :
    (((s.addSplit? whole loc rest).bind (·.setEmpty? v)).isSome →
      ((s.setEmpty? v).bind (·.addSplit? whole loc rest)).isSome) ∧
    ((((s.setEmpty? v).bind (·.addSplit? whole loc rest)).isSome ↔
      ((s.addSplit? whole loc rest).bind (·.setEmpty? v)).isSome) ↔ ¬ s.Overlooks whole v) ∧
    (s.Overlooks whole v → ∃ s₁ s₂, s.setEmpty? v = some s₁ ∧ s₁.addSplit? whole loc rest = some s₂ ∧
      ∀ (α : Type) (M : SetModel α), ¬ M.Satisfies s₂) := by
  rw [isSome_empty_split h.valid, isSome_split_empty h.valid]
  refine ⟨fun ⟨hf, he, hl⟩ => ⟨hf, he, fun hd => hl hd.leads⟩, ⟨fun hiff ho => ?_, fun ho => ?_⟩,
    fun ho => ?_⟩
  · exact (hiff.1 ⟨ho.free, ho.splittable, ho.indirect⟩).2.2 ho.leads
  · refine ⟨fun ⟨hf, he, hd⟩ => ⟨hf, he, fun hl => ho ⟨he, hf, hl, hd⟩⟩,
      fun ⟨hf, he, hl⟩ => ⟨hf, he, fun hd => hl hd.leads⟩⟩
  · have hsome := (isSome_empty_split h.valid whole v rest loc).2
      ⟨ho.free, ho.splittable, ho.indirect⟩
    obtain ⟨s₂, hs₂⟩ := Option.isSome_iff_exists.1 hsome
    obtain ⟨s₁, he, ha⟩ := Option.bind_eq_some_iff.1 hs₂
    exact ⟨s₁, s₂, he, ha, fun α M => ho.not_satisfies h.valid he ha M⟩

end SetStore

/-! ### A chain of two inclusions -/

namespace Sample

/-- Four sets, the first included in the second and that in the third. -/
def chained : SetStore := ⟨.empty, [⟨0⟩, ⟨1⟩, ⟨2⟩, ⟨3⟩], [(⟨1⟩, ⟨2⟩), (⟨0⟩, ⟨1⟩)], [], []⟩

theorem reached_chained : SetStore.Reached [.subset ⟨1⟩ ⟨2⟩, .subset ⟨0⟩ ⟨1⟩] chained :=
  .assumeSubset (.assumeSubset (.fresh (.fresh (.fresh (.fresh .empty)))) ⟨0⟩ ⟨1⟩) ⟨1⟩ ⟨2⟩

end Sample

namespace SetStore

/-- For the inclusion that is recorded itself the order does not matter: the conflict is found. -/
theorem Reached.conflict_order_of_recorded :
    Reached [.subset ⟨1⟩ ⟨2⟩, .subset ⟨0⟩ ⟨1⟩] Sample.chained ∧
      ¬ Sample.chained.Overlooks ⟨0⟩ ⟨1⟩ ∧
      (((Sample.chained.setEmpty? ⟨1⟩).bind (·.addSplit? ⟨0⟩ ⟨5⟩ ⟨3⟩)).isSome ↔
        ((Sample.chained.addSplit? ⟨0⟩ ⟨5⟩ ⟨3⟩).bind (·.setEmpty? ⟨1⟩)).isSome) := by
  have hno : ¬ Sample.chained.Overlooks ⟨0⟩ ⟨1⟩ := fun h =>
    h.indirect (.inr ⟨(⟨0⟩, ⟨1⟩), by decide, rfl, rfl⟩)
  exact ⟨Sample.reached_chained, hno,
    (Sample.reached_chained.conflict_order_iff ⟨0⟩ ⟨1⟩ ⟨3⟩ ⟨5⟩).2.1.2 hno⟩

/-- The third set is empty, and then the first has an element; the other way round it is
    refused. -/
theorem conflict_overlooked :
    Reached [.subset ⟨1⟩ ⟨2⟩, .subset ⟨0⟩ ⟨1⟩] Sample.chained ∧
      ((Sample.chained.setEmpty? ⟨2⟩).bind (·.addSplit? ⟨0⟩ ⟨5⟩ ⟨3⟩)).isSome ∧
      ¬ ((Sample.chained.addSplit? ⟨0⟩ ⟨5⟩ ⟨3⟩).bind (·.setEmpty? ⟨2⟩)).isSome := by
  refine ⟨Sample.reached_chained, ?_, ?_⟩
  · decide +kernel
  · decide +kernel

end SetStore

end HeapShape
