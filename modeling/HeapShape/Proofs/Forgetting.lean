import HeapShape.Proofs.SetMeaning

/-!
# What is forgotten about dead sets

When facts are dropped from a heap, the sets that only they mention are dead, and a store forgets
what it recorded about them. A set is *live* if a fact that stays mentions it or if it has a name.

Inclusions are not only thrown away: what follows between two live sets, over whatever dead ones, is
recorded before these go. So no inclusion between live sets is lost. Nothing is invented either. An
inclusion that follows afterwards is put together of inclusions that followed before, from one live
set to the next; and each model of the old constraints is a model of the new ones.

Emptiness is treated otherwise: the sets that are recorded as empty are only filtered. A live set
that is empty because it is included in a dead one, which is recorded as empty, is included in all
live sets afterwards. This makes it known to be empty only if one of these is recorded as empty.

* `SetStore.Live`, `SetStore.Includes`: live sets, and the inclusions that follow between them;
* `SetStore.isSubset_retain_iff`: the inclusions that follow afterwards;
* `SetStore.splitOf?_retain`: the splits that stay;
* `SetStore.isKnownEmpty_retain_iff`: the sets that are known to be empty afterwards.
-/

namespace HeapShape

open List

namespace SetStore

/-- A variable has the representative of a given one, or of one that is declared. -/
def Live (s : SetStore) (vars : List SetVar) (v : SetVar) : Prop :=
  (∃ w ∈ vars, s.resolve w = s.resolve v) ∨ s.isDeclared v = true

/-- One live set is found to be included in another. -/
structure Includes (s : SetStore) (vars : List SetVar) (a b : SetVar) : Prop where
  sub : s.Live vars a
  sup : s.Live vars b
  follows : s.isSubset a b = true

variable {s : SetStore} {vars : List SetVar} {locs : List Loc} {a b v w : SetVar} {loc : Loc}

/-! ### Questions about representatives -/

theorem Live.congr (h : s.Live vars v) (hvw : s.resolve v = s.resolve w) : s.Live vars w :=
  h.imp (fun ⟨x, hx, hxv⟩ => ⟨x, hx, hxv.trans hvw⟩) fun hd =>
    let ⟨e, he, hev⟩ := isDeclared_iff.1 hd
    isDeclared_iff.2 ⟨e, he, hev.trans hvw⟩

theorem live_iff : s.Live vars v ↔ s.resolve v ∈ s.live vars := by
  rw [Live, isDeclared_iff, live, Sorted.mem_ofList, mem_map]
  simp only [mem_append, mem_map, or_and_right, exists_or, exists_exists_and_eq_and]

theorem isSubset_congr {a' b' : SetVar} (ha : s.resolve a = s.resolve a')
    (hb : s.resolve b = s.resolve b') : s.isSubset a b = s.isSubset a' b' := by
  simp only [isSubset, isKnownEmpty, ha, hb]

theorem isSubset_of_resolve_eq (h : s.resolve a = s.resolve b) : s.isSubset a b = true :=
  isSubset_iff.2 (.inr (h ▸ .refl _))

/-! ### What is recorded afterwards -/

@[simp] theorem resolve_retain (s : SetStore) (vars : List SetVar) (locs : List Loc) (v : SetVar) :
    (s.retain vars locs).resolve v = s.resolve v := rfl

theorem mem_subsets_retain {p : SetVar × SetVar} : p ∈ (s.retain vars locs).subsets ↔
    p.1 ∈ s.live vars ∧ p.2 ∈ s.live vars ∧ p.1 ≠ p.2 ∧ s.isSubset p.1 p.2 = true := by
  obtain ⟨a, b⟩ := p
  simp only [retain, inclusions, mem_flatMap, mem_map, mem_filter, Bool.and_eq_true,
    decide_eq_true_eq, Prod.mk.injEq]
  constructor
  · rintro ⟨a', ha, b', ⟨hb, hne, hsub⟩, rfl, rfl⟩
    exact ⟨ha, hb, hne, hsub⟩
  · rintro ⟨ha, hb, hne, hsub⟩
    exact ⟨a, ha, b, ⟨hb, hne, hsub⟩, rfl, rfl⟩

theorem mem_splits_retain {p : Split} : p ∈ (s.retain vars locs).splits ↔
    ∃ q ∈ s.splits, q.elem ∈ locs ∧ s.Live vars q.whole ∧ s.Live vars q.rest ∧
      p = ⟨s.resolve q.whole, q.elem, s.resolve q.rest⟩ := by
  simp only [retain, mem_filter, mem_map, Bool.and_eq_true, contains_iff_mem, live_iff]
  constructor
  · rintro ⟨⟨q, hq, rfl⟩, ⟨helem, hwhole⟩, hrest⟩
    exact ⟨q, hq, helem, hwhole, hrest, rfl⟩
  · rintro ⟨q, hq, helem, hwhole, hrest, rfl⟩
    exact ⟨⟨q, hq, rfl⟩, ⟨helem, hwhole⟩, hrest⟩

theorem mem_empties_retain : v ∈ (s.retain vars locs).empties ↔
    ∃ e ∈ s.empties, s.Live vars e ∧ s.resolve e = v := by
  simp only [retain, Sorted.mem_ofList, mem_filter, mem_map, contains_iff_mem, live_iff]
  constructor
  · rintro ⟨⟨e, he, rfl⟩, hlive⟩
    exact ⟨e, he, hlive, rfl⟩
  · rintro ⟨e, he, hlive, rfl⟩
    exact ⟨⟨e, he, rfl⟩, hlive⟩

/-! ### Inclusions -/

section

variable (hs : s.Valid)

include hs

theorem live_of_mem (h : v ∈ s.live vars) : s.resolve v = v ∧ s.Live vars v := by
  have hres : s.resolve v = v := by
    rw [live, Sorted.mem_ofList, mem_map] at h
    obtain ⟨w, -, rfl⟩ := h
    exact hs.reprs w
  exact ⟨hres, live_iff.2 (hres.symm ▸ h)⟩

theorem Includes.resolve (h : s.Includes vars a b) : s.Includes vars (s.resolve a) (s.resolve b) where
  sub := h.sub.congr (hs.reprs a).symm
  sup := h.sup.congr (hs.reprs b).symm
  follows := isSubset_congr (hs.reprs a) (hs.reprs b) ▸ h.follows

/-- What follows between live sets is recorded, unless they are aliases. -/
theorem Includes.recorded (h : s.Includes vars a b) (locs : List Loc) : s.resolve a = s.resolve b ∨
    (s.resolve a, s.resolve b) ∈ (s.retain vars locs).subsets := by
  by_cases heq : s.resolve a = s.resolve b
  · exact .inl heq
  · exact .inr (mem_subsets_retain.2 ⟨live_iff.1 h.sub, live_iff.1 h.sup, heq, (h.resolve hs).follows⟩)

/-- An inclusion that is recorded afterwards followed before. -/
theorem includes_of_mem_subsets {p : SetVar × SetVar} (hp : p ∈ (s.retain vars locs).subsets) :
    s.Includes vars p.1 p.2 := by
  obtain ⟨h₁, h₂, -, hsub⟩ := mem_subsets_retain.1 hp
  exact ⟨(live_of_mem hs h₁).2, (live_of_mem hs h₂).2, hsub⟩

theorem includes_of_mem_edges {e : SetVar × SetVar} (he : e ∈ (s.retain vars locs).edges) :
    s.Includes vars e.1 e.2 := by
  rcases mem_edges.1 he with ⟨p, hp, rfl⟩ | ⟨p, hp, rfl⟩
  · exact (includes_of_mem_subsets hs hp).resolve hs
  · obtain ⟨q, hq, -, hwhole, hrest, rfl⟩ := mem_splits_retain.1 hp
    have hsub : s.isSubset q.rest q.whole = true :=
      isSubset_iff.2 (.inr (.single (mem_edges.2 (.inr ⟨q, hq, rfl⟩))))
    exact ((Includes.mk hrest hwhole hsub).resolve hs).resolve hs

/-- So what follows between live sets still does, along one recorded inclusion. -/
theorem Includes.leads_retain (h : s.Includes vars a b) (locs : List Loc) :
    Reach.Leads (s.retain vars locs).edges (s.resolve a) (s.resolve b) := by
  rcases h.recorded hs locs with heq | hmem
  · exact heq ▸ .refl _
  · refine .single (mem_edges.2 (.inl ⟨_, hmem, ?_⟩))
    rw [resolve_retain, resolve_retain, hs.reprs, hs.reprs]

/-- A way along what is recorded afterwards goes from one live set to the next. -/
theorem reflTransGen_of_leads {x y : SetVar} (h : Reach.Leads (s.retain vars locs).edges x y) :
    Relation.ReflTransGen (s.Includes vars) x y := by
  induction h with
  | refl => exact .refl
  | step _ he ih => exact ih.tail (includes_of_mem_edges hs he)

/-! ### Emptiness -/

/-- A set is known to be empty afterwards if it is live and found to be included in a live set that
    is recorded as empty. -/
theorem isKnownEmpty_retain_iff : (s.retain vars locs).isKnownEmpty v = true ↔
    ∃ e ∈ s.empties, s.Includes vars v e := by
  rw [isKnownEmpty_iff]
  constructor
  · rintro ⟨e', he', hrel⟩
    obtain ⟨e, he, hlive, rfl⟩ := mem_empties_retain.1 he'
    simp only [resolve_retain, hs.reprs] at hrel
    rcases hrel with heq | ⟨p, hp, h₁, h₂⟩
    · exact ⟨e, he, hlive.congr heq, hlive, isSubset_of_resolve_eq heq.symm⟩
    · have hinc := includes_of_mem_subsets hs hp
      exact ⟨e, he, hinc.sub.congr h₁, hlive, isSubset_congr h₁ h₂ ▸ hinc.follows⟩
  · rintro ⟨e, he, h⟩
    refine ⟨s.resolve e, mem_empties_retain.2 ⟨e, he, h.sup, rfl⟩, ?_⟩
    simp only [resolve_retain, hs.reprs]
    rcases h.recorded hs locs with heq | hmem
    · exact .inl heq.symm
    · exact .inr ⟨_, hmem, hs.reprs v, hs.reprs e⟩

/-- The inclusions that follow afterwards between live sets are those that followed before, and what
    is put together of them. -/
theorem isSubset_retain_iff (ha : s.Live vars a) (hb : s.Live vars b) (locs : List Loc) :
    (s.retain vars locs).isSubset a b = true ↔ Relation.TransGen (s.Includes vars) a b := by
  constructor
  · intro h
    rcases isSubset_iff.1 h with he | hl
    · -- The set is included in one that is recorded as empty, and this one in every set.
      obtain ⟨e, he, hinc⟩ := (isKnownEmpty_retain_iff hs).1 he
      have hempty : s.isKnownEmpty e = true := isKnownEmpty_iff.2 ⟨e, he, .inl rfl⟩
      exact .tail (.single hinc) ⟨hinc.sup, hb, isSubset_iff.2 (.inl hempty)⟩
    · have hfirst : s.Includes vars a (s.resolve a) :=
        ⟨ha, ha.congr (hs.reprs a).symm, isSubset_of_resolve_eq (hs.reprs a).symm⟩
      have hlast : s.Includes vars (s.resolve b) b :=
        ⟨hb.congr (hs.reprs b).symm, hb, isSubset_of_resolve_eq (hs.reprs b)⟩
      exact .tail' (.head hfirst (reflTransGen_of_leads hs hl)) hlast
  · intro h
    rw [isSubset_iff]
    induction h with
    | single hinc => exact .inr (hinc.leads_retain hs locs)
    | tail hway hinc ih => exact (ih hinc.sub).imp_right fun hl => hl.trans (hinc.leads_retain hs locs)

/-! ### Splits -/

/-- The splits by a live location stay in their order, so the first of them that is of a set is the
    same as before. -/
theorem splitOf?_retain (hloc : loc ∈ locs)
    (hlive : ∀ p ∈ s.splits, p.elem = loc → s.Live vars p.whole ∧ s.Live vars p.rest) (w : SetVar) :
    (s.retain vars locs).splitOf? w loc = s.splitOf? w loc := by
  have hkept : ((s.retain vars locs).splits.filter fun p => p.elem = loc && s.resolve p.whole = s.resolve w) =
      (s.splits.filter fun p => p.elem = loc && s.resolve p.whole = s.resolve w).map
        fun p => ⟨s.resolve p.whole, p.elem, s.resolve p.rest⟩ := by
    rw [retain, filter_filter, filter_map]
    refine congrArg (List.map _) (filter_congr fun p hp => ?_)
    by_cases helem : p.elem = loc
    · obtain ⟨hwhole, hrest⟩ := hlive p hp helem
      simp [helem, hloc, hs.reprs, live_iff.1 hwhole, live_iff.1 hrest]
    · simp [helem]
  rw [splitOf?, splitOf?, ← head?_filter, ← head?_filter]
  show (((s.retain vars locs).splits.filter fun p => p.elem = loc && s.resolve p.whole = s.resolve w).head?.map
    fun p => s.resolve p.rest) = _
  rw [hkept, head?_map, Option.map_map]
  exact congrArg (Option.map · _) (funext fun p => hs.reprs p.rest)

/-! ### What survives -/

/-- Inclusions between live sets and splits by live locations survive, and nothing is invented: an
    inclusion between live sets is made of such that followed before, and all that is recorded is
    true in each model of what was. -/
theorem retain_exact (vars : List SetVar) (locs : List Loc) :
    (∀ a b, s.Live vars a → s.Live vars b → s.isSubset a b = true →
      (s.retain vars locs).isSubset a b = true) ∧
    (∀ a b, s.Live vars a → s.Live vars b → (s.retain vars locs).isSubset a b = true →
      Relation.TransGen (s.Includes vars) a b) ∧
    (∀ loc ∈ locs, (∀ p ∈ s.splits, p.elem = loc → s.Live vars p.whole ∧ s.Live vars p.rest) →
      ∀ w, (s.retain vars locs).splitOf? w loc = s.splitOf? w loc) ∧
    ∀ (α : Type) (M : SetModel α), M.Satisfies s → M.Satisfies (s.retain vars locs) := by
  refine ⟨fun a b ha hb h => ?_, fun a b ha hb h => ?_, fun loc hloc hlive w => ?_, fun α M hM => ?_⟩
  · exact (isSubset_retain_iff hs ha hb locs).2 (.single ⟨ha, hb, h⟩)
  · exact (isSubset_retain_iff hs ha hb locs).1 h
  · exact splitOf?_retain hs hloc hlive w
  · exact hM.retain hs vars locs

/-- A live set that is known to be empty is found to be included in all live sets afterwards, but is
    known to be empty only if some set that is recorded as empty is live. -/
theorem retain_emptiness_iff (hv : s.Live vars v) (he : s.isKnownEmpty v = true) (locs : List Loc) :
    (∀ w, s.Live vars w → (s.retain vars locs).isSubset v w = true) ∧
    ((s.retain vars locs).isKnownEmpty v = true ↔ ∃ e ∈ s.empties, s.Live vars e) := by
  have hinc {w : SetVar} (hw : s.Live vars w) : s.Includes vars v w := ⟨hv, hw, isSubset_iff.2 (.inl he)⟩
  refine ⟨fun w hw => (isSubset_retain_iff hs hv hw locs).2 (.single (hinc hw)), ?_⟩
  rw [isKnownEmpty_retain_iff hs]
  exact ⟨fun ⟨e, hmem, h⟩ => ⟨e, hmem, h.sup⟩, fun ⟨e, hmem, hlive⟩ => ⟨e, hmem, hinc hlive⟩⟩

end

end SetStore

/-! ### Sets behind dead ones -/

namespace Sample

/-- A declared set that includes a set, and that one another. The first is split, and so is the
    second. -/
def screened : SetStore :=
  ⟨⟨[("E", ⟨0⟩)]⟩, [⟨0⟩, ⟨1⟩, ⟨2⟩, ⟨3⟩], [(⟨1⟩, ⟨0⟩), (⟨2⟩, ⟨1⟩)], [⟨⟨1⟩, ⟨1⟩, ⟨2⟩⟩, ⟨⟨0⟩, ⟨5⟩, ⟨3⟩⟩], []⟩

theorem reached_screened : SetStore.Reached
    [.split ⟨0⟩ ⟨5⟩ ⟨3⟩, .split ⟨1⟩ ⟨1⟩ ⟨2⟩, .subset ⟨1⟩ ⟨0⟩, .subset ⟨2⟩ ⟨1⟩] screened :=
  .addSplit (.addSplit (.assumeSubset (.assumeSubset
    (.fresh (.fresh (.fresh (.declare .empty rfl)))) ⟨2⟩ ⟨1⟩) ⟨1⟩ ⟨0⟩) rfl) rfl

/-- Sets of locations for which this is true. -/
def screenModel : SetModel Loc where
  elem := id
  set v := if v = ⟨0⟩ then {⟨5⟩, ⟨1⟩} else if v = ⟨2⟩ then ∅ else {⟨1⟩}

theorem satisfies_screened : screenModel.Satisfies screened :=
  reached_screened.satisfies (by simp [SetModel.Meets, SetModel.Splits, screenModel])

/-- Two sets that are recorded as empty, and one that is included in the first of them. -/
def hollow : SetStore := ⟨.empty, [⟨0⟩, ⟨1⟩, ⟨2⟩], [(⟨1⟩, ⟨0⟩)], [], [⟨2⟩, ⟨0⟩]⟩

theorem reached_hollow : SetStore.Reached [.empty ⟨2⟩, .empty ⟨0⟩, .subset ⟨1⟩ ⟨0⟩] hollow :=
  .setEmpty (.setEmpty (.assumeSubset (.fresh (.fresh (.fresh .empty))) ⟨1⟩ ⟨0⟩) rfl) rfl

end Sample

namespace SetStore

/-- The innermost set stays included in the declared one when the set between them is dead, and the
    model stays one. -/
theorem retain_exact_screened : Sample.screened.Valid ∧
    (Sample.screened.retain [⟨2⟩, ⟨3⟩] [⟨5⟩]).subsets = [(⟨2⟩, ⟨0⟩), (⟨3⟩, ⟨0⟩)] ∧
    (Sample.screened.retain [⟨2⟩, ⟨3⟩] [⟨5⟩]).isSubset ⟨2⟩ ⟨0⟩ = true ∧
    (Sample.screened.retain [⟨2⟩, ⟨3⟩] [⟨5⟩]).splitOf? ⟨0⟩ ⟨5⟩ = some ⟨3⟩ ∧
    Sample.screenModel.Satisfies Sample.screened ∧
    Sample.screenModel.Satisfies (Sample.screened.retain [⟨2⟩, ⟨3⟩] [⟨5⟩]) := by
  have hs := Sample.reached_screened.valid
  have hlive : ∀ v ∈ [(⟨2⟩ : SetVar), ⟨3⟩], Sample.screened.Live [⟨2⟩, ⟨3⟩] v := fun v hv =>
    .inl ⟨v, hv, rfl⟩
  have hdecl : Sample.screened.Live [⟨2⟩, ⟨3⟩] ⟨0⟩ := .inr rfl
  have hsplits : ∀ p ∈ Sample.screened.splits, p.elem = ⟨5⟩ →
      Sample.screened.Live [⟨2⟩, ⟨3⟩] p.whole ∧ Sample.screened.Live [⟨2⟩, ⟨3⟩] p.rest := by
    intro p hp helem
    rcases mem_cons.1 hp with rfl | hp
    · cases helem
    · rw [mem_singleton.1 hp]
      exact ⟨hdecl, hlive _ (.tail _ (.head _))⟩
  obtain ⟨hkeep, -, hsplit, hmodel⟩ := retain_exact hs [⟨2⟩, ⟨3⟩] [⟨5⟩]
  refine ⟨hs, by decide +kernel, ?_, ?_, Sample.satisfies_screened, hmodel _ _ Sample.satisfies_screened⟩
  · exact hkeep ⟨2⟩ ⟨0⟩ (hlive _ (.head _)) hdecl (by decide +kernel)
  · rw [hsplit ⟨5⟩ (.head _) hsplits ⟨0⟩]
    rfl

/-- The set that makes a set empty is dead, but another one that is recorded as empty is live. -/
theorem retain_emptiness_hollow : Sample.hollow.Valid ∧ Sample.hollow.Live [⟨1⟩, ⟨2⟩] ⟨1⟩ ∧
    Sample.hollow.isKnownEmpty ⟨1⟩ = true ∧
    (Sample.hollow.retain [⟨1⟩, ⟨2⟩] []).isKnownEmpty ⟨1⟩ = true := by
  have hs := Sample.reached_hollow.valid
  have hv : Sample.hollow.Live [⟨1⟩, ⟨2⟩] ⟨1⟩ := .inl ⟨⟨1⟩, .head _, rfl⟩
  have he : Sample.hollow.isKnownEmpty ⟨1⟩ = true := rfl
  refine ⟨hs, hv, he, (retain_emptiness_iff hs hv he []).2.2 ?_⟩
  exact ⟨⟨2⟩, .head _, .inl ⟨⟨2⟩, .tail _ (.head _), rfl⟩⟩

/-- If that one is dead too, it is forgotten that the set is empty, and an element can be split off
    it. -/
theorem retain_forgets_empty :
    Reached [.empty ⟨2⟩, .empty ⟨0⟩, .subset ⟨1⟩ ⟨0⟩] Sample.hollow ∧
      Sample.hollow.Live [⟨1⟩] ⟨1⟩ ∧ Sample.hollow.isKnownEmpty ⟨1⟩ = true ∧
      Sample.hollow.addSplit? ⟨1⟩ ⟨5⟩ ⟨3⟩ = none ∧
      (Sample.hollow.retain [⟨1⟩] []).isKnownEmpty ⟨1⟩ = false ∧
      ((Sample.hollow.retain [⟨1⟩] []).addSplit? ⟨1⟩ ⟨5⟩ ⟨3⟩).isSome :=
  ⟨Sample.reached_hollow, .inl ⟨⟨1⟩, .head _, rfl⟩, rfl, rfl, by decide +kernel, by decide +kernel⟩

end SetStore

end HeapShape
