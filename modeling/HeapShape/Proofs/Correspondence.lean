import HeapShape.Proofs.Constraints

/-!
# Stores that correspond

Two stores of constraints can record the same things about different variables and locations. They
*correspond* under a relation of locations and a relation of variables if whatever one of them
records, the other records about something related, and if related variables are aliases in one of
them exactly when they are in the other. Then all questions have the same answers in both, and all
changes keep the correspondence.

* `SetStore.Records`: one store records what the other one does;
* `SetStore.Matches`: the two stores correspond;
* `Matches.isSubset`, `Matches.contains`, `Matches.isUnconstrained`, `Matches.splitOf?`: questions;
* `Matches.takeOut`, `Matches.setEmpty?`, `Matches.unify`: changes.
-/

namespace HeapShape

open List

namespace SetStore

/-- What one store records, the other records about related variables and locations. -/
structure Records (ρ : Loc → Loc → Prop) (τ : SetVar → SetVar → Prop) (s t : SetStore) : Prop where
  valid : s.Valid
  elems : ∀ {l m m'}, ρ l m → ρ l m' → m = m'
  same : ∀ {v w v' w'}, τ v w → τ v' w' → s.resolve v = s.resolve v' → t.resolve w = t.resolve w'
  reps : ∀ {v w}, τ v w → τ (s.resolve v) (t.resolve w)
  /-- The representatives of related variables were given out. -/
  given : ∀ {v w}, τ v w → (s.resolve v).id < s.reprs.length
  names : ∀ e ∈ s.names.entries, ∃ f ∈ t.names.entries, f.1 = e.1 ∧ τ e.2 f.2
  subsets : ∀ p ∈ s.subsets, ∃ q ∈ t.subsets, τ p.1 q.1 ∧ τ p.2 q.2
  splits : ∀ p ∈ s.splits, ∃ q ∈ t.splits, τ p.whole q.whole ∧ ρ p.elem q.elem ∧ τ p.rest q.rest
  empties : ∀ e ∈ s.empties, ∃ f ∈ t.empties, τ e f

/-- What one store records, the other records, and the first does not split a set in two ways. -/
structure Embeds (ρ : Loc → Loc → Prop) (τ : SetVar → SetVar → Prop) (s t : SetStore) : Prop
    extends Records ρ τ s t where
  /-- A set without an element is one set. -/
  rests : ∀ p ∈ s.splits, ∀ q ∈ s.splits, p.elem = q.elem → s.resolve p.whole = s.resolve q.whole →
    s.resolve p.rest = s.resolve q.rest

/-- Two stores record the same about related variables and locations. -/
structure Matches (ρ : Loc → Loc → Prop) (τ : SetVar → SetVar → Prop) (s t : SetStore) : Prop where
  left : Embeds ρ τ s t
  right : Embeds (fun m l => ρ l m) (fun w v => τ v w) t s

variable {ρ : Loc → Loc → Prop} {τ : SetVar → SetVar → Prop} {s t s' : SetStore}
  {v w v' w' whole rest whole' c d : SetVar} {l m : Loc}

theorem Matches.symm (h : Matches ρ τ s t) : Matches (fun m l => ρ l m) (fun w v => τ v w) t s :=
  ⟨h.right, h.left⟩

/-! ### Questions -/

theorem splitOf?_eq_some {r : SetVar} (h : s.splitOf? v l = some r) :
    ∃ p ∈ s.splits, p.elem = l ∧ s.resolve p.whole = s.resolve v ∧ s.resolve p.rest = r := by
  obtain ⟨p, hp, hr⟩ := Option.map_eq_some_iff.1 h
  have hfound := find?_some hp
  rw [Bool.and_eq_true, decide_eq_true_eq, decide_eq_true_eq] at hfound
  exact ⟨p, mem_of_find?_eq_some hp, hfound.1, hfound.2, hr⟩

theorem wholeOf?_eq_some {r : SetVar} (h : s.wholeOf? l = some r) :
    ∃ p ∈ s.splits, p.elem = l ∧ s.resolve p.whole = r := by
  obtain ⟨p, hp, hr⟩ := Option.map_eq_some_iff.1 h
  have hfound := find?_some hp
  rw [decide_eq_true_eq] at hfound
  exact ⟨p, mem_of_find?_eq_some hp, hfound, hr⟩

theorem wholeOf?_isSome : (s.wholeOf? l).isSome ↔ ∃ p ∈ s.splits, p.elem = l := by
  simp only [wholeOf?, Option.isSome_map, find?_isSome, decide_eq_true_eq]

/-- A location is split off one set only. -/
def SplitsOnce (s : SetStore) : Prop :=
  ∀ p ∈ s.splits, ∀ q ∈ s.splits, p.elem = q.elem → s.resolve p.whole = s.resolve q.whole

namespace Records

variable (h : Records ρ τ s t)
include h

variable (hv : τ v w)
include hv

theorem isKnownEmpty (he : s.isKnownEmpty v = true) : t.isKnownEmpty w = true := by
  obtain ⟨e, hmem, hrel⟩ := isKnownEmpty_iff.1 he
  obtain ⟨f, hmem', hef⟩ := h.empties e hmem
  refine isKnownEmpty_iff.2 ⟨f, hmem', ?_⟩
  rcases hrel with heq | ⟨p, hp, h₁, h₂⟩
  · exact .inl (h.same hef hv heq)
  · obtain ⟨q, hq, hq₁, hq₂⟩ := h.subsets p hp
    exact .inr ⟨q, hq, h.same hq₁ hv h₁, h.same hq₂ hef h₂⟩

/-- A way along inclusions goes along in the other store. -/
theorem leads {c : SetVar} (hlead : Reach.Leads s.edges (s.resolve v) c) :
    ∃ v' w', τ v' w' ∧ s.resolve v' = c ∧ Reach.Leads t.edges (t.resolve w) (t.resolve w') := by
  generalize ha : s.resolve v = a at hlead
  induction hlead with
  | refl => exact ⟨v, w, hv, ha, .refl _⟩
  | step _ he ih =>
    obtain ⟨v', w', hvw, hres, hlead⟩ := ih
    rcases mem_edges.1 he with ⟨p, hp, heq⟩ | ⟨p, hp, heq⟩
    · obtain ⟨q, hq, hq₁, hq₂⟩ := h.subsets p hp
      obtain ⟨h₁, h₂⟩ := Prod.mk.inj heq
      refine ⟨p.2, q.2, hq₂, h₂, .step hlead ?_⟩
      rw [← h.same hq₁ hvw (h₁.trans hres.symm)]
      exact mem_edges.2 (.inl ⟨q, hq, rfl⟩)
    · obtain ⟨q, hq, hwhole, -, hrest⟩ := h.splits p hp
      obtain ⟨h₁, h₂⟩ := Prod.mk.inj heq
      refine ⟨p.whole, q.whole, hwhole, h₂, .step hlead ?_⟩
      rw [← h.same hrest hvw (h₁.trans hres.symm)]
      exact mem_edges.2 (.inr ⟨q, hq, rfl⟩)

theorem isSubset (hv' : τ v' w') (hs : s.isSubset v v' = true) : t.isSubset w w' = true := by
  rcases isSubset_iff.1 hs with he | hlead
  · exact isSubset_iff.2 (.inl (h.isKnownEmpty hv he))
  · obtain ⟨u, x, hux, hu, hlead⟩ := h.leads hv hlead
    exact isSubset_iff.2 (.inr (h.same hux hv' hu ▸ hlead))

theorem isDeclared (hd : s.isDeclared v = true) : t.isDeclared w = true := by
  obtain ⟨e, he, heq⟩ := isDeclared_iff.1 hd
  obtain ⟨f, hf, -, hef⟩ := h.names e he
  exact isDeclared_iff.2 ⟨f, hf, h.same hef hv heq⟩

/-- What nothing is recorded about in the other store, nothing is recorded about. -/
theorem isUnconstrained (hu : t.isUnconstrained w = true) : s.isUnconstrained v = true := by
  obtain ⟨hd, hempty, hsub, hsplit⟩ := isUnconstrained_iff.1 hu
  refine isUnconstrained_iff.2 ⟨?_, fun e he heq => ?_, fun p hp => ?_, fun p hp => ?_⟩
  · rw [← Bool.not_eq_true] at hd ⊢
    exact fun hd' => hd (h.isDeclared hv hd')
  · obtain ⟨f, hf, hef⟩ := h.empties e he
    exact hempty f hf (h.same hef hv heq)
  · obtain ⟨q, hq, hq₁, hq₂⟩ := h.subsets p hp
    exact ⟨fun heq => (hsub q hq).1 (h.same hq₁ hv heq), fun heq => (hsub q hq).2 (h.same hq₂ hv heq)⟩
  · obtain ⟨q, hq, hwhole, -, hrest⟩ := h.splits p hp
    exact ⟨fun heq => (hsplit q hq).1 (h.same hwhole hv heq),
      fun heq => (hsplit q hq).2 (h.same hrest hv heq)⟩

theorem contains (hl : ρ l m) (hc : s.contains v l = true) : t.contains w m = true := by
  rw [SetStore.contains, any_eq_true] at hc ⊢
  obtain ⟨p, hp, hel⟩ := hc
  rw [Bool.and_eq_true, decide_eq_true_eq] at hel
  obtain ⟨q, hq, hwhole, helem, -⟩ := h.splits p hp
  refine ⟨q, hq, ?_⟩
  rw [Bool.and_eq_true, decide_eq_true_eq]
  exact ⟨h.elems helem (hel.1 ▸ hl), h.isSubset hwhole hv hel.2⟩

theorem isSome_splitOf? (hl : ρ l m) (hs : (s.splitOf? v l).isSome) : (t.splitOf? w m).isSome := by
  obtain ⟨p, hp, rfl, heq⟩ := splitOf?_isSome.1 hs
  obtain ⟨q, hq, hwhole, helem, -⟩ := h.splits p hp
  exact splitOf?_isSome.2 ⟨q, hq, h.elems helem hl, h.same hwhole hv heq⟩

theorem isNone_setEmpty? (hs : s.setEmpty? v = none) : t.setEmpty? w = none := by
  rw [SetStore.setEmpty?] at hs ⊢
  split at hs
  · rename_i hany
    obtain ⟨p, hp, hsub⟩ := any_eq_true.1 hany
    obtain ⟨q, hq, hwhole, -, -⟩ := h.splits p hp
    rw [if_pos (any_eq_true.2 ⟨q, hq, h.isSubset hwhole hv hsub⟩)]
  · cases hs

end Records

namespace Matches

variable (h : Matches ρ τ s t)
include h

theorem resolve_eq_iff (hv : τ v w) (hv' : τ v' w') :
    s.resolve v = s.resolve v' ↔ t.resolve w = t.resolve w' :=
  ⟨h.left.same hv hv', h.right.same hv hv'⟩

theorem elem_iff {l' m' : Loc} (hl : ρ l m) (hl' : ρ l' m') : l = l' ↔ m = m' := by
  constructor
  · rintro rfl
    exact h.left.elems hl hl'
  · rintro rfl
    exact h.right.elems hl hl'

theorem isKnownEmpty (hv : τ v w) : s.isKnownEmpty v = t.isKnownEmpty w :=
  Bool.eq_iff_iff.2 ⟨h.left.isKnownEmpty hv, h.right.isKnownEmpty hv⟩

theorem isSubset (hv : τ v w) (hv' : τ v' w') : s.isSubset v v' = t.isSubset w w' :=
  Bool.eq_iff_iff.2 ⟨h.left.isSubset hv hv', h.right.isSubset hv hv'⟩

theorem isUnconstrained (hv : τ v w) : s.isUnconstrained v = t.isUnconstrained w :=
  Bool.eq_iff_iff.2 ⟨h.right.isUnconstrained hv, h.left.isUnconstrained hv⟩

theorem contains (hv : τ v w) (hl : ρ l m) : s.contains v l = t.contains w m :=
  Bool.eq_iff_iff.2 ⟨h.left.contains hv hl, h.right.contains hv hl⟩

/-- What a split leaves corresponds. -/
theorem splitOf? (hv : τ v w) (hl : ρ l m) : Option.Rel τ (s.splitOf? v l) (t.splitOf? w m) := by
  rcases hs : s.splitOf? v l with _ | r
  · rcases ht : t.splitOf? w m with _ | r'
    · exact .none
    · have := h.right.isSome_splitOf? hv hl (ht ▸ rfl)
      rw [hs] at this
      exact absurd this Bool.false_ne_true
  · obtain ⟨r', ht⟩ := Option.isSome_iff_exists.1 (h.left.isSome_splitOf? hv hl (hs ▸ rfl))
    obtain ⟨p, hp, hel, hwhole, rfl⟩ := splitOf?_eq_some hs
    obtain ⟨q, hq, hqwhole, hqel, hqrest⟩ := h.left.splits p hp
    obtain ⟨q', hq', hel', hwhole', rfl⟩ := splitOf?_eq_some ht
    -- The split that is found may be another one, but it leaves the same set.
    have hrest : t.resolve q.rest = t.resolve q'.rest := by
      refine h.right.rests q hq q' hq' ?_ ?_
      · rw [hel', h.left.elems hqel (hel ▸ hl)]
      · rw [hwhole', h.left.same hqwhole hv hwhole]
    rw [ht, ← hrest]
    exact .some (h.left.reps hqrest)

/-- The set that a location is split off corresponds. -/
theorem wholeOf? (ht : t.SplitsOnce) (hl : ρ l m) : Option.Rel τ (s.wholeOf? l) (t.wholeOf? m) := by
  rcases hs : s.wholeOf? l with _ | r
  · rcases hm : t.wholeOf? m with _ | r'
    · exact .none
    · obtain ⟨q, hq, rfl, -⟩ := wholeOf?_eq_some hm
      obtain ⟨p, hp, -, hel, -⟩ := h.right.splits q hq
      have := wholeOf?_isSome.2 ⟨p, hp, h.right.elems hel hl⟩
      rw [hs] at this
      exact absurd this Bool.false_ne_true
  · obtain ⟨p, hp, rfl, rfl⟩ := wholeOf?_eq_some hs
    obtain ⟨q, hq, hwhole, hel, -⟩ := h.left.splits p hp
    obtain ⟨r', hm⟩ := Option.isSome_iff_exists.1
      (wholeOf?_isSome.2 ⟨q, hq, h.left.elems hel hl⟩)
    obtain ⟨q', hq', hel', rfl⟩ := wholeOf?_eq_some hm
    rw [hm, ← ht q hq q' hq' ((h.left.elems hel hl).trans hel'.symm)]
    exact .some (h.left.reps hwhole)

end Matches

/-! ### Changes -/

theorem resolve_new (s : SetStore) : s.fresh.2.resolve s.fresh.1 = s.fresh.1 := by
  have hid : s.reprs.length ≤ s.fresh.1.id := Nat.le_refl _
  rw [resolve_fresh, resolve, getD_eq_getElem?_getD, getElem?_eq_none hid, Option.getD_none]

/-- Relate two more variables. -/
def Added (τ : SetVar → SetVar → Prop) (a b : SetVar) (v w : SetVar) : Prop :=
  τ v w ∨ v = a ∧ w = b

theorem Embeds.fresh (h : Embeds ρ τ s t) {τ' : SetVar → SetVar → Prop}
    (hτ : ∀ v w, τ' v w ↔ Added τ s.fresh.1 t.fresh.1 v w) :
    Embeds ρ τ' s.fresh.2 t.fresh.2 := by
  have hmono {v w : SetVar} (hv : τ v w) : τ' v w := (hτ v w).2 (.inl hv)
  have hlen : s.fresh.2.reprs.length = s.reprs.length + 1 := length_append
  -- A variable that is given out is not an alias of one that was given out before.
  have hnew {v w : SetVar} (hv : τ v w) : s.resolve v ≠ s.resolve s.fresh.1 := by
    intro he
    have hlt := h.given hv
    rw [he, ← resolve_fresh, resolve_new] at hlt
    exact Nat.lt_irrefl _ hlt
  refine ⟨⟨?_, h.elems, ?_, ?_, ?_, ?_, ?_, ?_, ?_⟩, ?_⟩
  · exact Change.valid .fresh h.valid
  · intro v w v' w' hv hv' he
    rw [resolve_fresh, resolve_fresh] at he ⊢
    rcases (hτ v w).1 hv with hv | ⟨rfl, rfl⟩ <;> rcases (hτ v' w').1 hv' with hv' | ⟨rfl, rfl⟩
    · exact h.same hv hv' he
    · exact absurd he (hnew hv)
    · exact absurd he.symm (hnew hv')
    · rfl
  · intro v w hv
    rcases (hτ v w).1 hv with hv | ⟨rfl, rfl⟩
    · rw [resolve_fresh, resolve_fresh]
      exact hmono (h.reps hv)
    · rw [resolve_new, resolve_new]
      exact (hτ _ _).2 (.inr ⟨rfl, rfl⟩)
  · intro v w hv
    rcases (hτ v w).1 hv with hv | ⟨rfl, rfl⟩
    · rw [resolve_fresh, hlen]
      exact Nat.lt_succ_of_lt (h.given hv)
    · rw [resolve_new, hlen]
      exact Nat.lt_succ_self _
  · intro e he
    obtain ⟨f, hf, hname, hef⟩ := h.names e he
    exact ⟨f, hf, hname, hmono hef⟩
  · intro p hp
    obtain ⟨q, hq, h₁, h₂⟩ := h.subsets p hp
    exact ⟨q, hq, hmono h₁, hmono h₂⟩
  · intro p hp
    obtain ⟨q, hq, h₁, hel, h₂⟩ := h.splits p hp
    exact ⟨q, hq, hmono h₁, hel, hmono h₂⟩
  · intro e he
    obtain ⟨f, hf, hef⟩ := h.empties e he
    exact ⟨f, hf, hmono hef⟩
  · intro p hp q hq hel hwhole
    rw [resolve_fresh, resolve_fresh] at hwhole ⊢
    exact h.rests p hp q hq hel hwhole

/-- Both stores give out a variable. -/
theorem Matches.fresh (h : Matches ρ τ s t) :
    Matches ρ (Added τ s.fresh.1 t.fresh.1) s.fresh.2 t.fresh.2 where
  left := h.left.fresh (fun _ _ => Iff.rfl)
  right := h.right.fresh (fun _ _ => or_congr_right and_comm)

/-- A store with one split more, if it was not recorded. -/
structure Splits (s : SetStore) (p : Split) (s' : SetStore) : Prop where
  names : s'.names = s.names
  reprs : s'.reprs = s.reprs
  subsets : s'.subsets = s.subsets
  empties : s'.empties = s.empties
  mem_splits : ∀ q, q ∈ s'.splits ↔ q ∈ s.splits ∨ q = p

theorem splits_of_addSplit? (h : s.addSplit? whole l rest = some s') :
    s.Splits ⟨s.resolve whole, l, s.resolve rest⟩ s' := by
  rw [addSplit?] at h
  split at h
  · cases h
  · rw [← Option.some.inj h]
    split
    · rename_i hmem
      refine ⟨rfl, rfl, rfl, rfl, fun q => ⟨.inl, ?_⟩⟩
      rintro (hq | rfl)
      · exact hq
      · exact contains_iff_mem.1 hmem
    · exact ⟨rfl, rfl, rfl, rfl, fun q => by rw [mem_append, mem_singleton]⟩

theorem Embeds.split (h : Embeds ρ τ s t) {t' : SetStore} {rest' : SetVar}
    (hs : s.Splits ⟨s.resolve whole, l, s.resolve rest⟩ s')
    (ht : t.Splits ⟨t.resolve whole', m, t.resolve rest'⟩ t') (hwhole : τ whole whole') (hl : ρ l m)
    (hrest : τ rest rest') (hnone : s.splitOf? whole l = none) : Embeds ρ τ s' t' := by
  have hres (v : SetVar) : s'.resolve v = s.resolve v := by rw [resolve, hs.reprs, resolve]
  have hres' (v : SetVar) : t'.resolve v = t.resolve v := by rw [resolve, ht.reprs, resolve]
  refine ⟨⟨⟨hs.names ▸ h.valid.names, fun v => ?_⟩, h.elems, ?_, ?_, ?_, ?_, ?_, ?_, ?_⟩, ?_⟩
  · rw [hres, hres, h.valid.reprs]
  · intro v w v' w' hv hv' he
    rw [hres, hres] at he
    rw [hres', hres']
    exact h.same hv hv' he
  · intro v w hv
    rw [hres, hres']
    exact h.reps hv
  · intro v w hv
    rw [hres, hs.reprs]
    exact h.given hv
  · rw [hs.names, ht.names]
    exact h.names
  · rw [hs.subsets, ht.subsets]
    exact h.subsets
  · intro p hp
    rcases (hs.mem_splits p).1 hp with hp | rfl
    · obtain ⟨q, hq, hpq⟩ := h.splits p hp
      exact ⟨q, (ht.mem_splits q).2 (.inl hq), hpq⟩
    · exact ⟨_, (ht.mem_splits _).2 (.inr rfl), h.reps hwhole, hl, h.reps hrest⟩
  · rw [hs.empties, ht.empties]
    exact h.empties
  · -- The set was not split by the location before.
    have hfirst {q : Split} (hq : q ∈ s.splits) (hel : q.elem = l) :
        s.resolve q.whole ≠ s.resolve whole := by
      intro he
      have := splitOf?_isSome.2 ⟨q, hq, hel, he⟩
      rw [hnone] at this
      exact Bool.false_ne_true this
    intro p hp q hq hel he
    rw [hres, hres] at he ⊢
    rcases (hs.mem_splits p).1 hp with hp | rfl <;> rcases (hs.mem_splits q).1 hq with hq | rfl
    · exact h.rests p hp q hq hel he
    · exact absurd (he.trans (h.valid.reprs whole)) (hfirst hp hel)
    · exact absurd (he.symm.trans (h.valid.reprs whole)) (hfirst hq hel.symm)
    · rfl

theorem Matches.addSplit? (h : Matches ρ τ s t) {rest' : SetVar} (hwhole : τ whole whole') (hl : ρ l m)
    (hrest : τ rest rest') (hnone : s.splitOf? whole l = none) (hnone' : t.splitOf? whole' m = none) :
    Option.Rel (Matches ρ τ) (s.addSplit? whole l rest) (t.addSplit? whole' m rest') := by
  have hempty := h.isKnownEmpty hwhole
  rcases hs : s.addSplit? whole l rest with _ | s' <;>
    rcases ht : t.addSplit? whole' m rest' with _ | t'
  · exact .none
  · have hfree := (addSplit?_eq_some ht).1
    simp [SetStore.addSplit?, hempty, hfree] at hs
  · have hfree := (addSplit?_eq_some hs).1
    simp [SetStore.addSplit?, ← hempty, hfree] at ht
  · have hs' := splits_of_addSplit? hs
    have ht' := splits_of_addSplit? ht
    exact .some ⟨h.left.split hs' ht' hwhole hl hrest hnone,
      h.right.split ht' hs' hwhole hl hrest hnone'⟩

/-- Both stores take an element out of a set, or neither does. -/
theorem Matches.takeOut (h : Matches ρ τ s t) (hwhole : τ whole whole') (hl : ρ l m) :
    ∃ τ' : SetVar → SetVar → Prop, (∀ v w, τ v w → τ' v w) ∧
      Matches ρ τ' (s.takeOut whole l).1 (t.takeOut whole' m).1 ∧
      Option.Rel τ' (s.takeOut whole l).2 (t.takeOut whole' m).2 := by
  have hfresh (s : SetStore) (v : SetVar) (l : Loc) : s.fresh.2.splitOf? v l = s.splitOf? v l := by
    simp only [SetStore.splitOf?, resolve_fresh]
    rfl
  have hsplit := h.splitOf? hwhole hl
  rcases hs : s.splitOf? whole l with _ | r <;> rcases ht : t.splitOf? whole' m with _ | r' <;>
    rw [hs, ht] at hsplit
  · -- A variable is given out for what is left, and the split is recorded.
    have hadd := h.fresh.addSplit? (.inl hwhole) hl (.inr ⟨rfl, rfl⟩) ((hfresh ..).trans hs)
      ((hfresh ..).trans ht)
    refine ⟨Added τ s.fresh.1 t.fresh.1, fun v w => .inl, ?_⟩
    simp only [SetStore.takeOut, hs, ht]
    rcases hs' : s.fresh.2.addSplit? whole l s.fresh.1 with _ | s' <;>
      rcases ht' : t.fresh.2.addSplit? whole' m t.fresh.1 with _ | t' <;> rw [hs', ht'] at hadd
    · exact ⟨h.fresh, .none⟩
    · cases hadd
    · cases hadd
    · obtain hadd | hadd := hadd
      exact ⟨hadd, .some (.inr ⟨rfl, rfl⟩)⟩
  · cases hsplit
  · cases hsplit
  · refine ⟨τ, fun _ _ hv => hv, ?_⟩
    simp only [SetStore.takeOut, hs, ht]
    exact ⟨h, hsplit⟩

theorem Embeds.setEmpty? (h : Embeds ρ τ s t) (hv : τ v w) :
    Embeds ρ τ { s with empties := s.empties.insert (s.resolve v) }
      { t with empties := t.empties.insert (t.resolve w) } := by
  refine ⟨⟨⟨h.valid.names, h.valid.reprs⟩, h.elems, h.same, h.reps, h.given, h.names, h.subsets,
    h.splits, fun e he => ?_⟩, h.rests⟩
  rcases mem_insert_iff.1 he with rfl | he
  · exact ⟨t.resolve w, mem_insert_self, h.reps hv⟩
  · obtain ⟨f, hf, hef⟩ := h.empties e he
    exact ⟨f, mem_insert_of_mem hf, hef⟩

/-- Both stores record that a set is empty, or neither does. -/
theorem Matches.setEmpty? (h : Matches ρ τ s t) (hv : τ v w) :
    Option.Rel (Matches ρ τ) (s.setEmpty? v) (t.setEmpty? w) := by
  rcases hs : s.setEmpty? v with _ | s' <;> rcases ht : t.setEmpty? w with _ | t'
  · exact .none
  · rw [h.left.isNone_setEmpty? hv hs] at ht
    cases ht
  · rw [h.right.isNone_setEmpty? hv ht] at hs
    cases hs
  · obtain ⟨-, rfl⟩ := setEmpty?_eq_some hs
    obtain ⟨-, rfl⟩ := setEmpty?_eq_some ht
    exact .some ⟨h.left.setEmpty? hv, h.right.setEmpty? hv⟩

/-! ### Aliases -/

theorem redirect_eq_ok (hlt : c.id < s.reprs.length) :
    ∃ s', s.redirect c d = .ok s' ∧ s.Redirects c d s' := by
  have hok : s.redirect c d = .ok { s with reprs := s.reprs.map fun x => if x = c then d else x } := by
    rw [redirect, if_pos hlt]
  exact ⟨_, hok, redirects_of_redirect hok⟩

/-- Related variables that nothing is recorded about get related representatives. -/
theorem Matches.embeds_redirect (h : Matches ρ τ s t) {c' d' : SetVar} {t' : SetStore}
    (hs : s.Redirects c d s') (ht : t.Redirects c' d' t') (hc : τ c c') (hd : τ d d')
    (hrc : s.resolve c = c) (hrd : s.resolve d = d) (hrc' : t.resolve c' = c')
    (hrd' : t.resolve d' = d') (hne : c ≠ d) (hu : s.isUnconstrained c = true) : Embeds ρ τ s' t' := by
  have hiff {v w : SetVar} (hv : τ v w) : s.resolve v = c ↔ t.resolve w = c' := by
    have := h.resolve_eq_iff hv hc
    rwa [hrc, hrc'] at this
  have hmoved {v w : SetVar} (hv : τ v w) (he : s.resolve v = c) :
      s'.resolve v = d ∧ t'.resolve w = d' := by
    rw [hs.resolve, if_pos he, ht.resolve, if_pos ((hiff hv).1 he)]
    exact ⟨rfl, rfl⟩
  have hkept {v w : SetVar} (hv : τ v w) (he : s.resolve v ≠ c) :
      s'.resolve v = s.resolve v ∧ t'.resolve w = t.resolve w := by
    rw [hs.resolve, if_neg he, ht.resolve, if_neg fun he' => he ((hiff hv).2 he')]
    exact ⟨rfl, rfl⟩
  -- A variable gets the new representative if it had the old one or the new one.
  have hsame {v w : SetVar} (hv : τ v w) (he : s'.resolve v = d) : t'.resolve w = d' := by
    by_cases hvc : s.resolve v = c
    · exact (hmoved hv hvc).2
    · rw [(hkept hv hvc).1, ← hrd] at he
      rw [(hkept hv hvc).2, h.left.same hv hd he, hrd']
  refine ⟨⟨hs.valid h.left.valid hne hrd, h.left.elems, ?_, ?_, ?_, ?_, ?_, ?_, ?_⟩, ?_⟩
  · intro v w v' w' hv hv' he
    by_cases hvc : s.resolve v = c
    · rw [(hmoved hv hvc).1] at he
      rw [(hmoved hv hvc).2, hsame hv' he.symm]
    · by_cases hvc' : s.resolve v' = c
      · rw [(hmoved hv' hvc').1] at he
        rw [(hmoved hv' hvc').2, hsame hv he]
      · rw [(hkept hv hvc).1, (hkept hv' hvc').1] at he
        rw [(hkept hv hvc).2, (hkept hv' hvc').2, h.left.same hv hv' he]
  · intro v w hv
    by_cases hvc : s.resolve v = c
    · rw [(hmoved hv hvc).1, (hmoved hv hvc).2]
      exact hd
    · rw [(hkept hv hvc).1, (hkept hv hvc).2]
      exact h.left.reps hv
  · intro v w hv
    rw [hs.length]
    by_cases hvc : s.resolve v = c
    · rw [(hmoved hv hvc).1, ← hrd]
      exact h.left.given hd
    · rw [(hkept hv hvc).1]
      exact h.left.given hv
  · rw [hs.names, ht.names]
    exact h.left.names
  · rw [hs.subsets, ht.subsets]
    exact h.left.subsets
  · rw [hs.splits, ht.splits]
    exact h.left.splits
  · rw [hs.empties, ht.empties]
    exact h.left.empties
  · intro p hp q hq hel he
    rw [hs.splits] at hp hq
    have hp' := hs.resolve_split hu hrc hp
    have hq' := hs.resolve_split hu hrc hq
    rw [hp'.1, hq'.1] at he
    rw [hp'.2, hq'.2]
    exact h.left.rests p hp q hq hel he

theorem Matches.redirect (h : Matches ρ τ s t) {c' d' : SetVar} (hc : τ c c') (hd : τ d d')
    (hrc : s.resolve c = c) (hrd : s.resolve d = d) (hrc' : t.resolve c' = c')
    (hrd' : t.resolve d' = d') (hne : c ≠ d) (hu : s.isUnconstrained c = true) :
    ∃ s' t', s.redirect c d = .ok s' ∧ t.redirect c' d' = .ok t' ∧ Matches ρ τ s' t' := by
  have hlt := h.left.given hc
  have hlt' := h.right.given hc
  rw [hrc] at hlt
  rw [hrc'] at hlt'
  obtain ⟨s', hs, hs'⟩ := redirect_eq_ok (d := d) hlt
  obtain ⟨t', ht, ht'⟩ := redirect_eq_ok (d := d') hlt'
  have hne' : c' ≠ d' := by
    rw [← hrc, ← hrd, Ne, h.resolve_eq_iff hc hd, hrc', hrd'] at hne
    exact hne
  refine ⟨s', t', hs, ht, ?_, ?_⟩
  · exact h.embeds_redirect hs' ht' hc hd hrc hrd hrc' hrd' hne hu
  · exact h.symm.embeds_redirect ht' hs' hc hd hrc' hrd' hrc hrd hne' (h.isUnconstrained hc ▸ hu)

/-- Two computations both find no store, or stores that correspond. -/
def Both (ρ : Loc → Loc → Prop) (τ : SetVar → SetVar → Prop) (x y : Except Misuse (Option SetStore)) :
    Prop :=
  (x = .ok none ∧ y = .ok none) ∨
    ∃ s' t', x = .ok (some s') ∧ y = .ok (some t') ∧ Matches ρ τ s' t'

/-- Both stores make two variables aliases, or neither does. -/
theorem Matches.unify (h : Matches ρ τ s t) {a b a' b' : SetVar} (ha : τ a a') (hb : τ b b') :
    Both ρ τ (s.unify a b) (t.unify a' b') := by
  have hra := h.left.valid.reprs a
  have hrb := h.left.valid.reprs b
  have hra' := h.right.valid.reprs a'
  have hrb' := h.right.valid.reprs b'
  have heq := h.resolve_eq_iff ha hb
  have hua := h.isUnconstrained (h.left.reps ha)
  have hub := h.isUnconstrained (h.left.reps hb)
  simp only [SetStore.unify]
  rw [← hua, ← hub]
  by_cases he : s.resolve a = s.resolve b
  · rw [if_pos he, if_pos (heq.1 he)]
    exact .inr ⟨s, t, rfl, rfl, h⟩
  · rw [if_neg he, if_neg fun he' => he (heq.2 he')]
    by_cases hfree : s.isUnconstrained (s.resolve a) = true
    · obtain ⟨s', t', hs, ht, hm⟩ :=
        h.redirect (h.left.reps ha) (h.left.reps hb) hra hrb hra' hrb' he hfree
      rw [if_pos hfree, if_pos hfree, hs, ht]
      exact .inr ⟨s', t', rfl, rfl, hm⟩
    · rw [if_neg hfree, if_neg hfree]
      by_cases hfree : s.isUnconstrained (s.resolve b) = true
      · obtain ⟨s', t', hs, ht, hm⟩ := h.redirect (h.left.reps hb) (h.left.reps ha) hrb hra hrb' hra'
          (Ne.symm he) hfree
        rw [if_pos hfree, if_pos hfree, hs, ht]
        exact .inr ⟨s', t', rfl, rfl, hm⟩
      · rw [if_neg hfree, if_neg hfree]
        exact .inl ⟨rfl, rfl⟩

end SetStore

end HeapShape
