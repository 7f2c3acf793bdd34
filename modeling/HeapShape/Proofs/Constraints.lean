import HeapShape.Instance
import HeapShape.Proofs.Reachability
import Mathlib.Logic.Relation

/-!
# What the constraints between sets say

The questions that a store answers, as statements about what it records, and the few ways in
which constraints change while structures are unfolded and folded.

* `SetStore.Valid`: each name is declared once, and a representative represents itself;
* `SetStore.HasElement`: a set is known to have an element, because a set that was split is
  recorded to be included in it;
* `SetStore.Change`: one change of a store. Aliases are only made of variables that nothing is
  recorded about (`SetStore.Redirects`), so no recorded constraint changes its meaning;
* `SetStore.Change.not_isKnownEmpty`: a set that has an element does not become empty.
-/

namespace HeapShape

open List

namespace SetStore

/-- Each name is declared once, and a representative represents itself. -/
structure Valid (s : SetStore) : Prop where
  names : (s.names.entries.map Prod.fst).Nodup
  reprs : ∀ v, s.resolve (s.resolve v) = s.resolve v

variable {s s' : SetStore} {a b c d v w : SetVar} {loc : Loc}

/-! ### Questions -/

theorem mem_edges {e : SetVar × SetVar} : e ∈ s.edges ↔
    (∃ p ∈ s.subsets, (s.resolve p.1, s.resolve p.2) = e) ∨
      ∃ p ∈ s.splits, (s.resolve p.rest, s.resolve p.whole) = e := by
  simp only [edges, mem_append, mem_map]

theorem isKnownEmpty_iff : s.isKnownEmpty v = true ↔ ∃ e ∈ s.empties,
    s.resolve e = s.resolve v ∨
      ∃ p ∈ s.subsets, s.resolve p.1 = s.resolve v ∧ s.resolve p.2 = s.resolve e := by
  simp only [isKnownEmpty, any_eq_true, Bool.or_eq_true, Bool.and_eq_true, decide_eq_true_eq]

theorem isSubset_iff : s.isSubset v w = true ↔
    s.isKnownEmpty v = true ∨ Reach.Leads s.edges (s.resolve v) (s.resolve w) := by
  simp only [isSubset, Bool.or_eq_true, decide_eq_true_eq, contains_iff_mem, Reach.mem_closure,
    mem_singleton, exists_eq_left]
  constructor
  · rintro ((he | he) | he)
    · exact .inr (he ▸ .refl _)
    · exact .inl he
    · exact .inr he
  · rintro (he | he)
    · exact .inl (.inr he)
    · exact .inr he

theorem isDeclared_iff : s.isDeclared v = true ↔
    ∃ e ∈ s.names.entries, s.resolve e.2 = s.resolve v := by
  simp only [isDeclared, any_eq_true, decide_eq_true_eq]

/-- Nothing is recorded about a variable. -/
theorem isUnconstrained_iff : s.isUnconstrained v = true ↔ s.isDeclared v = false ∧
    (∀ e ∈ s.empties, s.resolve e ≠ s.resolve v) ∧
    (∀ p ∈ s.subsets, s.resolve p.1 ≠ s.resolve v ∧ s.resolve p.2 ≠ s.resolve v) ∧
    ∀ p ∈ s.splits, s.resolve p.whole ≠ s.resolve v ∧ s.resolve p.rest ≠ s.resolve v := by
  simp only [isUnconstrained, Bool.and_eq_true, Bool.not_eq_true', any_eq_false, Bool.or_eq_true,
    decide_eq_true_eq, not_or, and_assoc, ne_eq]

theorem splitOf?_isSome : (s.splitOf? v loc).isSome ↔
    ∃ p ∈ s.splits, p.elem = loc ∧ s.resolve p.whole = s.resolve v := by
  simp only [splitOf?, Option.isSome_map, find?_isSome, Bool.and_eq_true, decide_eq_true_eq]

/-- A set is known to have an element. -/
def HasElement (s : SetStore) (v : SetVar) : Prop :=
  ∃ p ∈ s.splits, Reach.Leads s.edges (s.resolve p.whole) (s.resolve v)

/-- No set that was split is known to be empty. -/
def Consistent (s : SetStore) : Prop := ∀ p ∈ s.splits, s.isKnownEmpty p.whole = false

theorem hasElement_of_splitOf? (h : (s.splitOf? v loc).isSome) : s.HasElement v := by
  obtain ⟨p, hp, -, hw⟩ := splitOf?_isSome.1 h
  exact ⟨p, hp, hw ▸ .refl _⟩

/-- A set is recorded as empty, unless it is known to have an element. -/
theorem setEmpty?_eq_some (h : s.setEmpty? v = some s') :
    ¬ s.HasElement v ∧ s' = { s with empties := s.empties.insert (s.resolve v) } := by
  rw [setEmpty?] at h
  split at h
  · cases h
  · rename_i hany
    refine ⟨?_, (Option.some.inj h).symm⟩
    rintro ⟨p, hp, hlead⟩
    exact hany (any_eq_true.2 ⟨p, hp, isSubset_iff.2 (.inr hlead)⟩)

theorem setEmpty?_of_not_hasElement (hc : s.Consistent) (h : ¬ s.HasElement v) :
    s.setEmpty? v = some { s with empties := s.empties.insert (s.resolve v) } := by
  rw [setEmpty?, if_neg]
  rw [any_eq_true]
  rintro ⟨p, hp, hsub⟩
  rcases isSubset_iff.1 hsub with he | hlead
  · rw [hc p hp] at he
    cases he
  · exact h ⟨p, hp, hlead⟩

/-- A set is an alias of another, or its inclusion in it is recorded itself. -/
def Direct (s : SetStore) (v w : SetVar) : Prop :=
  s.resolve v = s.resolve w ∨ ∃ p ∈ s.subsets, s.resolve p.1 = s.resolve v ∧ s.resolve p.2 = s.resolve w

/-- No set that was split is included in a set. -/
def Free (s : SetStore) (v : SetVar) : Prop := ∀ p ∈ s.splits, s.isSubset p.whole v = false

theorem Direct.leads (h : s.Direct v w) : Reach.Leads s.edges (s.resolve v) (s.resolve w) := by
  rcases h with heq | ⟨p, hp, h₁, h₂⟩
  · exact heq ▸ .refl _
  · exact .single (mem_edges.2 (.inl ⟨p, hp, Prod.ext h₁ h₂⟩))

theorem setEmpty?_isSome : (s.setEmpty? v).isSome ↔ s.Free v := by
  simp [setEmpty?, Free]

/-- What is known to be empty after one more set is. -/
theorem isKnownEmpty_setEmpty? (hs : s.Valid) (h : s.setEmpty? v = some s') :
    s'.isKnownEmpty w = true ↔ s.isKnownEmpty w = true ∨ s.Direct w v := by
  obtain ⟨-, rfl⟩ := setEmpty?_eq_some h
  rw [isKnownEmpty_iff, isKnownEmpty_iff, Direct]
  constructor
  · rintro ⟨e, he, hrel⟩
    rcases mem_insert_iff.1 he with rfl | he
    · right
      change s.resolve (s.resolve v) = s.resolve w ∨
        ∃ p ∈ s.subsets, s.resolve p.1 = s.resolve w ∧ s.resolve p.2 = s.resolve (s.resolve v) at hrel
      rw [hs.reprs] at hrel
      exact hrel.imp_left Eq.symm
    · exact .inl ⟨e, he, hrel⟩
  · rintro (⟨e, he, hrel⟩ | hrel)
    · exact ⟨e, mem_insert_iff.2 (.inr he), hrel⟩
    · refine ⟨s.resolve v, mem_insert_iff.2 (.inl rfl), ?_⟩
      change s.resolve (s.resolve v) = s.resolve w ∨
        ∃ p ∈ s.subsets, s.resolve p.1 = s.resolve w ∧ s.resolve p.2 = s.resolve (s.resolve v)
      rw [hs.reprs]
      exact hrel.imp_left Eq.symm

theorem addSplit?_eq_some {whole rest : SetVar} (h : s.addSplit? whole loc rest = some s') :
    s.isKnownEmpty whole = false ∧
      (s' = s ∨ s' = { s with splits := s.splits ++ [⟨s.resolve whole, loc, s.resolve rest⟩] }) := by
  rw [addSplit?] at h
  split at h
  · cases h
  · rename_i he
    refine ⟨Bool.not_eq_true _ ▸ he, ?_⟩
    have h := Option.some.inj h
    split at h
    · exact .inl h.symm
    · exact .inr h.symm

/-! ### New variables and aliases -/

@[simp] theorem resolve_fresh (s : SetStore) (v : SetVar) : s.fresh.2.resolve v = s.resolve v := by
  simp only [resolve, fresh, getD_eq_getElem?_getD, getElem?_append]
  split
  · rfl
  · rename_i h
    rw [getElem?_eq_none (Nat.le_of_not_lt h)]
    by_cases hv : v.id = s.reprs.length
    · rw [hv, Nat.sub_self]
      show (⟨s.reprs.length⟩ : SetVar) = v
      rw [← hv]
    · rw [getElem?_eq_none]
      rw [length_singleton]
      omega

@[simp] theorem edges_fresh (s : SetStore) : s.fresh.2.edges = s.edges := by
  simp only [edges, resolve_fresh]
  rfl

@[simp] theorem isKnownEmpty_fresh (s : SetStore) (v : SetVar) :
    s.fresh.2.isKnownEmpty v = s.isKnownEmpty v := by
  simp only [isKnownEmpty, resolve_fresh]
  rfl

/-- The variables that `c` represents have the representative `d`, and nothing else changes. -/
structure Redirects (s : SetStore) (c d : SetVar) (s' : SetStore) : Prop where
  names : s'.names = s.names
  subsets : s'.subsets = s.subsets
  splits : s'.splits = s.splits
  empties : s'.empties = s.empties
  length : s'.reprs.length = s.reprs.length
  resolve : ∀ v, s'.resolve v = if s.resolve v = c then d else s.resolve v

theorem redirects_of_redirect (h : s.redirect c d = .ok s') : s.Redirects c d s' := by
  rw [redirect] at h
  split at h
  · rename_i hlt
    cases h
    refine ⟨rfl, rfl, rfl, rfl, length_map .., fun v => ?_⟩
    simp only [SetStore.resolve, getD_eq_getElem?_getD, getElem?_map]
    cases hv : s.reprs[v.id]? with
    | some r => rfl
    | none =>
      -- A variable that was never given out is not the one that is redirected.
      have hne : v ≠ c := by
        rintro rfl
        rw [List.getElem?_eq_none_iff] at hv
        omega
      exact (if_neg hne).symm
  · cases h

/-- Two variables become aliases if they are, or else the representative of one of them, about
    which nothing is recorded, gives way to that of the other. -/
theorem unify_cases (h : s.unify a b = .ok (some s')) : s.resolve a = s.resolve b ∧ s' = s ∨
    ∃ c d, (c = s.resolve a ∧ d = s.resolve b ∨ c = s.resolve b ∧ d = s.resolve a) ∧
      s.isUnconstrained c = true ∧ c ≠ d ∧ s.Redirects c d s' := by
  have hr {c d : SetVar} (h : (s.redirect c d).map some = .ok (some s')) : s.Redirects c d s' := by
    cases hred : s.redirect c d with
    | error m =>
      rw [hred] at h
      cases h
    | ok t =>
      rw [hred] at h
      cases h
      exact redirects_of_redirect hred
  simp only [unify] at h
  split at h
  · rename_i heq
    cases h
    exact .inl ⟨heq, rfl⟩
  · rename_i hne
    right
    split at h
    · rename_i hu
      exact ⟨_, _, .inl ⟨rfl, rfl⟩, hu, hne, hr h⟩
    · split at h
      · rename_i hu
        exact ⟨_, _, .inr ⟨rfl, rfl⟩, hu, Ne.symm hne, hr h⟩
      · cases h

theorem unify_eq_some (hs : s.Valid) (h : s.unify a b = .ok (some s')) : s' = s ∨
    ∃ c d, s.isUnconstrained c = true ∧ s.resolve c = c ∧ s.resolve d = d ∧ c ≠ d ∧
      s.Redirects c d s' := by
  obtain ⟨-, rfl⟩ | ⟨c, d, hcd, hu, hne, hr⟩ := unify_cases h
  · exact .inl rfl
  · right
    rcases hcd with ⟨rfl, rfl⟩ | ⟨rfl, rfl⟩
    · exact ⟨_, _, hu, hs.reprs a, hs.reprs b, hne, hr⟩
    · exact ⟨_, _, hu, hs.reprs b, hs.reprs a, hne, hr⟩

namespace Redirects

variable (h : s.Redirects c d s') (hu : s.isUnconstrained c = true) (hc : s.resolve c = c)

include h

theorem valid (hs : s.Valid) (hne : c ≠ d) (hd : s.resolve d = d) : s'.Valid where
  names := h.names ▸ hs.names
  reprs v := by
    rw [h.resolve v]
    by_cases hv : s.resolve v = c
    · rw [if_pos hv, h.resolve, hd, if_neg (Ne.symm hne)]
    · rw [if_neg hv, h.resolve, hs.reprs, if_neg hv]

/-- Two variables that were the same are the same. -/
theorem resolve_congr (he : s.resolve v = s.resolve w) : s'.resolve v = s'.resolve w := by
  rw [h.resolve, h.resolve, he]

include hu hc

/-- The variables of the constraints keep their representatives. -/
theorem resolve_empty {e : SetVar} (he : e ∈ s.empties) : s'.resolve e = s.resolve e := by
  rw [h.resolve, if_neg (hc ▸ (isUnconstrained_iff.1 hu).2.1 e he)]

theorem resolve_subset {p : SetVar × SetVar} (hp : p ∈ s.subsets) :
    s'.resolve p.1 = s.resolve p.1 ∧ s'.resolve p.2 = s.resolve p.2 := by
  have hne := (isUnconstrained_iff.1 hu).2.2.1 p hp
  rw [hc] at hne
  rw [h.resolve, h.resolve, if_neg hne.1, if_neg hne.2]
  exact ⟨rfl, rfl⟩

theorem resolve_split {p : Split} (hp : p ∈ s.splits) :
    s'.resolve p.whole = s.resolve p.whole ∧ s'.resolve p.rest = s.resolve p.rest := by
  have hne := (isUnconstrained_iff.1 hu).2.2.2 p hp
  rw [hc] at hne
  rw [h.resolve, h.resolve, if_neg hne.1, if_neg hne.2]
  exact ⟨rfl, rfl⟩

theorem edges : s'.edges = s.edges := by
  simp only [SetStore.edges, h.subsets, h.splits]
  congr 1
  · refine map_congr_left fun p hp => ?_
    rw [(h.resolve_subset hu hc hp).1, (h.resolve_subset hu hc hp).2]
  · refine map_congr_left fun p hp => ?_
    rw [(h.resolve_split hu hc hp).1, (h.resolve_split hu hc hp).2]

theorem isKnownEmpty_iff : s'.isKnownEmpty v = true ↔ ∃ e ∈ s.empties,
    s.resolve e = s'.resolve v ∨
      ∃ p ∈ s.subsets, s.resolve p.1 = s'.resolve v ∧ s.resolve p.2 = s.resolve e := by
  rw [SetStore.isKnownEmpty_iff, h.empties, h.subsets]
  refine exists_congr fun e => and_congr_right fun he => ?_
  rw [h.resolve_empty hu hc he]
  refine or_congr_right (exists_congr fun p => and_congr_right fun hp => ?_)
  rw [(h.resolve_subset hu hc hp).1, (h.resolve_subset hu hc hp).2]

/-- A set that something is recorded about keeps its representative. -/
theorem resolve_hasElement (hv : s.HasElement v) : s'.resolve v = s.resolve v := by
  rw [h.resolve, if_neg]
  intro hvc
  have hne := (isUnconstrained_iff.1 hu).2.2
  rw [hc] at hne
  obtain ⟨p, hp, hlead⟩ := hv
  rw [hvc] at hlead
  generalize hx : s.resolve p.whole = x at hlead
  -- The last edge of the way, or else the split, is about the variable.
  cases hlead with
  | refl => exact (hne.2 p hp).1 hx
  | step _ he =>
    rcases mem_edges.1 he with ⟨q, hq, heq⟩ | ⟨q, hq, heq⟩
    · exact (hne.1 q hq).2 (congrArg Prod.snd heq)
    · exact (hne.2 q hq).1 (congrArg Prod.snd heq)

end Redirects

/-! ### Changes -/

/-- One change of a store, as unfolding and folding make it. -/
inductive Change (s : SetStore) : SetStore → Prop where
  /-- A variable is given out. -/
  | fresh : Change s s.fresh.2
  /-- A split is recorded. -/
  | split {whole rest : SetVar} {loc : Loc} {s' : SetStore}
      (h : s.addSplit? whole loc rest = some s') : Change s s'
  /-- A set is recorded as empty. -/
  | empty {v : SetVar} {s' : SetStore} (h : s.setEmpty? v = some s') : Change s s'
  /-- Two variables become aliases. -/
  | unify {a b : SetVar} {s' : SetStore} (h : s.unify a b = .ok (some s')) : Change s s'

/-- A row of changes. -/
abbrev Changes : SetStore → SetStore → Prop := Relation.ReflTransGen Change

namespace Change

theorem valid (h : s.Change s') (hs : s.Valid) : s'.Valid := by
  cases h with
  | fresh => exact ⟨hs.names, fun v => by rw [resolve_fresh, resolve_fresh, hs.reprs]⟩
  | split h =>
    obtain ⟨-, rfl | rfl⟩ := addSplit?_eq_some h
    · exact hs
    · exact ⟨hs.names, hs.reprs⟩
  | empty h =>
    obtain ⟨-, rfl⟩ := setEmpty?_eq_some h
    exact ⟨hs.names, hs.reprs⟩
  | unify h =>
    obtain rfl | ⟨c, d, -, -, hd, hne, hr⟩ := unify_eq_some hs h
    · exact hs
    · exact hr.valid hs hne hd

/-- A split stays. -/
theorem splitOf? (h : s.Change s') (hs : s.Valid) (hv : (s.splitOf? v loc).isSome) :
    (s'.splitOf? v loc).isSome := by
  obtain ⟨p, hp, he, hw⟩ := splitOf?_isSome.1 hv
  refine splitOf?_isSome.2 ?_
  cases h with
  | fresh => exact ⟨p, hp, he, by rw [resolve_fresh, resolve_fresh, hw]⟩
  | split h =>
    obtain ⟨-, rfl | rfl⟩ := addSplit?_eq_some h
    · exact ⟨p, hp, he, hw⟩
    · exact ⟨p, mem_append_left _ hp, he, hw⟩
  | empty h =>
    obtain ⟨-, rfl⟩ := setEmpty?_eq_some h
    exact ⟨p, hp, he, hw⟩
  | unify h =>
    obtain rfl | ⟨c, d, -, -, -, -, hr⟩ := unify_eq_some hs h
    · exact ⟨p, hp, he, hw⟩
    · exact ⟨p, hr.splits ▸ hp, he, hr.resolve_congr hw⟩

/-- An element stays. -/
theorem hasElement (h : s.Change s') (hs : s.Valid) (hv : s.HasElement v) : s'.HasElement v := by
  cases h with
  | fresh =>
    obtain ⟨p, hp, hlead⟩ := hv
    refine ⟨p, hp, ?_⟩
    rwa [resolve_fresh, resolve_fresh, edges_fresh]
  | split h =>
    obtain ⟨p, hp, hlead⟩ := hv
    obtain ⟨-, rfl | rfl⟩ := addSplit?_eq_some h
    · exact ⟨p, hp, hlead⟩
    · refine ⟨p, mem_append_left _ hp, hlead.mono fun e he => ?_⟩
      rcases mem_edges.1 he with ⟨q, hq, heq⟩ | ⟨q, hq, heq⟩
      · exact mem_edges.2 (.inl ⟨q, hq, heq⟩)
      · exact mem_edges.2 (.inr ⟨q, mem_append_left _ hq, heq⟩)
  | empty h =>
    obtain ⟨-, rfl⟩ := setEmpty?_eq_some h
    exact hv
  | unify h =>
    obtain rfl | ⟨c, d, hu, hc, -, -, hr⟩ := unify_eq_some hs h
    · exact hv
    · have hres := hr.resolve_hasElement hu hc hv
      obtain ⟨p, hp, hlead⟩ := hv
      refine ⟨p, hr.splits ▸ hp, ?_⟩
      rwa [hr.edges hu hc, (hr.resolve_split hu hc hp).1, hres]

/-- A set that has an element does not become empty. -/
theorem not_isKnownEmpty (h : s.Change s') (hs : s.Valid) (hv : s.HasElement v)
    (he : s.isKnownEmpty v = false) : s'.isKnownEmpty v = false := by
  rw [← Bool.not_eq_true] at he ⊢
  intro hk
  refine he ?_
  cases h with
  | fresh => rwa [isKnownEmpty_fresh] at hk
  | split h =>
    obtain ⟨-, rfl | rfl⟩ := addSplit?_eq_some h
    · exact hk
    · exact hk
  | @empty w _ h =>
    refine ((isKnownEmpty_setEmpty? hs h).1 hk).resolve_right fun hdirect => ?_
    -- The set is, or is included in, the one that was just recorded as empty.
    obtain ⟨p, hp, hlead⟩ := hv
    exact (setEmpty?_eq_some h).1 ⟨p, hp, hlead.trans hdirect.leads⟩
  | unify h =>
    obtain rfl | ⟨c, d, hu, hc, -, -, hr⟩ := unify_eq_some hs h
    · exact hk
    · rw [hr.isKnownEmpty_iff hu hc, hr.resolve_hasElement hu hc hv] at hk
      exact isKnownEmpty_iff.2 hk

end Change

namespace Changes

theorem valid (h : s.Changes s') (hs : s.Valid) : s'.Valid := by
  induction h with
  | refl => exact hs
  | tail _ h ih => exact h.valid ih

theorem splitOf? (h : s.Changes s') (hs : s.Valid) (hv : (s.splitOf? v loc).isSome) :
    (s'.splitOf? v loc).isSome := by
  induction h with
  | refl => exact hv
  | tail h₁ h ih => exact h.splitOf? (valid h₁ hs) ih

/-- In a row of changes a set that has an element keeps it, and does not become empty. -/
theorem not_isKnownEmpty (h : s.Changes s') (hs : s.Valid) (hv : s.HasElement v)
    (he : s.isKnownEmpty v = false) : s'.HasElement v ∧ s'.isKnownEmpty v = false := by
  induction h with
  | refl => exact ⟨hv, he⟩
  | tail h₁ h ih =>
    have ht := valid h₁ hs
    exact ⟨h.hasElement ht ih.1, h.not_isKnownEmpty ht ih.1 ih.2⟩

end Changes

end SetStore

end HeapShape
