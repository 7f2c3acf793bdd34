import HeapShape.Proofs.Issued

/-!
# Stores with more aliases

Two stores record the same, but one of them has more aliases: a set was given there, where the other
store has a guess, a variable that nothing is recorded about. Whatever can be done in the store with
more aliases can be done in the other one, as long as

* variables that are aliases only there are aliases of a given set there;
* of two such variables something is recorded about one of them at most.

A guess can then still become an alias of all that the given set is an alias of. A variable that is
not used any more is *dead*, and nothing is asked of it.

* `SetStore.Coarsens`: the relation of the two stores;
* `Coarsens.guess`, `Coarsens.unify_given`, `Coarsens.bury`: how it comes about;
* `Coarsens.unify`, `Coarsens.takeOut`, `Coarsens.setEmpty?`: what can be done in one store can be
  done in the other, and keeps the relation.
-/

namespace HeapShape

open List

namespace SetStore

variable {s s' t t' : SetStore} {a b v w : SetVar} {l : Loc}

/-! ### What is recorded -/

/-- Something is recorded about a variable. -/
def Mentions (s : SetStore) (v : SetVar) : Prop :=
  (∃ e ∈ s.names.entries, e.2 = v) ∨ (∃ p ∈ s.subsets, p.1 = v ∨ p.2 = v) ∨
    (∃ p ∈ s.splits, p.whole = v ∨ p.rest = v) ∨ v ∈ s.empties

/-- All variables of a store were given out. -/
structure Grounded (s : SetStore) : Prop where
  valid : s.Valid
  reprs : ∀ v, s.Has v → s.Has (s.resolve v)
  mentions : ∀ v, s.Mentions v → s.Has v

/-- Two stores record the same. -/
structure SameRecords (s s' : SetStore) : Prop where
  names : s'.names = s.names
  subsets : s'.subsets = s.subsets
  splits : s'.splits = s.splits
  empties : s'.empties = s.empties

theorem SameRecords.mentions (h : s.SameRecords s') : s'.Mentions v ↔ s.Mentions v := by
  rw [Mentions, Mentions, h.names, h.subsets, h.splits, h.empties]

theorem sameRecords_fresh (s : SetStore) : s.SameRecords s.fresh.2 := ⟨rfl, rfl, rfl, rfl⟩

theorem has_fresh_iff : s.fresh.2.Has v ↔ s.Has v ∨ v = s.fresh.1 := by
  have hlen : s.fresh.2.reprs.length = s.reprs.length + 1 := length_append
  rw [Has, Has, hlen, Nat.lt_succ_iff_lt_or_eq]
  exact or_congr_right ⟨fun he => congrArg SetVar.mk he, fun he => congrArg SetVar.id he⟩

theorem not_has_fresh (s : SetStore) : ¬ s.Has s.fresh.1 := Nat.lt_irrefl _

/-- An alias of a variable that was given out was given out. -/
theorem has_of_resolve_eq (hr : ∀ v, s.Has v → s.Has (s.resolve v)) (hv : s.Has v)
    (he : s.resolve w = s.resolve v) : s.Has w := by
  by_contra hw
  have hself : s.resolve w = w := by
    rw [resolve, getD_eq_getElem?_getD, getElem?_eq_none (Nat.le_of_not_lt hw),
      Option.getD_none]
  have hres := hr v hv
  rw [← he, hself] at hres
  exact hw hres

/-- A new variable is no alias of one that was given out before. -/
theorem resolve_ne_fresh (hr : ∀ v, s.Has v → s.Has (s.resolve v)) (hv : s.Has v) :
    s.resolve v ≠ s.resolve s.fresh.1 :=
  fun he => s.not_has_fresh (has_of_resolve_eq hr hv he.symm)

theorem has_resolve_fresh (hr : ∀ v, s.Has v → s.Has (s.resolve v)) (hv : s.fresh.2.Has v) :
    s.fresh.2.Has (s.fresh.2.resolve v) := by
  rcases has_fresh_iff.1 hv with hv | rfl
  · rw [resolve_fresh]
    exact has_fresh_iff.2 (.inl (hr v hv))
  · rw [resolve_new]
    exact hv

/-- A variable is unconstrained if nothing is recorded about any alias of it. -/
theorem isUnconstrained_iff_mentions :
    s.isUnconstrained v = true ↔ ∀ e, s.Mentions e → s.resolve e ≠ s.resolve v := by
  rw [isUnconstrained_iff, ← Bool.not_eq_true, isDeclared_iff]
  constructor
  · rintro ⟨hnames, hempties, hsubsets, hsplits⟩ e hm
    rcases hm with ⟨f, hf, rfl⟩ | ⟨p, hp, rfl | rfl⟩ | ⟨p, hp, rfl | rfl⟩ | he
    · exact fun h => hnames ⟨f, hf, h⟩
    · exact (hsubsets p hp).1
    · exact (hsubsets p hp).2
    · exact (hsplits p hp).1
    · exact (hsplits p hp).2
    · exact hempties e he
  · refine fun h => ⟨?_, fun e he => h e (.inr (.inr (.inr he))), fun p hp => ?_, fun p hp => ?_⟩
    · rintro ⟨f, hf, he⟩
      exact h f.2 (.inl ⟨f, hf, rfl⟩) he
    · exact ⟨h _ (.inr (.inl ⟨p, hp, .inl rfl⟩)), h _ (.inr (.inl ⟨p, hp, .inr rfl⟩))⟩
    · exact ⟨h _ (.inr (.inr (.inl ⟨p, hp, .inl rfl⟩))), h _ (.inr (.inr (.inl ⟨p, hp, .inr rfl⟩)))⟩

/-- A set is split off a location for the first time. -/
theorem takeOut_of_none (hs : s.Valid) (hn : s.splitOf? v l = none) : s.takeOut v l =
    if s.isKnownEmpty v then (s.fresh.2, none)
    else ({ s.fresh.2 with splits := s.fresh.2.splits ++
      [⟨s.fresh.2.resolve v, l, s.fresh.2.resolve s.fresh.1⟩] }, some s.fresh.1) := by
  have hnew :
      s.fresh.2.splits.contains ⟨s.fresh.2.resolve v, l, s.fresh.2.resolve s.fresh.1⟩ = false := by
    rw [← Bool.not_eq_true, contains_iff_mem]
    intro hmem
    have hsome : (s.splitOf? v l).isSome := splitOf?_isSome.2 ⟨_, hmem, rfl, by
      rw [resolve_fresh, hs.reprs]⟩
    rw [hn] at hsome
    exact Bool.false_ne_true hsome
  simp only [SetStore.takeOut, hn, addSplit?, isKnownEmpty_fresh, hnew]
  by_cases he : s.isKnownEmpty v = true
  · simp only [he, if_true]
  · simp only [he, if_false, Bool.false_eq_true]

/-- What a store records, in the order of its splits, another one records about related
    variables. -/
structure Copies (R : SetVar → SetVar → Prop) (s t : SetStore) : Prop where
  names : ∀ e ∈ s.names.entries, ∃ f ∈ t.names.entries, f.1 = e.1 ∧ R e.2 f.2
  subsets : ∀ p ∈ s.subsets, ∃ q ∈ t.subsets, R p.1 q.1 ∧ R p.2 q.2
  splits : List.Forall₂ (fun p q => R p.whole q.whole ∧ p.elem = q.elem ∧ R p.rest q.rest)
    s.splits t.splits
  empties : ∀ e ∈ s.empties, ∃ f ∈ t.empties, R e f

/-- Searches in related lists find related elements. -/
theorem rel_find? {α β : Type} {R : α → β → Prop} {f : α → Bool} {g : β → Bool} {as : List α}
    {bs : List β} (h : List.Forall₂ R as bs) (hfg : ∀ a ∈ as, ∀ b, R a b → f a = g b) :
    Option.Rel (fun a b => a ∈ as ∧ R a b) (as.find? f) (bs.find? g) := by
  induction h with
  | nil => exact .none
  | @cons a b as bs hab _ ih =>
    have hhead := hfg a (.head _) b hab
    rcases hf : f a with _ | _
    · rw [find?_cons_of_neg (by simp [hf]), find?_cons_of_neg (by simp [← hhead, hf])]
      have hrest := ih fun a ha => hfg a (.tail _ ha)
      generalize as.find? f = o at hrest
      generalize bs.find? g = o' at hrest
      rcases hrest with ⟨hmem, hR⟩ | _
      · exact .some ⟨.tail _ hmem, hR⟩
      · exact .none
    · rw [find?_cons_of_pos hf, find?_cons_of_pos (hhead ▸ hf)]
      exact .some ⟨.head _, hab⟩

namespace Copies

variable {R R' : SetVar → SetVar → Prop}

theorem mono (h : Copies R s t) (hR : ∀ v w, R v w → R' v w) (hs : s.SameRecords s')
    (ht : t.SameRecords t') : Copies R' s' t' where
  names := by
    rw [hs.names, ht.names]
    intro e he
    obtain ⟨f, hf, hname, hef⟩ := h.names e he
    exact ⟨f, hf, hname, hR _ _ hef⟩
  subsets := by
    rw [hs.subsets, ht.subsets]
    intro p hp
    obtain ⟨q, hq, h₁, h₂⟩ := h.subsets p hp
    exact ⟨q, hq, hR _ _ h₁, hR _ _ h₂⟩
  splits := by
    rw [hs.splits, ht.splits]
    exact h.splits.imp fun p q hpq => ⟨hR _ _ hpq.1, hpq.2.1, hR _ _ hpq.2.2⟩
  empties := by
    rw [hs.empties, ht.empties]
    intro e he
    obtain ⟨f, hf, hef⟩ := h.empties e he
    exact ⟨f, hf, hR _ _ hef⟩

/-- What something is recorded about is related to something. -/
theorem exists_of_mentions (h : Copies R s t) (hv : s.Mentions v) : ∃ w, R v w := by
  rcases hv with ⟨e, he, rfl⟩ | ⟨p, hp, rfl | rfl⟩ | ⟨p, hp, rfl | rfl⟩ | he
  · obtain ⟨f, -, -, hef⟩ := h.names e he
    exact ⟨_, hef⟩
  · obtain ⟨q, -, hpq, -⟩ := h.subsets p hp
    exact ⟨_, hpq⟩
  · obtain ⟨q, -, -, hpq⟩ := h.subsets p hp
    exact ⟨_, hpq⟩
  · obtain ⟨q, -, hpq, -⟩ := exists_mem_of_forall₂ h.splits hp
    exact ⟨_, hpq⟩
  · obtain ⟨q, -, -, -, hpq⟩ := exists_mem_of_forall₂ h.splits hp
    exact ⟨_, hpq⟩
  · obtain ⟨f, -, hef⟩ := h.empties v he
    exact ⟨_, hef⟩

end Copies

/-! ### Classes of aliases -/

/-- Two variables have become aliases, with all that were aliases of them, and nothing else has
    changed. -/
structure Merges (s : SetStore) (a b : SetVar) (s' : SetStore) : Prop extends SameRecords s s' where
  valid : s'.Valid
  length : s'.reprs.length = s.reprs.length
  reprs : ∀ v, s'.resolve v = s.resolve v ∨ s'.resolve v = s.resolve a ∨ s'.resolve v = s.resolve b
  same : ∀ v w, s'.resolve v = s'.resolve w ↔ s.resolve v = s.resolve w ∨
    (s.resolve v = s.resolve a ∧ s.resolve w = s.resolve b) ∨
    (s.resolve v = s.resolve b ∧ s.resolve w = s.resolve a)

theorem isUnconstrained_congr (h : s.resolve v = s.resolve w) :
    s.isUnconstrained v = s.isUnconstrained w := by
  simp only [isUnconstrained, isDeclared, h]

theorem merges_self (hs : s.Valid) (h : s.resolve a = s.resolve b) : s.Merges a b s := by
  refine ⟨⟨rfl, rfl, rfl, rfl⟩, hs, rfl, fun _ => .inl rfl, fun v w => ⟨.inl, ?_⟩⟩
  rintro (he | ⟨hv, hw⟩ | ⟨hv, hw⟩)
  · exact he
  · rw [hv, hw, h]
  · rw [hv, hw, h]

/-- Two variables become aliases if they are or if one of them is unconstrained. -/
theorem merges_of_unify (hs : s.Valid) (h : s.unify a b = .ok (some s')) : s.Merges a b s' ∧
    (s.resolve a = s.resolve b ∨ s.isUnconstrained a = true ∨ s.isUnconstrained b = true) := by
  obtain ⟨he, rfl⟩ | ⟨c, d, hcd, hu, hne, hr⟩ := unify_cases h
  · exact ⟨merges_self hs he, .inl he⟩
  · have hd : s.resolve d = d := by
      rcases hcd with ⟨-, rfl⟩ | ⟨-, rfl⟩ <;> exact hs.reprs _
    have hsame (v w : SetVar) : s'.resolve v = s'.resolve w ↔ s.resolve v = s.resolve w ∨
        (s.resolve v = c ∧ s.resolve w = d) ∨ (s.resolve v = d ∧ s.resolve w = c) := by
      rw [hr.resolve, hr.resolve]
      by_cases hv : s.resolve v = c <;> by_cases hw : s.resolve w = c
      · simp [hv, hw]
      · simp [hv, hw, Ne.symm hw, hne, eq_comm]
      · simp [hv, hw]
      · simp [hv, hw]
    refine ⟨⟨⟨hr.names, hr.subsets, hr.splits, hr.empties⟩, hr.valid hs hne hd, hr.length, fun v => ?_,
      fun v w => ?_⟩, .inr ?_⟩
    · rw [hr.resolve]
      split
      · rcases hcd with ⟨-, rfl⟩ | ⟨-, rfl⟩
        · exact .inr (.inr rfl)
        · exact .inr (.inl rfl)
      · exact .inl rfl
    · rw [hsame]
      rcases hcd with ⟨rfl, rfl⟩ | ⟨rfl, rfl⟩
      · rfl
      · tauto
    · rcases hcd with ⟨rfl, rfl⟩ | ⟨rfl, rfl⟩
      · exact .inl (isUnconstrained_congr (hs.reprs a) ▸ hu)
      · exact .inr (isUnconstrained_congr (hs.reprs b) ▸ hu)

/-- Variables that were given out become aliases if one of them is unconstrained. -/
theorem exists_unify (hs : s.Valid) (hr : ∀ v, s.Has v → s.Has (s.resolve v)) (ha : s.Has a)
    (hb : s.Has b)
    (hu : s.resolve a = s.resolve b ∨ s.isUnconstrained a = true ∨ s.isUnconstrained b = true) :
    ∃ s', s.unify a b = .ok (some s') := by
  have hred {c d : SetVar} (hc : s.Has c) : ∃ s', (s.redirect c d).map some = .ok (some s') := by
    obtain ⟨s', hs', -⟩ := redirect_eq_ok (s := s) (d := d) hc
    exact ⟨s', by rw [hs']; rfl⟩
  simp only [SetStore.unify]
  split
  · exact ⟨s, rfl⟩
  · rename_i hne
    split
    · exact hred (hr a ha)
    · rename_i hua
      rw [if_pos]
      · exact hred (hr b hb)
      · rcases hu with he | hu | hu
        · exact absurd he hne
        · rw [isUnconstrained_congr (hs.reprs a), hu] at hua
          exact absurd rfl hua
        · rw [isUnconstrained_congr (hs.reprs b), hu]

namespace Merges

theorem congr (h : s.Merges a b s') (he : s.resolve v = s.resolve w) : s'.resolve v = s'.resolve w :=
  (h.same v w).2 (.inl he)

theorem resolve_eq (h : s.Merges a b s') : s'.resolve a = s'.resolve b :=
  (h.same a b).2 (.inr (.inl ⟨rfl, rfl⟩))

theorem has (h : s.Merges a b s') : s'.Has v ↔ s.Has v := by
  rw [Has, Has, h.length]

/-- Representatives were given out. -/
theorem has_resolve (h : s.Merges a b s') (hr : ∀ v, s.Has v → s.Has (s.resolve v)) (ha : s.Has a)
    (hb : s.Has b) (hv : s'.Has v) : s'.Has (s'.resolve v) := by
  rw [h.has] at hv ⊢
  rcases h.reprs v with he | he | he <;> rw [he]
  · exact hr v hv
  · exact hr a ha
  · exact hr b hb

end Merges

/-! ### The relation -/

/-- What a variable of one store stands for in another one. -/
def StandsFor (σ : SetVar → SetVar) (s t : SetStore) (v w : SetVar) : Prop :=
  s.Has v ∧ t.resolve (σ v) = t.resolve w

section

variable {σ : SetVar → SetVar}

theorem StandsFor.fresh_right (h : StandsFor σ s t a b) : StandsFor σ s t.fresh.2 a b := by
  refine ⟨h.1, ?_⟩
  rw [resolve_fresh, resolve_fresh, h.2]

theorem StandsFor.fresh_left (h : StandsFor σ s t a b) :
    StandsFor (Function.update σ s.fresh.1 w) s.fresh.2 t a b := by
  refine ⟨has_fresh_iff.2 (.inl h.1), ?_⟩
  rw [Function.update_of_ne (by rintro rfl; exact s.not_has_fresh h.1), h.2]

theorem standsFor_fresh : StandsFor (Function.update σ s.fresh.1 w) s.fresh.2 t s.fresh.1 w :=
  ⟨has_fresh_iff.2 (.inr rfl), by rw [Function.update_self]⟩

end

/-- A variable is an alias of one of some variables. -/
def AliasOf (s : SetStore) (given : List SetVar) (v : SetVar) : Prop :=
  ∃ g ∈ given, s.resolve v = s.resolve g

/-- A store with given sets in the place of guesses: all variables of `s` stand for variables of `t`,
    which records the same about them, and more of them are aliases there. Those are aliases of given
    sets, or dead. -/
structure Coarsens (given : List SetVar) (root : Loc) (dead : SetVar → Prop) (σ : SetVar → SetVar)
    (s t : SetStore) : Prop where
  valid : s.Valid
  valid' : t.Valid
  reprs : ∀ v, s.Has v → s.Has (s.resolve v)
  reprs' : ∀ v, t.Has v → t.Has (t.resolve v)
  has_given : ∀ g ∈ given, t.Has g
  has : ∀ v, s.Has v → t.Has (σ v)
  same : ∀ v w, s.Has v → s.Has w → s.resolve v = s.resolve w → t.resolve (σ v) = t.resolve (σ w)
  copies : Copies (StandsFor σ s t) s t
  dead_has : ∀ v, dead v → s.Has v
  dead_alias : ∀ v w, s.resolve v = s.resolve w → dead v → dead w
  /-- Only the root is split off a dead set. -/
  buried : ∀ p ∈ s.splits, (p.elem ≠ root → ¬ dead p.whole) ∧ ¬ dead p.rest
  /-- What something is recorded about has no new aliases. -/
  rigid : ∀ v w, s.Mentions v → s.Mentions w → ¬ dead v → ¬ dead w →
    t.resolve (σ v) = t.resolve (σ w) → s.resolve v = s.resolve w
  /-- What has new aliases is an alias of a given set. -/
  guessed : ∀ v w, s.Has v → s.Has w → ¬ dead v → ¬ dead w → t.resolve (σ v) = t.resolve (σ w) →
    s.resolve v = s.resolve w ∨ t.AliasOf given (σ v)

namespace Coarsens

variable {given : List SetVar} {root : Loc} {dead : SetVar → Prop} {σ : SetVar → SetVar}

/-- A store with all sets given. -/
theorem start (hs : s.Grounded) (hg : ∀ g ∈ given, s.Has g) :
    Coarsens given root (fun _ => False) id s s where
  valid := hs.valid
  valid' := hs.valid
  reprs := hs.reprs
  reprs' := hs.reprs
  has_given := hg
  has _ hv := hv
  same _ _ _ _ he := he
  copies := by
    have hR (v : SetVar) (hv : s.Mentions v) : StandsFor id s s v v := ⟨hs.mentions v hv, rfl⟩
    refine ⟨fun e he => ⟨e, he, rfl, hR _ (.inl ⟨e, he, rfl⟩)⟩, fun p hp => ⟨p, hp, ?_, ?_⟩,
      forall₂_same.2 fun p hp => ⟨?_, rfl, ?_⟩,
      fun e he => ⟨e, he, hR _ (.inr (.inr (.inr he)))⟩⟩
    · exact hR _ (.inr (.inl ⟨p, hp, .inl rfl⟩))
    · exact hR _ (.inr (.inl ⟨p, hp, .inr rfl⟩))
    · exact hR _ (.inr (.inr (.inl ⟨p, hp, .inl rfl⟩)))
    · exact hR _ (.inr (.inr (.inl ⟨p, hp, .inr rfl⟩)))
  dead_has _ hd := hd.elim
  dead_alias _ _ _ hd := hd
  buried _ _ := ⟨fun _ => not_false, not_false⟩
  rigid _ _ _ _ _ _ he := he
  guessed _ _ _ _ _ _ he := .inl he

section

variable (h : Coarsens given root dead σ s t)
include h

theorem records : Records Eq (StandsFor σ s t) s t where
  valid := h.valid
  elems hl hl' := hl ▸ hl'
  same hv hv' he := hv.2 ▸ hv'.2 ▸ h.same _ _ hv.1 hv'.1 he
  reps {v w} hv := by
    refine ⟨h.reprs v hv.1, ?_⟩
    rw [h.same _ v (h.reprs v hv.1) hv.1 (h.valid.reprs v), hv.2, h.valid'.reprs]
  given hv := h.reprs _ hv.1
  names := h.copies.names
  subsets := h.copies.subsets
  splits p hp := exists_mem_of_forall₂ h.copies.splits hp
  empties := h.copies.empties

theorem has_mentions (hv : s.Mentions v) : s.Has v := by
  obtain ⟨w, hw⟩ := h.copies.exists_of_mentions hv
  exact hw.1

theorem isUnconstrained (hv : s.Has v) (hu : t.isUnconstrained (σ v) = true) :
    s.isUnconstrained v = true :=
  h.records.isUnconstrained ⟨hv, rfl⟩ hu

/-- A live variable that is no alias of a given set has no new aliases. -/
theorem resolve_eq (hv : s.Has v) (hw : s.Has w) (hdv : ¬ dead v) (hdw : ¬ dead w)
    (hn : ¬ t.AliasOf given (σ v)) (he : t.resolve (σ v) = t.resolve (σ w)) :
    s.resolve v = s.resolve w :=
  (h.guessed v w hv hw hdv hdw he).resolve_right hn

/-- Of two live variables that become aliases in one store, one is unconstrained in the other one,
    unless they are aliases there. -/
theorem free (ha : s.Has a) (hb : s.Has b) (hda : ¬ dead a) (hdb : ¬ dead b)
    (hu : t.resolve (σ a) = t.resolve (σ b) ∨ t.isUnconstrained (σ a) = true ∨
      t.isUnconstrained (σ b) = true) :
    s.resolve a = s.resolve b ∨ s.isUnconstrained a = true ∨ s.isUnconstrained b = true := by
  rcases hu with he | hu | hu
  · by_cases hua : s.isUnconstrained a = true
    · exact .inr (.inl hua)
    · by_cases hub : s.isUnconstrained b = true
      · exact .inr (.inr hub)
      · -- Something is recorded about an alias of each.
        rw [isUnconstrained_iff_mentions] at hua hub
        push Not at hua hub
        obtain ⟨c, hc, hca⟩ := hua
        obtain ⟨d, hd, hdb'⟩ := hub
        refine .inl ?_
        rw [← hca, ← hdb']
        refine h.rigid c d hc hd (fun hdead => hda (h.dead_alias c a hca hdead))
          (fun hdead => hdb (h.dead_alias d b hdb' hdead)) ?_
        rw [h.same c a (h.has_mentions hc) ha hca, h.same d b (h.has_mentions hd) hb hdb', he]
  · exact .inr (.inl (h.isUnconstrained ha hu))
  · exact .inr (.inr (h.isUnconstrained hb hu))

end

/-! ### Aliases -/

section

variable (h : Coarsens given root dead σ s t) {a' : SetVar}
include h

/-- Variables become aliases in both stores. New aliases in the second one are aliases of given sets
    there. -/
theorem merge {b' : SetVar} (hs : s.Merges a b s') (ht : t.Merges a' b' t') (ha : s.Has a)
    (hb : s.Has b) (ha' : t.Has a') (hb' : t.Has b')
    (hfree : t.resolve a' = t.resolve b' ∨ t.isUnconstrained a' = true ∨ t.isUnconstrained b' = true)
    (hab : t'.resolve (σ a) = t'.resolve (σ b)) (hdead : dead a ↔ dead b)
    (hnew : ∀ v w, s.Has v → s.Has w → ¬ dead v → ¬ dead w → t.resolve (σ v) = t.resolve a' →
      t.resolve (σ w) = t.resolve b' → s'.resolve v = s'.resolve w ∨ t'.AliasOf given (σ v)) :
    Coarsens given root dead σ s' t' where
  valid := hs.valid
  valid' := ht.valid
  reprs _ hv := hs.has_resolve h.reprs ha hb hv
  reprs' _ hv := ht.has_resolve h.reprs' ha' hb' hv
  has_given g hg := ht.has.2 (h.has_given g hg)
  has v hv := ht.has.2 (h.has v (hs.has.1 hv))
  same v w hv hw he := by
    rw [hs.has] at hv hw
    rcases (hs.same v w).1 he with he | ⟨hva, hwb⟩ | ⟨hvb, hwa⟩
    · exact ht.congr (h.same v w hv hw he)
    · rw [ht.congr (h.same v a hv ha hva), ht.congr (h.same w b hw hb hwb), hab]
    · rw [ht.congr (h.same v b hv hb hvb), ht.congr (h.same w a hw ha hwa), hab]
  copies := h.copies.mono (fun v w hvw => ⟨hs.has.2 hvw.1, ht.congr hvw.2⟩) hs.toSameRecords
    ht.toSameRecords
  dead_has v hd := hs.has.2 (h.dead_has v hd)
  dead_alias v w he hd := by
    rcases (hs.same v w).1 he with he | ⟨hva, hwb⟩ | ⟨hvb, hwa⟩
    · exact h.dead_alias v w he hd
    · exact h.dead_alias b w hwb.symm (hdead.1 (h.dead_alias v a hva hd))
    · exact h.dead_alias a w hwa.symm (hdead.2 (h.dead_alias v b hvb hd))
  buried p hp := h.buried p (hs.splits ▸ hp)
  rigid v w hv hw hdv hdw he := by
    rw [hs.mentions] at hv hw
    -- Where something is recorded about both, neither of the classes that were merged is free.
    have hbound {u : SetVar} (hu : s.Mentions u) {c : SetVar} (hc : t.resolve (σ u) = t.resolve c) :
        t.isUnconstrained c ≠ true := by
      intro hfree
      rw [← isUnconstrained_congr hc] at hfree
      exact isUnconstrained_iff_mentions.1 (h.isUnconstrained (h.has_mentions hu) hfree) u hu rfl
    refine hs.congr (h.rigid v w hv hw hdv hdw ?_)
    rcases (ht.same _ _).1 he with he | ⟨hva, hwb⟩ | ⟨hvb, hwa⟩
    · exact he
    · rw [hva, hwb]
      exact hfree.resolve_right fun hu => hu.elim (hbound hv hva) (hbound hw hwb)
    · rw [hvb, hwa]
      exact (hfree.resolve_right fun hu => hu.elim (hbound hw hwa) (hbound hv hvb)).symm
  guessed v w hv hw hdv hdw he := by
    rw [hs.has] at hv hw
    rcases (ht.same _ _).1 he with he' | ⟨hva, hwb⟩ | ⟨hvb, hwa⟩
    · refine (h.guessed v w hv hw hdv hdw he').imp hs.congr ?_
      rintro ⟨g, hg, heq⟩
      exact ⟨g, hg, ht.congr heq⟩
    · exact hnew v w hv hw hdv hdw hva hwb
    · refine (hnew w v hw hv hdw hdv hwa hvb).imp Eq.symm ?_
      rintro ⟨g, hg, heq⟩
      exact ⟨g, hg, he.trans heq⟩

/-- Live variables become aliases, if what they stand for does. -/
theorem unify {b' : SetVar} (ha : StandsFor σ s t a a') (hb : StandsFor σ s t b b') (hda : ¬ dead a)
    (hdb : ¬ dead b) (hu : t.unify a' b' = .ok (some t')) : ∃ s', s.unify a b = .ok (some s') ∧
      Coarsens given root dead σ s' t' ∧ ∀ v w, StandsFor σ s t v w → StandsFor σ s' t' v w := by
  have hu : t.unify (σ a) (σ b) = .ok (some t') := by
    rw [← hu, SetStore.unify, SetStore.unify, ha.2, hb.2]
  obtain ⟨ht, hfree⟩ := merges_of_unify h.valid' hu
  obtain ⟨s', hs'⟩ := exists_unify h.valid h.reprs ha.1 hb.1 (h.free ha.1 hb.1 hda hdb hfree)
  have hs := (merges_of_unify h.valid hs').1
  refine ⟨s', hs', ?_, fun v w hvw => ⟨hs.has.2 hvw.1, ht.congr hvw.2⟩⟩
  refine h.merge hs ht ha.1 hb.1 (h.has a ha.1) (h.has b hb.1) hfree ht.resolve_eq
    (iff_of_false hda hdb) fun v w hv hw hdv hdw hva hwb => ?_
  -- Both are old aliases of the two, or one of them is an alias of a given set.
  rcases h.guessed v a hv ha.1 hdv hda hva with hva' | ⟨g, hg, he⟩
  · rcases h.guessed w b hw hb.1 hdw hdb hwb with hwb' | ⟨g, hg, he⟩
    · exact .inl ((hs.same v w).2 (.inr (.inl ⟨hva', hwb'⟩)))
    · refine .inr ⟨g, hg, ?_⟩
      rw [(ht.same (σ v) (σ w)).2 (.inr (.inl ⟨hva, hwb⟩)), ht.congr he]
  · exact .inr ⟨g, hg, ht.congr he⟩

/-- What a variable stands for becomes an alias of a given set. -/
theorem unify_given (ha : StandsFor σ s t a a') (hb : b ∈ given) (hu : t.unify a' b = .ok (some t')) :
    Coarsens given root dead σ s t' ∧ ∀ v w, StandsFor σ s t v w → StandsFor σ s t' v w := by
  have hu : t.unify (σ a) b = .ok (some t') := by rw [← hu, SetStore.unify, SetStore.unify, ha.2]
  obtain ⟨ht, hfree⟩ := merges_of_unify h.valid' hu
  refine ⟨?_, fun v w hvw => ⟨hvw.1, ht.congr hvw.2⟩⟩
  refine h.merge (merges_self h.valid (a := a) rfl) ht ha.1 ha.1 (h.has a ha.1) (h.has_given b hb) hfree
    rfl Iff.rfl fun v w hv hw hdv hdw hva hwb => .inr ⟨b, hb, ?_⟩
  rw [ht.congr hva, ht.resolve_eq]

/-! ### New variables -/

theorem fresh_right : Coarsens given root dead σ s t.fresh.2 where
  valid := h.valid
  valid' := Change.valid .fresh h.valid'
  reprs := h.reprs
  reprs' _ hv := has_resolve_fresh h.reprs' hv
  has_given g hg := has_fresh_iff.2 (.inl (h.has_given g hg))
  has v hv := has_fresh_iff.2 (.inl (h.has v hv))
  same := by simpa only [resolve_fresh] using h.same
  copies := h.copies.mono (fun _ _ hv => hv.fresh_right) ⟨rfl, rfl, rfl, rfl⟩ (sameRecords_fresh t)
  dead_has := h.dead_has
  dead_alias := h.dead_alias
  buried := h.buried
  rigid := by simpa only [resolve_fresh] using h.rigid
  guessed := by simpa only [AliasOf, resolve_fresh] using h.guessed

/-- A new variable stands for one that is an alias of a given set, or that nothing else stands for. -/
theorem fresh_left (hw : t.Has w)
    (hnew : ∀ v, s.Has v → t.resolve (σ v) = t.resolve w → t.AliasOf given w) :
    Coarsens given root dead (Function.update σ s.fresh.1 w) s.fresh.2 t := by
  have hold {v : SetVar} (hv : s.Has v) : Function.update σ s.fresh.1 w v = σ v :=
    Function.update_of_ne (by rintro rfl; exact s.not_has_fresh hv) _ _
  have hself : Function.update σ s.fresh.1 w s.fresh.1 = w := Function.update_self _ _ _
  refine ⟨Change.valid .fresh h.valid, h.valid', fun v hv => has_resolve_fresh h.reprs hv, h.reprs',
    h.has_given, fun v hv => ?_, fun v v' hv hv' he => ?_, ?_,
    fun v hd => has_fresh_iff.2 (.inl (h.dead_has v hd)), fun v v' he hd => ?_, h.buried,
    fun v v' hm hm' hd hd' he => ?_, fun v v' hv hv' hd hd' he => ?_⟩
  · rcases has_fresh_iff.1 hv with hv | rfl
    · rw [hold hv]
      exact h.has v hv
    · rwa [hself]
  · rw [resolve_fresh, resolve_fresh] at he
    rcases has_fresh_iff.1 hv with hv | rfl <;> rcases has_fresh_iff.1 hv' with hv' | rfl
    · rw [hold hv, hold hv']
      exact h.same v v' hv hv' he
    · exact absurd he (resolve_ne_fresh h.reprs hv)
    · exact absurd he.symm (resolve_ne_fresh h.reprs hv')
    · rfl
  · exact h.copies.mono (fun _ _ hv => hv.fresh_left) (sameRecords_fresh s) ⟨rfl, rfl, rfl, rfl⟩
  · rw [resolve_fresh, resolve_fresh] at he
    exact h.dead_alias v v' he hd
  · rw [hold (h.has_mentions hm), hold (h.has_mentions hm')] at he
    rw [resolve_fresh, resolve_fresh]
    exact h.rigid v v' hm hm' hd hd' he
  · rw [resolve_fresh, resolve_fresh]
    rcases has_fresh_iff.1 hv with hv | rfl <;> rcases has_fresh_iff.1 hv' with hv' | rfl
    · rw [hold hv] at he ⊢
      rw [hold hv'] at he
      exact h.guessed v v' hv hv' hd hd' he
    · rw [hold hv, hself] at he
      obtain ⟨g, hg, heq⟩ := hnew v hv he
      exact .inr ⟨g, hg, by rw [hold hv, he, heq]⟩
    · rw [hself, hold hv'] at he
      rw [hself]
      exact .inr (hnew v' hv' he.symm)
    · exact .inl rfl

/-- A guess stands for a given set. -/
theorem guess (hg : w ∈ given) : Coarsens given root dead (Function.update σ s.fresh.1 w) s.fresh.2 t :=
  h.fresh_left (h.has_given w hg) fun _ _ _ => ⟨w, hg, rfl⟩

/-- Both stores give out a variable. -/
theorem fresh :
    Coarsens given root dead (Function.update σ s.fresh.1 t.fresh.1) s.fresh.2 t.fresh.2 := by
  refine h.fresh_right.fresh_left (has_fresh_iff.2 (.inr rfl)) fun v hv he => ?_
  rw [resolve_fresh, resolve_fresh] at he
  exact absurd he (resolve_ne_fresh h.reprs' (h.has v hv))

/-- A variable that nothing is recorded about dies. -/
theorem bury (hv : s.Has v) (hu : s.isUnconstrained v = true) :
    Coarsens given root (fun u => dead u ∨ s.resolve u = s.resolve v) σ s t where
  valid := h.valid
  valid' := h.valid'
  reprs := h.reprs
  reprs' := h.reprs'
  has_given := h.has_given
  has := h.has
  same := h.same
  copies := h.copies
  dead_has u hd := hd.elim (h.dead_has u) (has_of_resolve_eq h.reprs hv)
  dead_alias u w he hd := hd.imp (h.dead_alias u w he) he.symm.trans
  buried p hp := by
    have hm := isUnconstrained_iff_mentions.1 hu
    have hwhole := hm _ (.inr (.inr (.inl ⟨p, hp, .inl rfl⟩)))
    have hrest := hm _ (.inr (.inr (.inl ⟨p, hp, .inr rfl⟩)))
    exact ⟨fun hne hd => hd.elim ((h.buried p hp).1 hne) hwhole,
      fun hd => hd.elim (h.buried p hp).2 hrest⟩
  rigid u w hu hw hdu hdw := h.rigid u w hu hw (fun hd => hdu (.inl hd)) fun hd => hdw (.inl hd)
  guessed u w hu hw hdu hdw := h.guessed u w hu hw (fun hd => hdu (.inl hd)) fun hd => hdw (.inl hd)

end

/-! ### New records -/

/-- A live variable with no new aliases. -/
def Pinned (given : List SetVar) (dead : SetVar → Prop) (σ : SetVar → SetVar) (s t : SetStore)
    (v : SetVar) : Prop :=
  s.Has v ∧ ¬ dead v ∧ ¬ t.AliasOf given (σ v)

theorem pinned (hv : StandsFor σ s t v w) (hd : ¬ dead v) (hw : ¬ t.AliasOf given w) :
    Pinned given dead σ s t v := by
  refine ⟨hv.1, hd, ?_⟩
  rintro ⟨g, hg, he⟩
  exact hw ⟨g, hg, hv.2 ▸ he⟩

section

variable (h : Coarsens given root dead σ s t)
include h

theorem pinned_resolve (hv : Pinned given dead σ s t v) : Pinned given dead σ s t (s.resolve v) := by
  have hres := h.reprs v hv.1
  refine ⟨hres, fun hd => hv.2.1 (h.dead_alias _ v (h.valid.reprs v) hd), ?_⟩
  rintro ⟨g, hg, he⟩
  exact hv.2.2 ⟨g, hg, (h.same v _ hv.1 hres (h.valid.reprs v).symm).trans he⟩

/-- More is recorded, about what is dead or has no new aliases. -/
theorem rigid_of_pinned (hm : ∀ v, s'.Mentions v → s.Mentions v ∨ dead v ∨ Pinned given dead σ s t v) :
    ∀ v w, s'.Mentions v → s'.Mentions w → ¬ dead v → ¬ dead w → t.resolve (σ v) = t.resolve (σ w) →
      s.resolve v = s.resolve w := by
  intro v w hv hw hdv hdw he
  have hhas {u : SetVar} (hu : s.Mentions u ∨ dead u ∨ Pinned given dead σ s t u) : s.Has u :=
    hu.elim h.has_mentions fun hu => hu.elim (h.dead_has u) And.left
  rcases hm v hv with hv' | hd | hp
  · rcases hm w hw with hw' | hd | hp
    · exact h.rigid v w hv' hw' hdv hdw he
    · exact absurd hd hdw
    · exact (h.resolve_eq hp.1 (hhas (.inl hv')) hdw hdv hp.2.2 he.symm).symm
  · exact absurd hd hdv
  · exact h.resolve_eq hp.1 (hhas (hm w hw)) hdv hdw hp.2.2 he

variable (hv : StandsFor σ s t v w) {r' : SetVar}
include hv

/-- Both stores record a split of a set with no new aliases, or of a dead one by the root. -/
theorem split {r : SetVar} (hr : StandsFor σ s t r r')
    (hpin : dead v ∧ l = root ∨ Pinned given dead σ s t v) (hpin' : Pinned given dead σ s t r) :
    Coarsens given root dead σ { s with splits := s.splits ++ [⟨s.resolve v, l, s.resolve r⟩] }
      { t with splits := t.splits ++ [⟨t.resolve w, l, t.resolve r'⟩] } where
  valid := ⟨h.valid.names, h.valid.reprs⟩
  valid' := ⟨h.valid'.names, h.valid'.reprs⟩
  reprs := h.reprs
  reprs' := h.reprs'
  has_given := h.has_given
  has := h.has
  same := h.same
  copies := ⟨h.copies.names, h.copies.subsets, rel_append h.copies.splits
    (.cons ⟨h.records.reps hv, rfl, h.records.reps hr⟩ .nil), h.copies.empties⟩
  dead_has := h.dead_has
  dead_alias := h.dead_alias
  buried p hp := by
    rcases mem_append.1 hp with hp | hp
    · exact h.buried p hp
    · rw [mem_singleton.1 hp]
      refine ⟨fun hne => ?_, (h.pinned_resolve hpin').2.1⟩
      rcases hpin with ⟨-, he⟩ | hpin
      · exact absurd he hne
      · exact (h.pinned_resolve hpin).2.1
  rigid := h.rigid_of_pinned fun u hu => by
    rcases hu with hu | hu | ⟨p, hp, hu⟩ | hu
    · exact .inl (.inl hu)
    · exact .inl (.inr (.inl hu))
    · rcases mem_append.1 hp with hp | hp
      · exact .inl (.inr (.inr (.inl ⟨p, hp, hu⟩)))
      · rw [mem_singleton.1 hp] at hu
        rcases hu with rfl | rfl
        · rcases hpin with ⟨hd, -⟩ | hpin
          · exact .inr (.inl (h.dead_alias v _ (h.valid.reprs v).symm hd))
          · exact .inr (.inr (h.pinned_resolve hpin))
        · exact .inr (.inr (h.pinned_resolve hpin'))
    · exact .inl (.inr (.inr (.inr hu)))
  guessed := h.guessed

/-- A set with no new aliases is empty, if what it stands for is. -/
theorem setEmpty? (hpin : Pinned given dead σ s t v) (ht : t.setEmpty? w = some t') :
    ∃ s', s.setEmpty? v = some s' ∧
      Coarsens given root dead σ s' t' ∧ ∀ v w, StandsFor σ s t v w → StandsFor σ s' t' v w := by
  rcases hs : s.setEmpty? v with _ | s'
  · rw [h.records.isNone_setEmpty? hv hs] at ht
    cases ht
  · obtain ⟨-, rfl⟩ := setEmpty?_eq_some hs
    obtain ⟨-, rfl⟩ := setEmpty?_eq_some ht
    refine ⟨_, rfl, ?_, fun _ _ hvw => hvw⟩
    refine ⟨⟨h.valid.names, h.valid.reprs⟩, ⟨h.valid'.names, h.valid'.reprs⟩, h.reprs, h.reprs',
      h.has_given, h.has, h.same, ⟨h.copies.names, h.copies.subsets, h.copies.splits, fun e he => ?_⟩,
      h.dead_has, h.dead_alias, h.buried, ?_, h.guessed⟩
    · rcases mem_insert_iff.1 he with rfl | he
      · exact ⟨_, mem_insert_self, h.records.reps hv⟩
      · obtain ⟨f, hf, hef⟩ := h.copies.empties e he
        exact ⟨f, mem_insert_of_mem hf, hef⟩
    · refine h.rigid_of_pinned fun u hu => ?_
      rcases hu with hu | hu | hu | hu
      · exact .inl (.inl hu)
      · exact .inl (.inr (.inl hu))
      · exact .inl (.inr (.inr (.inl hu)))
      · rcases mem_insert_iff.1 hu with rfl | hu
        · exact .inr (.inr (h.pinned_resolve hpin))
        · exact .inl (.inr (.inr (.inr hu)))

/-- An element is taken out of a set for the first time, if it is out of what the set stands for. -/
theorem takeOut_new (hpin : dead v ∧ l = root ∨ Pinned given dead σ s t v) (hs : s.splitOf? v l = none)
    (ht : t.splitOf? w l = none) (hr : t.takeOut w l = (t', some r')) :
    ∃ s' r σ', s.takeOut v l = (s', some r) ∧ Coarsens given root dead σ' s' t' ∧
      (∀ a b, StandsFor σ s t a b → StandsFor σ' s' t' a b) ∧ ¬ dead r ∧ StandsFor σ' s' t' r r' := by
  rw [takeOut_of_none h.valid' ht] at hr
  rw [takeOut_of_none h.valid hs]
  split at hr
  · cases hr
  · rename_i hempty
    cases hr
    have hempty' : s.isKnownEmpty v ≠ true := fun he => hempty (h.records.isKnownEmpty hv he)
    rw [if_neg hempty']
    have hmono (a b : SetVar) (hab : StandsFor σ s t a b) :
        StandsFor (Function.update σ s.fresh.1 t.fresh.1) s.fresh.2 t.fresh.2 a b :=
      hab.fresh_right.fresh_left
    have hnew : StandsFor (Function.update σ s.fresh.1 t.fresh.1) s.fresh.2 t.fresh.2 s.fresh.1
        t.fresh.1 := standsFor_fresh
    have hlive : ¬ dead s.fresh.1 := fun hd => s.not_has_fresh (h.dead_has _ hd)
    refine ⟨_, _, _, rfl, h.fresh.split (hmono v w hv) hnew (hpin.imp_right fun hp => ?_) ?_, hmono,
      hlive, hnew⟩
    · refine ⟨has_fresh_iff.2 (.inl hp.1), hp.2.1, ?_⟩
      rintro ⟨g, hg, he⟩
      rw [Function.update_of_ne (by rintro rfl; exact s.not_has_fresh hp.1), resolve_fresh,
        resolve_fresh] at he
      exact hp.2.2 ⟨g, hg, he⟩
    · refine ⟨hnew.1, hlive, ?_⟩
      rintro ⟨g, hg, he⟩
      rw [Function.update_self, resolve_fresh, resolve_fresh] at he
      exact resolve_ne_fresh h.reprs' (h.has_given g hg) he.symm

/-- Splits of a set with no new aliases are found where those of what it stands for are. -/
theorem splitOf? (hpin : Pinned given dead σ s t v) (hl : l ≠ root) :
    Option.Rel (fun r r' => ¬ dead r ∧ StandsFor σ s t r r') (s.splitOf? v l) (t.splitOf? w l) := by
  have hfind := rel_find? (f := fun p => p.elem = l && s.resolve p.whole = s.resolve v)
    (g := fun q => q.elem = l && t.resolve q.whole = t.resolve w) h.copies.splits fun p hp q hpq => by
      obtain ⟨hwhole, hel, -⟩ := hpq
      rw [hel]
      by_cases he : q.elem = l
      · have hlive := (h.buried p hp).1 (hel.trans he ▸ hl)
        have hiff : s.resolve p.whole = s.resolve v ↔ t.resolve q.whole = t.resolve w := by
          rw [← hwhole.2, ← hv.2]
          refine ⟨h.same _ _ hwhole.1 hv.1, fun heq => ?_⟩
          exact (h.resolve_eq hv.1 hwhole.1 hpin.2.1 hlive hpin.2.2 heq.symm).symm
        simp only [hiff]
      · simp only [he, decide_false, Bool.false_and]
  rw [SetStore.splitOf?, SetStore.splitOf?]
  generalize s.splits.find? _ = o at hfind ⊢
  generalize t.splits.find? _ = o' at hfind ⊢
  rcases hfind with ⟨hmem, -, -, hrest⟩ | _
  · refine .some ⟨fun hd => ?_, h.records.reps hrest⟩
    exact (h.buried _ hmem).2 (h.dead_alias _ _ (h.valid.reprs _) hd)
  · exact .none

/-- An element other than the root is taken out of a set with no new aliases, if it is out of what the
    set stands for. -/
theorem takeOut (hpin : Pinned given dead σ s t v) (hl : l ≠ root) (hr : t.takeOut w l = (t', some r')) :
    ∃ s' r σ', s.takeOut v l = (s', some r) ∧ Coarsens given root dead σ' s' t' ∧
      (∀ a b, StandsFor σ s t a b → StandsFor σ' s' t' a b) ∧ ¬ dead r ∧ StandsFor σ' s' t' r r' := by
  have hsplit := h.splitOf? hv hpin hl
  rcases hs : s.splitOf? v l with _ | r <;> rcases ht : t.splitOf? w l with _ | q <;>
    rw [hs, ht] at hsplit
  · exact h.takeOut_new hv (.inr hpin) hs ht hr
  · cases hsplit
  · cases hsplit
  · obtain ⟨hlive, hrest⟩ | _ := hsplit
    rw [SetStore.takeOut, ht] at hr
    cases hr
    exact ⟨s, r, σ, by rw [SetStore.takeOut, hs], h, fun _ _ hab => hab, hlive, hrest⟩

end

end Coarsens

end SetStore

end HeapShape
