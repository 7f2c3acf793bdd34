import HeapShape.Proofs.Constraints
import HeapShape.Proofs.Outcomes
import Mathlib.Data.Set.Insert

/-!
# What the constraints between sets mean

A *model* says which element a location stands for and which set a variable stands for. In the
plainest models the elements are the locations themselves; in others two locations may turn out to
be the same. A model satisfies a store if all that the store records is true in it.

A store is *told* facts about sets, and it grows and forgets in between. What is recorded is
written with the representatives that variables have at that moment, and these change as
variables become aliases. Nevertheless a store never records more than it was told.

* `SetModel.Satisfies`: what a store records is true in a model;
* `SetModel.Confirms`: what a store answers is true in a model;
* `SetModel.Satisfies.confirms`: the answers of a store follow from what it records;
* `SetStore.Reached`: a store that operations lead to from the empty one, and what it was told;
* `SetModel.Satisfies.assumeSubset`, `.addSplit?`, `.setEmpty?`, `.unify`, `.substLoc`, `.retain`: the
  steps that keep a store satisfied, and `SetStore.Reached.satisfies`: the run.
-/

namespace HeapShape

open List

/-! ### Operations on a store -/

theorem NameMap.nodup_insert {α : Type} {m : NameMap α} {name : String} (a : α)
    (h : (m.entries.map Prod.fst).Nodup) (hn : m.get? name = none) :
    ((m.insert name a).entries.map Prod.fst).Nodup := by
  -- Up to their order, the names are the ones before and the new one.
  have hperm : ((m.insert name a).entries.map Prod.fst).Perm (name :: m.entries.map Prod.fst) := by
    clear h
    obtain ⟨l⟩ := m
    simp only [get?, insert] at hn ⊢
    induction l with
    | nil => exact .refl _
    | cons e l ih => grind [insertEntry, find]
  refine hperm.nodup_iff.2 (nodup_cons.2 ⟨fun hmem => ?_, h⟩)
  obtain ⟨e, he, hname⟩ := mem_map.1 hmem
  have hsome := isSome_get?.2 ⟨e, he, hname⟩
  rw [hn] at hsome
  cases hsome

namespace SetStore

variable {s s' : SetStore} {a b v : SetVar} {loc : Loc}

theorem valid_empty : empty.Valid := ⟨.nil, fun _ => rfl⟩

theorem Valid.assumeSubset (hs : s.Valid) (a b : SetVar) : (s.assumeSubset a b).Valid := by
  rw [SetStore.assumeSubset]
  split
  · exact hs
  · exact ⟨hs.names, hs.reprs⟩

theorem Valid.declare? (hs : s.Valid) {name : String} (hd : s.declare? name = some (v, s')) :
    s'.Valid := by
  rw [SetStore.declare?] at hd
  split at hd
  · cases hd
  · rename_i hn
    cases hd
    exact ⟨NameMap.nodup_insert _ hs.names hn, (Change.valid .fresh hs).reprs⟩

/-- Two sets are equated as aliases, or else by inclusion both ways. -/
theorem equate_cases (h : s.equate a b = .ok s') :
    s.unify a b = .ok (some s') ∨ s' = (s.assumeSubset a b).assumeSubset b a := by
  obtain ⟨r, hr, h⟩ := ok_of_bind h
  cases r with
  | some t =>
    cases h
    exact .inl hr
  | none =>
    cases h
    exact .inr rfl

theorem Valid.equate (hs : s.Valid) (h : s.equate a b = .ok s') : s'.Valid := by
  rcases equate_cases h with hu | rfl
  · exact Change.valid (.unify hu) hs
  · exact (hs.assumeSubset a b).assumeSubset b a

/-- The splits after a value took the place of a location are those before, or come from one by
    this location. -/
theorem mem_substLoc {w : Value} {p : Split} (hp : p ∈ (s.substLoc loc w).splits) :
    ∃ q ∈ s.splits, p = q ∨ q.elem = loc ∧ ∃ loc', w = .ptr loc' ∧ p = { q with elem := loc' } := by
  obtain ⟨q, hq, hqp⟩ := mem_filterMap.1 hp
  refine ⟨q, hq, ?_⟩
  split at hqp
  · rename_i hloc
    obtain ⟨loc', hw, rfl⟩ := Option.map_eq_some_iff.1 hqp
    cases w with
    | ptr _ =>
      cases hw
      exact .inr ⟨hloc, loc', rfl, rfl⟩
    | null => cases hw
    | int => cases hw
  · exact .inl (Option.some.inj hqp).symm

theorem isSubset_of_mem_inclusions {vars : List SetVar} {p : SetVar × SetVar}
    (hp : p ∈ s.inclusions vars) : s.isSubset p.1 p.2 = true := by
  obtain ⟨a, -, hp⟩ := mem_flatMap.1 hp
  obtain ⟨b, hb, rfl⟩ := mem_map.1 hp
  exact (Bool.and_eq_true_iff.1 (mem_filter.1 hb).2).2

end SetStore

/-! ### Models -/

/-- What locations and set variables stand for. -/
structure SetModel (α : Type) where
  /-- The element that a location stands for. -/
  elem : Loc → α
  /-- The set that a variable stands for. -/
  set : SetVar → Set α

namespace SetModel

section

variable {α : Type} (M : SetModel α)

/-- A set is the disjoint union of an element and a rest. -/
def Splits (whole : SetVar) (loc : Loc) (rest : SetVar) : Prop :=
  M.set whole = insert (M.elem loc) (M.set rest) ∧ M.elem loc ∉ M.set rest

/-- What a store records is true: aliases are the same set, and all constraints hold. -/
structure Satisfies (s : SetStore) : Prop where
  aliases : ∀ v w, s.resolve v = s.resolve w → M.set v = M.set w
  subsets : ∀ p ∈ s.subsets, M.set p.1 ⊆ M.set p.2
  splits : ∀ p ∈ s.splits, M.Splits p.whole p.elem p.rest
  empties : ∀ v ∈ s.empties, M.set v = ∅

/-- What a store answers is true, and what it refuses to record is not. -/
structure Confirms (s : SetStore) : Prop where
  isSubset : ∀ a b, s.isSubset a b = true → M.set a ⊆ M.set b
  contains : ∀ v loc, s.contains v loc = true → M.elem loc ∈ M.set v
  isKnownEmpty : ∀ v, s.isKnownEmpty v = true → M.set v = ∅
  setEmpty? : ∀ v, s.setEmpty? v = none → (M.set v).Nonempty
  addSplit? : ∀ whole loc rest, s.addSplit? whole loc rest = none → ¬ M.Splits whole loc rest

end

variable {α : Type} {M : SetModel α} {s s' : SetStore} {a b v w whole rest : SetVar} {loc : Loc}

theorem Splits.mem (h : M.Splits whole loc rest) : M.elem loc ∈ M.set whole :=
  h.1 ▸ Set.mem_insert _ _

theorem Splits.rest_subset (h : M.Splits whole loc rest) : M.set rest ⊆ M.set whole :=
  h.1 ▸ Set.subset_insert _ _

theorem Splits.congr {whole' rest' : SetVar} {loc' : Loc} (h : M.Splits whole loc rest)
    (hwhole : M.set whole' = M.set whole) (hloc : M.elem loc' = M.elem loc)
    (hrest : M.set rest' = M.set rest) : M.Splits whole' loc' rest' := by
  rwa [Splits, hwhole, hloc, hrest]

/-! ### Answers -/

namespace Satisfies

section

variable (h : M.Satisfies s)

include h

/-- A way along recorded inclusions leads to larger sets. -/
theorem leads (hl : Reach.Leads s.edges (s.resolve v) (s.resolve w)) : M.set v ⊆ M.set w := by
  generalize hv : s.resolve v = x at hl
  generalize hw : s.resolve w = y at hl
  -- The points of the way are representatives, each of some variable that is mentioned.
  induction hl generalizing w with
  | refl => exact (h.aliases v w (hv.trans hw.symm)).subset
  | step _ he ih =>
    rcases SetStore.mem_edges.1 he with ⟨p, hp, heq⟩ | ⟨p, hp, heq⟩
    · obtain ⟨h₁, h₂⟩ := Prod.mk.inj heq
      exact (ih h₁).trans ((h.subsets p hp).trans (h.aliases p.2 w (h₂.trans hw.symm)).subset)
    · obtain ⟨h₁, h₂⟩ := Prod.mk.inj heq
      exact (ih h₁).trans
        ((h.splits p hp).rest_subset.trans (h.aliases p.whole w (h₂.trans hw.symm)).subset)

theorem set_eq_empty (he : s.isKnownEmpty v = true) : M.set v = ∅ := by
  obtain ⟨e, hmem, heq | ⟨p, hp, h₁, h₂⟩⟩ := SetStore.isKnownEmpty_iff.1 he
  · rw [← h.aliases e v heq, h.empties e hmem]
  · have hsub := h.subsets p hp
    rw [h.aliases p.1 v h₁, h.aliases p.2 e h₂, h.empties e hmem] at hsub
    exact Set.subset_empty_iff.1 hsub

theorem set_subset (hs : s.isSubset v w = true) : M.set v ⊆ M.set w := by
  rcases SetStore.isSubset_iff.1 hs with he | hl
  · rw [h.set_eq_empty he]
    exact Set.empty_subset _
  · exact h.leads hl

/-- The element of a split is in every set that the split one is included in. -/
theorem elem_mem {p : Split} (hp : p ∈ s.splits) (hs : s.isSubset p.whole v = true) :
    M.elem p.elem ∈ M.set v := h.set_subset hs (h.splits p hp).mem

/-- The answers of a store follow from what it records. -/
theorem confirms : M.Confirms s where
  isSubset _ _ := h.set_subset
  contains v loc hc := by
    obtain ⟨p, hp, hps⟩ := any_eq_true.1 hc
    rw [Bool.and_eq_true, decide_eq_true_eq] at hps
    exact hps.1 ▸ h.elem_mem hp hps.2
  isKnownEmpty _ := h.set_eq_empty
  setEmpty? v hn := by
    rw [SetStore.setEmpty?] at hn
    split at hn
    · rename_i hany
      obtain ⟨p, hp, hs⟩ := any_eq_true.1 hany
      exact ⟨_, h.elem_mem hp hs⟩
    · cases hn
  addSplit? whole loc rest hn hsplit := by
    rw [SetStore.addSplit?] at hn
    split at hn
    · rename_i he
      have hmem := hsplit.mem
      rw [h.set_eq_empty he] at hmem
      exact hmem
    · cases hn

end

/-! ### Steps -/

variable (h : M.Satisfies s)

include h

theorem fresh : M.Satisfies s.fresh.2 where
  aliases v w hvw := h.aliases v w (by rwa [SetStore.resolve_fresh, SetStore.resolve_fresh] at hvw)
  subsets := h.subsets
  splits := h.splits
  empties := h.empties

variable (hs : s.Valid)
include hs

/-- A representative is the same set as what it represents. -/
theorem set_resolve (v : SetVar) : M.set (s.resolve v) = M.set v :=
  h.aliases _ _ (hs.reprs v)

omit hs in
theorem declare? {name : String} (hd : s.declare? name = some (v, s')) : M.Satisfies s' := by
  rw [SetStore.declare?] at hd
  split at hd
  · cases hd
  · cases hd
    exact ⟨h.fresh.aliases, h.subsets, h.splits, h.empties⟩

theorem assumeSubset (hab : M.set a ⊆ M.set b) : M.Satisfies (s.assumeSubset a b) := by
  rw [SetStore.assumeSubset]
  split
  · exact h
  · refine ⟨h.aliases, fun p hp => ?_, h.splits, h.empties⟩
    rcases mem_insert_iff.1 hp with rfl | hp
    · rwa [h.set_resolve hs, h.set_resolve hs]
    · exact h.subsets p hp

theorem addSplit? (hsplit : M.Splits whole loc rest) (ha : s.addSplit? whole loc rest = some s') :
    M.Satisfies s' := by
  obtain ⟨-, rfl | rfl⟩ := SetStore.addSplit?_eq_some ha
  · exact h
  · refine ⟨h.aliases, h.subsets, fun p hp => ?_, h.empties⟩
    rcases mem_append.1 hp with hp | hp
    · exact h.splits p hp
    · rw [mem_singleton.1 hp]
      exact hsplit.congr (h.set_resolve hs _) rfl (h.set_resolve hs _)

theorem setEmpty? (hv : M.set v = ∅) (he : s.setEmpty? v = some s') : M.Satisfies s' := by
  obtain ⟨-, rfl⟩ := SetStore.setEmpty?_eq_some he
  refine ⟨h.aliases, h.subsets, h.splits, fun w hw => ?_⟩
  rcases mem_insert_iff.1 hw with rfl | hw
  · rw [h.set_resolve hs, hv]
  · exact h.empties w hw

/-- Two variables that are the same set may become aliases. -/
theorem redirect {c d : SetVar} (hcd : M.set c = M.set d) (hr : s.Redirects c d s') :
    M.Satisfies s' := by
  have hset (v : SetVar) : M.set (s'.resolve v) = M.set v := by
    rw [hr.resolve]
    split
    · rename_i hv
      rw [← hcd, ← hv, h.set_resolve hs]
    · exact h.set_resolve hs v
  refine ⟨fun v w hvw => ?_, hr.subsets ▸ h.subsets, hr.splits ▸ h.splits, hr.empties ▸ h.empties⟩
  rw [← hset v, hvw, hset w]

theorem unify (hab : M.set a = M.set b) (hu : s.unify a b = .ok (some s')) : M.Satisfies s' := by
  obtain ⟨-, rfl⟩ | ⟨c, d, hcd, -, -, hr⟩ := SetStore.unify_cases hu
  · exact h
  · refine h.redirect hs ?_ hr
    rcases hcd with ⟨rfl, rfl⟩ | ⟨rfl, rfl⟩
    · rw [h.set_resolve hs, h.set_resolve hs, hab]
    · rw [h.set_resolve hs, h.set_resolve hs, hab]

theorem equate (hab : M.set a = M.set b) (he : s.equate a b = .ok s') : M.Satisfies s' := by
  rcases SetStore.equate_cases he with hu | rfl
  · exact h.unify hs hab hu
  · exact (h.assumeSubset hs hab.subset).assumeSubset (hs.assumeSubset a b) hab.superset

omit hs in
/-- A value may take the place of a location that is the same element. -/
theorem substLoc {w : Value} (hw : ∀ loc', w = .ptr loc' → M.elem loc' = M.elem loc) :
    M.Satisfies (s.substLoc loc w) where
  aliases := h.aliases
  subsets := h.subsets
  splits p hp := by
    obtain ⟨q, hq, rfl | ⟨hloc, loc', rfl, rfl⟩⟩ := SetStore.mem_substLoc hp
    · exact h.splits _ hq
    · exact (h.splits q hq).congr rfl ((hw loc' rfl).trans (congrArg M.elem hloc.symm)) rfl
  empties := h.empties

/-- What is forgotten is not missed, and what is recorded in its place followed from it. -/
theorem retain (vars : List SetVar) (locs : List Loc) : M.Satisfies (s.retain vars locs) where
  aliases := h.aliases
  subsets p hp := h.set_subset (SetStore.isSubset_of_mem_inclusions hp)
  splits p hp := by
    obtain ⟨q, hq, rfl⟩ := mem_map.1 (mem_filter.1 hp).1
    exact (h.splits q hq).congr (h.set_resolve hs _) rfl (h.set_resolve hs _)
  empties v hv := by
    obtain ⟨e, he, rfl⟩ := mem_map.1 (mem_filter.1 (Sorted.mem_ofList.1 hv)).1
    rw [h.set_resolve hs, h.empties e he]

end Satisfies

theorem satisfies_empty (M : SetModel α) : M.Satisfies .empty where
  aliases _ _ hvw := congrArg M.set hvw
  subsets := forall_mem_nil _
  splits := forall_mem_nil _
  empties := forall_mem_nil _

end SetModel

/-! ### Runs -/

/-- Something that a store is told. -/
inductive SetFact where
  /-- A set is included in another. -/
  | subset (sub sup : SetVar)
  /-- A set is the disjoint union of an element and a rest. -/
  | split (whole : SetVar) (loc : Loc) (rest : SetVar)
  /-- A set is empty. -/
  | empty (v : SetVar)
  /-- Two sets are equal. -/
  | equal (a b : SetVar)
  /-- A value takes the place of a location. -/
  | place (loc : Loc) (w : Value)

/-- A fact is true in a model. -/
def SetModel.Meets {α : Type} (M : SetModel α) : SetFact → Prop
  | .subset sub sup => M.set sub ⊆ M.set sup
  | .split whole loc rest => M.Splits whole loc rest
  | .empty v => M.set v = ∅
  | .equal a b => M.set a = M.set b
  | .place loc w => ∀ loc', w = .ptr loc' → M.elem loc' = M.elem loc

namespace SetStore

/-- A store that operations lead to from the empty one, and the facts that it was told on the way.
    An operation that fails changes nothing. -/
inductive Reached : List SetFact → SetStore → Prop where
  | empty : Reached [] empty
  | fresh {told : List SetFact} {s : SetStore} (h : Reached told s) : Reached told s.fresh.2
  | declare {told : List SetFact} {s s' : SetStore} {name : String} {v : SetVar} (h : Reached told s)
      (hd : s.declare? name = some (v, s')) : Reached told s'
  | assumeSubset {told : List SetFact} {s : SetStore} (h : Reached told s) (sub sup : SetVar) :
      Reached (.subset sub sup :: told) (s.assumeSubset sub sup)
  | addSplit {told : List SetFact} {s s' : SetStore} {whole rest : SetVar} {loc : Loc}
      (h : Reached told s) (ha : s.addSplit? whole loc rest = some s') :
      Reached (.split whole loc rest :: told) s'
  | setEmpty {told : List SetFact} {s s' : SetStore} {v : SetVar} (h : Reached told s)
      (he : s.setEmpty? v = some s') : Reached (.empty v :: told) s'
  | unify {told : List SetFact} {s s' : SetStore} {a b : SetVar} (h : Reached told s)
      (hu : s.unify a b = .ok (some s')) : Reached (.equal a b :: told) s'
  | equate {told : List SetFact} {s s' : SetStore} {a b : SetVar} (h : Reached told s)
      (he : s.equate a b = .ok s') : Reached (.equal a b :: told) s'
  | substLoc {told : List SetFact} {s : SetStore} (h : Reached told s) (loc : Loc) (w : Value) :
      Reached (.place loc w :: told) (s.substLoc loc w)
  | retain {told : List SetFact} {s : SetStore} (h : Reached told s) (vars : List SetVar)
      (locs : List Loc) : Reached told (s.retain vars locs)

namespace Reached

variable {told : List SetFact} {s : SetStore}

theorem valid (h : Reached told s) : s.Valid := by
  induction h with
  | empty => exact valid_empty
  | fresh _ ih => exact Change.valid .fresh ih
  | declare _ hd ih => exact ih.declare? hd
  | assumeSubset _ sub sup ih => exact ih.assumeSubset sub sup
  | addSplit _ ha ih => exact Change.valid (.split ha) ih
  | setEmpty _ he ih => exact Change.valid (.empty he) ih
  | unify _ hu ih => exact Change.valid (.unify hu) ih
  | equate _ he ih => exact ih.equate he
  | substLoc _ loc w ih => exact ⟨ih.names, ih.reprs⟩
  | retain _ vars locs ih => exact ⟨ih.names, ih.reprs⟩

/-- A store records no more than what it was told. -/
theorem satisfies {α : Type} {M : SetModel α} (h : Reached told s) (hM : ∀ f ∈ told, M.Meets f) :
    M.Satisfies s := by
  induction h with
  | empty => exact M.satisfies_empty
  | fresh _ ih => exact (ih hM).fresh
  | declare _ hd ih => exact (ih hM).declare? hd
  | assumeSubset h sub sup ih =>
    obtain ⟨hf, hM⟩ := forall_mem_cons.1 hM
    exact (ih hM).assumeSubset h.valid hf
  | addSplit h ha ih =>
    obtain ⟨hf, hM⟩ := forall_mem_cons.1 hM
    exact (ih hM).addSplit? h.valid hf ha
  | setEmpty h he ih =>
    obtain ⟨hf, hM⟩ := forall_mem_cons.1 hM
    exact (ih hM).setEmpty? h.valid hf he
  | unify h hu ih =>
    obtain ⟨hf, hM⟩ := forall_mem_cons.1 hM
    exact (ih hM).unify h.valid hf hu
  | equate h he ih =>
    obtain ⟨hf, hM⟩ := forall_mem_cons.1 hM
    exact (ih hM).equate h.valid hf he
  | substLoc _ loc w ih =>
    obtain ⟨hf, hM⟩ := forall_mem_cons.1 hM
    exact (ih hM).substLoc hf
  | retain h vars locs ih => exact (ih hM).retain h.valid vars locs

/-- The answers of a store are true in every model of what it records. What it records, however
    representatives changed in between, is true in every model of what it was told. -/
theorem answers_sound {α : Type} (h : Reached told s) (M : SetModel α) :
    (M.Satisfies s → M.Confirms s) ∧ ((∀ f ∈ told, M.Meets f) → M.Satisfies s) :=
  ⟨fun hs => hs.confirms, h.satisfies⟩

end Reached

end SetStore

/-! ### A set that is split through an alias -/

namespace Sample

/-- What is told about a set, an alias of it that is split, and a set that includes it. -/
def aliasing : List SetFact := [.split ⟨2⟩ ⟨5⟩ ⟨3⟩, .equal ⟨2⟩ ⟨0⟩, .subset ⟨0⟩ ⟨1⟩]

/-- The store that was told so. -/
def aliased : SetStore := ⟨.empty, [⟨0⟩, ⟨1⟩, ⟨0⟩, ⟨3⟩], [(⟨0⟩, ⟨1⟩)], [⟨⟨0⟩, ⟨5⟩, ⟨3⟩⟩], []⟩

/-- Sets of locations for which it is true. -/
def aliasModel : SetModel Loc where
  elem := id
  set v := if v = ⟨1⟩ then {⟨5⟩, ⟨6⟩} else if v = ⟨3⟩ then ∅ else {⟨5⟩}

theorem reached_aliased : SetStore.Reached aliasing aliased :=
  .addSplit (.unify (.assumeSubset (.fresh (.fresh (.fresh (.fresh .empty)))) ⟨0⟩ ⟨1⟩) rfl) rfl

theorem meets_aliasing : ∀ f ∈ aliasing, aliasModel.Meets f := by
  simp [aliasing, SetModel.Meets, SetModel.Splits, aliasModel]

end Sample

/-- The larger set has the element, and cannot be empty. -/
theorem SetStore.Reached.answers_sound_aliased :
    Reached Sample.aliasing Sample.aliased ∧ (∀ f ∈ Sample.aliasing, Sample.aliasModel.Meets f) ∧
      Sample.aliasModel.Satisfies Sample.aliased ∧
      Sample.aliased.contains ⟨1⟩ ⟨5⟩ = true ∧ ⟨5⟩ ∈ Sample.aliasModel.set ⟨1⟩ ∧
      Sample.aliased.setEmpty? ⟨1⟩ = none ∧ (Sample.aliasModel.set ⟨1⟩).Nonempty := by
  obtain ⟨hconfirms, hsatisfies⟩ := answers_sound Sample.reached_aliased Sample.aliasModel
  have hs := hsatisfies Sample.meets_aliasing
  have hmem : Sample.aliased.contains ⟨1⟩ ⟨5⟩ = true := by decide +kernel
  have hfull : Sample.aliased.setEmpty? ⟨1⟩ = none := by decide +kernel
  exact ⟨Sample.reached_aliased, Sample.meets_aliasing, hs, hmem, (hconfirms hs).contains _ _ hmem, hfull,
    (hconfirms hs).setEmpty? _ hfull⟩

end HeapShape
