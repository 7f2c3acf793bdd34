import HeapShape.Proofs.Correspondence
import HeapShape.Proofs.Folding
import HeapShape.Proofs.Survival
import HeapShape.Proofs.Unfolding

/-!
# What was given out

A heap gives out locations and set variables by number. All that it mentions should have been
given out before, and each cell should have the fields of its structure. Then no request to one
of its tables is out of bounds.

Some locations may be *lost*: they were given out, nothing is known of them, and nothing mentions
them any more. A lost location never comes back, since all that is written to a heap is made of
values that are mentioned, and of new locations.

* `SetStore.Issued`: the variables that a store needs were given out;
* `Heap.Usable`: a value that is null, a scalar, or a location that was given out and not lost;
* `Heap.Sound`: every fact of a heap is made of such values and variables;
* `Heap.Sound.subst`, `.vacate`, `.release`, `.write`, `.grow`, `.withSets`: the small steps that keep a
  heap sound;
* `Heap.Sound.unfold`: unfolding does.
-/

namespace HeapShape

open List

/-! ### Set variables -/

namespace SetStore

/-- A variable was given out. -/
def Has (s : SetStore) (v : SetVar) : Prop := v.id < s.reprs.length

/-- Representatives, declared variables and the two sets of each split were given out. -/
structure Issued (s : SetStore) : Prop where
  reprs : ∀ v ∈ s.reprs, s.Has v
  names : ∀ name v, s.names.get? name = some v → s.Has v
  splits : ∀ p ∈ s.splits, s.Has p.whole ∧ s.Has p.rest

/-- A store with at least the variables of another one, all of them given out. -/
structure Grows (s s' : SetStore) : Prop where
  length : s.reprs.length ≤ s'.reprs.length
  issued : s'.Issued

variable {s s' s'' : SetStore} {a b v whole rest : SetVar} {elem : Loc}

theorem Has.mono (hv : s.Has v) (h : s.reprs.length ≤ s'.reprs.length) : s'.Has v := hv.trans_le h

theorem Grows.has (h : s.Grows s') (hv : s.Has v) : s'.Has v := hv.mono h.length

theorem Grows.trans (h : s.Grows s') (h' : s'.Grows s'') : s.Grows s'' :=
  ⟨h.length.trans h'.length, h'.issued⟩

theorem issued_empty : empty.Issued := ⟨nofun, nofun, nofun⟩

namespace Issued

variable (h : s.Issued)
include h

theorem grows : s.Grows s := ⟨Nat.le_refl _, h⟩

theorem resolve (hv : s.Has v) : s.Has (s.resolve v) := by
  rw [SetStore.resolve, getD_eq_getElem?_getD, getElem?_eq_getElem hv]
  exact h.reprs _ (getElem_mem hv)

theorem fresh : s.Grows s.fresh.2 ∧ s.fresh.2.Has s.fresh.1 := by
  have hlen : s.fresh.2.reprs.length = s.reprs.length + 1 := length_append
  have hle : s.reprs.length ≤ s.fresh.2.reprs.length := by omega
  have hnew : s.fresh.2.Has s.fresh.1 := show s.reprs.length < s.fresh.2.reprs.length by omega
  refine ⟨⟨hle, fun v hv => ?_, fun name v hv => (h.names name v hv).mono hle,
    fun p hp => ⟨(h.splits p hp).1.mono hle, (h.splits p hp).2.mono hle⟩⟩, hnew⟩
  rcases mem_append.1 hv with hv | hv
  · exact (h.reprs v hv).mono hle
  · rw [mem_singleton.1 hv]
    exact hnew

theorem lookup? {name : String} (hv : s.lookup? name = some v) : s.Has v := by
  obtain ⟨w, hw, rfl⟩ := Option.map_eq_some_iff.1 hv
  exact h.resolve (h.names name w hw)

theorem declare? {name : String} (hd : s.declare? name = some (v, s')) : s.Grows s' := by
  rw [SetStore.declare?] at hd
  split at hd
  · cases hd
  · cases hd
    obtain ⟨hg, hnew⟩ := h.fresh
    refine ⟨hg.length, hg.issued.reprs, fun other w hw => ?_, hg.issued.splits⟩
    rw [NameMap.get?_insert] at hw
    split at hw
    · cases hw
      exact hnew
    · exact hg.issued.names other w hw

theorem assumeSubset (a b : SetVar) : s.Grows (s.assumeSubset a b) := by
  rw [SetStore.assumeSubset]
  split
  · exact h.grows
  · exact ⟨Nat.le_refl _, h.reprs, h.names, h.splits⟩

theorem splitOf? (hv : s.splitOf? whole elem = some v) : s.Has v := by
  obtain ⟨p, hp, -, -, rfl⟩ := splitOf?_eq_some hv
  exact h.resolve (h.splits p hp).2

theorem wholeOf? (hv : s.wholeOf? elem = some v) : s.Has v := by
  obtain ⟨p, hp, -, rfl⟩ := wholeOf?_eq_some hv
  exact h.resolve (h.splits p hp).1

theorem addSplit? (hw : s.Has whole) (hr : s.Has rest) (ha : s.addSplit? whole elem rest = some s') :
    s.Grows s' := by
  obtain ⟨-, rfl | rfl⟩ := addSplit?_eq_some ha
  · exact h.grows
  · refine ⟨Nat.le_refl _, h.reprs, h.names, fun p hp => ?_⟩
    rcases mem_append.1 hp with hp | hp
    · exact h.splits p hp
    · rw [mem_singleton.1 hp]
      exact ⟨h.resolve hw, h.resolve hr⟩

theorem takeOut (hw : s.Has whole) (elem : Loc) : s.Grows (s.takeOut whole elem).1 ∧
      ∀ rest, (s.takeOut whole elem).2 = some rest → (s.takeOut whole elem).1.Has rest := by
  rw [SetStore.takeOut]
  cases hs : s.splitOf? whole elem with
  | some rest =>
    refine ⟨h.grows, fun r hr => ?_⟩
    cases hr
    exact h.splitOf? hs
  | none =>
    obtain ⟨hg, hnew⟩ := h.fresh
    dsimp only
    cases ha : s.fresh.2.addSplit? whole elem s.fresh.1 with
    | none => exact ⟨hg, fun _ hr => (Option.not_mem_none _ hr).elim⟩
    | some s' =>
      have hg' := hg.issued.addSplit? (hg.has hw) hnew ha
      refine ⟨hg.trans hg', fun r hr => ?_⟩
      cases hr
      exact hg'.has hnew

theorem setEmpty? (he : s.setEmpty? v = some s') : s.Grows s' := by
  obtain ⟨-, rfl⟩ := setEmpty?_eq_some he
  exact ⟨Nat.le_refl _, h.reprs, h.names, h.splits⟩

/-- A variable that was given out can be redirected. -/
theorem redirect (ha : s.Has a) (hb : s.Has b) : ∃ s', s.redirect a b = .ok s' ∧ s.Grows s' := by
  rw [SetStore.redirect, if_pos (show a.id < s.reprs.length from ha)]
  have hlen {n : Nat} :
      n < s.reprs.length ↔ n < (s.reprs.map fun c => if c = a then b else c).length := by
    rw [length_map]
  refine ⟨_, rfl, (length_map _).ge, fun v hv => ?_, fun name v hv => hlen.1 (h.names name v hv),
    fun p hp => ⟨hlen.1 (h.splits p hp).1, hlen.1 (h.splits p hp).2⟩⟩
  obtain ⟨c, hc, rfl⟩ := mem_map.1 hv
  refine hlen.1 ?_
  split
  · exact hb
  · exact h.reprs c hc

theorem unify (ha : s.Has a) (hb : s.Has b) :
    ∃ r, s.unify a b = .ok r ∧ ∀ s', r = some s' → s.Grows s' := by
  have hred {c d : SetVar} (hc : s.Has c) (hd : s.Has d) :
      ∃ r, (s.redirect c d).map some = .ok r ∧ ∀ s', r = some s' → s.Grows s' := by
    obtain ⟨t, ht, hg⟩ := h.redirect hc hd
    refine ⟨some t, by rw [ht]; rfl, fun s' hs' => ?_⟩
    cases hs'
    exact hg
  simp only [SetStore.unify]
  split
  · refine ⟨_, rfl, fun s' hs' => ?_⟩
    cases hs'
    exact h.grows
  · split
    · exact hred (h.resolve ha) (h.resolve hb)
    · split
      · exact hred (h.resolve hb) (h.resolve ha)
      · exact ⟨_, rfl, fun _ hr => (Option.not_mem_none _ hr).elim⟩

theorem equate (ha : s.Has a) (hb : s.Has b) : ∃ s', s.equate a b = .ok s' ∧ s.Grows s' := by
  obtain ⟨r, hr, hg⟩ := h.unify ha hb
  rw [SetStore.equate, hr]
  cases r with
  | some s' => exact ⟨s', rfl, hg s' rfl⟩
  | none =>
    have hg₁ := h.assumeSubset a b
    exact ⟨_, rfl, hg₁.trans (hg₁.issued.assumeSubset b a)⟩

theorem substLoc (loc : Loc) (w : Value) : (s.substLoc loc w).Issued := by
  refine ⟨h.reprs, h.names, fun p hp => ?_⟩
  obtain ⟨q, hq, hqp⟩ := mem_filterMap.1 hp
  split at hqp
  · obtain ⟨l, -, rfl⟩ := Option.map_eq_some_iff.1 hqp
    exact h.splits q hq
  · rw [← Option.some.inj hqp]
    exact h.splits q hq

theorem retain (vars : List SetVar) (locs : List Loc) : (s.retain vars locs).Issued := by
  refine ⟨h.reprs, h.names, fun p hp => ?_⟩
  obtain ⟨q, hq, rfl⟩ := mem_map.1 (mem_filter.1 hp).1
  exact ⟨h.resolve (h.splits q hq).1, h.resolve (h.splits q hq).2⟩

end Issued

end SetStore

namespace Predicate

variable {s : SetStore} {params : Params}

/-- The sets below a root were given out. -/
theorem step_issued (p : Predicate) (root : Loc) (h : s.Issued) (hp : ∀ v ∈ params.sets, s.Has v) :
    s.Grows (p.step root params s).1 ∧ ∀ step, (p.step root params s).2 = some step →
      (∀ v ∈ step.succ.sets, (p.step root params s).1.Has v) ∧
      (∀ v ∈ step.nested.sets, (p.step root params s).1.Has v) ∧
      ∀ v, step.refs = some v → (p.step root params s).1.Has v := by
  obtain ⟨ptrs, sets⟩ := params
  rw [step.eq_def]
  split
  · refine ⟨h.grows, fun step hs => ?_⟩
    cases hs
    exact ⟨forall_mem_nil _, forall_mem_nil _, fun _ hr => (Option.not_mem_none _ hr).elim⟩
  · refine ⟨h.grows, fun step hs => ?_⟩
    cases hs
    exact ⟨forall_mem_nil _, forall_mem_nil _, fun _ hr => (Option.not_mem_none _ hr).elim⟩
  · rename_i nodes targets more hsets
    cases hsets
    obtain ⟨hg, hrest⟩ := h.takeOut (hp nodes (.head _)) root
    refine ⟨hg, fun step hs => ?_⟩
    obtain ⟨rest, hr, rfl⟩ := Option.map_eq_some_iff.1 hs
    have htargets := hg.has (hp targets (.tail _ (.head _)))
    exact ⟨forall_mem_cons.2 ⟨hrest rest hr, forall_mem_singleton.2 htargets⟩,
      forall_mem_singleton.2 htargets, fun _ hr => (Option.not_mem_none _ hr).elim⟩
  · exact ⟨h.grows, fun _ hr => (Option.not_mem_none _ hr).elim⟩
  · rename_i targets more hsets
    cases hsets
    have htargets := hp targets (.head _)
    refine ⟨h.grows, fun step hs => ?_⟩
    cases hs
    refine ⟨forall_mem_singleton.2 htargets, forall_mem_nil _, fun v hv => ?_⟩
    cases hv
    exact htargets
  · exact ⟨h.grows, fun _ hr => (Option.not_mem_none _ hr).elim⟩

/-- The only pointer below a root is the root. -/
theorem step_ptrs {p : Predicate} {root : Loc} {step : Step} (h : (p.step root params s).2 = some step) :
    (∀ v ∈ step.succ.ptrs, v = .ptr root) ∧ step.nested.ptrs = [] := by
  rw [Predicate.step.eq_def] at h
  split at h
  · cases h
    exact ⟨forall_mem_nil _, rfl⟩
  · cases h
    exact ⟨fun v hv => mem_singleton.1 hv, rfl⟩
  · obtain ⟨rest, -, rfl⟩ := Option.map_eq_some_iff.1 h
    exact ⟨forall_mem_nil _, rfl⟩
  · cases h
  · cases h
    exact ⟨forall_mem_nil _, rfl⟩
  · cases h

theorem baseCase_issued {p : Predicate} {s' : SetStore} (h : s.Issued)
    (hb : p.baseCase params s = some s') : s.Grows s' := by
  rw [baseCase.eq_def] at hb
  split at hb
  · exact h.setEmpty? hb
  · cases hb
  · cases hb
    exact h.grows

end Predicate

/-! ### Locations -/

namespace Heap

/-- A value is null, a scalar, or a location that was given out and is not lost. -/
def Usable (lost : Loc → Prop) (h : Heap) (v : Value) : Prop :=
  ∀ l, v = .ptr l → l.index < h.size ∧ ¬ lost l

/-- Parameters that can be used. -/
def UsableParams (lost : Loc → Prop) (h : Heap) (p : Params) : Prop :=
  (∀ v ∈ p.ptrs, h.Usable lost v) ∧ ∀ v ∈ p.sets, h.sets.Has v

/-- A fact that may be recorded: it is made of values and variables that can be used, and a cell
    has the fields of its structure. -/
structure Admits (structs : Structs) (lost : Loc → Prop) (h : Heap) (f : Fact) : Prop where
  values : ∀ v ∈ f.values, h.Usable lost v
  sets : ∀ v ∈ f.sets, h.sets.Has v
  cell : ∀ c, f = .cell c → c.Complete structs

/-- All facts may be recorded, and nothing is known of lost locations. -/
structure Sound (structs : Structs) (lost : Loc → Prop) (h : Heap) : Prop where
  facts : ∀ k f, h.slot k = .occupied f → h.Admits structs lost f
  lost : ∀ l, lost l → l.index < h.size ∧ ∀ f, h.slot l ≠ .occupied f
  sets : h.sets.Issued

variable {structs : Structs} {lost : Loc → Prop} {h h' : Heap} {loc k : Loc} {v w : Value} {f : Fact}

theorem usable_null : h.Usable lost .null := nofun

theorem usable_int : h.Usable lost .int := nofun

theorem usable_ptr : h.Usable lost (.ptr loc) ↔ loc.index < h.size ∧ ¬ lost loc :=
  ⟨fun hv => hv loc rfl, fun hl l he => by cases he; exact hl⟩

theorem Usable.mono (hv : h.Usable lost v) (hle : h.size ≤ h'.size) : h'.Usable lost v :=
  fun l he => ⟨(hv l he).1.trans_le hle, (hv l he).2⟩

theorem Usable.subst (hv : h.Usable lost v) (hw : h.Usable lost w) : h.Usable lost (v.subst loc w) := by
  rw [Value.subst]
  split
  · exact hw
  · exact hv

theorem UsableParams.mono {p : Params} (hp : h.UsableParams lost p) (hsize : h.size ≤ h'.size)
    (hsets : h.sets.reprs.length ≤ h'.sets.reprs.length) : h'.UsableParams lost p :=
  ⟨fun v hv => (hp.1 v hv).mono hsize, fun v hv => (hp.2 v hv).mono hsets⟩

theorem UsableParams.headD {p : Params} (hp : h.UsableParams lost p) :
    h.Usable lost (p.ptrs.headD .null) := by
  cases hv : p.ptrs with
  | nil => exact usable_null
  | cons v vs => exact hp.1 v (hv ▸ .head _)

theorem Admits.mono (hf : h.Admits structs lost f) (hsize : h.size ≤ h'.size)
    (hsets : h.sets.reprs.length ≤ h'.sets.reprs.length) : h'.Admits structs lost f :=
  ⟨fun v hv => (hf.values v hv).mono hsize, fun v hv => (hf.sets v hv).mono hsets, hf.cell⟩

theorem sets_mapValues (g : Value → Value) (f : Fact) : (f.mapValues g).sets = f.sets := by
  obtain _ | ⟨_, _, _, _ | _⟩ | _ := f <;> rfl

theorem Admits.subst (hf : h.Admits structs lost f) (hw : h.Usable lost w) :
    h.Admits structs lost (f.mapValues (·.subst loc w)) where
  values v hv := by
    rw [Fact.values_mapValues, mem_map] at hv
    obtain ⟨u, hu, rfl⟩ := hv
    exact (hf.values u hu).subst hw
  sets v hv := hf.sets v (sets_mapValues _ f ▸ hv)
  cell c hc := by
    obtain c' | _ | _ := f <;> cases hc
    intro decl hd
    rw [length_map]
    exact hf.cell c' rfl decl hd

theorem sound_empty : empty.Sound structs fun _ => False :=
  ⟨nofun, fun _ hl => hl.elim, SetStore.issued_empty⟩

namespace Sound

variable (hs : h.Sound structs lost)
include hs

theorem not_lost (hk : h.slot k = .occupied f) : ¬ lost k := fun hl => (hs.lost k hl).2 f hk

theorem usable_of_occupied (hk : h.slot k = .occupied f) : h.Usable lost (.ptr k) :=
  usable_ptr.2 ⟨lt_size_of_occupied hk, hs.not_lost hk⟩

/-- A new location was not lost. -/
theorem not_lost_new : ¬ lost ⟨h.size⟩ := fun hl => Nat.lt_irrefl _ (hs.lost _ hl).1

theorem forget (hf : h.Forgets h') (hg : h.sets.Grows h'.sets) : h'.Sound structs lost where
  facts k f hk := (hs.facts k f (hf.occupied hk)).mono hf.size.ge hg.length
  lost l hl := ⟨hf.size ▸ (hs.lost l hl).1, fun f hk => (hs.lost l hl).2 f (hf.occupied hk)⟩
  sets := hg.issued

theorem vacate (loc : Loc) : (h.write loc .vacant).Sound structs lost :=
  hs.forget (forgets_vacate h loc) hs.sets.grows

theorem withSets {sets : SetStore} (hg : h.sets.Grows sets) :
    ({ h with sets } : Heap).Sound structs lost :=
  ⟨fun k f hk => (hs.facts k f hk).mono (Nat.le_refl _) hg.length, hs.lost, hg.issued⟩

theorem subst (hw : h.Usable lost w) : (h.subst loc w).Sound structs lost where
  facts k f hk := by
    obtain ⟨g, hg, rfl⟩ := slot_subst_eq_occupied.1 hk
    exact ((hs.facts k g hg).subst hw).mono (size_subst w).ge (Nat.le_refl _)
  lost l hl := by
    refine ⟨(size_subst w).symm ▸ (hs.lost l hl).1, fun f hk => ?_⟩
    obtain ⟨g, hg, -⟩ := slot_subst_eq_occupied.1 hk
    exact (hs.lost l hl).2 g hg
  sets := hs.sets.substLoc loc w

theorem release (loc : Loc) : (h.write loc .tombstone).Sound structs lost where
  facts k f hk := (hs.facts k f (of_occupied_write rfl hk).2).mono (size_write _).ge (Nat.le_refl _)
  lost l hlost := ⟨(size_write _).symm ▸ (hs.lost l hlost).1, fun f hk =>
    (hs.lost l hlost).2 f (of_occupied_write rfl hk).2⟩
  sets := hs.sets

theorem write (hl : h.Usable lost (.ptr loc)) (hf : h.Admits structs lost f) :
    (h.write loc (.occupied f)).Sound structs lost := by
  obtain ⟨-, hnot⟩ := usable_ptr.1 hl
  refine ⟨fun k g hk => ?_,
    fun l hlost => ⟨(size_write _).symm ▸ (hs.lost l hlost).1, fun g hk => ?_⟩, hs.sets⟩
  · refine Admits.mono ?_ (size_write _).ge (Nat.le_refl _)
    obtain ⟨-, he⟩ | ⟨-, hk⟩ := occupied_write_cases hk
    · cases he
      exact hf
    · exact hs.facts k g hk
  · have hne : l ≠ loc := by
      rintro rfl
      exact hnot hlost
    rw [slot_write_of_ne hne] at hk
    exact (hs.lost l hlost).2 g hk

theorem fresh : h.fresh.2.Sound structs lost where
  facts k f hk := (hs.facts k f (slot_fresh h k ▸ hk)).mono (by rw [size_fresh]; omega) (Nat.le_refl _)
  lost l hl := by
    refine ⟨by rw [size_fresh]; exact Nat.lt_succ_of_lt (hs.lost l hl).1, fun f hk => ?_⟩
    exact (hs.lost l hl).2 f (slot_fresh h l ▸ hk)
  sets := hs.sets

theorem usable_fresh : h.fresh.2.Usable lost (.ptr h.fresh.1) :=
  usable_ptr.2 ⟨by rw [size_fresh]; exact Nat.lt_succ_self _, hs.not_lost_new⟩

theorem add (hf : h.Admits structs lost f) : (h.add f).2.Sound structs lost := by
  rw [add_eq_write]
  exact hs.fresh.write hs.usable_fresh (hf.mono (by rw [size_fresh]; omega) (Nat.le_refl _))

theorem usable_add (f : Fact) : (h.add f).2.Usable lost (.ptr (h.add f).1) :=
  usable_ptr.2 ⟨by rw [size_add]; exact Nat.lt_succ_self _, hs.not_lost_new⟩

end Sound

/-! ### Unfolding -/

/-- The content of a field may be recorded. -/
def AdmitsContent (structs : Structs) (lost : Loc → Prop) (h : Heap) : Content → Prop
  | .value v => h.Usable lost v
  | .unknown => True
  | .fact f => h.Admits structs lost f

theorem sets_place (h : Heap) (c : Content) : (h.place c).2.sets = h.sets := by
  cases c <;> rfl

theorem sets_grow (h : Heap) (cs : List Content) : (h.grow cs).2.sets = h.sets := by
  induction cs generalizing h with
  | nil => rfl
  | cons c cs ih => rw [grow_cons, ih, sets_place]

theorem length_grow (h : Heap) (cs : List Content) : (h.grow cs).1.length = cs.length := by
  induction cs generalizing h with
  | nil => rfl
  | cons c cs ih => rw [grow_cons, length_cons, ih, length_cons]

theorem AdmitsContent.mono {c : Content} (hc : h.AdmitsContent structs lost c) (hsize : h.size ≤ h'.size)
    (hsets : h'.sets = h.sets) : h'.AdmitsContent structs lost c := by
  cases c with
  | value v => exact Usable.mono hc hsize
  | unknown => trivial
  | fact f => exact Admits.mono hc hsize (hsets ▸ Nat.le_refl _)

theorem Sound.place (hs : h.Sound structs lost) {c : Content} (hc : h.AdmitsContent structs lost c) :
    (h.place c).2.Sound structs lost ∧ (h.place c).2.Usable lost (h.place c).1 := by
  cases c with
  | value v => exact ⟨hs, hc⟩
  | unknown => exact ⟨hs.fresh, hs.usable_fresh⟩
  | fact f => exact ⟨hs.add hc, hs.usable_add f⟩

theorem Sound.grow (hs : h.Sound structs lost) {cs : List Content}
    (hcs : ∀ c ∈ cs, h.AdmitsContent structs lost c) :
    (h.grow cs).2.Sound structs lost ∧ ∀ v ∈ (h.grow cs).1, (h.grow cs).2.Usable lost v := by
  induction cs generalizing h with
  | nil => exact ⟨hs, nofun⟩
  | cons c cs ih =>
    rw [grow_cons]
    obtain ⟨hs₁, hv⟩ := hs.place (hcs c (.head _))
    obtain ⟨hs₂, hvs⟩ := ih hs₁ fun d hd => (hcs d (.tail _ hd)).mono (size_le_place h c) (sets_place h c)
    exact ⟨hs₂, forall_mem_cons.2 ⟨hv.mono (size_le_grow _ cs), hvs⟩⟩

theorem admitsContent_unknownField (f : FieldDecl) : h.AdmitsContent structs lost (unknownField f) := by
  obtain ⟨name, _ | _⟩ := f
  · exact usable_int
  · trivial

/-- A cell with new fields may be recorded where something is known, or at a new location. -/
theorem Sound.unfolded (hs : h.Sound structs lost) (hl : h.Usable lost (.ptr loc)) {ty : StructId}
    {cs : List Content} (hcs : ∀ c ∈ cs, h.AdmitsContent structs lost c)
    (hlen : ∀ decl, structs.decl? ty = some decl → decl.fields.length ≤ cs.length) :
    (h.unfolded loc ty cs).Sound structs lost := by
  obtain ⟨hs', hvs⟩ := hs.grow hcs
  refine hs'.write (hl.mono (size_le_grow h cs)) ⟨hvs, nofun, fun c hc decl hd => ?_⟩
  cases hc
  rw [length_grow]
  exact hlen decl hd

end Heap

namespace Heap

variable {structs : Structs} {lost : Loc → Prop} {h h' : Heap} {loc : Loc} {s : Summary}

theorem admits_summary : h.Admits structs lost (.summary s) ↔ h.UsableParams lost s.params ∧
    ∀ o, s.hole = some o → h.Usable lost o.value ∧ h.UsableParams lost o.params := by
  constructor
  · intro hf
    refine ⟨⟨fun v hv => hf.values v (mem_append_left _ hv),
      fun v hv => hf.sets v (mem_append_left _ hv)⟩, fun o ho => ?_⟩
    have hvalues : ∀ v ∈ o.value :: o.params.ptrs, h.Usable lost v := fun v hv =>
      hf.values v (mem_append_right _ (by rw [ho]; simpa using hv))
    exact ⟨hvalues _ (.head _), fun v hv => hvalues v (.tail _ hv),
      fun v hv => hf.sets v (mem_append_right _ (by rw [ho]; simpa using hv))⟩
  · rintro ⟨⟨hptrs, hsets⟩, hhole⟩
    obtain ⟨pred, ty, params, _ | o⟩ := s
    · exact ⟨fun v hv => hptrs v (by simpa [Fact.values] using hv),
        fun v hv => hsets v (by simpa [Fact.sets] using hv), fun _ hc => Fact.noConfusion hc⟩
    · obtain ⟨hvalue, hptrs', hsets'⟩ := hhole o rfl
      refine ⟨fun v hv => ?_, fun v hv => ?_, fun _ hc => Fact.noConfusion hc⟩
      · rcases mem_append.1 hv with hv | hv
        · exact hptrs v hv
        · simp only [Option.toList_some, flatMap_singleton, mem_cons] at hv
          rcases hv with rfl | hv
          · exact hvalue
          · exact hptrs' v hv
      · rcases mem_append.1 hv with hv | hv
        · exact hsets v hv
        · exact hsets' v (by simpa using hv)

/-- What a predicate says about the fields of its root may be recorded. -/
theorem Sound.admits_content {sets : SetStore} {step : Step} (hs : h.Sound structs lost)
    (hk : h.slot loc = .occupied (.summary s))
    (hstep : s.pred.step loc s.params h.sets = (sets, some step))
    (layout : Layout) (way : Option Nat) (i : Nat) (field : FieldDecl) :
    ({ h with sets } : Heap).AdmitsContent structs lost (s.content layout step way i field) := by
  have hf := admits_summary.1 (hs.facts loc _ hk)
  obtain ⟨hg, hsets⟩ := Predicate.step_issued s.pred loc hs.sets hf.1.2
  obtain ⟨hptrs, hnested⟩ := Predicate.step_ptrs (show (s.pred.step loc s.params h.sets).2 = some step by
    rw [hstep])
  rw [hstep] at hg hsets
  obtain ⟨hsucc, hnest, hrefs⟩ := hsets step rfl
  rw [Summary.content]
  split
  · refine admits_summary.2 ⟨⟨fun v hv => ?_, hsucc⟩, fun o ho => ?_⟩
    · rw [hptrs v hv]
      exact hs.usable_of_occupied hk
    · -- the hole stays below the successor that was chosen
      dsimp only at ho
      split at ho
      · exact ⟨(hf.2 o ho).1, (hf.2 o ho).2.mono (Nat.le_refl _) hg.length⟩
      · cases ho
  · exact hf.1.headD
  · refine admits_summary.2 ⟨⟨fun v hv => ?_, hnest⟩, fun _ hr => (Option.not_mem_none _ hr).elim⟩
    rw [show (_ : Params).ptrs = [] from hnested] at hv
    cases hv
  · split
    · rename_i set hset
      refine ⟨forall_mem_nil _, fun v hv => ?_, fun _ hc => Fact.noConfusion hc⟩
      rw [mem_singleton.1 hv]
      exact hrefs set hset
    · trivial
  · exact admitsContent_unknownField field

/-- The heaps that a summary unfolds into are sound. -/
theorem Sound.unfold {heaps : List Heap} (hs : h.Sound structs lost)
    (hu : h.unfold structs loc = .ok heaps) (hmem : h' ∈ heaps) : h'.Sound structs lost := by
  obtain ⟨s, decl, layout, way, sets, step, hk, hdecl, -, -, hstep, rfl⟩ := unfold_cases hu hmem
  have hg := (Predicate.step_issued s.pred loc hs.sets (admits_summary.1 (hs.facts loc _ hk)).1.2).1
  rw [hstep] at hg
  refine (hs.withSets hg).unfolded (hs.usable_of_occupied hk) (fun c hc => ?_) fun decl' hd => ?_
  · obtain ⟨i, hi, rfl⟩ := mem_mapIdx.1 hc
    exact hs.admits_content hk hstep ..
  · rw [hdecl] at hd
    cases hd
    rw [length_mapIdx]

/-- A new cell keeps a heap sound. -/
theorem Sound.allocCell {ty : StructId} {decl : StructDecl} (hs : h.Sound structs lost)
    (hdecl : structs.decl? ty = some decl) :
    (h.allocCell ty decl).2.Sound structs lost ∧
      (h.allocCell ty decl).2.Usable lost (.ptr (h.allocCell ty decl).1) := by
  refine ⟨hs.fresh.unfolded hs.usable_fresh (fun c hc => ?_) fun decl' hd => ?_, ?_⟩
  · obtain ⟨field, -, rfl⟩ := mem_map.1 hc
    exact admitsContent_unknownField field
  · rw [hdecl] at hd
    cases hd
    rw [length_map]
  · exact hs.usable_fresh.mono (size_le_unfolded _ _ _ _)

end Heap

end HeapShape
