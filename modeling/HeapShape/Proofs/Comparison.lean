import HeapShape.Proofs.Conditions

/-!
# Comparisons of pointers

A comparison of two pointers to different locations tests both for null, and takes them to
differ if one of them is not null. On the way a test may close segments, which puts the hole
in the place of the root. If the segments at the first location lead to the second one, both
pointers come to be the same, and the comparison still takes them to differ.

* `Exec.Splits`: after a comparison the two variables hold the same value exactly if they were
  assumed to be equal;
* `State.testNull_renames`: what a test for null does to the variables. It holds of every state
  in which the locations that it comes to are not parameters of the segments there
  (`Heap.Ways`);
* `State.testNull_meets`: a test that comes to a location makes the first one the same;
* `Exec.splits_of_untangled`: a comparison splits a state if its sides are untangled;
* `Exec.not_splits_of_meets`: in a plain state it does not, if segments lead from the first
  side to the second one;
* `Exec.comparison_splits_iff`: so in a plain state it splits exactly if they do not.
-/

namespace HeapShape

open List

/-- A location that a value is put in the place of gives way to it, and the others stay. -/
theorem Value.subst_eq_ptr {v w : Value} {k b : Loc} :
    v.subst k w = .ptr b ↔ (v = .ptr k ∧ w = .ptr b) ∨ (v = .ptr b ∧ b ≠ k) := by
  rw [Value.subst]
  split
  · rename_i hv
    constructor
    · exact fun hw => .inl ⟨hv, hw⟩
    · rintro (⟨-, hw⟩ | ⟨hb, hne⟩)
      · exact hw
      · exact absurd (Value.ptr.inj (hb.symm.trans hv)) hne
  · rename_i hv
    constructor
    · intro hb
      refine .inr ⟨hb, ?_⟩
      rintro rfl
      exact hv hb
    · rintro (⟨hk, -⟩ | ⟨hb, -⟩)
      · exact absurd hk hv
      · exact hb

namespace Heap

variable {h : Heap} {W X P : Set Loc} {a b k : Loc} {w : Value} {sum : Summary}

/-- The segment at a location has its hole at another location. -/
def EndsAt (h : Heap) (a b : Loc) : Prop :=
  ∃ sum o, h.slot a = .occupied (.summary sum) ∧ sum.hole = some o ∧ o.value = .ptr b

/-- One segment after the other leads from a location to another one. -/
def LeadsTo (h : Heap) : Loc → Loc → Prop := Relation.ReflTransGen h.EndsAt

/-- A location is a cell, a full summary, or freed. -/
def Settled (h : Heap) (loc : Loc) : Prop :=
  match h.slot loc with
  | .occupied (.cell _) | .tombstone => True
  | .occupied (.summary sum) => sum.hole = none
  | .vacant | .occupied (.member ..) => False

theorem Undetermined.not_settled (hk : h.Undetermined k) : ¬ h.Settled k := by
  rcases hk with hk | ⟨set, ty, hk⟩
  · rw [Settled, hk]
    exact id
  · rw [Settled, hk]
    exact id

theorem settled_emptied (ha : h.Settled a) (hne : a ≠ k) : ((h.write k .vacant).subst k w).Settled a := by
  rw [Settled] at ha ⊢
  rw [slot_subst, slot_write_vacant, if_neg hne]
  rcases hs : h.slot a with _ | f | _
  · rw [hs] at ha
    exact ha
  · rw [hs] at ha
    rcases f with c | sum | ⟨set, ty⟩
    · trivial
    · exact congrArg (Option.map _) (show sum.hole = none from ha)
    · exact ha
  · trivial

/-- A summary where a location is emptied, and another value put in its place, is one from before
    with the value put in. -/
theorem slot_emptied_eq_summary :
    ((h.write k .vacant).subst k w).slot a = .occupied (.summary sum) ↔
      a ≠ k ∧ ∃ sum', h.slot a = .occupied (.summary sum') ∧ sum = sum'.mapValues (·.subst k w) := by
  constructor
  · intro hs
    obtain ⟨f, hf, he⟩ := slot_subst_eq_occupied.1 hs
    obtain ⟨hne, hf⟩ := of_occupied_write rfl hf
    rcases f with c | sum' | ⟨set, ty⟩
    · cases he
    · cases he
      exact ⟨hne, sum', hf, rfl⟩
    · cases he
  · rintro ⟨hne, sum', hs, rfl⟩
    rw [slot_subst, slot_write_vacant, if_neg hne, hs]
    rfl

/-- Segments end where they did, or at what is put in the place of their hole. -/
theorem endsAt_emptied :
    ((h.write k .vacant).subst k w).EndsAt a b ↔
      a ≠ k ∧ ((h.EndsAt a k ∧ w = .ptr b) ∨ (h.EndsAt a b ∧ b ≠ k)) := by
  constructor
  · rintro ⟨sum, o, hs, ho, hv⟩
    obtain ⟨hne, sum', hs', rfl⟩ := slot_emptied_eq_summary.1 hs
    obtain ⟨o', ho', rfl⟩ := Option.map_eq_some_iff.1 ho
    refine ⟨hne, (Value.subst_eq_ptr.1 hv).imp ?_ ?_⟩
    · exact fun hk => ⟨⟨sum', o', hs', ho', hk.1⟩, hk.2⟩
    · exact fun hb => ⟨⟨sum', o', hs', ho', hb.1⟩, hb.2⟩
  · have new {c : Loc} (hne : a ≠ k) (hend : h.EndsAt a c)
        (hb : Value.subst (.ptr c) k w = .ptr b) : ((h.write k .vacant).subst k w).EndsAt a b := by
      obtain ⟨sum, o, hs, ho, hv⟩ := hend
      refine ⟨_, o.mapValues (·.subst k w), slot_emptied_eq_summary.2 ⟨hne, sum, hs, rfl⟩, ?_, ?_⟩
      · exact Option.map_eq_some_iff.2 ⟨o, ho, rfl⟩
      · exact (congrArg (Value.subst · k w) hv).trans hb
    rintro ⟨hne, ⟨hend, hw⟩ | ⟨hend, hbk⟩⟩
    · exact new hne hend (Value.subst_eq_ptr.2 (.inl ⟨rfl, hw⟩))
    · exact new hne hend (Value.subst_eq_ptr.2 (.inr ⟨rfl, hbk⟩))

/-- Locations `W` that a comparison may come to, with those `X` that its first side may come
    to, and the locations `P` in the parameters of the segments at `W`. -/
structure Ways (h : Heap) (W X P : Set Loc) : Prop where
  sub : X ⊆ W
  next : ∀ a b, h.EndsAt a b → (a ∈ W → b ∈ W) ∧ (a ∈ X → b ∈ X)
  params : ∀ a sum o, a ∈ W → h.slot a = .occupied (.summary sum) → sum.hole = some o →
    ∀ b, .ptr b ∈ sum.params.ptrs ++ o.params.ptrs → b ∈ P
  settled : ∀ a, a ∈ P → a ∈ W → h.Settled a

theorem Ways.of_slot {h' : Heap} (hw : h.Ways W X P) (hs : ∀ a, h'.slot a = h.slot a) :
    h'.Ways W X P where
  sub := hw.sub
  next a b := by
    rintro ⟨sum, o, ha, ho⟩
    exact hw.next a b ⟨sum, o, hs a ▸ ha, ho⟩
  params a sum o ha hsum := hw.params a sum o ha (hs a ▸ hsum)
  settled a haP haW := by
    rw [Settled, hs a]
    exact hw.settled a haP haW

theorem Ways.all (hw : h.Ways W X P) : h.Ways W W P :=
  ⟨subset_rfl, fun a b hab => ⟨(hw.next a b hab).1, (hw.next a b hab).1⟩, hw.params, hw.settled⟩

/-- A location is emptied, and another value put in its place. If it was on the way, the value
    is on the way or no location, and if it was a parameter, the value is one or no location. -/
theorem Ways.emptied {Q : Set Loc} (hw : h.Ways W X P) (hkW : ∀ j, w = .ptr j → k ∈ W → j ∈ W)
    (hkX : ∀ j, w = .ptr j → k ∈ X → j ∈ X) (hkP : ∀ j, w = .ptr j → k ∈ P → j ∈ Q) (hQP : Q ⊆ P)
    (hPQ : ∀ j ∈ P, j ≠ k → j ∈ Q) (hk : k ∈ Q → k ∉ W) :
    ((h.write k .vacant).subst k w).Ways W X Q := by
  refine ⟨hw.sub, fun a b hab => ?_, ?_, ?_⟩
  · obtain ⟨-, ⟨hak, hwb⟩ | ⟨hab, -⟩⟩ := endsAt_emptied.1 hab
    · have hnext := hw.next a k hak
      exact ⟨fun ha => hkW b hwb (hnext.1 ha), fun ha => hkX b hwb (hnext.2 ha)⟩
    · exact hw.next a b hab
  · intro a sum o ha hs ho b hb
    obtain ⟨-, sum', hs', rfl⟩ := slot_emptied_eq_summary.1 hs
    obtain ⟨o', ho', rfl⟩ := Option.map_eq_some_iff.1 ho
    have hb : .ptr b ∈ (sum'.params.ptrs ++ o'.params.ptrs).map (·.subst k w) := by
      rw [map_append]
      exact hb
    obtain ⟨v, hv, hvb⟩ := mem_map.1 hb
    rcases Value.subst_eq_ptr.1 hvb with ⟨rfl, hwb⟩ | ⟨rfl, hne⟩
    · exact hkP b hwb (hw.params a sum' o' ha hs' ho' k hv)
    · exact hPQ b (hw.params a sum' o' ha hs' ho' b hv) hne
  · intro a haQ haW
    have hne : a ≠ k := by
      rintro rfl
      exact hk haQ haW
    exact settled_emptied (hw.settled a (hQP haQ) haW) hne

end Heap

namespace State

variable {structs : Structs} {s s' s'' : State} {W X P : Set Loc} {loc k : Loc} {v w : Value}
  {θ θ' : Value → Value}

/-! ### What happens to the variables -/

/-- Every variable holds what a renaming makes of its value. -/
structure Renames (s s' : State) (θ : Value → Value) : Prop where
  null : θ .null = .null
  lookup : ∀ x v, s.lookup x = .ok v → s'.lookup x = .ok (θ v)

theorem renames_of_env (h : s'.env = s.env) : Renames s s' id where
  null := rfl
  lookup x v hv := by
    rw [State.lookup, h]
    exact hv

theorem Renames.trans (h : Renames s s' θ) (h' : Renames s' s'' θ') : Renames s s'' (θ' ∘ θ) where
  null := (congrArg θ' h.null).trans h'.null
  lookup x v hv := h'.lookup x (θ v) (h.lookup x v hv)

theorem renames_emptied (s : State) (k : Loc) (w : Value) :
    Renames s (s.emptied k w) (·.subst k w) where
  null := rfl
  lookup x v hv := by
    have henv : (s.emptied k w).env.get? x =
        (s.env.get? x).map fun b => { b with value := b.value.subst k w } := NameMap.get?_map ..
    rw [State.lookup] at hv ⊢
    rw [henv]
    cases hb : s.env.get? x with
    | none =>
      rw [hb] at hv
      cases hv
    | some b =>
      rw [hb] at hv
      cases hv
      rfl

theorem subst_ptr_of_ne {j : Loc} (h : j ≠ k) : Value.subst (.ptr j) k w = .ptr j :=
  if_neg fun he => h (Value.ptr.inj he)

/-! ### Equal parameters -/

/-- The location that is replaced is not settled. -/
theorem equate_cases {a b : Value} (h : s.equate a b = .ok (some s')) :
    s' = s ∨ ∃ k w, s' = s.emptied k w ∧ ¬ s.heap.Settled k ∧
      ((a = .ptr k ∧ b = w) ∨ (b = .ptr k ∧ a = w)) := by
  rcases equate_replaces h with rfl | ⟨k, w, rfl, hk, hab⟩
  · exact .inl rfl
  · exact .inr ⟨k, w, rfl, hk.not_settled, hab⟩

/-- Making parameters equal leaves the locations on the way as they are. -/
theorem equateAll_renames {l : List (Value × Value)} (hw : s.heap.Ways W X P)
    (hl : ∀ p ∈ l, ∀ j, p.1 = .ptr j ∨ p.2 = .ptr j → j ∈ P) (h : s.equateAll l = .ok (some s')) :
    s'.heap.Ways W X P ∧ ∃ θ, Renames s s' θ ∧ ∀ j ∈ W, θ (.ptr j) = .ptr j := by
  induction l generalizing s with
  | nil =>
    cases h
    exact ⟨hw, id, renames_of_env rfl, fun _ _ => rfl⟩
  | cons p l ih =>
    obtain ⟨s₁, he, hrest⟩ := equateAll_cons h
    have hl' : ∀ p ∈ l, ∀ j, p.1 = .ptr j ∨ p.2 = .ptr j → j ∈ P := fun p hp => hl p (.tail _ hp)
    rcases equate_cases he with rfl | ⟨k, w, rfl, hk, hab⟩
    · exact ih hw hl' hrest
    · -- The location that is replaced is a parameter, so it is not on the way.
      have hkP : k ∈ P := hl _ (.head _) k (hab.imp And.left And.left)
      have hkW : k ∉ W := fun hkW => hk (hw.settled k hkP hkW)
      have hwP : ∀ j, w = .ptr j → k ∈ P → j ∈ P := by
        rintro j rfl -
        exact hl _ (.head _) j (hab.symm.imp And.right And.right)
      have hw₁ : (s.emptied k w).heap.Ways W X P :=
        hw.emptied (fun j _ hk => absurd hk hkW) (fun j _ hk => absurd (hw.sub hk) hkW) hwP
          subset_rfl (fun j hj _ => hj) fun _ => hkW
      obtain ⟨hw', θ, hθ, hfix⟩ := ih hw₁ hl' hrest
      refine ⟨hw', _, (renames_emptied s k w).trans hθ, fun j hj => ?_⟩
      have hne : j ≠ k := by
        rintro rfl
        exact hkW hj
      show θ (Value.subst (.ptr j) k w) = _
      rw [subst_ptr_of_ne hne]
      exact hfix j hj

/-- Closing a segment on the way puts its hole in the place of its root, and leaves the other
    locations on the way as they are. -/
theorem closeSegment_renames {sum : Summary} {o : Hole} (hw : s.heap.Ways W X P) (hloc : loc ∈ X)
    (hs : s.heap.slot loc = .occupied (.summary sum)) (ho : sum.hole = some o)
    (h : s.closeSegment loc sum o = .ok (some s')) :
    s'.heap.Ways W X P ∧ ∃ θ, Renames s s' θ ∧ (o.value ≠ .int → θ (.ptr loc) = o.value) ∧
      ∀ j ∈ W, j ≠ loc → θ (.ptr j) = .ptr j := by
  have hlocW : loc ∈ W := hw.sub hloc
  have hlocP : loc ∉ P := by
    intro hP
    have hset := hw.settled loc hP hlocW
    rw [Heap.Settled, hs] at hset
    rw [show sum.hole = none from hset] at ho
    cases ho
  have hnext {j : Loc} (hj : o.value = .ptr j) := hw.next loc j ⟨sum, o, hs, ho, hj⟩
  have hw₁ : (s.emptied loc o.value).heap.Ways W X P :=
    hw.emptied (fun j hj => (hnext hj).1) (fun j hj => (hnext hj).2) (fun j _ hP => absurd hP hlocP)
      subset_rfl (fun j hj _ => hj) fun hP => absurd hP hlocP
  -- Parameters are not changed by putting the hole in, since the root is none of them.
  have hpair : ∀ p ∈ (sum.params.ptrs.zip o.params.ptrs).map fun q =>
      (q.1.subst loc o.value, q.2.subst loc o.value), ∀ j, p.1 = .ptr j ∨ p.2 = .ptr j → j ∈ P := by
    have param {u : Value} {j : Loc} (hu : u ∈ sum.params.ptrs ++ o.params.ptrs)
        (hj : u.subst loc o.value = .ptr j) : j ∈ P := by
      rw [Value.subst] at hj
      split at hj
      · rename_i he
        exact absurd (hw.params loc sum o hlocW hs ho loc (he ▸ hu)) hlocP
      · exact hw.params loc sum o hlocW hs ho j (hj ▸ hu)
    intro p hp j hj
    obtain ⟨⟨a, b⟩, hab, rfl⟩ := mem_map.1 hp
    obtain ⟨ha, hb⟩ := of_mem_zip hab
    rcases hj with hj | hj
    · exact param (mem_append_left _ ha) hj
    · exact param (mem_append_right _ hb) hj
  obtain ⟨s₁, sets, he, rfl⟩ := closeSegment_eq_some h
  obtain ⟨hw₂, θ, hθ, hfix⟩ := equateAll_renames hw₁ hpair he
  refine ⟨hw₂.of_slot fun _ => rfl, _, (renames_emptied s loc o.value).trans ⟨hθ.null, hθ.lookup⟩,
    fun hi => ?_, fun j hj hne => ?_⟩
  · show θ (Value.subst (.ptr loc) loc o.value) = _
    rw [Value.subst_self]
    cases hv : o.value with
    | null => exact hθ.null
    | ptr j => exact hfix j ((hnext hv).1 hlocW)
    | int => exact absurd hv hi
  · show θ (Value.subst (.ptr j) loc o.value) = _
    rw [subst_ptr_of_ne hne]
    exact hfix j hj

/-! ### Tests for null -/

/-- What a test for null does: where the answer is yes the variables that held the location
    hold null, and where it is no they hold some location on its way. Other locations that a
    comparison may come to stay as they are. -/
structure Tested (W X : Set Loc) (loc : Loc) (s s' : State) (answer : Bool) (θ : Value → Value) : Prop
    extends Renames s s' θ where
  fixed : ∀ j ∈ W, j ∉ X → θ (.ptr j) = .ptr j
  yes : answer = true → θ (.ptr loc) = .null ∧ ∃ P, s'.heap.Ways W X P
  no : answer = false → ∃ j ∈ X, θ (.ptr loc) = .ptr j

theorem tested_of_env (hloc : loc ∈ X) (h : s'.env = s.env) : Tested W X loc s s' false id :=
  ⟨renames_of_env h, fun _ _ _ => rfl, nofun, fun _ => ⟨loc, hloc, rfl⟩⟩

theorem tested_emptied (hloc : loc ∈ X) {Q : Set Loc} (hw : (s.emptied loc .null).heap.Ways W X Q) :
    Tested W X loc s (s.emptied loc .null) true (·.subst loc .null) := by
  refine ⟨renames_emptied s loc .null, fun j _ hj => subst_ptr_of_ne ?_, fun _ => ?_, nofun⟩
  · rintro rfl
    exact hj hloc
  · exact ⟨Value.subst_self loc .null, Q, hw⟩

section

variable (hw : s.heap.Ways W X P) {answer : Bool}
include hw

theorem ways_setNull (loc : Loc) : (s.emptied loc .null).heap.Ways W X (P \ {loc}) :=
  hw.emptied nofun nofun nofun Set.sdiff_subset (fun _ hj hne => ⟨hj, hne⟩) fun hQ => absurd rfl hQ.2

/-- A full summary that is empty is null. -/
theorem discharge_tested {sum : Summary} (hloc : loc ∈ X) (h : s.discharge loc sum = some s') :
    Tested W X loc s s' true (·.subst loc .null) := by
  obtain ⟨sets, -, rfl⟩ := Option.map_eq_some_iff.1 h
  have ht := tested_emptied hloc (ways_setNull hw loc)
  refine ⟨⟨ht.null, ht.lookup⟩, ht.fixed, fun _ => ⟨(ht.yes rfl).1, P \ {loc}, ?_⟩, nofun⟩
  exact (ways_setNull hw loc).of_slot fun _ => rfl

theorem setNull_tested (hloc : loc ∈ X) (hs : s.heap.slot loc ≠ .tombstone)
    (h : (s', .ok answer) ∈ (match s.setNull loc with
      | .ok null => [(null, .ok true), (s, .ok false)]
      | .error m => [(s, .error (.misuse m))] : Outcomes Bool)) :
    ∃ θ, Tested W X loc s s' answer θ := by
  cases hn : s.setNull loc with
  | error m =>
    rw [hn] at h
    cases mem_singleton.1 h
  | ok t =>
    rw [hn, setNull_eq_emptied hn hs] at h
    rcases h with _ | ⟨_, _ | ⟨_, ⟨⟩⟩⟩
    · exact ⟨_, tested_emptied hloc (ways_setNull hw loc)⟩
    · exact ⟨id, tested_of_env hloc rfl⟩

/-- A test goes on at the hole of a segment that is closed. -/
theorem Tested.after_close {sum : Summary} {o : Hole} {s₁ : State} {j : Loc} (hloc : loc ∈ X)
    (hs : s.heap.slot loc = .occupied (.summary sum)) (ho : sum.hole = some o)
    (hc : s.closeSegment loc sum o = .ok (some s₁)) (hv : o.value = .ptr j)
    (h : Tested W X j s₁ s' answer θ') : ∃ θ, Tested W X loc s s' answer θ := by
  obtain ⟨-, θ, hθ, hroot, hfix⟩ := closeSegment_renames hw hloc hs ho hc
  have hstart : θ (.ptr loc) = .ptr j := (hroot (by rw [hv]; exact nofun)).trans hv
  refine ⟨θ' ∘ θ, hθ.trans h.toRenames, fun k hk hkX => ?_, fun ha => ?_, fun ha => ?_⟩
  · have hne : k ≠ loc := by
      rintro rfl
      exact hkX hloc
    show θ' (θ (.ptr k)) = _
    rw [hfix k hk hne]
    exact h.fixed k hk hkX
  · show θ' (θ (.ptr loc)) = _ ∧ _
    rw [hstart]
    exact h.yes ha
  · show ∃ k ∈ X, θ' (θ (.ptr loc)) = .ptr k
    rw [hstart]
    exact h.no ha

theorem testNull_renames (hloc : loc ∈ X) (h : (s', .ok answer) ∈ s.testNull structs (.ptr loc)) :
    ∃ θ, Tested W X loc s s' answer θ := by
  -- By induction on the number of facts: each segment that is closed takes one away.
  induction hn : s.heap.factCount using Nat.strong_induction_on generalizing s P loc with
  | _ n ih =>
    subst hn
    rw [testNull] at h
    split at h
    · cases mem_singleton.1 h
      exact ⟨id, tested_of_env hloc rfl⟩
    · cases mem_singleton.1 h
      exact ⟨id, tested_of_env hloc rfl⟩
    · rename_i hs
      exact setNull_tested hw hloc (by rw [hs]; rintro ⟨⟩) h
    · rename_i hs
      exact setNull_tested hw hloc (by rw [hs]; rintro ⟨⟩) h
    · rename_i sum hs
      split at h
      · cases mem_singleton.1 h
      · rename_i heaps hu
        have cell {t : State} {b : Bool}
            (h : (t, .ok b) ∈ heaps.map fun heap =>
              (({ s with heap } : State), (.ok false : Except Defect Bool))) :
            ∃ θ, Tested W X loc s t b θ := by
          obtain ⟨heap, -, he⟩ := mem_map.1 h
          cases he
          exact ⟨id, tested_of_env hloc rfl⟩
        dsimp only at h
        split at h
        · rename_i o ho
          split at h
          · rename_i closed hc
            rcases mem_append.1 h with h | h
            · obtain ⟨hw₁, θ, hθ, hroot, hfix⟩ := closeSegment_renames hw hloc hs ho hc
              cases hv : o.value with
              | int =>
                rw [hv, testNull] at h
                cases mem_singleton.1 h
              | null =>
                rw [hv, testNull] at h
                cases mem_singleton.1 h
                refine ⟨θ, hθ, fun k hk hkX => hfix k hk ?_, fun _ => ⟨?_, P, hw₁⟩, Bool.noConfusion⟩
                · rintro rfl
                  exact hkX hloc
                · exact (hroot (by rw [hv]; exact Value.noConfusion)).trans hv
              | ptr j =>
                have hj : j ∈ X := (hw.next loc j ⟨sum, o, hs, ho, hv⟩).2 hloc
                rw [hv] at h
                obtain ⟨θ', hθ'⟩ := ih _ (factCount_closeSegment_lt hs hc) hw₁ hj h rfl
                exact hθ'.after_close hw hloc hs ho hc hv
            · exact cell h
          · exact cell h
          · cases mem_singleton.1 h
        · split at h
          · rename_i base hd
            rcases mem_cons.1 h with he | h
            · cases he
              exact ⟨_, discharge_tested hw hloc hd⟩
            · exact cell h
          · exact cell h

end

/-! ### Pointers that come to be the same -/

/-- Where the segment at a location is closed, segments go on to lead to another location. -/
theorem leadsTo_emptied {a j : Loc} (ha : s.heap.LeadsTo a k) (hk : k ≠ loc)
    (hend : s.heap.EndsAt loc j) :
    (s.emptied loc (.ptr j)).heap.LeadsTo (if a = loc then j else a) k := by
  induction ha using Relation.ReflTransGen.head_induction_on with
  | refl =>
    rw [if_neg hk]
    exact .refl
  | @head a a' hstep _ ih =>
    by_cases hal : a = loc
    · -- The segment that is closed leads to nothing but its hole.
      subst hal
      obtain ⟨sum, o, hs, ho, hv⟩ := hstep
      obtain ⟨sum', o', hs', ho', hv'⟩ := hend
      cases hs.symm.trans hs'
      cases ho.symm.trans ho'
      cases hv.symm.trans hv'
      rw [if_pos rfl]
      rwa [ite_self] at ih
    · rw [if_neg hal]
      refine .head (Heap.endsAt_emptied.2 ⟨hal, ?_⟩) ih
      by_cases ha' : a' = loc
      · subst ha'
        rw [if_pos rfl]
        exact .inl ⟨hstep, rfl⟩
      · rw [if_neg ha']
        exact .inr ⟨hstep, ha'⟩

/-- A test for null always has a case where the pointer stays as it is. -/
theorem testNull_stays (hp : s.Plain structs) (hk : s.heap.Knows (.ptr loc)) :
    ∃ s', (s', .ok false) ∈ s.testNull structs (.ptr loc) ∧ s'.env = s.env := by
  cases hs : s.heap.slot loc with
  | vacant =>
    rw [testNull_vacant (hk loc rfl) hs]
    exact ⟨s, .tail _ (.head _), rfl⟩
  | tombstone =>
    rw [testNull_tombstone hs]
    exact ⟨s, .head _, rfl⟩
  | occupied f =>
    rcases f with cell | sum | ⟨set, ty⟩
    · rw [testNull_cell hs]
      exact ⟨s, .head _, rfl⟩
    · obtain ⟨h, hu, -⟩ := hp.summary_cases hs
      refine ⟨{ s with heap := h }, ?_, rfl⟩
      rw [testNull_summary hp hs hu]
      rcases sum.hole with _ | o
      · exact .tail _ (.head _)
      · exact mem_append_right _ (mem_singleton_self _)
    · exact (hp.facts loc _ hs).elim

/-- If segments lead from a location to another one, a test of the first one has a case where
    the two are the same, and not null. -/
theorem testNull_meets (hp : s.Plain structs) (hknows : s.heap.Knows (.ptr loc))
    (hl : s.heap.LeadsTo loc k) :
    ∃ s' θ, (s', .ok false) ∈ s.testNull structs (.ptr loc) ∧ Renames s s' θ ∧
      θ (.ptr loc) = .ptr k ∧ θ (.ptr k) = .ptr k := by
  -- By induction on the number of facts: closing the first segment takes one away, and the
  -- others lead on.
  induction hn : s.heap.factCount using Nat.strong_induction_on generalizing s loc with
  | _ n ih =>
    subst hn
    by_cases hk : k = loc
    · subst hk
      obtain ⟨s', hs', henv⟩ := testNull_stays hp hknows
      exact ⟨s', id, hs', renames_of_env henv, rfl, rfl⟩
    · rcases Relation.ReflTransGen.cases_head hl with rfl | ⟨j, hend, hl⟩
      · exact absurd rfl hk
      · have hend' := hend
        obtain ⟨sum, o, hs, ho, hv⟩ := hend
        have hj := hp.closed loc _ hs _ (Fact.mem_values_of_hole ho (.head _))
        rw [hv] at hj
        have hreach := hp.emptied loc hj nofun
        have hl' := leadsTo_emptied hl hk hend'
        rw [show (if j = loc then j else j) = j from ite_self j] at hl'
        obtain ⟨s', θ, hs', hθ, hroot, hfix⟩ :=
          ih _ (factCount_emptied_lt hs) hreach.plain (hj.mono size_emptied.ge) hl' rfl
        obtain ⟨h, hu, -⟩ := hp.summary_cases hs
        refine ⟨s', _, ?_, (renames_emptied s loc (.ptr j)).trans hθ, ?_, ?_⟩
        · rw [testNull_summary hp hs hu, ho]
          refine mem_append_left _ ?_
          rw [hv]
          exact hs'
        · show θ (Value.subst (.ptr loc) loc (.ptr j)) = _
          rw [Value.subst_self]
          exact hroot
        · show θ (Value.subst (.ptr k) loc (.ptr j)) = _
          rw [subst_ptr_of_ne hk]
          exact hfix

end State

namespace Exec

variable {structs : Structs} {s s' : State} {x y : String} {v w : Value}

/-! ### Comparisons -/

/-- After a comparison the two variables hold the same value exactly if they were assumed to be
    equal. -/
def Splits (structs : Structs) (s : State) (x y : String) : Prop :=
  ∀ t s', (s', .ok ()) ∈ assume structs (.cmp true (.path (.ofVar x)) (.path (.ofVar y))) t s →
    (s'.lookup x = s'.lookup y ↔ t = true)

/-- A location that a comparison of two values may come to. -/
def OnWay (h : Heap) (v w : Value) (k : Loc) : Prop :=
  ∃ a, (v = .ptr a ∨ w = .ptr a) ∧ h.LeadsTo a k

/-- The segments at the first of two different locations lead to the second one. -/
def Meets (h : Heap) (v w : Value) : Prop :=
  ∃ a b, v = .ptr a ∧ w = .ptr b ∧ a ≠ b ∧ h.LeadsTo a b

/-- A comparison of two values does not make them the same by itself: segments do not lead
    from the first to the second, and a location that it may come to is not a parameter of a
    segment that it may close, unless it is a cell, a full summary, or freed. -/
structure Untangled (h : Heap) (v w : Value) : Prop where
  apart : ¬ Meets h v w
  params : ∀ a sum o, OnWay h v w a → h.slot a = .occupied (.summary sum) → sum.hole = some o →
    ∀ b, .ptr b ∈ sum.params.ptrs ++ o.params.ptrs → OnWay h v w b → h.Settled b

/-- The outcomes of a comparison of variables are those of a comparison of their values. -/
theorem mem_assume_cmp (hx : s.lookup x = .ok v) (hy : s.lookup y = .ok w) {t : Bool} :
    (s', .ok ()) ∈ assume structs (.cmp true (.path (.ofVar x)) (.path (.ofVar y))) t s ↔
      (s', .ok t) ∈ compare structs v w s := by
  have hread {z : String} {u : Value} (hz : s.lookup z = .ok u) :
      eval structs (.path (.ofVar z)) s = [(s, .ok u)] := by
    have hask : ask (fun s => s.lookup z) s = [(s, .ok u)] := by rw [ask, hz]
    exact bind_of_single hask
  rw [assume, bind_of_single (hread hx), bind_of_single (hread hy), mem_bind, Bool.true_beq]
  constructor
  · rintro (⟨s₁, same, hs₁, hs'⟩ | ⟨d, -, hd⟩)
    · split at hs'
      · rename_i he
        cases mem_singleton.1 hs'
        exact he ▸ hs₁
      · exact absurd hs' not_mem_nil
    · cases hd
  · intro h
    refine .inl ⟨s', t, h, ?_⟩
    rw [if_pos rfl]
    exact mem_singleton_self _

/-- The locations that an untangled comparison may come to. -/
theorem Untangled.ways (h : Untangled s.heap v w) : s.heap.Ways {k | OnWay s.heap v w k}
    {k | ∃ a, v = .ptr a ∧ s.heap.LeadsTo a k}
    {b | ∃ a sum o, OnWay s.heap v w a ∧ s.heap.slot a = .occupied (.summary sum) ∧
      sum.hole = some o ∧ .ptr b ∈ sum.params.ptrs ++ o.params.ptrs} where
  sub := by
    rintro k ⟨a, ha, hk⟩
    exact ⟨a, .inl ha, hk⟩
  next a b hab := by
    constructor
    · rintro ⟨c, hc, hca⟩
      exact ⟨c, hc, hca.tail hab⟩
    · rintro ⟨c, hc, hca⟩
      exact ⟨c, hc, hca.tail hab⟩
  params a sum o ha hs ho b hb := ⟨a, sum, o, ha, hs, ho, hb⟩
  settled b hb hbW := by
    obtain ⟨a, sum, o, ha, hs, ho, hb⟩ := hb
    exact h.params a sum o ha hs ho b hb hbW

/-- A comparison of untangled values splits the state. -/
theorem compare_splits (hx : s.lookup x = .ok v) (hy : s.lookup y = .ok w) (hv : v ≠ .int)
    (hw : w ≠ .int) (hu : Untangled s.heap v w) {same : Bool}
    (h : (s', .ok same) ∈ compare structs v w s) :
    s'.lookup x = s'.lookup y ↔ same = true := by
  have hways := hu.ways
  -- One side is null, and the test of the other one gives the answer.
  have null {z z' : String} {b : Loc} (hz : s.lookup z = .ok .null) (hz' : s.lookup z' = .ok (.ptr b))
      (hb : OnWay s.heap v w b) (h : (s', .ok same) ∈ s.testNull structs (.ptr b)) :
      s'.lookup z = s'.lookup z' ↔ same = true := by
    obtain ⟨θ, hθ⟩ := State.testNull_renames hways.all hb h
    rw [hθ.lookup z _ hz, hθ.lookup z' _ hz', hθ.null]
    cases same with
    | true => exact ⟨fun _ => rfl, fun _ => by rw [(hθ.yes rfl).1]⟩
    | false =>
      obtain ⟨j, -, hj⟩ := hθ.no rfl
      rw [hj]
      exact ⟨nofun, nofun⟩
  cases v with
  | int => exact absurd rfl hv
  | null =>
    cases w with
    | int => exact absurd rfl hw
    | null =>
      cases mem_singleton.1 h
      rw [hx, hy]
      exact ⟨fun _ => rfl, fun _ => rfl⟩
    | ptr b => exact null hx hy ⟨b, .inr rfl, .refl⟩ h
  | ptr a =>
    cases w with
    | int => exact absurd rfl hw
    | null =>
      rw [eq_comm]
      exact null hy hx ⟨a, .inl rfl, .refl⟩ h
    | ptr b =>
      by_cases hab : a = b
      · subst hab
        rw [compare, if_pos rfl] at h
        cases mem_singleton.1 h
        rw [hx, hy]
        exact ⟨fun _ => rfl, fun _ => rfl⟩
      · rw [compare, if_neg hab, mem_bind] at h
        have hbX : b ∉ {k | ∃ a', Value.ptr a = .ptr a' ∧ s.heap.LeadsTo a' k} := by
          rintro ⟨a', ha', hlead⟩
          cases ha'
          exact hu.apart ⟨a, b, rfl, rfl, hab, hlead⟩
        have hbW : OnWay s.heap (.ptr a) (.ptr b) b := ⟨b, .inr rfl, .refl⟩
        rcases h with ⟨s₁, first, h₁, h₂⟩ | ⟨d, -, hd⟩
        · obtain ⟨θ, hθ⟩ := State.testNull_renames hways ⟨a, rfl, .refl⟩ h₁
          have hx₁ := hθ.lookup x _ hx
          have hy₁ := hθ.lookup y _ hy
          rw [hθ.fixed b hbW hbX] at hy₁
          cases first with
          | false =>
            -- The first side is some location on its way, and the second one is not there.
            rw [if_neg Bool.false_ne_true] at h₂
            cases mem_singleton.1 h₂
            obtain ⟨j, hjX, hj⟩ := hθ.no rfl
            rw [hx₁, hy₁, hj]
            refine ⟨fun he => ?_, nofun⟩
            cases he
            exact absurd hjX hbX
          | true =>
            -- The first side is null, and the test of the second one gives the answer.
            rw [if_pos rfl] at h₂
            obtain ⟨hnull, Q, hways₁⟩ := hθ.yes rfl
            rw [hnull] at hx₁
            obtain ⟨θ', hθ'⟩ := State.testNull_renames hways₁.all hbW h₂
            rw [hθ'.lookup x _ hx₁, hθ'.lookup y _ hy₁, hθ'.null]
            cases same with
            | true => exact ⟨fun _ => rfl, fun _ => by rw [(hθ'.yes rfl).1]⟩
            | false =>
              obtain ⟨j, -, hj⟩ := hθ'.no rfl
              rw [hj]
              exact ⟨nofun, nofun⟩
        · cases hd

theorem splits_of_untangled (hx : s.lookup x = .ok v) (hy : s.lookup y = .ok w) (hv : v ≠ .int)
    (hw : w ≠ .int) (hu : Untangled s.heap v w) : Splits structs s x y := fun _ _ h =>
  compare_splits hx hy hv hw hu ((mem_assume_cmp hx hy).1 h)

/-- In a plain state no segment has parameters. -/
theorem untangled_of_plain (hp : s.Plain structs) (h : ¬ Meets s.heap v w) : Untangled s.heap v w := by
  refine ⟨h, fun a sum o _ hs ho b hb => ?_⟩
  have hplain : sum.Plain structs := hp.facts a _ hs
  have hlist : sum.pred = .list := hplain.kind.resolve_right fun ht => by
    rw [hplain.full ht] at ho
    cases ho
  have hptrs : sum.params.ptrs = [] := length_eq_zero_iff.1 (by rw [hplain.ptrs, hlist]; rfl)
  have hptrs' : o.params.ptrs = [] :=
    length_eq_zero_iff.1 (by rw [(hplain.hole o ho).2.2.1, hlist]; rfl)
  rw [hptrs, hptrs'] at hb
  exact absurd hb not_mem_nil

/-- If the segments at the first location lead to the second one, the two variables come to hold
    the same location, and are taken to differ. -/
theorem not_splits_of_meets (hp : s.Plain structs) (hx : s.lookup x = .ok v)
    (hy : s.lookup y = .ok w) (h : Meets s.heap v w) : ¬ Splits structs s x y := by
  obtain ⟨a, b, rfl, rfl, hab, hlead⟩ := h
  have hknows : s.heap.Knows (.ptr a) := by
    rw [State.lookup] at hx
    cases hb : s.env.get? x with
    | none =>
      rw [hb] at hx
      cases hx
    | some c =>
      rw [hb] at hx
      exact Except.ok.inj hx ▸ hp.vars x c hb
  obtain ⟨s', θ, hs', hθ, ha, hb⟩ := State.testNull_meets hp hknows hlead
  have hout : (s', .ok false) ∈ compare structs (.ptr a) (.ptr b) s := by
    rw [compare, if_neg hab]
    exact mem_bind.2 (.inl ⟨s', false, hs', mem_singleton_self _⟩)
  -- The comparison takes the two for different here, but both variables hold the second one.
  intro hsplit
  have heq : s'.lookup x = s'.lookup y := by
    rw [hθ.lookup x _ hx, hθ.lookup y _ hy, ha, hb]
  exact Bool.false_ne_true ((hsplit false s' ((mem_assume_cmp hx hy).2 hout)).1 heq)

/-- A comparison of two pointer variables splits a state if its sides are untangled. A plain
    state is split exactly if the segments at the location of the first variable do not lead
    to another location that the second one holds. -/
theorem comparison_splits_iff (hx : s.lookup x = .ok v) (hy : s.lookup y = .ok w) (hv : v ≠ .int)
    (hw : w ≠ .int) :
    (Untangled s.heap v w → Splits structs s x y) ∧
      (s.Plain structs → (Splits structs s x y ↔ ¬ Meets s.heap v w)) := by
  refine ⟨splits_of_untangled hx hy hv hw, fun hp => ⟨fun hsplit hmeets => ?_, fun hmeets => ?_⟩⟩
  · exact not_splits_of_meets hp hx hy hmeets hsplit
  · exact splits_of_untangled hx hy hv hw (untangled_of_plain hp hmeets)

/-- The cell at the end of a segment may be compared with the segment. -/
theorem comparison_splits_cell_first :
    Sample.state.lookup "y" = .ok (.ptr ⟨0⟩) ∧ Sample.state.lookup "x" = .ok (.ptr ⟨1⟩) ∧
      ¬ Meets Sample.state.heap (.ptr ⟨0⟩) (.ptr ⟨1⟩) ∧ Splits Sample.nodes Sample.state "y" "x" := by
  have hmeets : ¬ Meets Sample.state.heap (.ptr ⟨0⟩) (.ptr ⟨1⟩) := by
    rintro ⟨a, b, ha, hb, -, hlead⟩
    cases ha
    cases hb
    rcases Relation.ReflTransGen.cases_head hlead with he | ⟨c, ⟨sum, o, hs, -⟩, -⟩
    · cases he
    · cases hs
  exact ⟨rfl, rfl, hmeets,
    ((comparison_splits_iff (v := .ptr ⟨0⟩) (w := .ptr ⟨1⟩) rfl rfl nofun nofun).2 Sample.plain).2 hmeets⟩

/-- A segment may not be compared with the cell at its end: where it is empty, both variables
    hold this cell, and are taken to differ. -/
theorem comparison_of_segment_with_its_end : ¬ Splits Sample.nodes Sample.state "x" "y" := by
  refine not_splits_of_meets Sample.plain (v := .ptr ⟨1⟩) (w := .ptr ⟨0⟩) rfl rfl
    ⟨⟨1⟩, ⟨0⟩, rfl, rfl, nofun, .single ?_⟩
  exact ⟨⟨.list, ⟨0⟩, .none, some ⟨.ptr ⟨0⟩, .none⟩⟩, ⟨.ptr ⟨0⟩, .none⟩, rfl, rfl, rfl⟩

end Exec

end HeapShape
