import HeapShape.Proofs.FoldFrame
import HeapShape.Proofs.Merging
import HeapShape.Proofs.Widening

/-!
# Widening and what variables hold

Widening goes from place to place, but at a place it only ever does two things: it folds the cell
there, or it moves the hole of the segment there forward. Neither takes a cut, and neither starts a
fold at one. So a location that a variable holds has the same slot in the widened heap, but for the
hole of a segment.

* `Heap.Moves`: what is done at a location;
* `Heap.moves_of_widenAt`, `Heap.moves_of_widenAll`: a step of widening is a row of moves at one
  location, and a run is a row of moves;
* `Heap.Moves.slot_of_ne`, `Heap.Moves.keptAs`: what a move changes elsewhere, and at cuts;
* `Heap.widen_keeps_cuts`: what widening leaves of a location that a variable holds.
-/

namespace HeapShape

open Relation

/-- What widening does at a location: it folds the cell there, or it lets the segment there take
    over what is at its hole. -/
inductive Heap.Moves (structs : Structs) (cuts : List Loc) (loc : Loc) (h : Heap) : Heap → Prop
  | fold {c : Cell} {p : Predicate} {s : Summary} {h₁ : Heap} (hs : h.slot loc = .occupied (.cell c))
      (hcut : loc ∉ cuts) (hp : p ∈ Predicate.candidates structs c.ty)
      (hg : h.gather structs loc p none cuts = .ok (s, h₁)) :
      Moves structs cuts loc h (h₁.write loc (.occupied (.summary s)))
  | extend {s rest : Summary} {next : Loc} {params : Params} {h₁ : Heap}
      (hs : h.slot loc = .occupied (.summary s)) (ho : s.hole = some ⟨.ptr next, params⟩)
      (hne : next ≠ loc) (hcut : next ∉ cuts)
      (ht : h.takeRest structs cuts s next params = .ok (some (rest, h₁))) :
      Moves structs cuts loc h (h₁.setHole loc rest.hole)

namespace Heap

variable {structs : Structs} {cuts : List Loc} {h h₁ h' : Heap} {loc next k : Loc} {s rest : Summary}
  {params : Params} {new : List Loc} {p : Predicate}

/-! ### Steps and runs as moves -/

theorem moves_of_extend (he : h.extend structs cuts loc = .ok h') :
    ReflTransGen (Moves structs cuts loc) h h' := by
  have hk : ExtensionKeeps structs cuts (fun _ => False) (ReflTransGen (Moves structs cuts loc) h) loc :=
    fun _ _ _ _ hm hs ho hne hcut => .of_forall (fun _ => id) fun _ ht rest h₁ hr =>
      hm.tail (.extend hs ho hne hcut (hr ▸ ht))
  exact (extend_yields hk .refl).of_ok he

theorem moves_of_fold {c : Cell} (hs : h.slot loc = .occupied (.cell c)) (hcut : loc ∉ cuts)
    (hp : p ∈ Predicate.candidates structs c.ty) {r : Heap × Option Hole}
    (hf : h.fold structs (.ptr loc) p none cuts = .ok r) : Moves structs cuts loc h r.1 := by
  obtain ⟨⟨s, h₁⟩, hg, hr⟩ := ok_of_bind hf
  cases hr
  exact .fold hs hcut hp hg

theorem moves_of_foldFirst {c : Cell} (hs : h.slot loc = .occupied (.cell c)) (hcut : loc ∉ cuts)
    (hf : h.foldFirst structs cuts loc (Predicate.candidates structs c.ty) = .ok (some h')) :
    Moves structs cuts loc h h' := by
  have hy : Yields (fun _ => False) (h.foldFirst structs cuts loc (Predicate.candidates structs c.ty))
      fun r => ∀ h', r = some h' → Moves structs cuts loc h h' :=
    foldFirst_yields fun p hp => .of_forall not_badRefusal fun r hr => moves_of_fold hs hcut hp hr
  exact hy.of_ok hf h' rfl

/-- What a step of widening does: the heap after it, and the locations where folding goes on. -/
inductive WidensAt (structs : Structs) (cuts : List Loc) (loc : Loc) (h : Heap) : Heap → List Loc → Prop
  | stay {c : Cell} (hs : h.slot loc = .occupied (.cell c))
      (hno : loc ∈ cuts ∨ h.foldFirst structs cuts loc (Predicate.candidates structs c.ty) = .ok none) :
      WidensAt structs cuts loc h h (below c cuts)
  | fold {c : Cell} {h₁ h' : Heap} (hs : h.slot loc = .occupied (.cell c)) (hcut : loc ∉ cuts)
      (hf : h.foldFirst structs cuts loc (Predicate.candidates structs c.ty) = .ok (some h₁))
      (he : h₁.extend structs cuts loc = .ok h') : WidensAt structs cuts loc h h' []
  | extend {s : Summary} {h' : Heap} (hs : h.slot loc = .occupied (.summary s))
      (he : h.extend structs cuts loc = .ok h') : WidensAt structs cuts loc h h' []
  | pass (hc : ∀ c, h.slot loc ≠ .occupied (.cell c)) (hs : ∀ s, h.slot loc ≠ .occupied (.summary s)) :
      WidensAt structs cuts loc h h []

theorem widensAt_of_widenAt (hw : h.widenAt structs cuts loc = .ok (h', new)) :
    WidensAt structs cuts loc h h' new := by
  rw [widenAt] at hw
  split at hw
  · rename_i c hs
    dsimp only at hw
    split at hw
    · rename_i hcut
      cases hw
      exact .stay hs (.inl hcut)
    · rename_i hcut
      obtain ⟨_ | h₁, hf, hw⟩ := ok_of_bind hw
      · cases hw
        exact .stay hs (.inr hf)
      · obtain ⟨h₂, he, hw⟩ := ok_of_bind hw
        cases hw
        exact .fold hs hcut hf he
  · rename_i s hs
    obtain ⟨h₁, he, hw⟩ := ok_of_bind hw
    cases hw
    exact .extend hs he
  · rename_i hc hs
    cases hw
    exact .pass hc hs

/-- A step of widening is a row of moves at its location. -/
theorem moves_of_widenAt (hw : h.widenAt structs cuts loc = .ok (h', new)) :
    ReflTransGen (Moves structs cuts loc) h h' := by
  cases widensAt_of_widenAt hw with
  | stay => exact .refl
  | fold hs hcut hf he => exact .head (moves_of_foldFirst hs hcut hf) (moves_of_extend he)
  | extend hs he => exact moves_of_extend he
  | pass => exact .refl

/-- A run of widening is a row of moves. -/
theorem moves_of_widenAll {unseen waiting : List Loc}
    (hw : widenAll structs cuts h unseen waiting = .ok h') :
    ReflTransGen (fun h h' => ∃ loc, Moves structs cuts loc h h') h h' := by
  have hk : WideningKeeps structs cuts (fun _ => False)
      (ReflTransGen (fun h h' => ∃ loc, Moves structs cuts loc h h') h) :=
    { fold := fun hm hs hcut hp => .of_forall not_badRefusal fun r hr =>
        hm.tail ⟨_, moves_of_fold hs hcut hp hr⟩
      extend := fun loc _ _ _ _ hm hs ho hne hcut => .of_forall (fun _ => id) fun _ ht rest h₁ hr =>
        hm.tail ⟨loc, .extend hs ho hne hcut (hr ▸ ht)⟩ }
  exact (hk.widenAll .refl unseen waiting).of_ok hw

/-! ### The frame of a move -/

/-- A structure that is taken out leaves all else, and the cuts that are not its root. -/
theorem slot_of_gather {ps : Option Params} (hg : h.gather structs loc p ps cuts = .ok (s, h₁)) :
    h₁.slot k = h.slot k ∨ h₁.slot k = .vacant ∧ (k ≠ loc → k ∉ cuts) := by
  obtain ⟨ty, layout, q, sets, st, hsearch, -, rfl⟩ := gather_eq_ok hg
  exact (hsearch.within.slot k).imp_right fun ⟨hv, ht⟩ => ⟨hv, ht.free⟩

theorem size_of_gather {ps : Option Params} (hg : h.gather structs loc p ps cuts = .ok (s, h₁)) :
    h₁.size = h.size := by
  obtain ⟨ty, layout, q, sets, st, hsearch, -, rfl⟩ := gather_eq_ok hg
  exact hsearch.within.size

/-- What a segment goes on with is a structure that is taken out, or the segment at its hole. -/
theorem takeRest_eq_some (ht : h.takeRest structs cuts s next params = .ok (some (rest, h₁))) :
    (∃ c, h.slot next = .occupied (.cell c) ∧
      h.gather structs next s.pred (some params) cuts = .ok (rest, h₁)) ∨
    (h.slot next = .occupied (.summary rest) ∧ rest.pred = s.pred ∧ rest.ty = s.ty ∧
      rest.params = params ∧ h₁ = h.write next .vacant) := by
  rw [takeRest] at ht
  split at ht
  · rename_i c hs
    split at ht
    · rename_i r hg
      cases ht
      exact .inl ⟨c, hs, hg⟩
    · cases ht
    · cases ht
  · rename_i rest' hs
    split at ht
    · rename_i hsame
      cases ht
      exact .inr ⟨hs, hsame.1, hsame.2.1, hsame.2.2, rfl⟩
    · cases ht
  · cases ht

theorem slot_of_takeRest (hcut : next ∉ cuts)
    (ht : h.takeRest structs cuts s next params = .ok (some (rest, h₁))) :
    h₁.slot k = h.slot k ∨ h₁.slot k = .vacant ∧ k ∉ cuts := by
  have hfree (hk : k ≠ next → k ∉ cuts) : k ∉ cuts := by
    by_cases he : k = next
    · exact he ▸ hcut
    · exact hk he
  rcases takeRest_eq_some ht with ⟨c, -, hg⟩ | ⟨-, -, -, -, rfl⟩
  · exact (slot_of_gather hg).imp_right fun ⟨hv, hk⟩ => ⟨hv, hfree hk⟩
  · rw [slot_write_vacant]
    split
    · rename_i he
      exact .inr ⟨rfl, he ▸ hcut⟩
    · exact .inl rfl

theorem slot_setHole_of_ne (hk : k ≠ loc) (hole : Option Hole) :
    (h.setHole loc hole).slot k = h.slot k := by
  rw [setHole]
  split
  · exact slot_write_of_ne hk _
  · rfl

theorem slot_setHole (hs : h.slot loc = .occupied (.summary s)) (hole : Option Hole) :
    (h.setHole loc hole).slot loc = .occupied (.summary { s with hole }) := by
  rw [setHole, summary?_of_slot hs]
  exact slot_write_self (lt_size_of_occupied hs) _

/-- Away from its location a move only empties slots, and not at cuts. -/
theorem Moves.slot_of_ne (hm : Moves structs cuts loc h h') (hk : k ≠ loc) :
    h'.slot k = h.slot k ∨ h'.slot k = .vacant ∧ k ∉ cuts := by
  cases hm with
  | fold hs hcut hp hg =>
    rw [slot_write_of_ne hk]
    exact (slot_of_gather hg).imp_right fun ⟨hv, hfree⟩ => ⟨hv, hfree hk⟩
  | extend hs ho hne hcut ht =>
    rw [slot_setHole_of_ne hk]
    exact slot_of_takeRest hcut ht

/-! ### Cuts -/

end Heap

/-- A slot as widening leaves it at a cut: a segment may have another hole, or none any more. -/
def Slot.KeptAs (a b : Slot) : Prop :=
  b = a ∨ ∃ s o, a = .occupied (.summary s) ∧ s.hole ≠ none ∧ b = .occupied (.summary { s with hole := o })

theorem Slot.KeptAs.trans {a b c : Slot} (hab : a.KeptAs b) (hbc : b.KeptAs c) : a.KeptAs c := by
  rcases hab with rfl | ⟨s, o, rfl, hs, rfl⟩
  · exact hbc
  · rcases hbc with rfl | ⟨s', o', he, -, rfl⟩
    · exact .inr ⟨s, o, rfl, hs, rfl⟩
    · cases he
      exact .inr ⟨s, o', rfl, hs, rfl⟩

namespace Heap

variable {structs : Structs} {cuts : List Loc} {roots : List Value} {h h' : Heap} {loc c : Loc}

/-- A move keeps what is at a cut: it starts no fold there, and takes nothing from there. -/
theorem Moves.keptAs (hm : Moves structs cuts loc h h') (hc : c ∈ cuts) :
    (h.slot c).KeptAs (h'.slot c) := by
  by_cases hne : c = loc
  · subst hne
    cases hm with
    | fold hs hcut hp hg => exact absurd hc hcut
    | @extend s rest next params h₁ hs ho hne hcut ht =>
      have hslot : h₁.slot c = .occupied (.summary s) := by
        rcases slot_of_takeRest (k := c) hcut ht with hk | ⟨-, hk⟩
        · rw [hk, hs]
        · exact absurd hc hk
      exact .inr ⟨s, rest.hole, hs, ho ▸ Option.some_ne_none _, slot_setHole hslot _⟩
  · exact .inl ((hm.slot_of_ne hne).resolve_right fun hk => hk.2 hc)

theorem keptAs_of_moves (hm : ReflTransGen (fun h h' => ∃ loc, Moves structs cuts loc h h') h h')
    (hc : c ∈ cuts) : (h.slot c).KeptAs (h'.slot c) := by
  induction hm with
  | refl => exact .inl rfl
  | tail _ hstep ih =>
    obtain ⟨loc, hstep⟩ := hstep
    exact ih.trans (hstep.keptAs hc)

/-- What a value leads to first is kept when a heap is collected. -/
theorem slot_collect_root (h : Heap) (hc : .ptr c ∈ roots) : (h.collect roots).slot c = h.slot c := by
  rw [slot_collect, if_pos (mem_reach.2 (.root hc))]

theorem widen_eq_ok (hw : h.widen structs roots = .ok h') :
    ∃ h₁, widenAll structs (roots.filterMap Value.loc?) h h.locs (roots.filterMap Value.loc?) = .ok h₁ ∧
      h' = h₁.collect roots := by
  obtain ⟨h₁, hall, hr⟩ := ok_of_bind hw
  cases hr
  exact ⟨h₁, hall, rfl⟩

/-- Widening does not touch what variables hold. A location that is the value of a root has the same
    slot in the widened heap, unless it has a summary. Then it has a summary with the same
    predicate, structure and parameters, and a full summary stays full. -/
theorem widen_keeps_cuts (hw : h.widen structs roots = .ok h') (hc : .ptr c ∈ roots) :
    ((∀ s, h.slot c ≠ .occupied (.summary s)) → h'.slot c = h.slot c) ∧
    (∀ s, h.slot c = .occupied (.summary s) →
      ∃ o, h'.slot c = .occupied (.summary { s with hole := o }) ∧ (s.hole = none → o = none)) := by
  obtain ⟨h₁, hall, rfl⟩ := widen_eq_ok hw
  have hcut : c ∈ roots.filterMap Value.loc? := List.mem_filterMap.2 ⟨.ptr c, hc, rfl⟩
  rw [slot_collect_root h₁ hc]
  rcases keptAs_of_moves (moves_of_widenAll hall) hcut with hk | ⟨s, o, hs, hseg, hk⟩
  · exact ⟨fun _ => hk, fun s hs => ⟨s.hole, hk.trans hs, id⟩⟩
  · refine ⟨fun hno => absurd hs (hno s), fun s' hs' => ?_⟩
    cases hs.symm.trans hs'
    exact ⟨o, hk, fun hnone => absurd hnone hseg⟩

/-- A segment that a variable holds takes over the node at its hole, and is a list of the same
    structure with the same parameters. -/
theorem widen_keeps_cuts_seam :
    ∃ h', (seam .list ⟨0⟩ ⟨⟨0⟩, [.null]⟩).widen Sample.oneList [.ptr ⟨1⟩] = .ok h' ∧
      ∃ o, h'.slot ⟨1⟩ = .occupied (.summary ⟨.list, ⟨0⟩, .nulls .list, o⟩) := by
  have hl : Predicate.list.layout? Sample.oneList ⟨0⟩ = some (Shape.list 0).layout := rfl
  obtain ⟨shape, hpred, hlayout, decl, hdecl, hat⟩ := Shape.exists_of_layout (.inl rfl) hl
  cases hdecl
  rw [hpred, hlayout] at hl
  obtain ⟨h', hw, -⟩ := seam_widen ⟨0⟩ hl hat
  rw [← hpred] at hw
  obtain ⟨-, hsum⟩ := widen_keeps_cuts hw (.head _)
  obtain ⟨o, ho, -⟩ := hsum _ rfl
  exact ⟨h', hw, o, ho⟩

end Heap

end HeapShape
