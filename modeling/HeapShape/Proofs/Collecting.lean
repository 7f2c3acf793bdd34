import HeapShape.Proofs.FoldFrame
import HeapShape.Proofs.Merging
import Mathlib.Order.Bounds.Basic

/-!
# What is collected

What no variable leads to is forgotten: facts and tombstones alike. A location is led to by a field
of a cell, by a parameter of a summary, by the hole of a segment and by the parameters there, so the
facts of a heap are a graph, which may have cycles. What is kept is the smallest part that has the
roots and that no fact of it leads out of.

The search meets the same locations, in the same order, in what it has kept. So nothing is left to
collect.

* `Heap.Encloses`: a part of a heap that has the roots and that no fact of it leads out of;
* `Heap.isLeast_reachable`: the locations that are reachable are the smallest such part;
* `Heap.facts_collect`: the facts that are kept.
-/

namespace HeapShape

open List

namespace Arena

variable {α : Type}

theorem length_values (a : Arena α) : a.values.length = a.count := by
  rw [values, length_filterMap_eq_countP, a.count_eq]
  conv_rhs => rw [← zipIdx_map_fst 0 a.slots, countP_map]
  exact countP_congr fun e _ => by simp [Slot.isOccupied]

theorem values_keep (a : Arena α) (wanted : Nat → Bool) :
    (a.keep wanted).values = a.values.filter fun e => wanted e.1 := by
  rw [values_eq, values_eq, size_keep, filter_filterMap]
  refine congrArg (filterMap · _) (funext fun i => ?_)
  rw [value?, slot_keep, value?]
  split
  · cases (a.slot i).value? <;> simp [*, Option.filter]
  · cases (a.slot i).value? <;> simp [*, Option.filter, Slot.value?]

/-- Numbers that were given out are cleared one after the other without misuse. -/
theorem foldlM_clear (a : Arena α) (wanted : Nat → Bool) {numbers : List Nat}
    (h : ∀ i ∈ numbers, i < a.size) :
    numbers.foldlM (fun b i => if wanted i then .ok b else b.clear i) a =
      .ok (numbers.foldl (fun b i => if wanted i then b else b.vacate i) a) := by
  induction numbers generalizing a with
  | nil => rfl
  | cons j numbers ih =>
    obtain ⟨hj, hnumbers⟩ := forall_mem_cons.1 h
    have hstep : (if wanted j then .ok a else a.clear j) =
        Except.ok (if wanted j then a else a.vacate j) := by
      rw [clear_eq_ok hj]
      split <;> rfl
    rw [foldlM_cons, foldl_cons, hstep]
    refine ih _ fun i hi => ?_
    split
    · exact hnumbers i hi
    · exact (size_write ..).symm ▸ hnumbers i hi

theorem Slot.mem_values_node {s : HeapShape.Slot} {v : Value} :
    v ∈ s.node.values ↔ ∃ f, s = .occupied f ∧ v ∈ f.values := by
  rw [values_node]
  cases s <;> simp [value?]

end Arena

namespace Heap

/-- A set of locations has those of some values, and no fact of a location in it mentions one that is
    not. -/
structure Encloses (h : Heap) (roots : List Value) (S : Set Loc) : Prop where
  root : ∀ l, .ptr l ∈ roots → l ∈ S
  field : ∀ k ∈ S, ∀ c, h.slot k = .occupied (.cell c) → ∀ l, .ptr l ∈ c.fields → l ∈ S
  param : ∀ k ∈ S, ∀ s, h.slot k = .occupied (.summary s) → ∀ l, .ptr l ∈ s.params.ptrs → l ∈ S
  hole : ∀ k ∈ S, ∀ s o, h.slot k = .occupied (.summary s) → s.hole = some o →
    ∀ l, o.value = .ptr l → l ∈ S
  holeParam : ∀ k ∈ S, ∀ s o, h.slot k = .occupied (.summary s) → s.hole = some o →
    ∀ l, .ptr l ∈ o.params.ptrs → l ∈ S

variable {h : Heap} {roots : List Value} {l k : Loc} {S : Set Loc}

theorem mem_reachable : l ∈ h.reachable roots ↔ h.Reaches roots l := by
  rw [reachable, Sorted.mem_ofList, mem_reach]

theorem Encloses.values (hS : h.Encloses roots S) (hk : k ∈ S) {f : Fact}
    (hs : h.slot k = .occupied f) (hl : .ptr l ∈ f.values) : l ∈ S := by
  cases f with
  | cell c => exact hS.field k hk c hs l hl
  | member => cases hl
  | summary s =>
    rcases mem_append.1 hl with hl | hl
    · exact hS.param k hk s hs l hl
    · obtain ⟨o, ho, hl⟩ := mem_flatMap.1 hl
      have ho : s.hole = some o := Option.mem_toList.1 ho
      rcases mem_cons.1 hl with hl | hl
      · exact hS.hole k hk s o hs ho l hl.symm
      · exact hS.holeParam k hk s o hs ho l hl

theorem encloses_reachable (h : Heap) (roots : List Value) :
    h.Encloses roots {l | l ∈ h.reachable roots} := by
  simp only [mem_reachable]
  refine ⟨fun l hl => .root hl, fun k hk c hs l hl => hk.next hs hl, fun k hk s hs l hl => ?_,
    fun k hk s o hs ho l hl => ?_, fun k hk s o hs ho l hl => ?_⟩
  · exact hk.next hs (Fact.mem_values_of_param hl)
  · exact hk.next hs (Fact.mem_values_of_hole ho (hl ▸ .head _))
  · exact hk.next hs (Fact.mem_values_of_hole ho (.tail _ hl))

/-- What is reachable is the smallest part that has the roots and that no fact leads out of. -/
theorem isLeast_reachable (h : Heap) (roots : List Value) :
    IsLeast {S | h.Encloses roots S} {l | l ∈ h.reachable roots} := by
  refine ⟨encloses_reachable h roots, fun S hS l hl => ?_⟩
  induction mem_reachable.1 hl with
  | root hv => exact hS.root _ hv
  | @step k l hk hv ih =>
    obtain ⟨f, hs, hv⟩ := Arena.Slot.mem_values_node.1 hv
    exact hS.values (ih (mem_reachable.2 hk)) hs hv

/-! ### What is kept -/

/-- The facts that are kept are those at the locations that are reachable, in their order. -/
theorem facts_collect (h : Heap) (roots : List Value) :
    (h.collect roots).facts = h.facts.filter fun e => e.1 ∈ h.reachable roots := by
  rw [facts, facts, collect, keep, Arena.values_keep, filter_map]
  refine congrArg (List.map _) (filter_congr fun e _ => ?_)
  simp [reachable]

/-- What is kept when a heap is collected is kept when it is collected again. -/
theorem collect_collect (h : Heap) (roots : List Value) :
    ((h.collect roots).collect roots).arena = (h.collect roots).arena := by
  refine Arena.eq_of_slot (Arena.size_keep ..) fun i => ?_
  show ((h.collect roots).collect roots).slot ⟨i⟩ = (h.collect roots).slot ⟨i⟩
  rw [slot_collect, reach_collect, slot_collect]
  split <;> rfl

/-- Clearing the locations that are not reachable, one after the other, is no misuse. It leaves what
    is reachable as it was and nothing else, and the counter of the facts in step with them. This is
    the same when the heap is collected again. -/
theorem collect_exact (h : Heap) (roots : List Value) :
    IsLeast {S | h.Encloses roots S} {l | l ∈ h.reachable roots} ∧
    (range h.size).foldlM (fun a i => if ⟨i⟩ ∈ h.reachable roots then .ok a else a.clear i) h.arena =
      .ok (h.collect roots).arena ∧
    (∀ l, (h.collect roots).slot l = if l ∈ h.reachable roots then h.slot l else .vacant) ∧
    (h.collect roots).factCount = (h.facts.filter fun e => e.1 ∈ h.reachable roots).length ∧
    (h.collect roots).reachable roots = h.reachable roots ∧
    ∀ l, ((h.collect roots).collect roots).slot l = (h.collect roots).slot l := by
  refine ⟨isLeast_reachable h roots, ?_, fun l => ?_, ?_, ?_, fun l => ?_⟩
  · have hloop := h.arena.foldlM_clear (fun i => (h.reach roots).contains ⟨i⟩) fun i => mem_range.1
    simpa [reachable, size, collect, keep, Arena.keep] using hloop
  · rw [slot_collect]
    exact if_congr (mem_reach.trans mem_reachable.symm) rfl rfl
  · rw [← facts_collect, facts, length_map, Arena.length_values, factCount]
  · rw [reachable, reachable, reach_collect]
  · rw [slot, slot, collect_collect]

-- A cell leads to a segment, which leads back to it as a parameter and to a cell at its hole. A cell
-- that leads to all this, a tombstone and a member are not reachable.
example :
    let cell (v : Value) : Slot := .occupied (.cell ⟨⟨0⟩, [v]⟩)
    let hole : Hole := ⟨.ptr ⟨2⟩, ⟨[.null], []⟩⟩
    let seg : Slot := .occupied (.summary ⟨.tree, ⟨0⟩, ⟨[.ptr ⟨0⟩], []⟩, some hole⟩)
    let h : Heap := ⟨.ofSlots [cell (.ptr ⟨1⟩), seg, cell .null, cell (.ptr ⟨0⟩), .tombstone,
      .occupied (.member ⟨0⟩ ⟨0⟩)], .empty⟩
    (h.collect [.ptr ⟨1⟩]).arena =
      .ofSlots [cell (.ptr ⟨1⟩), seg, cell .null, .vacant, .vacant, .vacant] := by
  decide +kernel

end Heap

end HeapShape
