import HeapShape.Proofs.Constraints
import Mathlib.Data.List.Chain
import Mathlib.Logic.Function.Iterate

/-!
# Inclusion is reachability

The inclusions that a store records, splits among them, are the edges of a graph on
representatives. It may have cycles. Whether one set is included in another is answered by a search
breadth first in this graph, which looks for the representative of the other set.

* `Reach.Search.turn`: one turn of a search;
* `Reach.Search.exists_turns`: the search for a point comes to it, or else to its end, after no more
  turns than there are points that wait and edges that no turn has used up;
* `Reach.leads_iff_exists_path`: what edges lead to, by paths;
* `SetStore.isSubset_iff_exists_path`: the answer, and the turns that it takes.
-/

namespace HeapShape

open List

/-! ### The search, turn by turn -/

namespace Reach

variable {α : Type} {edges : List (α × α)} {a b target : α}

/-- A search that is under way. -/
structure Search (α : Type) where
  /-- The points that wait, the next one first. -/
  waiting : List α
  /-- The points that were seen, the first one first. -/
  seen : List α

namespace Search

variable [DecidableEq α] {q : Search α}

/-- One turn of a search: the next point is passed over if it was seen before, and else the points
    that its edges lead to wait as well. -/
def turn (edges : List (α × α)) : Search α → Search α
  | ⟨[], seen⟩ => ⟨[], seen⟩
  | ⟨a :: waiting, seen⟩ =>
    if a ∈ seen then ⟨waiting, seen⟩ else ⟨waiting ++ next edges a, seen ++ [a]⟩

/-- The points that are seen when no point waits any more. -/
def met (edges : List (α × α)) (q : Search α) : List α := visit edges q.waiting q.seen

/-- The points that wait, and the edges of points that were not seen. -/
def left (edges : List (α × α)) (q : Search α) : Nat := q.waiting.length + (unused edges q.seen).length

/-- At the start only one point waits, and all edges are left. -/
theorem left_start (edges : List (α × α)) (a : α) : left edges ⟨[a], []⟩ = edges.length + 1 := by
  have hunused : unused edges [] = edges := filter_eq_self.2 fun _ _ => by simp
  rw [left, hunused, length_singleton, Nat.add_comm]

theorem met_turn (edges : List (α × α)) (q : Search α) : (q.turn edges).met edges = q.met edges := by
  obtain ⟨_ | ⟨a, waiting⟩, seen⟩ := q
  · rfl
  · simp only [turn, met]
    by_cases ha : a ∈ seen
    · rw [if_pos ha, visit, if_pos ha]
    · rw [if_neg ha, visit, if_neg ha]

theorem left_turn_lt (edges : List (α × α)) (h : q.waiting ≠ []) : (q.turn edges).left edges < q.left edges := by
  obtain ⟨_ | ⟨a, waiting⟩, seen⟩ := q
  · exact absurd rfl h
  · simp only [turn]
    split
    · simp only [left, length_cons]
      omega
    · rename_i ha
      have hle := length_unused_le edges seen a
      rw [if_neg ha] at hle
      simp only [left, length_cons, length_append]
      omega

theorem mem_met (h : a ∈ q.waiting ∨ a ∈ q.seen) : a ∈ q.met edges := by
  obtain ⟨waiting, seen⟩ := q
  simp only [met] at h ⊢
  induction waiting, seen using visit.induct edges with
  | case1 seen =>
    rw [visit]
    exact h.resolve_left not_mem_nil
  | case2 b waiting seen hb ih =>
    rw [visit, if_pos hb]
    refine ih ?_
    rcases h with h | h
    · rcases mem_cons.1 h with rfl | h
      · exact .inr hb
      · exact .inl h
    · exact .inr h
  | case3 b waiting seen hb ih =>
    rw [visit, if_neg hb]
    refine ih ?_
    rcases h with h | h
    · rcases mem_cons.1 h with rfl | h
      · exact .inr (mem_append_right _ (mem_singleton_self _))
      · exact .inl (mem_append_left _ h)
    · exact .inr (mem_append_left _ h)

/-- Only the next point is seen in a turn. -/
theorem not_mem_seen_turn (hseen : target ∉ q.seen) (hnext : q.waiting.head? ≠ some target) :
    target ∉ (q.turn edges).seen := by
  obtain ⟨_ | ⟨a, waiting⟩, seen⟩ := q
  · exact hseen
  · simp only [turn]
    split
    · exact hseen
    · refine not_mem_append hseen fun hmem => hnext ?_
      rw [mem_singleton.1 hmem]
      rfl

/-- The search for a point comes to it, or else to its end, and then has not seen it. -/
theorem exists_turns (edges : List (α × α)) (hseen : target ∉ q.seen) : ∃ n ≤ q.left edges,
    ((turn edges)^[n] q).waiting.head? = some target ∧ target ∈ q.met edges ∨
      (turn edges)^[n] q = ⟨[], q.met edges⟩ ∧ target ∉ q.met edges := by
  induction hk : q.left edges using Nat.strong_induction_on generalizing q with
  | _ k ih =>
    by_cases hnext : q.waiting.head? = some target
    · exact ⟨0, Nat.zero_le _, .inl ⟨hnext, mem_met (.inl (mem_of_mem_head? hnext))⟩⟩
    · by_cases hw : q.waiting = []
      · have hmet : q.met edges = q.seen := by rw [met, hw, visit]
        refine ⟨0, Nat.zero_le _, .inr ⟨?_, hmet ▸ hseen⟩⟩
        rw [hmet, ← hw]
        rfl
      · have hlt := left_turn_lt edges hw
        obtain ⟨n, hn, hend⟩ := ih _ (hk ▸ hlt) (not_mem_seen_turn hseen hnext) rfl
        rw [met_turn] at hend
        refine ⟨n + 1, by omega, ?_⟩
        rwa [Function.iterate_succ_apply]

end Search

/-! ### Paths -/

/-- What edges lead to, as a path of points each of which has an edge to the next one. -/
theorem leads_iff_exists_path : Leads edges a b ↔ ∃ path : List α,
    path.head? = some a ∧ path.getLast? = some b ∧ path.IsChain fun x y => (x, y) ∈ edges := by
  have htrans : Leads edges a b ↔ Relation.ReflTransGen (fun x y => (x, y) ∈ edges) a b := by
    constructor
    · intro h
      induction h with
      | refl => exact .refl
      | step _ he ih => exact ih.tail he
    · intro h
      induction h with
      | refl => exact .refl a
      | tail _ he ih => exact ih.step he
  rw [htrans]
  constructor
  · intro h
    obtain ⟨path, hne, hchain, hhead, hlast⟩ := exists_isChain_ne_nil_of_relationReflTransGen h
    exact ⟨path, by rw [head?_eq_some_head hne, hhead], by rw [getLast?_eq_some_getLast hne, hlast], hchain⟩
  · rintro ⟨path, hhead, hlast, hchain⟩
    have hne : path ≠ [] := by
      rintro rfl
      cases hhead
    have h := relationReflTransGen_of_exists_isChain path hchain hne
    rw [head?_eq_some_head hne] at hhead
    rw [getLast?_eq_some_getLast hne] at hlast
    rwa [Option.some.inj hhead, Option.some.inj hlast] at h

end Reach

/-! ### Inclusion -/

namespace SetStore

/-- It is recorded, as itself or by a split, that a set is included in another one, where the two
    have the representatives `x` and `y`. -/
def Recorded (s : SetStore) (x y : SetVar) : Prop :=
  (∃ p ∈ s.subsets, s.resolve p.1 = x ∧ s.resolve p.2 = y) ∨
    ∃ p ∈ s.splits, s.resolve p.rest = x ∧ s.resolve p.whole = y

theorem mem_edges_iff_recorded {s : SetStore} {x y : SetVar} : (x, y) ∈ s.edges ↔ s.Recorded x y := by
  simp only [mem_edges, Recorded, Prod.mk.injEq]

theorem leads_edges_iff_exists_path {s : SetStore} {x y : SetVar} : Reach.Leads s.edges x y ↔
    ∃ path : List SetVar, path.head? = some x ∧ path.getLast? = some y ∧ path.IsChain s.Recorded := by
  simp only [Reach.leads_iff_exists_path, mem_edges_iff_recorded]

theorem length_edges (s : SetStore) : s.edges.length = s.subsets.length + s.splits.length := by
  rw [edges, length_append, length_map, length_map]

/-- A set is included in another if and only if they are aliases, or the first one is known to be
    empty, or there is a path of recorded inclusions between their representatives. To find out, the
    search takes at most one turn more than there are inclusions recorded: it comes to the second set,
    or it ends with all that can be reached, and the answer is then whether the first set is empty. -/
theorem isSubset_iff_exists_path (s : SetStore) (a b : SetVar) :
    (s.isSubset a b = true ↔ s.resolve a = s.resolve b ∨ s.isKnownEmpty a = true ∨
      ∃ path : List SetVar, path.head? = some (s.resolve a) ∧ path.getLast? = some (s.resolve b) ∧
        path.IsChain s.Recorded) ∧
    ∃ n ≤ s.subsets.length + s.splits.length + 1,
      let q := (Reach.Search.turn s.edges)^[n] ⟨[s.resolve a], []⟩
      q.waiting.head? = some (s.resolve b) ∧ s.isSubset a b = true ∨
        q = ⟨[], Reach.closure s.edges [s.resolve a]⟩ ∧ s.isSubset a b = s.isKnownEmpty a := by
  have hmet : s.resolve b ∈ Reach.closure s.edges [s.resolve a] ↔
      Reach.Leads s.edges (s.resolve a) (s.resolve b) := by
    rw [Reach.mem_closure]
    simp only [mem_singleton, exists_eq_left]
  constructor
  · rw [isSubset_iff, leads_edges_iff_exists_path]
    constructor
    · exact .inr
    · rintro (heq | h)
      · exact .inr ⟨[s.resolve a], rfl, congrArg some heq, .singleton _⟩
      · exact h
  · have hseen : s.resolve b ∉ (⟨[s.resolve a], []⟩ : Reach.Search SetVar).seen := not_mem_nil
    obtain ⟨n, hn, hend⟩ := Reach.Search.exists_turns s.edges hseen
    rw [Reach.Search.left_start, length_edges] at hn
    refine ⟨n, hn, hend.imp (And.imp_right fun h => ?_) (And.imp_right fun h => ?_)⟩
    · exact isSubset_iff.2 (.inr (hmet.1 h))
    · rw [Bool.eq_iff_iff, isSubset_iff, or_iff_left (mt hmet.2 h)]

-- Two sets that include each other do not keep the search for a third one going.
example : isSubset ⟨.empty, [⟨0⟩, ⟨1⟩, ⟨2⟩], [(⟨0⟩, ⟨1⟩), (⟨1⟩, ⟨0⟩)], [], []⟩ ⟨0⟩ ⟨2⟩ = false := by
  decide +kernel

end SetStore

end HeapShape
