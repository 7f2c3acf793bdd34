/-!
# What edges lead to

The points that some edges lead to from given ones, breadth first. The edges are a
finite list, and every step either takes a waiting point away or uses up the edges of a
new one, so the search ends, also on cycles.

* `Reach.closure`: the points reached, in the order in which they are met;
* `Reach.Leads`: the relation that the search decides.
-/

namespace HeapShape.Reach

variable {α : Type} [DecidableEq α]

/-- The points that the edges of a point lead to. -/
def next (edges : List (α × α)) (a : α) : List α :=
  edges.filterMap fun (b, c) => if b = a then some c else none

/-- The edges that start at no point seen before. -/
def unused (edges : List (α × α)) (seen : List α) : List (α × α) :=
  edges.filter fun (b, _) => b ∉ seen

theorem length_unused_le (edges : List (α × α)) (seen : List α) (a : α) :
    (unused edges (seen ++ [a])).length + (next edges a).length ≤
      (unused edges seen).length + (if a ∈ seen then (next edges a).length else 0) := by
  induction edges with
  | nil => simp [unused, next]
  | cons e edges ih =>
    obtain ⟨b, c⟩ := e
    simp only [unused, next, List.filter_cons, List.filterMap_cons] at ih ⊢
    by_cases hba : b = a
    · subst hba
      by_cases hs : b ∈ seen
      · simp [hs] at ih ⊢
        omega
      · simp [hs] at ih ⊢
        omega
    · by_cases hs : b ∈ seen
      · simpa [hs, hba] using ih
      · simp [hs, hba] at ih ⊢
        omega

/-- The points seen and those that the edges lead to from waiting ones. -/
def visit (edges : List (α × α)) : List α → List α → List α
  | [], seen => seen
  | a :: waiting, seen =>
    if a ∈ seen then visit edges waiting seen
    else visit edges (waiting ++ next edges a) (seen ++ [a])
  termination_by waiting seen => waiting.length + (unused edges seen).length
  decreasing_by
    · simp
    · have := length_unused_le edges seen a
      simp_all
      omega

/-- The points that the edges lead to from some points, these included. -/
def closure (edges : List (α × α)) (start : List α) : List α := visit edges start []

/-- The relation that there is a way along the edges. -/
inductive Leads (edges : List (α × α)) : α → α → Prop where
  /-- No edge. -/
  | refl (a : α) : Leads edges a a
  /-- One edge more. -/
  | step {a b c : α} : Leads edges a b → (b, c) ∈ edges → Leads edges a c

end HeapShape.Reach
