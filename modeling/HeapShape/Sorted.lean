/-!
# Sorted lists without repeats

A finite set of things that have an order is kept as the list of its elements in
increasing order. Two sets with the same elements are then the same list.
-/

namespace HeapShape.Sorted

variable {α : Type} [LT α] [DecidableLT α] [DecidableEq α]

/-- Put an element at its place, unless it is there. -/
def insert (a : α) : List α → List α
  | [] => [a]
  | b :: l => if a < b then a :: b :: l else if a = b then b :: l else b :: insert a l

/-- The elements of a list in order, each once. -/
def ofList (l : List α) : List α := l.foldr insert []

theorem mem_insert {a b : α} {l : List α} : b ∈ insert a l ↔ b = a ∨ b ∈ l := by
  induction l with
  | nil => simp [insert]
  | cons c l ih =>
    simp only [insert]
    split
    · simp
    · split
      · rename_i h
        subst h
        simp
      · simp only [List.mem_cons, ih]
        exact or_left_comm

@[simp] theorem mem_ofList {b : α} {l : List α} : b ∈ ofList l ↔ b ∈ l := by
  induction l with
  | nil => simp [ofList]
  | cons a l ih =>
    rw [show ofList (a :: l) = insert a (ofList l) from rfl, mem_insert, ih, List.mem_cons]

end HeapShape.Sorted
