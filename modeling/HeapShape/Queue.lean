/-!
# Queues

A queue gives its elements back in the order in which they came. It is kept in two parts,
of which the second one, with the newest elements, is in reverse, so that an element is
added and taken in constant time on the average.

* `Queue.toList`: the elements in order. This is the view of a queue: `toList_push` and
  `toList_of_pop?` say what the operations do to it.
-/

namespace HeapShape

/-- A queue. -/
structure Queue (α : Type) where
  /-- The oldest elements, in order. -/
  front : List α
  /-- The newest elements, in reverse. -/
  back : List α

namespace Queue

variable {α : Type}

/-- The queue without elements. -/
def empty : Queue α := ⟨[], []⟩

/-- The elements of a queue, the oldest first. -/
def toList (q : Queue α) : List α := q.front ++ q.back.reverse

/-- Add an element. -/
def push (q : Queue α) (a : α) : Queue α := { q with back := a :: q.back }

/-- Take the oldest element. -/
def pop? (q : Queue α) : Option (α × Queue α) :=
  match q.front with
  | a :: front => some (a, { q with front })
  | [] =>
    match q.back.reverse with
    | a :: front => some (a, ⟨front, []⟩)
    | [] => none

@[simp] theorem toList_empty : (empty : Queue α).toList = [] := rfl

@[simp] theorem toList_push (q : Queue α) (a : α) : (q.push a).toList = q.toList ++ [a] := by
  simp [toList, push]

theorem toList_of_pop? {q q' : Queue α} {a : α} (h : q.pop? = some (a, q')) :
    q.toList = a :: q'.toList := by
  unfold pop? at h
  split at h
  · rename_i front hf
    simp only [Option.some.injEq, Prod.mk.injEq] at h
    simp [toList, hf, ← h.1, ← h.2]
  · rename_i hf
    split at h
    · rename_i front hb
      simp only [Option.some.injEq, Prod.mk.injEq] at h
      simp [toList, hf, hb, ← h.1, ← h.2]
    · simp at h

theorem pop?_eq_none {q : Queue α} : q.pop? = none ↔ q.toList = [] := by
  unfold pop?
  split
  · rename_i hf
    simp [toList, hf]
  · rename_i hf
    split
    · rename_i hb
      simp [toList, hf, hb]
    · rename_i hb
      simp [toList, hf, hb]

end Queue

end HeapShape
