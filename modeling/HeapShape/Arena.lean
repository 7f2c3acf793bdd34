import HeapShape.Misuse

/-!
# Arenas

An arena gives out numbered slots and never gives out a number twice. A slot is
*vacant*, *occupied* by a value, or a *tombstone*: a slot that was released, which is
remembered so that a later use of it can be told from the use of a slot that never
held anything.

* `Arena.slot`: the slot with a number, vacant if the number was never given out. This
  is the view of an arena: `slot_write_self` and `slot_write_of_ne` say what a write
  does to it, `slot_alloc` what an allocation does;
* `Arena.count`: the number of occupied slots. It is a counter that each change of a slot
  moves, and an arena carries the proof that it is in step with its slots.
-/

namespace HeapShape

/-- The state of a slot. -/
inductive Arena.Slot (α : Type) where
  /-- Given out, and empty. -/
  | vacant
  /-- Holding a value. -/
  | occupied (a : α)
  /-- Released. -/
  | tombstone
  deriving DecidableEq, Inhabited

namespace Arena.Slot

variable {α : Type}

/-- The value in a slot. -/
def value? : Slot α → Option α
  | .occupied a => some a
  | _ => none

/-- Whether a slot holds a value. -/
def isOccupied (s : Slot α) : Bool := s.value?.isSome

/-- The slot with its value changed. -/
def map (f : α → α) : Slot α → Slot α
  | .occupied a => .occupied (f a)
  | s => s

@[simp] theorem isOccupied_map (f : α → α) (s : Slot α) : (s.map f).isOccupied = s.isOccupied := by
  cases s <;> rfl

end Arena.Slot

/-- Numbered slots, with a counter. -/
structure Arena (α : Type) where
  /-- The slots that were given out, in the order of their numbers. -/
  slots : List (Arena.Slot α)
  /-- The number of occupied slots. -/
  count : Nat
  /-- The counter is in step with the slots. -/
  count_eq : count = slots.countP Arena.Slot.isOccupied

namespace Arena

variable {α : Type}

/-- No slot. -/
def empty : Arena α := ⟨[], 0, rfl⟩

/-- Some slots, which are counted once. -/
def ofSlots (slots : List (Slot α)) : Arena α := ⟨slots, slots.countP Slot.isOccupied, rfl⟩

instance : Inhabited (Arena α) := ⟨empty⟩

/-- The slots determine the counter. -/
theorem eq_of_slots {a b : Arena α} (h : a.slots = b.slots) : a = b := by
  obtain ⟨as, _, rfl⟩ := a
  obtain ⟨bs, _, rfl⟩ := b
  cases h
  rfl

instance [DecidableEq α] : DecidableEq (Arena α) := fun a b =>
  decidable_of_iff (a.slots = b.slots) ⟨eq_of_slots, congrArg slots⟩

/-- How many numbers were given out. -/
def size (a : Arena α) : Nat := a.slots.length

/-- The slot with a number. A number that was never given out has a vacant slot. -/
def slot (a : Arena α) (i : Nat) : Slot α := a.slots.getD i .vacant

/-- The value in the slot with a number. -/
def value? (a : Arena α) (i : Nat) : Option α := (a.slot i).value?

/-- The values with the numbers of their slots, in order. -/
def values (a : Arena α) : List (Nat × α) :=
  a.slots.zipIdx.filterMap fun (s, i) => s.value?.map fun v => (i, v)

theorem getElem_slots {a : Arena α} {i : Nat} (h : i < a.slots.length) : a.slots[i] = a.slot i := by
  simp [slot, h]

/-- Replace the slot with a number, if it was given out. -/
def write (a : Arena α) (i : Nat) (s : Slot α) : Arena α where
  slots := a.slots.set i s
  count := if i < a.size then
      (a.count - if (a.slot i).isOccupied then 1 else 0) + if s.isOccupied then 1 else 0
    else a.count
  count_eq := by
    split
    · rename_i h
      rw [List.countP_set h, ← a.count_eq, getElem_slots h]
    · rename_i h
      rw [List.set_eq_of_length_le (Nat.le_of_not_lt h), ← a.count_eq]

/-- Give out a vacant slot. -/
def alloc (a : Arena α) : Nat × Arena α where
  fst := a.size
  snd := ⟨a.slots ++ [.vacant], a.count, by rw [List.countP_append, ← a.count_eq]; rfl⟩

/-- Give out a slot with a value. -/
def add (a : Arena α) (v : α) : Nat × Arena α where
  fst := a.size
  snd := ⟨a.slots ++ [.occupied v], a.count + 1, by rw [List.countP_append, ← a.count_eq]; rfl⟩

/-- Change every value. -/
def map (a : Arena α) (f : α → α) : Arena α where
  slots := a.slots.map (Slot.map f)
  count := a.count
  count_eq := by
    rw [a.count_eq, List.countP_map]
    congr 1
    funext s
    simp

/-- Empty a slot, also one that is a tombstone. -/
def vacate (a : Arena α) (i : Nat) : Arena α := a.write i .vacant

/-- Empty the slots whose numbers are not wanted, one after the other. -/
def keep (a : Arena α) (wanted : Nat → Bool) : Arena α :=
  (List.range a.size).foldl (fun b i => if wanted i then b else b.vacate i) a

/-! ### Requests that can be misused -/

/-- The slot with a number that was given out. -/
def entry (a : Arena α) (i : Nat) : Except Misuse (Slot α) :=
  if i < a.size then .ok (a.slot i) else .error .outOfBounds

/-- Fill a vacant slot. -/
def put (a : Arena α) (i : Nat) (v : α) : Except Misuse (Arena α) := do
  match ← a.entry i with
  | .vacant => .ok (a.write i (.occupied v))
  | _ => .error (.notVacant i)

/-- Empty a slot and tell what it held. A tombstone stays. -/
def take (a : Arena α) (i : Nat) : Except Misuse (Option α × Arena α) := do
  match ← a.entry i with
  | .occupied v => .ok (some v, a.write i .vacant)
  | _ => .ok (none, a)

/-- Turn a slot into a tombstone and tell what it held. -/
def release (a : Arena α) (i : Nat) : Except Misuse (Option α × Arena α) := do
  let s ← a.entry i
  .ok (s.value?, a.write i .tombstone)

/-- Empty a slot, also one that is a tombstone. -/
def clear (a : Arena α) (i : Nat) : Except Misuse (Arena α) := do
  let _ ← a.entry i
  .ok (a.vacate i)

/-! ### The view of an arena -/

@[simp] theorem size_write (a : Arena α) (i : Nat) (s : Slot α) : (a.write i s).size = a.size := by
  simp [write, size]

@[simp] theorem size_map (a : Arena α) (f : α → α) : (a.map f).size = a.size := by
  simp [map, size]

theorem slot_of_size_le {a : Arena α} {i : Nat} (h : a.size ≤ i) : a.slot i = .vacant := by
  simp only [size] at h
  simp [slot, h]

theorem lt_size_of_slot_ne {a : Arena α} {i : Nat} (h : a.slot i ≠ .vacant) : i < a.size := by
  apply Nat.lt_of_not_le
  exact fun hle => h (slot_of_size_le hle)

theorem slot_write_self {a : Arena α} {i : Nat} (h : i < a.size) (s : Slot α) :
    (a.write i s).slot i = s := by
  simp only [size] at h
  simp [slot, write, h]

theorem slot_write_of_ne (a : Arena α) {i j : Nat} (h : j ≠ i) (s : Slot α) :
    (a.write i s).slot j = a.slot j := by
  simp [slot, write, List.getD_eq_getElem?_getD, List.getElem?_set_ne (Ne.symm h)]

theorem write_slot (a : Arena α) (i : Nat) : a.write i (a.slot i) = a := by
  refine eq_of_slots ?_
  by_cases h : i < a.slots.length
  · simp [write, ← getElem_slots h]
  · exact List.set_eq_of_length_le (Nat.le_of_not_lt h)

/-- A fresh slot is vacant, as it was before it was given out. -/
@[simp] theorem slot_alloc (a : Arena α) (i : Nat) : a.alloc.2.slot i = a.slot i := by
  simp only [slot, alloc, List.getD_eq_getElem?_getD, List.getElem?_append]
  split
  · rfl
  · rename_i h
    rw [List.getElem?_eq_none (Nat.le_of_not_lt h)]
    cases i - a.slots.length <;> rfl

@[simp] theorem slot_map (a : Arena α) (f : α → α) (i : Nat) : (a.map f).slot i = (a.slot i).map f := by
  simp only [slot, map, List.getD_eq_getElem?_getD, List.getElem?_map]
  cases a.slots[i]? <;> rfl

/-- The values are found slot by slot. -/
theorem values_eq (a : Arena α) :
    a.values = (List.range a.size).filterMap fun i => (a.value? i).map fun v => (i, v) := by
  have hslots : a.slots.zipIdx = (List.range a.size).map fun i => (a.slot i, i) := by
    refine List.ext_getElem (by simp [size]) fun i hi hi' => ?_
    rw [List.getElem_zipIdx, List.getElem_map, List.getElem_range, getElem_slots, Nat.zero_add]
  rw [values, hslots, List.filterMap_map]
  rfl

/-! ### Clearing slots -/

theorem slot_vacate (a : Arena α) (i j : Nat) :
    (a.vacate i).slot j = if j = i then .vacant else a.slot j := by
  split
  · rename_i h
    subst h
    by_cases hj : j < a.size
    · exact slot_write_self hj _
    · exact slot_of_size_le (by rwa [vacate, size_write, ← Nat.not_lt])
  · rename_i h
    exact slot_write_of_ne a h _

/-- A number that was given out is cleared without misuse. -/
theorem clear_eq_ok {a : Arena α} {i : Nat} (h : i < a.size) : a.clear i = .ok (a.vacate i) := by
  rw [clear, entry, if_pos h]
  rfl

/-- What the clearing of some numbers, one after the other, leaves. -/
theorem foldl_vacate (a : Arena α) (wanted : Nat → Bool) (numbers : List Nat) :
    let b := numbers.foldl (fun b i => if wanted i then b else b.vacate i) a
    b.size = a.size ∧ ∀ i, b.slot i = if i ∈ numbers ∧ wanted i = false then .vacant else a.slot i := by
  induction numbers generalizing a with
  | nil => simp
  | cons j numbers ih =>
    obtain ⟨hsize, hslot⟩ := ih (if wanted j then a else a.vacate j)
    refine ⟨hsize.trans ?_, fun i => (hslot i).trans ?_⟩
    · cases wanted j <;> simp [vacate]
    · cases hj : wanted j with
      | true =>
        have hij : i = j → wanted i ≠ false := by rintro rfl; simp [hj]
        grind
      | false => grind [slot_vacate]

@[simp] theorem size_keep (a : Arena α) (wanted : Nat → Bool) : (a.keep wanted).size = a.size :=
  (foldl_vacate a wanted _).1

theorem slot_keep (a : Arena α) (wanted : Nat → Bool) (i : Nat) :
    (a.keep wanted).slot i = if wanted i then a.slot i else .vacant := by
  rw [keep, (foldl_vacate a wanted _).2]
  by_cases hi : i < a.size
  · cases wanted i <;> simp [hi]
  · simp [hi, slot_of_size_le (Nat.le_of_not_lt hi)]

/-! ### The number of values -/

@[simp] theorem count_map (a : Arena α) (f : α → α) : (a.map f).count = a.count := rfl

/-- A write to an occupied slot gives up its value, and counts the one that is written. -/
theorem count_write_of_occupied {a : Arena α} {i : Nat} {v : α} (h : a.slot i = .occupied v)
    (s : Slot α) : (a.write i s).count + 1 = a.count + if s.isOccupied then 1 else 0 := by
  have hi : i < a.slots.length := lt_size_of_slot_ne (by rw [h]; nofun)
  have hocc : (a.slot i).isOccupied = true := by rw [h]; rfl
  have hpos : 0 < a.count := by
    rw [a.count_eq]
    exact List.countP_pos_iff.2 ⟨_, List.getElem_mem hi, by rwa [getElem_slots hi]⟩
  simp only [write, size, if_pos hi, if_pos hocc]
  omega

end Arena

end HeapShape
