import HeapShape.Heap
import Mathlib.Data.Finmap

/-!
# Operations on a heap, slot by slot

What each operation on a heap does to the slot of every location and to the number of
locations given out. Later proofs look at heaps only through these lemmas.

* `Heap.slot_write`, `Heap.slot_subst`, `Heap.slot_fresh`, `Heap.slot_add`: the operations;
* `Heap.Forgets`: a heap that is known to say less;
* `Heap.grow_write`: the locations for the fields of a cell do not depend on the slot of the
  cell;
* `Heap.Closed`: every location that is mentioned was given out.
-/

namespace HeapShape

open List

theorem Loc.eq_of_index {a b : Loc} (h : a.index = b.index) : a = b := by
  cases a; cases b; cases h; rfl

theorem Arena.slot_add {α : Type} (a : Arena α) (v : α) (i : Nat) :
    (a.add v).2.slot i = if i = a.size then .occupied v else a.slot i := by
  simp only [slot, add, size, getD_eq_getElem?_getD, getElem?_append]
  rcases Nat.lt_trichotomy i a.slots.length with h | h | h
  · rw [if_pos h, if_neg (Nat.ne_of_lt h)]
  · subst h
    simp
  · have h₁ : [Slot.occupied v][i - a.slots.length]? = none :=
      getElem?_eq_none (by rw [length_singleton]; omega)
    rw [if_neg (by omega), if_neg (by omega), h₁, getElem?_eq_none (Nat.le_of_lt h)]

/-- An arena is known by its slots. -/
theorem Arena.eq_of_slot {α : Type} {a b : Arena α} (hsize : a.size = b.size)
    (hslot : ∀ i, a.slot i = b.slot i) : a = b := by
  refine eq_of_slots (ext_getElem hsize fun i hi hi' => ?_)
  rw [getElem_slots hi, getElem_slots hi', hslot]

theorem forall₂_getElem? {α β : Type} {R : α → β → Prop} {l : List α} {k : List β}
    (h : List.Forall₂ R l k) (i : Nat) : Option.Rel R l[i]? k[i]? := by
  induction h generalizing i with
  | nil => exact .none
  | cons hab _ ih =>
    cases i with
    | zero => exact .some hab
    | succ i => exact ih i

/-- The values that the content of a field mentions. -/
def Content.values : Content → List Value
  | .value v => [v]
  | .unknown => []
  | .fact f => f.values

namespace Heap

variable {h h₁ h₂ : Heap} {loc k : Loc} {f : Fact} {w : Value} {c : Content} {cs : List Content}

/-! ### Slots that were given out -/

theorem lt_size_of_slot_ne (hs : h.slot loc ≠ .vacant) : loc.index < h.size :=
  Arena.lt_size_of_slot_ne hs

theorem lt_size_of_occupied (hs : h.slot loc = .occupied f) : loc.index < h.size :=
  lt_size_of_slot_ne (by rw [hs]; simp)

theorem eq_of_slot (hsize : h₁.size = h.size) (hslot : ∀ k, h₁.slot k = h.slot k)
    (hsets : h₁.sets = h.sets) : h₁ = h :=
  congrArg₂ Heap.mk (Arena.eq_of_slot hsize fun i => hslot ⟨i⟩) hsets

theorem slot_of_size_le (hle : h.size ≤ loc.index) : h.slot loc = .vacant :=
  Arena.slot_of_size_le hle

theorem cell?_of_slot {c : Cell} (hs : h.slot loc = .occupied (.cell c)) : h.cell? loc = some c := by
  rw [cell?, fact?, hs]
  rfl

theorem summary?_of_slot {s : Summary} (hs : h.slot loc = .occupied (.summary s)) :
    h.summary? loc = some s := by
  rw [summary?, fact?, hs]
  rfl

theorem summary?_of_cell {c : Cell} (hs : h.slot loc = .occupied (.cell c)) : h.summary? loc = none := by
  rw [summary?, fact?, hs]
  rfl

/-! ### Writing -/

@[simp] theorem size_write (s : Slot) : (h.write loc s).size = h.size := Arena.size_write ..

theorem slot_write_self (hl : loc.index < h.size) (s : Slot) : (h.write loc s).slot loc = s :=
  Arena.slot_write_self hl s

theorem slot_write_of_ne (hk : k ≠ loc) (s : Slot) : (h.write loc s).slot k = h.slot k :=
  Arena.slot_write_of_ne _ (fun he => hk (Loc.eq_of_index he)) s

theorem slot_write (hl : loc.index < h.size) (s : Slot) (k : Loc) :
    (h.write loc s).slot k = if k = loc then s else h.slot k := by
  split
  · rename_i hk
    rw [hk, slot_write_self hl]
  · rename_i hk
    rw [slot_write_of_ne hk]

/-- Emptying a slot that was not given out does nothing. -/
theorem slot_write_vacant (h : Heap) (loc k : Loc) :
    (h.write loc .vacant).slot k = if k = loc then .vacant else h.slot k :=
  (Arena.slot_vacate h.arena loc.index k.index).trans (if_congr ⟨Loc.eq_of_index, congrArg _⟩ rfl rfl)

/-- A fact was written, or was there before. -/
theorem occupied_write_cases {s : Slot} (hs : (h.write loc s).slot k = .occupied f) :
    k = loc ∧ s = .occupied f ∨ k ≠ loc ∧ h.slot k = .occupied f := by
  by_cases hk : k = loc
  · have hl : k.index < h.size := size_write s ▸ lt_size_of_occupied hs
    subst hk
    exact .inl ⟨rfl, (slot_write_self hl s).symm.trans hs⟩
  · exact .inr ⟨hk, slot_write_of_ne hk s ▸ hs⟩

theorem of_occupied_write {s : Slot} (hv : s.value? = none) (hs : (h.write loc s).slot k = .occupied f) :
    k ≠ loc ∧ h.slot k = .occupied f := by
  refine (occupied_write_cases hs).resolve_left ?_
  rintro ⟨-, rfl⟩
  cases hv

/-! ### Forgetting -/

/-- A heap that says the same of some locations and nothing of the others. -/
structure Forgets (h h' : Heap) : Prop where
  size : h'.size = h.size
  slot : ∀ k, h'.slot k = h.slot k ∨ h'.slot k = .vacant

theorem Forgets.refl (h : Heap) : h.Forgets h := ⟨rfl, fun _ => .inl rfl⟩

theorem Forgets.trans (hf : h.Forgets h₁) (hf' : h₁.Forgets h₂) : h.Forgets h₂ where
  size := hf'.size.trans hf.size
  slot k := by
    rcases hf'.slot k with hk | hk
    · rw [hk]
      exact hf.slot k
    · exact .inr hk

theorem Forgets.occupied (hf : h.Forgets h₁) {k : Loc} (hs : h₁.slot k = .occupied f) :
    h.slot k = .occupied f := by
  rcases hf.slot k with hk | hk
  · rw [← hk, hs]
  · rw [hs] at hk
    cases hk

theorem forgets_vacate (h : Heap) (loc : Loc) : h.Forgets (h.write loc .vacant) where
  size := size_write _
  slot k := by
    rw [slot_write_vacant]
    split
    · exact .inr rfl
    · exact .inl rfl

/-! ### Putting a value in the place of a location -/

@[simp] theorem size_subst (w : Value) : (h.subst loc w).size = h.size := Arena.size_map ..

theorem slot_subst (h : Heap) (loc : Loc) (w : Value) (k : Loc) :
    (h.subst loc w).slot k = (h.slot k).map (Fact.mapValues (·.subst loc w)) := Arena.slot_map ..

theorem slot_subst_eq_occupied : (h.subst loc w).slot k = .occupied f ↔
      ∃ g, h.slot k = .occupied g ∧ f = g.mapValues (·.subst loc w) := by
  rw [slot_subst]
  cases h.slot k <;> simp [Arena.Slot.map, eq_comm]

theorem slot_subst_eq_tombstone : (h.subst loc w).slot k = .tombstone ↔ h.slot k = .tombstone := by
  rw [slot_subst]
  cases h.slot k <;> simp [Arena.Slot.map]

/-! ### New locations -/

@[simp] theorem size_fresh (h : Heap) : h.fresh.2.size = h.size + 1 := by
  simp [size, fresh, Arena.alloc, Arena.size]

theorem slot_fresh (h : Heap) (k : Loc) : h.fresh.2.slot k = h.slot k := Arena.slot_alloc ..

@[simp] theorem size_add (h : Heap) (f : Fact) : (h.add f).2.size = h.size + 1 := by
  simp [size, add, Arena.add, Arena.size]

theorem slot_add (h : Heap) (f : Fact) (k : Loc) :
    (h.add f).2.slot k = if k = ⟨h.size⟩ then .occupied f else h.slot k := by
  refine (Arena.slot_add h.arena f k.index).trans ?_
  by_cases hk : k = ⟨h.size⟩
  · subst hk
    rw [if_pos rfl]
    exact if_pos rfl
  · rw [if_neg hk]
    exact if_neg fun he => hk (Loc.eq_of_index he)

theorem add_eq_write (h : Heap) (f : Fact) :
    (h.add f).2 = h.fresh.2.write ⟨h.size⟩ (.occupied f) := by
  refine congrArg ({ h with arena := · }) (Arena.eq_of_slots ?_)
  simp [fresh, Arena.alloc, Arena.write, size, Arena.size]

theorem ne_of_lt_size (hk : k.index < h.size) : k ≠ ⟨h.size⟩ := by
  rintro rfl
  exact Nat.lt_irrefl _ hk

theorem grow_cons (h : Heap) (c : Content) (cs : List Content) :
    h.grow (c :: cs) = ((h.place c).1 :: ((h.place c).2.grow cs).1, ((h.place c).2.grow cs).2) := rfl

theorem size_le_place (h : Heap) (c : Content) : h.size ≤ (h.place c).2.size := by
  cases c with
  | value v => exact Nat.le_refl _
  | unknown => exact (size_fresh h).symm ▸ Nat.le_succ _
  | fact f => exact (size_add h f).symm ▸ Nat.le_succ _

theorem size_le_grow (h : Heap) (cs : List Content) : h.size ≤ (h.grow cs).2.size := by
  induction cs generalizing h with
  | nil => exact Nat.le_refl _
  | cons c cs ih => exact (size_le_place h c).trans (ih _)

theorem slot_place_of_lt (hk : k.index < h.size) (c : Content) : (h.place c).2.slot k = h.slot k := by
  cases c with
  | value v => rfl
  | unknown => exact slot_fresh h k
  | fact f => exact (slot_add h f k).trans (if_neg (ne_of_lt_size hk))

theorem slot_grow_of_lt (hk : k.index < h.size) (cs : List Content) :
    (h.grow cs).2.slot k = h.slot k := by
  induction cs generalizing h with
  | nil => rfl
  | cons c cs ih =>
    rw [grow_cons, ih (hk.trans_le (size_le_place h c)), slot_place_of_lt hk]

/-- A new location has the fact that was asked for. -/
theorem occupied_place_cases (hs : (h.place c).2.slot k = .occupied f) :
    h.slot k = .occupied f ∨ c = .fact f := by
  cases c with
  | value v => exact .inl hs
  | unknown => exact .inl ((slot_fresh h k).symm.trans hs)
  | fact g =>
    have hs : (h.add g).2.slot k = .occupied f := hs
    rw [slot_add] at hs
    split at hs
    · exact .inr (congrArg Content.fact (Arena.Slot.occupied.inj hs))
    · exact .inl hs

theorem occupied_grow_cases (hs : (h.grow cs).2.slot k = .occupied f) :
    h.slot k = .occupied f ∨ .fact f ∈ cs := by
  induction cs generalizing h with
  | nil => exact .inl hs
  | cons c cs ih =>
    rcases ih hs with hs | hmem
    · rcases occupied_place_cases hs with hs | rfl
      · exact .inl hs
      · exact .inr (.head _)
    · exact .inr (.tail _ hmem)

theorem place_write (hl : loc.index < h.size) (s : Slot) (c : Content) :
    (h.write loc s).place c = ((h.place c).1, (h.place c).2.write loc s) := by
  have hset (t : Slot) : (h.arena.slots ++ [t]).set loc.index s = h.arena.slots.set loc.index s ++ [t] :=
    set_append_left _ _ hl
  cases c with
  | value v => rfl
  | unknown =>
    refine Prod.ext ?_ (congrArg ({ h with arena := · }) (Arena.eq_of_slots (hset .vacant).symm))
    exact congrArg (Value.ptr ⟨·⟩) (Arena.size_write ..)
  | fact f =>
    refine Prod.ext ?_ (congrArg ({ h with arena := · }) (Arena.eq_of_slots (hset (.occupied f)).symm))
    exact congrArg (Value.ptr ⟨·⟩) (Arena.size_write ..)

/-- The slot of a location does not matter for new locations. -/
theorem grow_write (hl : loc.index < h.size) (s : Slot) (cs : List Content) :
    (h.write loc s).grow cs = ((h.grow cs).1, (h.grow cs).2.write loc s) := by
  induction cs generalizing h with
  | nil => rfl
  | cons c cs ih =>
    rw [grow_cons, grow_cons, place_write hl, ih (hl.trans_le (size_le_place h c))]

theorem write_write (s t : Slot) : (h.write loc s).write loc t = h.write loc t := by
  refine congrArg ({ h with arena := · }) (Arena.eq_of_slots ?_)
  simp [write, Arena.write]

/-! ### Locations that are mentioned -/

/-- A value is null, a scalar, or a location that was given out. -/
def Knows (h : Heap) (v : Value) : Prop := ∀ loc, v = .ptr loc → loc.index < h.size

/-- Every location that a fact mentions was given out. -/
def Closed (h : Heap) : Prop := ∀ loc f, h.slot loc = .occupied f → ∀ v ∈ f.values, h.Knows v

theorem Knows.mono {h' : Heap} {v : Value} (hv : h.Knows v) (hle : h.size ≤ h'.size) : h'.Knows v :=
  fun loc he => (hv loc he).trans_le hle

theorem knows_null (h : Heap) : h.Knows .null := fun _ he => by cases he

theorem knows_int (h : Heap) : h.Knows .int := fun _ he => by cases he

theorem knows_ptr : h.Knows (.ptr loc) ↔ loc.index < h.size :=
  ⟨fun hk => hk loc rfl, fun hl _ he => by cases he; exact hl⟩

theorem Knows.subst {v : Value} (hv : h.Knows v) (hw : h.Knows w) : h.Knows (v.subst loc w) := by
  rw [Value.subst]
  split
  · exact hw
  · exact hv

theorem Closed.subst (hc : h.Closed) (hw : h.Knows w) : (h.subst loc w).Closed := by
  intro k f hf v hv
  obtain ⟨g, hg, rfl⟩ := slot_subst_eq_occupied.1 hf
  rw [Fact.values_mapValues, mem_map] at hv
  obtain ⟨u, hu, rfl⟩ := hv
  exact ((hc k g hg u hu).subst hw).mono (size_subst w).ge

theorem Closed.empty (hc : h.Closed) (loc : Loc) {s : Slot} (hs : s.value? = none) :
    (h.write loc s).Closed := fun k f hf v hv =>
  (hc k f (of_occupied_write hs hf).2 v hv).mono (size_write _).ge

theorem Closed.write (hc : h.Closed) (hf : ∀ v ∈ f.values, h.Knows v) :
    (h.write loc (.occupied f)).Closed := by
  intro k g hg v hv
  refine Knows.mono ?_ (size_write _).ge
  obtain ⟨-, he⟩ | ⟨-, hg⟩ := occupied_write_cases hg
  · cases he
    exact hf v hv
  · exact hc k g hg v hv

theorem knows_place (hv : ∀ v ∈ c.values, h.Knows v) : (h.place c).2.Knows (h.place c).1 := by
  cases c with
  | value v => exact hv v (.head _)
  | unknown => exact knows_ptr.2 ((size_fresh h).symm ▸ Nat.lt_succ_self _)
  | fact f => exact knows_ptr.2 ((size_add h f).symm ▸ Nat.lt_succ_self _)

theorem Closed.place (hc : h.Closed) (hv : ∀ v ∈ c.values, h.Knows v) : (h.place c).2.Closed := by
  intro k f hf v hmem
  refine Knows.mono ?_ (size_le_place h c)
  rcases occupied_place_cases hf with hf | rfl
  · exact hc k f hf v hmem
  · exact hv v hmem

theorem knows_grow (hcs : ∀ c ∈ cs, ∀ v ∈ c.values, h.Knows v) :
    ∀ v ∈ (h.grow cs).1, (h.grow cs).2.Knows v := by
  induction cs generalizing h with
  | nil => exact fun v hv => absurd hv not_mem_nil
  | cons c cs ih =>
    rw [grow_cons]
    refine forall_mem_cons.2 ⟨?_, ih fun d hd v hv => ?_⟩
    · exact (knows_place (hcs c (.head _))).mono (size_le_grow _ cs)
    · exact (hcs d (.tail _ hd) v hv).mono (size_le_place h c)

theorem Closed.grow (hc : h.Closed) (hcs : ∀ c ∈ cs, ∀ v ∈ c.values, h.Knows v) :
    (h.grow cs).2.Closed := by
  intro k f hf v hmem
  refine Knows.mono ?_ (size_le_grow h cs)
  rcases occupied_grow_cases hf with hf | hin
  · exact hc k f hf v hmem
  · exact hcs _ hin v hmem

end Heap

end HeapShape
