import HeapShape.Proofs.Condensing
import HeapShape.Proofs.Judging
import HeapShape.Proofs.ReadBack

/-!
# What operations retain

Operations on a state read and write through pointers, and take pointers apart into cases. They
put values in the place of locations, fill locations and give out new ones. None of them touches
what is freed: a tombstone stays, and so does every pointer to it, in variables and in fields,
unless the operation writes to this variable or field.

* `State.Sound`: a sound heap, and variables that hold values that can be used;
* `State.Retains`: tombstones stay, and so do the pointers to them;
* `State.Proceeds`: both together. Each operation proceeds to its outcomes, and none of its
  outcomes is the misuse of a table (`Exec.Ensures`);
* `Exec.Composed.proceeds`, `State.judge_yields`: the operations that a program is made of;
* `Exploration.perform_each`: what follows for every instruction.
-/

namespace HeapShape

open List

theorem NameMap.mem_of_mem_insert {α : Type} {m : NameMap α} {name : String} {a : α} {e : String × α}
    (he : e ∈ (m.insert name a).entries) : e = (name, a) ∨ e ∈ m.entries := by
  obtain ⟨l⟩ := m
  simp only [insert] at he
  induction l with
  | nil => exact .inl (mem_singleton.1 he)
  | cons e' l ih => grind [insertEntry]

/-- What an instruction writes to. A variable that comes into scope or leaves it counts, and so
    does one that becomes the root of an instance. -/
def Instr.writes : Instr → Writes
  | .decl var _ => ⟨[var], []⟩
  | .assign lhs _ => lhs.writes
  | .alloc lhs _ => lhs.writes
  | .kill vars => ⟨vars, []⟩
  | .directive (.addInductive var _ _) => ⟨[var], []⟩
  | .free _ | .assert _ | .directive _ => .none

/-! ### Heaps -/

namespace Heap

/-- Tombstones stay. Cells stay or are freed, and their fields go on to point to tombstones. -/
structure Retains (fields : List Nat) (h h' : Heap) : Prop where
  size : h.size ≤ h'.size
  sets : h.sets.reprs.length ≤ h'.sets.reprs.length
  freed : ∀ l, h.slot l = .tombstone → h'.slot l = .tombstone
  cells : ∀ k c, h.slot k = .occupied (.cell c) → h'.slot k = .tombstone ∨
    ∃ c', h'.slot k = .occupied (.cell c') ∧ ∀ l i, h.slot l = .tombstone → i ∉ fields →
      c.fields[i]? = some (.ptr l) → c'.fields[i]? = some (.ptr l)

variable {fields : List Nat} {h h' h'' : Heap} {loc k : Loc} {w : Value}

theorem Retains.trans (hr : h.Retains fields h') (hr' : h'.Retains fields h'') :
    h.Retains fields h'' where
  size := hr.size.trans hr'.size
  sets := hr.sets.trans hr'.sets
  freed l hl := hr'.freed l (hr.freed l hl)
  cells k c hk := by
    rcases hr.cells k c hk with ht | ⟨c₁, hk₁, hc₁⟩
    · exact .inl (hr'.freed k ht)
    · rcases hr'.cells k c₁ hk₁ with ht | ⟨c₂, hk₂, hc₂⟩
      · exact .inl ht
      · exact .inr ⟨c₂, hk₂, fun l i hl hi hv => hc₂ l i (hr.freed l hl) hi (hc₁ l i hl hi hv)⟩

/-- Tombstones and cells may not be touched. -/
theorem retains_of_slots (hsize : h.size ≤ h'.size)
    (hsets : h.sets.reprs.length ≤ h'.sets.reprs.length)
    (hslot : ∀ k, (h.slot k = .tombstone ∨ ∃ c, h.slot k = .occupied (.cell c)) → h'.slot k = h.slot k) :
    h.Retains fields h' where
  size := hsize
  sets := hsets
  freed l hl := (hslot l (.inl hl)).trans hl
  cells k c hk := .inr ⟨c, (hslot k (.inr ⟨c, hk⟩)).trans hk, fun _ _ _ _ hv => hv⟩

theorem retains_withSets {sets : SetStore} (hg : h.sets.Grows sets) : h.Retains fields { h with sets } :=
  retains_of_slots (Nat.le_refl _) hg.length fun _ _ => rfl

theorem Retains.refl (h : Heap) : h.Retains fields h :=
  retains_of_slots (Nat.le_refl _) (Nat.le_refl _) fun _ _ => rfl

/-- A location is neither freed nor a cell. -/
def Loose (h : Heap) (loc : Loc) : Prop :=
  h.slot loc ≠ .tombstone ∧ ∀ c, h.slot loc ≠ .occupied (.cell c)

theorem loose_of_vacant (hk : h.slot loc = .vacant) : h.Loose loc := by
  rw [Loose, hk]
  exact ⟨nofun, nofun⟩

theorem loose_of_summary {s : Summary} (hk : h.slot loc = .occupied (.summary s)) : h.Loose loc := by
  rw [Loose, hk]
  exact ⟨nofun, nofun⟩

theorem loose_of_not_settled (hk : ¬ h.Settled loc) : h.Loose loc := by
  constructor
  · intro ht
    rw [Settled, ht] at hk
    exact hk trivial
  · intro c hc
    rw [Settled, hc] at hk
    exact hk trivial

theorem retains_write {t : Slot} (hk : h.Loose loc) : h.Retains fields (h.write loc t) := by
  refine retains_of_slots (size_write _).ge (Nat.le_refl _) fun k hslot => slot_write_of_ne ?_ _
  rintro rfl
  rcases hslot with ht | ⟨c, hc⟩
  · exact hk.1 ht
  · exact hk.2 c hc

/-- A location that is no tombstone may give way to another value. -/
theorem retains_subst (hs : h.slot loc ≠ .tombstone) : h.Retains fields (h.subst loc w) where
  size := (size_subst w).ge
  sets := Nat.le_refl _
  freed l hl := slot_subst_eq_tombstone.2 hl
  cells k c hk := by
    refine .inr ⟨_, slot_subst_eq_occupied.2 ⟨.cell c, hk, rfl⟩, fun l i hl _ hv => ?_⟩
    have hne : l ≠ loc := by
      rintro rfl
      exact hs hl
    show (c.fields.map (·.subst loc w))[i]? = _
    rw [getElem?_map, hv, Option.map_some, State.subst_ptr_of_ne hne]

theorem retains_grow (cs : List Content) : h.Retains fields (h.grow cs).2 := by
  refine retains_of_slots (size_le_grow h cs) (by rw [sets_grow]) fun k hk => slot_grow_of_lt ?_ cs
  rcases hk with hk | ⟨c, hk⟩
  · exact lt_size_of_slot_ne (by rw [hk]; exact nofun)
  · exact lt_size_of_occupied hk

/-- A new cell in the place of something else, with new locations for its fields. -/
theorem retains_unfolded {ty : StructId} {cs : List Content} (hk : h.Loose loc)
    (hl : loc.index < h.size) : h.Retains fields (h.unfolded loc ty cs) := by
  refine (retains_grow cs).trans (retains_write ?_)
  rw [Loose, slot_grow_of_lt hl]
  exact hk

theorem retains_fresh (h : Heap) : h.Retains fields h.fresh.2 :=
  retains_of_slots (by rw [size_fresh]; omega) (Nat.le_refl _) fun k _ => slot_fresh h k

theorem loose_fresh (h : Heap) : h.fresh.2.Loose h.fresh.1 :=
  loose_of_vacant ((slot_fresh h _).trans (slot_of_size_le (Nat.le_refl h.size)))

theorem retains_add (h : Heap) (f : Fact) : h.Retains fields (h.add f).2 := by
  rw [add_eq_write]
  exact (retains_fresh h).trans (retains_write (loose_fresh h))

theorem retains_allocCell (h : Heap) (ty : StructId) (decl : StructDecl) :
    h.Retains fields (h.allocCell ty decl).2 :=
  (retains_fresh h).trans (retains_unfolded (loose_fresh h) (by rw [size_fresh]; exact Nat.lt_succ_self _))

theorem retains_release {c : Cell} (hk : h.slot loc = .occupied (.cell c)) :
    h.Retains fields (h.write loc .tombstone) where
  size := (size_write _).ge
  sets := Nat.le_refl _
  freed l hl := by
    rw [slot_write (lt_size_of_occupied hk)]
    split
    · rfl
    · exact hl
  cells k c' hk' := by
    rw [slot_write (lt_size_of_occupied hk)]
    split
    · exact .inl rfl
    · exact .inr ⟨c', hk', fun _ _ _ _ hv => hv⟩

/-- A field that is written to may change. -/
theorem retains_store {c : Cell} {i : Nat} {v : Value} (hk : h.slot loc = .occupied (.cell c))
    (hi : i ∈ fields) :
    h.Retains fields (h.write loc (.occupied (.cell { c with fields := c.fields.set i v }))) where
  size := (size_write _).ge
  sets := Nat.le_refl _
  freed l hl := by
    have hne : l ≠ loc := by
      rintro rfl
      cases hl.symm.trans hk
    rw [slot_write_of_ne hne, hl]
  cells k c' hk' := by
    rw [slot_write (lt_size_of_occupied hk)]
    split
    · rename_i he
      rw [he, hk] at hk'
      cases hk'
      refine .inr ⟨_, rfl, fun l j _ hj hv => ?_⟩
      have hne : i ≠ j := fun he => hj (he ▸ hi)
      exact (getElem?_set_ne hne).trans hv
    · exact .inr ⟨c', hk', fun _ _ _ _ hv => hv⟩

end Heap

/-! ### States -/

namespace State

/-- A sound heap, and variables that hold values that can be used. -/
structure Sound (structs : Structs) (lost : Loc → Prop) (s : State) : Prop where
  heap : s.heap.Sound structs lost
  vars : ∀ e ∈ s.env.entries, s.heap.Usable lost e.2.value

/-- The heap retains what is freed, and variables go on to point to it. -/
structure Retains (w : Writes) (s s' : State) : Prop where
  heap : s.heap.Retains w.fields s'.heap
  vars : ∀ l x, s.heap.slot l = .tombstone → x ∉ w.vars → s.lookup x = .ok (.ptr l) →
    s'.lookup x = .ok (.ptr l)

/-- A sound state that retains what is freed. -/
structure Proceeds (structs : Structs) (lost : Loc → Prop) (w : Writes) (s s' : State) : Prop where
  retains : s.Retains w s'
  sound : s'.Sound structs lost

variable {structs : Structs} {lost : Loc → Prop} {w : Writes} {s s' s'' : State} {loc k : Loc}
  {a b v : Value} {x : String}

theorem sound_initial (path : PathId) : (initial path).Sound structs fun _ => False :=
  ⟨Heap.sound_empty, nofun⟩

theorem Sound.lookup (hs : s.Sound structs lost) (hx : s.lookup x = .ok v) : s.heap.Usable lost v := by
  rw [State.lookup] at hx
  split at hx
  · cases hx
    exact hs.vars _ (NameMap.mem_of_get? ‹_›)
  · cases hx

theorem Retains.refl (s : State) : s.Retains w s := ⟨.refl _, fun _ _ _ _ h => h⟩

theorem Retains.trans (h : s.Retains w s') (h' : s'.Retains w s'') : s.Retains w s'' where
  heap := h.heap.trans h'.heap
  vars l x hl hx hv := h'.vars l x (h.heap.freed l hl) hx (h.vars l x hl hx hv)

namespace Proceeds

theorem refl (hs : s.Sound structs lost) : s.Proceeds structs lost w s := ⟨.refl s, hs⟩

theorem trans (h : s.Proceeds structs lost w s') (h' : s'.Proceeds structs lost w s'') :
    s.Proceeds structs lost w s'' := ⟨h.retains.trans h'.retains, h'.sound⟩

theorem usable (h : s.Proceeds structs lost w s') (hv : s.heap.Usable lost v) : s'.heap.Usable lost v :=
  hv.mono h.retains.heap.size

end Proceeds

variable (hs : s.Sound structs lost)
include hs

/-- A step that changes the heap only. -/
theorem Sound.withHeap {heap : Heap} (hh : heap.Sound structs lost) (hr : s.heap.Retains w.fields heap) :
    s.Proceeds structs lost w { s with heap } :=
  ⟨⟨hr, fun _ _ _ _ hv => hv⟩, hh, fun e he => (hs.vars e he).mono hr.size⟩

theorem Sound.withSets {sets : SetStore} (hg : s.heap.sets.Grows sets) :
    s.Proceeds structs lost w { s with heap := { s.heap with sets } } :=
  hs.withHeap (hs.heap.withSets hg) (Heap.retains_withSets hg)

omit hs in
theorem lookup_insert (s : State) (x y : String) (b : Binding) :
    ({ s with env := s.env.insert x b } : State).lookup y = if y = x then .ok b.value else s.lookup y := by
  simp only [lookup, NameMap.get?_insert]
  by_cases hy : y = x
  · rw [if_pos hy, if_pos hy]
  · rw [if_neg hy, if_neg hy]

/-- A variable that is written to may change. -/
theorem Sound.insert {b : Binding} (hv : s.heap.Usable lost b.value) (hx : x ∈ w.vars) :
    s.Proceeds structs lost w { s with env := s.env.insert x b } := by
  refine ⟨⟨.refl _, fun l y _ hy hl => ?_⟩, hs.heap, fun e he => ?_⟩
  · have hne : y ≠ x := by
      rintro rfl
      exact hy hx
    rw [lookup_insert, if_neg hne, hl]
  · rcases NameMap.mem_of_mem_insert he with rfl | he
    · exact hv
    · exact hs.vars e he

/-- A location of which no cell is known, and that is not freed, gives way to a value. -/
theorem Sound.emptied (hk : s.heap.Loose loc) (hv : s.heap.Usable lost v) :
    s.Proceeds structs lost w (s.emptied loc v) := by
  have hv' : (s.heap.write loc .vacant).Usable lost v := hv.mono (Heap.size_write _).ge
  refine ⟨⟨(Heap.retains_write hk).trans (Heap.retains_subst ?_), fun l x hl _ hx => ?_⟩,
    (hs.heap.vacate loc).subst hv', fun e he => ?_⟩
  · rw [Heap.slot_write_vacant, if_pos rfl]
    exact nofun
  · have hne : l ≠ loc := by
      rintro rfl
      exact hk.1 hl
    rw [(renames_emptied s loc v).lookup x _ hx, subst_ptr_of_ne hne]
  · obtain ⟨e', he', rfl⟩ := mem_map.1 he
    exact ((hs.vars e' he').subst hv).mono (size_emptied (s := s)).ge

omit hs in
theorem exists_setNull (hl : loc.index < s.heap.size) : ∃ s', s.setNull loc = .ok s' := by
  have he : s.heap.arena.entry loc.index = .ok (s.heap.slot loc) := if_pos hl
  simp only [setNull, Heap.take, Arena.take, he, bind, Except.bind]
  cases s.heap.slot loc <;> exact ⟨_, rfl⟩

/-- Values that can be used may be assumed to be equal. -/
theorem Sound.equate (ha : s.heap.Usable lost a) (hb : s.heap.Usable lost b) :
    ∃ r, s.equate a b = .ok r ∧ ∀ s', r = some s' → s.Proceeds structs lost w s' := by
  have hok : ∃ r, s.equate a b = .ok r := by
    have hnull {loc : Loc} (hl : s.heap.Usable lost (.ptr loc)) :
        ∃ r, (s.setNull loc).map some = .ok r := by
      obtain ⟨s', hs'⟩ := exists_setNull (Heap.usable_ptr.1 hl).1
      exact ⟨some s', by rw [hs']; rfl⟩
    rw [State.equate.eq_def]
    split
    · exact ⟨_, rfl⟩
    · split
      · split
        · exact hnull hb
        · exact hnull hb
        · exact ⟨_, rfl⟩
      · split
        · exact hnull ha
        · exact hnull ha
        · exact ⟨_, rfl⟩
      · split
        · exact ⟨_, rfl⟩
        · split
          · exact ⟨_, rfl⟩
          · exact ⟨_, rfl⟩
      · exact ⟨_, rfl⟩
  obtain ⟨r, hr⟩ := hok
  refine ⟨r, hr, fun s' hs' => ?_⟩
  rw [hs'] at hr
  rcases equate_cases hr with rfl | ⟨k, u, rfl, hk, hu⟩
  · exact .refl hs
  · refine hs.emptied (Heap.loose_of_not_settled hk) ?_
    rcases hu with ⟨-, rfl⟩ | ⟨-, rfl⟩
    · exact hb
    · exact ha

theorem Sound.equateAll {l : List (Value × Value)}
    (hl : ∀ p ∈ l, s.heap.Usable lost p.1 ∧ s.heap.Usable lost p.2) :
    ∃ r, s.equateAll l = .ok r ∧ ∀ s', r = some s' → s.Proceeds structs lost w s' := by
  induction l generalizing s with
  | nil =>
    refine ⟨some s, rfl, fun s' hs' => ?_⟩
    cases hs'
    exact .refl hs
  | cons p l ih =>
    obtain ⟨r, hr, hp⟩ := hs.equate (w := w) (hl p (.head _)).1 (hl p (.head _)).2
    simp only [State.equateAll, hr, bind, Except.bind]
    cases r with
    | none => exact ⟨_, rfl, fun _ hr => (Option.not_mem_none _ hr).elim⟩
    | some s₁ =>
      have h₁ := hp s₁ rfl
      obtain ⟨r, hr, hp⟩ := ih h₁.sound fun q hq =>
        ⟨h₁.usable (hl q (.tail _ hq)).1, h₁.usable (hl q (.tail _ hq)).2⟩
      exact ⟨r, hr, fun s' hs' => h₁.trans (hp s' hs')⟩

omit hs in
theorem exists_equateSets {sets : SetStore} {l : List (SetVar × SetVar)} (hs : sets.Issued)
    (hl : ∀ p ∈ l, sets.Has p.1 ∧ sets.Has p.2) :
    ∃ sets', equateSets sets l = .ok sets' ∧ sets.Grows sets' := by
  induction l generalizing sets with
  | nil => exact ⟨sets, rfl, hs.grows⟩
  | cons p l ih =>
    obtain ⟨sets₁, hok, hg⟩ := hs.equate (hl p (.head _)).1 (hl p (.head _)).2
    obtain ⟨sets', hok', hg'⟩ := ih hg.issued fun q hq =>
      ⟨hg.has (hl q (.tail _ hq)).1, hg.has (hl q (.tail _ hq)).2⟩
    simp only [equateSets, hok, bind, Except.bind]
    exact ⟨sets', hok', hg.trans hg'⟩

/-- A segment can be closed. -/
theorem Sound.closeSegment {sum : Summary} {o : Hole} (hk : s.heap.slot loc = .occupied (.summary sum))
    (ho : sum.hole = some o) :
    ∃ r, s.closeSegment loc sum o = .ok r ∧ ∀ s', r = some s' → s.Proceeds structs lost w s' := by
  obtain ⟨hparams, hhole⟩ := Heap.admits_summary.1 (hs.heap.facts loc _ hk)
  obtain ⟨hvalue, hparams'⟩ := hhole o ho
  have h₁ : s.Proceeds structs lost w (s.emptied loc o.value) :=
    hs.emptied (Heap.loose_of_summary hk) hvalue
  let pairs := (sum.params.ptrs.zip o.params.ptrs).map fun q =>
    (q.1.subst loc o.value, q.2.subst loc o.value)
  have hpairs : ∀ p ∈ pairs,
      (s.emptied loc o.value).heap.Usable lost p.1 ∧ (s.emptied loc o.value).heap.Usable lost p.2 := by
    intro p hp
    obtain ⟨q, hq, rfl⟩ := mem_map.1 hp
    obtain ⟨hq₁, hq₂⟩ := of_mem_zip hq
    exact ⟨h₁.usable ((hparams.1 _ hq₁).subst hvalue), h₁.usable ((hparams'.1 _ hq₂).subst hvalue)⟩
  obtain ⟨r, hr, hp⟩ := h₁.sound.equateAll (w := w) hpairs
  rw [show s.closeSegment loc sum o = (s.emptied loc o.value).equateAll pairs >>= _ from rfl, hr]
  cases r with
  | none => exact ⟨_, rfl, fun _ hr => (Option.not_mem_none _ hr).elim⟩
  | some s₂ =>
    have h₂ := h₁.trans (hp s₂ rfl)
    have hsets : ∀ p ∈ sum.params.sets.zip o.params.sets,
        s₂.heap.sets.Has p.1 ∧ s₂.heap.sets.Has p.2 := by
      intro p hp
      obtain ⟨hp₁, hp₂⟩ := of_mem_zip hp
      exact ⟨(hparams.2 _ hp₁).mono h₂.retains.heap.sets, (hparams'.2 _ hp₂).mono h₂.retains.heap.sets⟩
    obtain ⟨sets, hok, hg⟩ := exists_equateSets h₂.sound.heap.sets hsets
    refine ⟨some { s₂ with heap := { s₂.heap with sets } }, ?_, fun s' hs' => ?_⟩
    · show (equateSets s₂.heap.sets (sum.params.sets.zip o.params.sets) >>= fun sets =>
        pure (some { s₂ with heap := { s₂.heap with sets } })) = _
      rw [hok]
      rfl
    · cases hs'
      exact h₂.trans (h₂.sound.withSets hg)

/-- A full summary that is empty is null. -/
theorem Sound.discharge {sum : Summary} (hk : s.heap.slot loc = .occupied (.summary sum))
    (hd : s.discharge loc sum = some s') : s.Proceeds structs lost w s' := by
  obtain ⟨sets, hb, rfl⟩ := Option.map_eq_some_iff.1 hd
  have hg := Predicate.baseCase_issued hs.heap.sets hb
  exact (hs.withSets (w := w) hg).trans ((hs.withSets (w := w) hg).sound.emptied
    (Heap.loose_of_summary (h := { s.heap with sets }) hk) Heap.usable_null)

theorem Sound.unfold {heaps : List Heap} {heap : Heap} (hu : s.heap.unfold structs loc = .ok heaps)
    (hmem : heap ∈ heaps) : s.Proceeds structs lost w { s with heap } := by
  refine hs.withHeap (hs.heap.unfold hu hmem) ?_
  obtain ⟨sum, decl, layout, way, sets, step, hk, -, -, -, hstep, rfl⟩ := Heap.unfold_cases hu hmem
  have hg := (Predicate.step_issued sum.pred loc hs.heap.sets
    (Heap.admits_summary.1 (hs.heap.facts loc _ hk)).1.2).1
  rw [hstep] at hg
  exact (Heap.retains_withSets hg).trans
    (Heap.retains_unfolded (Heap.loose_of_summary hk) (Heap.lt_size_of_occupied hk))

theorem Sound.setNull (hk : s.heap.Loose loc) (hn : s.setNull loc = .ok s') :
    s.Proceeds structs lost w s' := by
  rw [setNull_eq_emptied hn hk.1]
  exact hs.emptied hk Heap.usable_null

end State

/-! ### Cases of a pointer -/

namespace Exec

variable {α : Type} {structs : Structs} {lost : Loc → Prop} {w : Writes} {s s' : State} {v u : Value}

/-- A state that is proceeded to, and a value that can be used there. -/
def Gives (structs : Structs) (lost : Loc → Prop) (w : Writes) (s s' : State) (v : Value) : Prop :=
  s.Proceeds structs lost w s' ∧ s'.heap.Usable lost v

theorem Gives.after {t : State} (h : s.Proceeds structs lost w t) (h' : Gives structs lost w t s' v) :
    Gives structs lost w s s' v := ⟨h.trans h'.1, h'.2⟩

variable (hs : s.Sound structs lost) {index : Nat}
include hs

theorem materialize_gives (hv : s.heap.Usable lost v) :
    (materialize structs v).Ensures s fun s' k => Gives structs lost w s s' (.ptr k) := by
  show Each _ (s.materialize structs v)
  fun_induction State.materialize structs s v with
  | case1 | case2 | case4 | case5 | case6 | case7 => exact .single (by rintro m ⟨⟩)
  | case3 s loc c hk => exact .single ⟨.refl hs, hv⟩
  | case8 s loc sum hk heaps hu cells o ho closed hc ih =>
    obtain ⟨r, hr, hp⟩ := hs.closeSegment (w := w) hk ho
    cases hc.symm.trans hr
    have h₁ := hp closed rfl
    have hvalue := ((Heap.admits_summary.1 (hs.heap.facts loc _ hk)).2 o ho).1
    refine .append (.cells fun heap hmem => ⟨hs.unfold hu hmem, ?_⟩)
      ((ih h₁.sound (h₁.usable hvalue)).mono fun s' k => .after h₁)
    exact (hs.unfold (w := w) hu hmem).usable hv
  | case9 s loc sum hk heaps hu | case12 s loc sum hk heaps hu =>
    exact .cells fun heap hmem => ⟨hs.unfold hu hmem, (hs.unfold (w := w) hu hmem).usable hv⟩
  | case10 s loc sum hk heaps hu cells o ho m hc =>
    obtain ⟨r, hr, -⟩ := hs.closeSegment (w := w) hk ho
    cases hc.symm.trans hr
  | case11 s loc sum hk heaps hu =>
    exact .append (.cells fun heap hmem => ⟨hs.unfold hu hmem, (hs.unfold (w := w) hu hmem).usable hv⟩)
      (.single (by rintro m ⟨⟩))

theorem testNull_proceeds (hv : s.heap.Usable lost v) :
    (testNull structs v).Ensures s fun s' _ => s.Proceeds structs lost w s' := by
  show Each _ (s.testNull structs v)
  fun_induction State.testNull structs s v with
  | case1 | case3 | case4 => exact .single (.refl hs)
  | case2 | case9 => exact .single (by rintro m ⟨⟩)
  | case5 s loc hk null hn =>
    exact .cons (hs.setNull (Heap.loose_of_vacant hk) hn) (.single (.refl hs))
  | case7 s loc set ty hk null hn =>
    refine .cons (hs.setNull ⟨?_, ?_⟩ hn) (.single (.refl hs)) <;> simp [hk]
  | case6 s loc hk m hn | case8 s loc set ty hk m hn =>
    obtain ⟨s', hs'⟩ := State.exists_setNull (Heap.usable_ptr.1 hv).1
    cases hn.symm.trans hs'
  | case10 s loc sum hk heaps hu cells o ho closed hc ih =>
    obtain ⟨r, hr, hp⟩ := hs.closeSegment (w := w) hk ho
    cases hc.symm.trans hr
    have h₁ := hp closed rfl
    have hvalue := ((Heap.admits_summary.1 (hs.heap.facts loc _ hk)).2 o ho).1
    exact .append ((ih h₁.sound (h₁.usable hvalue)).mono fun s' _ => h₁.trans)
      (.cells fun heap => hs.unfold hu)
  | case11 s loc sum hk heaps hu | case14 s loc sum hk heaps hu => exact .cells fun heap => hs.unfold hu
  | case12 s loc sum hk heaps hu o ho m hc =>
    obtain ⟨r, hr, -⟩ := hs.closeSegment (w := w) hk ho
    cases hc.symm.trans hr
  | case13 s loc sum hk heaps hu cells ho base hd =>
    exact .cons (hs.discharge hk hd) (.cells fun heap => hs.unfold hu)

/-! ### Paths and expressions -/

theorem loadMember_gives {loc : Loc} {set : SetVar} {ty : StructId} (hset : s.heap.sets.Has set) :
    (loadMember structs loc set ty index).Ensures s (Gives structs lost w s) := by
  show Each _ (loadMember structs loc set ty index s)
  rw [loadMember]
  split
  · refine .cons ⟨hs.withHeap (hs.heap.add ⟨nofun, fun v hv => ?_, nofun⟩) (Heap.retains_add _ _),
      hs.heap.usable_add _⟩ .nil
    rw [mem_singleton.1 hv]
    exact hset
  · exact .single ⟨.refl hs, Heap.usable_int⟩
  · exact .single nofun

theorem loadCell_gives (index : Nat) (loc : Loc) :
    (loadCell index loc).Ensures s (Gives structs lost w s) := by
  refine .ask ?_
  cases hv : (s.heap.cell? loc).bind (·.fields[index]?) with
  | none => exact nofun
  | some v =>
    obtain ⟨c, hc, hi⟩ := Option.bind_eq_some_iff.1 hv
    exact ⟨.refl hs, (hs.heap.facts loc _ (Heap.slot_of_cell? hc)).values v (mem_of_getElem? hi)⟩

theorem loadField_gives (hv : s.heap.Usable lost v) :
    (loadField structs v index).Ensures s (Gives structs lost w s) := by
  intro s' r hr
  rw [loadField] at hr
  split at hr
  · rename_i loc set ty hk
    obtain ⟨l, -, heq⟩ := Option.map_eq_some_iff.1 hk
    obtain ⟨rfl, hslot⟩ := Prod.mk.inj heq
    have hset := (hs.heap.facts l _ hslot).sets set (.head _)
    exact loadMember_gives hs hset s' r hr
  · have hload := (materialize_gives (w := w) hs hv).bind fun s₁ k h₁ =>
      (loadCell_gives h₁.1.sound index k).mono fun s₂ u => Gives.after h₁.1
    exact hload s' r hr

theorem lookup_gives (x : String) : (ask fun s => s.lookup x).Ensures s (Gives structs lost w s) := by
  refine .ask ?_
  cases hx : s.lookup x with
  | ok v => exact ⟨.refl hs, hs.lookup hx⟩
  | error d =>
    rw [State.lookup] at hx
    split at hx <;> cases hx
    exact fun _ hm => Defect.noConfusion hm

/-! ### Statements -/

theorem storeCell_proceeds {k : Loc} (hk : s.heap.Usable lost (.ptr k)) (hu : s.heap.Usable lost u)
    (hi : index ∈ w.fields) :
    (storeCell index u k).Ensures s fun s' _ => s.Proceeds structs lost w s' := by
  refine .update ?_
  cases hset : s.heap.setField? k index u with
  | none => exact nofun
  | some heap =>
    obtain ⟨c, hc, hset⟩ := Option.bind_eq_some_iff.1 hset
    have hslot := Heap.slot_of_cell? hc
    split at hset
    · cases hset
      have hf := hs.heap.facts k _ hslot
      refine hs.withHeap (hs.heap.write hk ⟨fun v' hv' => ?_, nofun, fun c' hc' decl hd => ?_⟩)
        (Heap.retains_store hslot hi)
      · rcases mem_or_eq_of_mem_set hv' with hmem | rfl
        · exact hf.values v' hmem
        · exact hu
      · cases hc'
        rw [length_set]
        exact hf.cell c rfl decl hd
    · cases hset

theorem set_proceeds {x : String} (hv : s.heap.Usable lost v) (hx : x ∈ w.vars) :
    (update fun s => s.set x v).Ensures s fun s' _ => s.Proceeds structs lost w s' := by
  refine .update ?_
  rw [State.set]
  cases s.env.get? x with
  | none => exact fun _ hm => Defect.noConfusion hm
  | some b => exact hs.insert hv hx

theorem newCell_gives (ty : StructId) : (newCell structs ty).Ensures s (Gives structs lost w s) := by
  show Each _ (newCell structs ty s)
  rw [newCell]
  split
  · rename_i decl hd
    obtain ⟨hheap, hnew⟩ := hs.heap.allocCell hd
    exact .single ⟨hs.withHeap hheap (Heap.retains_allocCell _ _ _), hnew⟩
  · exact .single fun _ hm => Defect.noConfusion hm

theorem freeValue_proceeds (v : Value) :
    (freeValue v).Ensures s fun s' _ => s.Proceeds structs lost w s' := by
  refine .update ?_
  rcases v with _ | loc | _
  · exact nofun
  · dsimp only
    rcases hk : s.heap.slot loc with _ | (c | sum | ⟨set, ty⟩) | _
    · exact nofun
    · exact hs.withHeap (hs.heap.release loc) (Heap.retains_release hk)
    · exact nofun
    · exact nofun
    · exact nofun
  · exact nofun

/-- Operations proceed to their outcomes, with values that can be used there. -/
theorem Composed.proceeds {vars : List String} {known : List Value} {gives : α → List Value} {x : Exec α}
    (h : Composed structs vars w known gives x) (hk : ∀ v ∈ known, s.heap.Usable lost v) :
    x.Ensures s fun s' a => s.Proceeds structs lost w s' ∧ ∀ v ∈ gives a, s'.heap.Usable lost v := by
  have value {s s' : State} {v : Value} (h : Gives structs lost w s s' v) :
      s.Proceeds structs lost w s' ∧ ∀ u ∈ [v], s'.heap.Usable lost u :=
    ⟨h.1, forall_mem_singleton.2 h.2⟩
  have nothing {s s' : State} (h : s.Proceeds structs lost w s') :
      s.Proceeds structs lost w s' ∧ ∀ u ∈ [], s'.heap.Usable lost u := ⟨h, forall_mem_nil _⟩
  induction h generalizing s with
  | pure h =>
    refine .pure ⟨.refl hs, fun v hv => ?_⟩
    rcases h v hv with hmem | hnone
    · exact hk v hmem
    · rintro l rfl
      cases hnone
  | bind _ _ ihx ihf =>
    refine (ihx hs hk).bind fun s₁ a h₁ => (ihf a h₁.1.sound fun v hv => ?_).mono fun s₂ b h₂ =>
      ⟨h₁.1.trans h₂.1, h₂.2⟩
    exact (mem_append.1 hv).elim (h₁.2 v) fun hv => h₁.1.usable (hk v hv)
  | either _ _ ihx ihy => exact .either (ihx hs hk) (ihy hs hk)
  | impossible => exact fun s' r hr => (not_mem_nil hr).elim
  | refute c _ ih => exact .refute (ih hs hk) c _
  | lookup => exact (lookup_gives hs _).mono fun _ _ => value
  | set _ hw hv => exact (set_proceeds hs (hk _ hv) hw).mono fun _ _ => nothing
  | materialize hv => exact (materialize_gives hs (hk _ hv)).mono fun _ _ => value
  | testNull hv => exact (testNull_proceeds hs (hk _ hv)).mono fun _ _ => nothing
  | loadField index hv => exact (loadField_gives hs (hk _ hv)).mono fun _ _ => value
  | storeCell hi hv hl => exact (storeCell_proceeds hs (hk _ hl) (hk _ hv) hi).mono fun _ _ => nothing
  | newCell ty => exact (newCell_gives hs ty).mono fun _ _ => value
  | freeValue v => exact (freeValue_proceeds hs v).mono fun _ _ => nothing

theorem eval_gives (e : Expr) : (eval structs e).Ensures s (Gives structs lost w s) :=
  ((Composed.eval (Subset.refl _)).proceeds hs (forall_mem_nil _)).mono fun _ _ h =>
    ⟨h.1, forall_mem_singleton.1 h.2⟩

theorem assume_proceeds (c : Cond) (truth : Bool) :
    (assume structs c truth).Ensures s fun s' _ => s.Proceeds structs lost w s' :=
  ((Composed.assume (Subset.refl _) truth).proceeds hs (forall_mem_nil _)).mono fun _ _ h => h.1

end Exec

/-! ### Directives -/

/-- A table was misused, or types do not agree. -/
def Defect.IsFault : Defect → Prop
  | .misuse _ => True
  | .mismatch m => m.cause.IsIllTyped
  | _ => False

theorem Yields.mapM {ε α β : Type} {bad : ε → Prop} {f : α → Except ε β} {P : β → Prop} {l : List α}
    (h : ∀ a ∈ l, Yields bad (f a) P) : Yields bad (l.mapM f) fun l' => ∀ b ∈ l', P b := by
  induction l with
  | nil => exact fun b hb => (not_mem_nil hb).elim
  | cons a l ih =>
    rw [mapM_cons]
    refine (h a (.head _)).bind fun b hb => ?_
    refine (ih fun a' ha' => h a' (.tail _ ha')).bind fun l' hl' => ?_
    exact forall_mem_cons.2 ⟨hb, hl'⟩

namespace State

variable {structs : Structs} {lost : Loc → Prop} {w : Writes} {s s' : State}

/-- Tombstones stay, and so do the pointers to them in variables and in the cells that stay. -/
structure Passes (w : Writes) (s s' : State) : Prop where
  freed : ∀ l, s.heap.slot l = .tombstone → s'.heap.slot l = .tombstone
  vars : ∀ l x, s.heap.slot l = .tombstone → x ∉ w.vars → s.lookup x = .ok (.ptr l) →
    s'.lookup x = .ok (.ptr l)
  cells : ∀ l k c c' i, s.heap.slot l = .tombstone → s.heap.slot k = .occupied (.cell c) →
    s'.heap.slot k = .occupied (.cell c') → i ∉ w.fields → c.fields[i]? = some (.ptr l) →
    c'.fields[i]? = some (.ptr l)

theorem Retains.passes (h : s.Retains w s') : s.Passes w s' where
  freed := h.heap.freed
  vars := h.vars
  cells l k c c' i hl hk hk' hi hv := by
    rcases h.heap.cells k c hk with ht | ⟨c'', hk'', hc⟩
    · cases hk'.symm.trans ht
    · cases hk'.symm.trans hk''
      exact hc l i hl hi hv

/-- A fold leaves cells as they are, or takes them. -/
theorem passes_of_condenses {heap : Heap} (h : s.heap.Condenses heap) : s.Passes w { s with heap } where
  freed l := h.tombstone
  vars l x _ _ hx := hx
  cells l k c c' i _ hk hk' _ hv := by
    cases hk.symm.trans (h.cell hk')
    exact hv

/-- What a directive leads to: a sound state that passes by what is freed. If it did not find a
    shape, this is not because of types. -/
structure Judged (structs : Structs) (lost : Loc → Prop) (w : Writes) (s : State)
    (r : Judgement × State) : Prop where
  sound : r.2.Sound structs lost
  passes : s.Passes w r.2
  judgement : ∀ cause, r.1 = .fail (.mismatch cause) → ¬ cause.IsIllTyped

variable (hs : s.Sound structs lost) {x : String}
include hs

theorem lookup_yields (x : String) : Yields Defect.IsFault (s.lookup x) (s.heap.Usable lost) := by
  cases hx : s.lookup x with
  | ok v => exact hs.lookup hx
  | error d =>
    rw [lookup] at hx
    split at hx <;> cases hx
    exact id

theorem params_yields (block : ParamBlock) :
    Yields Defect.IsFault (s.params block) (s.heap.UsableParams lost) := by
  have hptr (name : String) : Yields Defect.IsFault (s.pointerParam name) (s.heap.Usable lost) := by
    rw [pointerParam]
    split
    · exact Heap.usable_null
    · exact lookup_yields hs name
  have hset (name : String) : Yields Defect.IsFault (s.setVar name) s.heap.sets.Has := by
    rw [setVar]
    split
    · exact hs.heap.sets.lookup? ‹_›
    · exact id
  refine (Yields.mapM fun name _ => hptr name).bind fun ptrs hptrs => ?_
  exact (Yields.mapM fun name _ => hset name).bind fun sets hsets => ⟨hptrs, hsets⟩

omit hs in
theorem declareSets_grows {sets : SetStore} (hs : sets.Issued) (names : List String) :
    sets.Grows (declareSets sets names).2 := by
  induction names generalizing sets with
  | nil => exact hs.grows
  | cons name names ih =>
    rw [declareSets]
    split
    · rename_i hd
      have hg := hs.declare? hd
      exact hg.trans (ih hg.issued)
    · exact ih hs

/-- The location for an instance is vacant. -/
theorem opaqueLoc_yields (hx : x ∈ w.vars) : Yields Defect.IsFault (s.opaqueLoc x) fun r =>
      s.Proceeds structs lost w r.2 ∧ r.2.heap.Usable lost (.ptr r.1) ∧ r.2.heap.slot r.1 = .vacant := by
  rcases hb : s.env.get? x with _ | b
  · rw [opaqueLoc_undefined hb]
    exact id
  · rcases opaqueLoc_cases hb with ⟨loc, hv, hvacant, ho⟩ | ho
    · have hlookup : s.lookup x = .ok (.ptr loc) := by rw [lookup, hb, ← hv]
      rw [ho]
      exact ⟨.refl hs, hs.lookup hlookup, of_decide_eq_true hvacant⟩
    · have h₁ : s.Proceeds structs lost w { s with heap := s.heap.fresh.2 } :=
        hs.withHeap hs.heap.fresh (Heap.retains_fresh _)
      have hnew : s.heap.fresh.2.Usable lost (.ptr s.heap.fresh.1) := hs.heap.usable_fresh
      rw [ho]
      exact ⟨h₁.trans (h₁.sound.insert hnew hx), hnew,
        (Heap.slot_fresh _ _).trans (Heap.slot_of_size_le (Nat.le_refl s.heap.size))⟩

theorem addInductive_yields (hx : x ∈ w.vars) (pred : Predicate) (block : ParamBlock) :
    Yields Defect.IsFault (s.addInductive structs x pred block) fun r =>
      s.Proceeds structs lost w r.2 ∧ ∀ cause, r.1 ≠ .fail (.mismatch cause) := by
  have hpointee : Yields Defect.IsFault (s.pointee x) fun _ => True := by
    rw [pointee]
    split
    · trivial
    · exact id
    · exact id
  refine hpointee.bind fun ty _ => ?_
  split
  · exact ⟨.refl hs, by rintro cause ⟨⟩⟩
  · refine (params_yields hs block).bind fun params hp => ?_
    refine (opaqueLoc_yields hs hx).bind ?_
    rintro ⟨loc, s₁⟩ ⟨h₁, hloc, hvacant⟩
    have hput := put_of_vacant (Heap.usable_ptr.1 hloc).1 hvacant (.summary ⟨pred, ty, params, none⟩)
    simp only [hput]
    refine ⟨h₁.trans (h₁.sound.withHeap (h₁.sound.heap.write hloc ?_)
      (Heap.retains_write (Heap.loose_of_vacant hvacant))), by rintro cause ⟨⟩⟩
    exact Heap.admits_summary.2 ⟨hp.mono h₁.retains.heap.size h₁.retains.heap.sets,
      fun _ ho => (Option.not_mem_none _ ho).elim⟩

theorem checkInductive_yields (x : String) (pred : Predicate) (block : Option ParamBlock) :
    Yields Defect.IsFault (s.checkInductive structs x pred block) (Judged structs lost w s) := by
  refine (lookup_yields hs x).bind fun root _ => ?_
  have hparams : Yields Defect.IsFault (block.mapM s.params) fun p? =>
      ∀ p, p? = some p → s.heap.UsableParams lost p := by
    cases block with
    | none => exact fun p hp => by cases hp
    | some block =>
      refine (params_yields hs block).map fun p hp q hq => ?_
      cases hq
      exact hp
  refine hparams.bind fun params hp => ?_
  have hcheck : Yields Refusal.IsFault (s.heap.check structs root pred params) fun h' =>
      s.heap.Condenses h' ∧ h'.Sound structs lost := Heap.check_yields hs.heap hp
  rcases hc : s.heap.check structs root pred params with (m | m) | heap
  · rw [hc] at hcheck
    refine ⟨hs, (Retains.refl s).passes, fun cause hcause => ?_⟩
    cases hcause
    exact hcheck
  · exact (Heap.not_misuse hcheck hc).elim
  · obtain ⟨hcond, hsound⟩ := hcheck.of_ok hc
    exact ⟨⟨hsound, fun e he => (hs.vars e he).mono hcond.size.ge⟩, passes_of_condenses hcond, nofun⟩

/-- A directive keeps a state sound and passes by what is freed. -/
theorem judge_yields (d : Directive) : Yields Defect.IsFault (s.judge structs d)
    (Judged structs lost (Instr.writes (.directive d)) s) := by
  have hpass {w : Writes} {j : Judgement} {t : State} (h : s.Proceeds structs lost w t)
      (hj : ∀ cause, j ≠ .fail (.mismatch cause)) : Judged structs lost w s (j, t) :=
    ⟨h.sound, h.retains.passes, fun cause hcause => (hj cause hcause).elim⟩
  rw [judge.eq_def]
  split
  · refine hpass (hs.withSets (declareSets_grows hs.heap.sets _)) fun cause => ?_
    split <;> rintro ⟨⟩
  · rename_i sub sup
    have hset (name : String) : Yields Defect.IsFault (s.setVar name) fun _ => True := by
      rw [setVar]
      split
      · trivial
      · exact id
    refine (hset sub).bind fun a _ => (hset sup).bind fun b _ => ?_
    exact hpass (hs.withSets (hs.heap.sets.assumeSubset a b)) (by rintro cause ⟨⟩)
  · exact (addInductive_yields hs (.head _) _ _).mono fun r hr => hpass hr.1 hr.2
  · exact checkInductive_yields hs _ _ _
  · split
    · exact id
    · exact hpass (.refl hs) (by rintro cause ⟨⟩)

/-! ### Instructions and jumps -/

omit hs in
theorem lookup_kill (s : State) (vars : List String) (x : String) :
    (s.kill vars).lookup x = if x ∈ vars then .error (.undefined x) else s.lookup x := by
  induction vars generalizing s with
  | nil => rw [if_neg not_mem_nil]; rfl
  | cons var vars ih =>
    have hkill : s.kill (var :: vars) = ({ s with env := s.env.erase var } : State).kill vars := rfl
    rw [hkill, ih, lookup, NameMap.get?_erase]
    by_cases hx : x = var
    · simp [hx]
    · simp [hx, lookup]

omit hs in
theorem mem_of_mem_kill {vars : List String} {e : String × Binding} (he : e ∈ (s.kill vars).env.entries) :
    e ∈ s.env.entries := by
  induction vars generalizing s with
  | nil => exact he
  | cons var vars ih => exact (mem_filter.1 (ih (s := { s with env := s.env.erase var }) he)).1

theorem Sound.declare (hx : x ∈ w.vars) (ty : Ty) : s.Proceeds structs lost w (s.declare x ty) := by
  cases ty with
  | int => exact hs.insert Heap.usable_int hx
  | ptr target =>
    have hf : s.Proceeds structs lost w { s with heap := s.heap.fresh.2 } :=
      hs.withHeap hs.heap.fresh (Heap.retains_fresh _)
    exact hf.trans (hf.sound.insert (b := ⟨_, _⟩) hs.heap.usable_fresh hx)

theorem Sound.kill (vars : List String) : s.Proceeds structs lost ⟨vars, []⟩ (s.kill vars) := by
  refine ⟨⟨.refl _, fun l x _ hx hv => ?_⟩, hs.heap, fun e he => hs.vars e ?_⟩
  · rw [lookup_kill, if_neg hx, hv]
  · exact mem_of_mem_kill he

/-- A sound state can be widened. -/
theorem Sound.widen : ∃ heap, s.heap.widen structs (s.roots.map Prod.snd) = .ok heap ∧
      ({ s with heap } : State).Sound structs lost := by
  obtain ⟨heap, hok, hc, hsound⟩ := hs.heap.widen (s.roots.map Prod.snd)
  refine ⟨_, hok, hsound.collect _, fun e he => (hs.vars e he).mono ?_⟩
  exact hc.size.ge.trans (Heap.forgets_collect heap _).size.ge

end State

namespace Exploration

variable {task : Task} {lost : Loc → Prop} {s : State}

theorem direct_each (hs : s.Sound task.structs lost) (d : Directive) :
    Exec.Each (fun s' _ => s'.Sound task.structs lost ∧ s.Passes (Instr.writes (.directive d)) s')
      (direct task d s).2 := by
  have hjudge := State.judge_yields hs d
  rw [direct]
  split
  · rename_i e he
    rw [he] at hjudge
    refine .single fun m hm => hjudge ?_
    rw [hm]
    trivial
  · rename_i cause s' hok
    rw [hok] at hjudge
    split
    · exact .single nofun
    · exact .single ⟨hjudge.sound, hjudge.passes⟩
  · rename_i judgement s' _ hok
    rw [hok] at hjudge
    exact .single ⟨hjudge.sound, hjudge.passes⟩

/-- An instruction keeps a state sound and passes by what is freed. -/
theorem perform_each (hs : s.Sound task.structs lost) (i : Instr) :
    Exec.Each (fun s' _ => s'.Sound task.structs lost ∧ s.Passes i.writes s') (perform task i s).2 := by
  have hproceeds {w : Writes} {s' : State} (h : s.Proceeds task.structs lost w s') :
      s'.Sound task.structs lost ∧ s.Passes w s' := ⟨h.sound, h.retains.passes⟩
  have hcomposed {vars : List String} {w : Writes} {x : Exec Unit}
      (h : x.Composed task.structs vars w [] fun _ => []) :
      x.Ensures s fun s' _ => s'.Sound task.structs lost ∧ s.Passes w s' :=
    (h.proceeds hs (forall_mem_nil _)).mono fun _ _ h => hproceeds h.1
  cases i with
  | decl var ty => exact .single (hproceeds (hs.declare (.head _) ty))
  | assign lhs rhs => exact hcomposed (.assign lhs rhs)
  | alloc lhs ty => exact hcomposed (.alloc lhs ty)
  | free path => exact hcomposed (.free path)
  | assert cond => exact hcomposed (.assert cond)
  | directive d => exact direct_each hs d
  | kill vars => exact .single (hproceeds (hs.kill vars))

/-- So does the choice of a side. -/
theorem branch_ensures (hs : s.Sound task.structs lost) (c : Cond) (thenTarget elseTarget : BlockId) :
    (branch task.structs c thenTarget elseTarget).Ensures s fun s' _ =>
      s.Proceeds task.structs lost .none s' :=
  ((Exec.Composed.branch c thenTarget elseTarget).proceeds hs (forall_mem_nil _)).mono fun _ _ h => h.1

end Exploration

end HeapShape
