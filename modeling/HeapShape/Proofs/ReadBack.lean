import HeapShape.Proofs.Comparison

/-!
# Field writes that are read back

An assignment `x->f = y` takes the value of `y` first and looks for the cell of `x` then. On the
way to this cell segments may be closed: the hole is put in the place of the root wherever the
root is mentioned, and the parameters of the segment are made equal. The value that was taken
is not changed by this. If `y` holds a location that gives way, the cell gets the location that
was given up, and `y` holds another one. Null never gives way.

* `State.ReadsBack`: a field of the cell of one variable holds the value of another one;
* `State.Closes`: segments are closed one after the other, from one location to another;
* `State.mem_materialize_ptr`: the cells that a pointer comes to are those where such a row ends;
* `Exec.assign_reads_back_iff`: a field write is read back in all outcomes if and only if `y`
  keeps its value on every row that ends at a record with the field. Null and a location that is
  settled (a cell, a full summary or freed) are always kept.
-/

namespace HeapShape

open List

namespace State

variable {structs : Structs} {s s' t : State} {loc next j k : Loc} {x y : String} {f : Nat} {v w : Value}
  {sum : Summary} {o : Hole} {heaps : List Heap}

/-- A field of the cell that one variable points to holds the value of another variable. -/
def ReadsBack (s : State) (x : String) (f : Nat) (y : String) : Prop :=
  ∃ loc c v, s.lookup x = .ok (.ptr loc) ∧ s.heap.cell? loc = some c ∧ s.lookup y = .ok v ∧
    c.fields[f]? = some v

/-! ### Locations that give way -/

/-- Every variable that holds a value goes on to hold it. -/
def KeepsValue (s s' : State) (v : Value) : Prop := ∀ x, s.lookup x = .ok v → s'.lookup x = .ok v

theorem KeepsValue.trans {s₁ s₂ s₃ : State} (h : s₁.KeepsValue s₂ v) (h' : s₂.KeepsValue s₃ v) :
    s₁.KeepsValue s₃ v := fun x hx => h' x (h x hx)

theorem keepsValue_emptied (h : v ≠ .ptr k) : s.KeepsValue (s.emptied k w) v := by
  intro x hx
  rw [(renames_emptied s k w).lookup x _ hx, Value.subst, if_neg h]

/-- A value is a location that is settled, or none. -/
def FirmIn (s : State) (v : Value) : Prop := ∀ j, v = .ptr j → s.heap.Settled j

theorem slot_emptied (s : State) (k : Loc) (w : Value) (j : Loc) :
    (s.emptied k w).heap.slot j =
      (if j = k then .vacant else s.heap.slot j).map (Fact.mapValues (·.subst k w)) := by
  show ((s.heap.write k .vacant).subst k w).slot j = _
  rw [Heap.slot_subst, Heap.slot_write_vacant]

theorem slot_emptied_self (s : State) (k : Loc) (w : Value) : (s.emptied k w).heap.slot k = .vacant := by
  rw [slot_emptied, if_pos rfl]
  rfl

theorem vacant_emptied (h : s.heap.slot j = .vacant) : (s.emptied k w).heap.slot j = .vacant := by
  rw [slot_emptied, h, ite_self]
  rfl

theorem FirmIn.emptied (hv : s.FirmIn v) (h : v ≠ .ptr k) : (s.emptied k w).FirmIn v :=
  fun j hj => Heap.settled_emptied (hv j hj) (by rintro rfl; exact h hj)

/-- Parameters that are made equal replace locations of which nothing is left. -/
theorem keepsValue_equateAll {l : List (Value × Value)} (h : s.equateAll l = .ok (some s')) :
    (∀ j, (s.KeepsValue s' (.ptr j) ∨ s'.heap.slot j = .vacant) ∧
      (s.heap.slot j = .vacant → s'.heap.slot j = .vacant)) ∧
      ∀ v, s.FirmIn v → s'.FirmIn v ∧ s.KeepsValue s' v := by
  induction l generalizing s with
  | nil =>
    cases h
    exact ⟨fun j => ⟨.inl fun _ => id, id⟩, fun v hv => ⟨hv, fun _ => id⟩⟩
  | cons p l ih =>
    obtain ⟨s₁, he, h⟩ := equateAll_cons h
    obtain ⟨hkeep, hfirm⟩ := ih h
    rcases equate_cases he with rfl | ⟨k, w, rfl, hk, -⟩
    · exact ⟨hkeep, hfirm⟩
    · refine ⟨fun j => ⟨?_, fun hj => (hkeep j).2 (vacant_emptied hj)⟩, fun v hv => ?_⟩
      · by_cases hjk : j = k
        · exact .inr ((hkeep j).2 (hjk ▸ slot_emptied_self s k w))
        · exact (hkeep j).1.imp_left (keepsValue_emptied (mt Value.ptr.inj hjk)).trans
      · have hvk : v ≠ .ptr k := fun he => hk (hv k he)
        obtain ⟨hv', hkeep'⟩ := hfirm v (hv.emptied hvk)
        exact ⟨hv', (keepsValue_emptied hvk).trans hkeep'⟩

/-- A segment that is closed gives way to its hole, if something is left there. -/
theorem lookup_closeSegment (h : s.closeSegment loc sum o = .ok (some s')) (hv : o.value = .ptr next)
    (hx : s.lookup x = .ok (.ptr loc)) :
    s'.lookup x = .ok (.ptr next) ∨ s'.heap.slot next = .vacant := by
  obtain ⟨s₁, sets, he, rfl⟩ := closeSegment_eq_some h
  have hx₁ := (renames_emptied s loc o.value).lookup x _ hx
  rw [Value.subst_self, hv] at hx₁
  rw [hv] at he
  exact ((keepsValue_equateAll he).1 next).1.imp_left fun hkeep => hkeep x hx₁

theorem FirmIn.closeSegment (hs : s.heap.slot loc = .occupied (.summary sum)) (ho : sum.hole = some o)
    (h : s.closeSegment loc sum o = .ok (some s')) (hv : s.FirmIn v) :
    s'.FirmIn v ∧ s.KeepsValue s' v := by
  obtain ⟨s₁, sets, he, rfl⟩ := closeSegment_eq_some h
  have hne : v ≠ .ptr loc := by
    rintro rfl
    have hj := hv loc rfl
    rw [Heap.Settled, hs] at hj
    cases ho.symm.trans hj
  obtain ⟨hv', hkeep⟩ := (keepsValue_equateAll he).2 v (hv.emptied hne)
  exact ⟨hv', (keepsValue_emptied hne).trans hkeep⟩

/-! ### Rows of segments -/

/-- Segments are closed one after the other, from a location to another one. -/
inductive Closes (structs : Structs) : State → Loc → State → Loc → Prop
  /-- No segment is closed. -/
  | here (s : State) (loc : Loc) : Closes structs s loc s loc
  /-- The segment at the first location is closed, and then those from its hole on. -/
  | next {s s₁ t : State} {loc next k : Loc} {sum : Summary} {o : Hole} {heaps : List Heap}
      (hs : s.heap.slot loc = .occupied (.summary sum)) (hu : s.heap.unfold structs loc = .ok heaps)
      (ho : sum.hole = some o) (hv : o.value = .ptr next)
      (hc : s.closeSegment loc sum o = .ok (some s₁)) (h : Closes structs s₁ next t k) :
      Closes structs s loc t k

/-- A location is a cell, or a summary that is unfolded into one. -/
inductive Opens (structs : Structs) (s : State) (k : Loc) : State → Prop
  | cell {c : Cell} (hs : s.heap.slot k = .occupied (.cell c)) : Opens structs s k s
  | unfold {heaps : List Heap} {heap : Heap} (hu : s.heap.unfold structs k = .ok heaps)
      (hmem : heap ∈ heaps) : Opens structs s k { s with heap }

theorem Opens.env (h : Opens structs s k s') : s'.env = s.env := by
  cases h <;> rfl

theorem Opens.lookup (h : Opens structs s k s') (x : String) : s'.lookup x = s.lookup x := by
  rw [State.lookup, h.env, State.lookup]

theorem slot_of_unfold {h : Heap} (hu : h.unfold structs loc = .ok heaps) :
    ∃ sum, h.slot loc = .occupied (.summary sum) := by
  rw [Heap.unfold] at hu
  split at hu
  · cases hu
  · exact ⟨_, Heap.slot_of_summary? ‹_›⟩

theorem Opens.slot_ne (h : Opens structs s k s') : s.heap.slot k ≠ .vacant := by
  cases h with
  | cell hs =>
    rw [hs]
    exact nofun
  | unfold hu =>
    obtain ⟨sum, hs⟩ := slot_of_unfold hu
    rw [hs]
    exact nofun

theorem Opens.exists_cell (h : Opens structs s k s') : ∃ c, s'.heap.slot k = .occupied (.cell c) := by
  cases h with
  | cell hs => exact ⟨_, hs⟩
  | unfold hu hmem =>
    obtain ⟨sum, decl, layout, way, sets, step, hs, -, -, -, -, rfl⟩ := Heap.unfold_cases hu hmem
    exact ⟨_, Heap.slot_unfolded_self (Heap.lt_size_of_occupied hs)⟩

/-- A row that ends at something takes a variable along. -/
theorem Closes.lookup (h : Closes structs s loc t k) (hk : t.heap.slot k ≠ .vacant)
    (hx : s.lookup x = .ok (.ptr loc)) : t.lookup x = .ok (.ptr k) := by
  induction h with
  | here => exact hx
  | next _ _ _ hv hc h ih =>
    rcases lookup_closeSegment hc hv hx with hx | hvacant
    · exact ih hk hx
    · -- nothing is left at the hole, so the row ends there
      cases h with
      | here => exact (hk hvacant).elim
      | next hs => cases hvacant.symm.trans hs

theorem Closes.keepsValue (h : Closes structs s loc t k) (hv : s.FirmIn v) : s.KeepsValue t v := by
  induction h with
  | here => exact fun _ => id
  | next hs _ ho _ hc _ ih =>
    obtain ⟨hv, hkeep⟩ := hv.closeSegment hs ho hc
    exact hkeep.trans (ih hv)

/-- A row of segments from a location ends there, or goes on at the hole of the segment there. -/
theorem exists_row_iff : (∃ t, Closes structs s loc t k ∧ Opens structs t k s') ↔
    (k = loc ∧ Opens structs s loc s') ∨ ∃ sum o next s₁ heaps,
      s.heap.slot loc = .occupied (.summary sum) ∧ s.heap.unfold structs loc = .ok heaps ∧
      sum.hole = some o ∧ o.value = .ptr next ∧ s.closeSegment loc sum o = .ok (some s₁) ∧
      ∃ t, Closes structs s₁ next t k ∧ Opens structs t k s' := by
  constructor
  · rintro ⟨t, hclose, hopen⟩
    cases hclose with
    | here => exact .inl ⟨rfl, hopen⟩
    | next hs hu ho hv hc h => exact .inr ⟨_, _, _, _, _, hs, hu, ho, hv, hc, t, h, hopen⟩
  · rintro (⟨rfl, hopen⟩ | ⟨sum, o, next, s₁, heaps, hs, hu, ho, hv, hc, t, h, hopen⟩)
    · exact ⟨s, .here s k, hopen⟩
    · exact ⟨t, .next hs hu ho hv hc h, hopen⟩

/-- A location that cannot be opened, and that is no segment, ends every row of segments. -/
theorem not_exists_row (h : ∀ heaps, s.heap.unfold structs loc ≠ .ok heaps)
    (hs : ∀ c, s.heap.slot loc ≠ .occupied (.cell c)) :
    ¬ ∃ t, Closes structs s loc t k ∧ Opens structs t k s' := by
  rw [exists_row_iff]
  rintro (⟨-, hc | hu⟩ | ⟨_, _, _, _, heaps, -, hu, -⟩)
  · exact hs _ ‹_›
  · exact h _ ‹_›
  · exact h heaps hu

theorem not_unfold_of_slot (hs : ∀ sum, s.heap.slot loc ≠ .occupied (.summary sum)) (heaps : List Heap) :
    s.heap.unfold structs loc ≠ .ok heaps := fun hu =>
  let ⟨sum, hsum⟩ := slot_of_unfold hu
  hs sum hsum

theorem materialize_of_unfold (hs : s.heap.slot loc = .occupied (.summary sum))
    (hu : s.heap.unfold structs loc = .ok heaps) : (s', .ok k) ∈ s.materialize structs (.ptr loc) ↔
      (k = loc ∧ ∃ heap ∈ heaps, s' = { s with heap }) ∨ ∃ o s₁, sum.hole = some o ∧
        s.closeSegment loc sum o = .ok (some s₁) ∧ (s', .ok k) ∈ s₁.materialize structs o.value := by
  have hcells : (s', .ok k) ∈ heaps.map (fun heap => (({ s with heap } : State),
      (.ok loc : Except Defect Loc))) ↔ k = loc ∧ ∃ heap ∈ heaps, s' = { s with heap } := by
    rw [mem_map]
    constructor
    · rintro ⟨heap, hmem, he⟩
      cases he
      exact ⟨rfl, heap, hmem, rfl⟩
    · rintro ⟨rfl, heap, hmem, rfl⟩
      exact ⟨heap, hmem, rfl⟩
  simp only [materialize_ptr, hs, hu, mem_append, hcells]
  rcases ho : sum.hole with _ | o
  · simp
  · rcases hc : s.closeSegment loc sum o with m | _ | s₁ <;> simp [hc]

theorem materialize_of_unfold_error {m : Mismatch} (hs : s.heap.slot loc = .occupied (.summary sum))
    (hu : s.heap.unfold structs loc = .error m) :
    s.materialize structs (.ptr loc) = [(s, .error (.mismatch m))] := by
  simp only [materialize_ptr, hs, hu]

theorem materialize_member {set : SetVar} {ty : StructId}
    (hs : s.heap.slot loc = .occupied (.member set ty)) :
    s.materialize structs (.ptr loc) = [(s, .error (.mismatchAt loc .writeShared))] := by
  rw [materialize_ptr, hs]

theorem mem_materialize_of_defect {d : Defect} (h : s.materialize structs (.ptr loc) = [(s, .error d)])
    (hu : ∀ heaps, s.heap.unfold structs loc ≠ .ok heaps)
    (hc : ∀ c, s.heap.slot loc ≠ .occupied (.cell c)) :
    (s', .ok k) ∈ s.materialize structs (.ptr loc) ↔
      ∃ t, Closes structs s loc t k ∧ Opens structs t k s' := by
  rw [h]
  constructor
  · intro hmem
    cases mem_singleton.1 hmem
  · exact fun hrow => (not_exists_row hu hc hrow).elim

theorem mem_materialize_cell {c : Cell} (hs : s.heap.slot loc = .occupied (.cell c)) :
    (s', .ok k) ∈ s.materialize structs (.ptr loc) ↔
      ∃ t, Closes structs s loc t k ∧ Opens structs t k s' := by
  rw [materialize_cell hs, mem_singleton, exists_row_iff]
  constructor
  · rintro ⟨⟩
    exact .inl ⟨rfl, .cell hs⟩
  · rintro (⟨rfl, _ | hu⟩ | ⟨sum, _, _, _, _, hsum, -⟩)
    · rfl
    · exact (not_unfold_of_slot (by simp [hs]) _ hu).elim
    · cases hs.symm.trans hsum

/-- A summary is opened, or it is a segment that is closed. Then what its hole comes to counts. -/
theorem mem_materialize_summary (hs : s.heap.slot loc = .occupied (.summary sum))
    (hu : s.heap.unfold structs loc = .ok heaps)
    (hnext : ∀ o s₁ next, s.closeSegment loc sum o = .ok (some s₁) →
      ((s', .ok k) ∈ s₁.materialize structs (.ptr next) ↔ ∃ t, Closes structs s₁ next t k ∧ Opens structs t k s')) :
    (s', .ok k) ∈ s.materialize structs (.ptr loc) ↔
      ∃ t, Closes structs s loc t k ∧ Opens structs t k s' := by
  rw [materialize_of_unfold hs hu, exists_row_iff]
  refine or_congr (and_congr_right fun hk => ?_) ?_
  · constructor
    · rintro ⟨heap, hmem, rfl⟩
      exact .unfold hu hmem
    · rintro (hc | ⟨hu', hmem⟩)
      · cases hs.symm.trans ‹_›
      · cases hu.symm.trans hu'
        exact ⟨_, hmem, rfl⟩
  · constructor
    · rintro ⟨o, s₁, ho, hc, hmem⟩
      cases hv : o.value with
      | null | int =>
        rw [hv, materialize] at hmem
        cases mem_singleton.1 hmem
      | ptr next =>
        rw [hv, hnext o s₁ next hc] at hmem
        exact ⟨sum, o, next, s₁, heaps, hs, hu, ho, hv, hc, hmem⟩
    · rintro ⟨sum', o, next, s₁, heaps', hs', hu', ho, hv, hc, hrow⟩
      cases hs.symm.trans hs'
      refine ⟨o, s₁, ho, hc, ?_⟩
      rw [hv, hnext o s₁ next hc]
      exact hrow

/-- A pointer comes to the cells where segments that are closed one after the other end. -/
theorem mem_materialize_ptr : (s', .ok k) ∈ s.materialize structs (.ptr loc) ↔
    ∃ t, Closes structs s loc t k ∧ Opens structs t k s' := by
  -- By induction on the number of facts: each segment that is closed takes one away.
  induction hn : s.heap.factCount using Nat.strong_induction_on generalizing s loc with
  | _ n ih =>
    subst hn
    rcases hs : s.heap.slot loc with _ | (c | sum | ⟨set, ty⟩) | _
    · refine mem_materialize_of_defect (materialize_vacant hs) (not_unfold_of_slot ?_) ?_ <;> simp [hs]
    · exact mem_materialize_cell hs
    · cases hu : s.heap.unfold structs loc with
      | error m =>
        exact mem_materialize_of_defect (materialize_of_unfold_error hs hu) (by simp [hu]) (by simp [hs])
      | ok heaps =>
        exact mem_materialize_summary hs hu fun o s₁ next hc => ih _ (factCount_closeSegment_lt hs hc) rfl
    · refine mem_materialize_of_defect (materialize_member hs) (not_unfold_of_slot ?_) ?_ <;> simp [hs]
    · refine mem_materialize_of_defect (materialize_tombstone hs) (not_unfold_of_slot ?_) ?_ <;> simp [hs]

/-- A state with a field set in the record at a location. -/
def withField (s : State) (k : Loc) (c : Cell) (f : Nat) (v : Value) : State :=
  { s with heap := s.heap.write k (.occupied (.cell { c with fields := c.fields.set f v })) }

/-- A location opens into a record that has a field. -/
def OpensField (structs : Structs) (s : State) (k : Loc) (f : Nat) : Prop :=
  ∃ u c, Opens structs s k u ∧ u.heap.cell? k = some c ∧ f < c.fields.length

end State

namespace Exec

open State

variable {structs : Structs} {s s' : State} {x y : String} {f : FieldRef} {a : Loc} {w : Value}

theorem assign_field (hx : s.lookup x = .ok (.ptr a)) (hy : s.lookup y = .ok w) :
    assign structs ⟨x, [f]⟩ (.path ⟨y, []⟩) s = storeField structs (.ptr a) f.index w s := by
  have hread {z : String} {v : Value} (hz : s.lookup z = .ok v) :
      read structs ⟨z, []⟩ s = [(s, .ok v)] := by
    have hask : ask (fun s => s.lookup z) s = [(s, .ok v)] := by rw [ask, hz]
    exact bind_of_single hask
  rw [assign, bind_of_single (x := eval structs (.path ⟨y, []⟩)) (hread hy)]
  exact bind_of_single (hread hx)

/-- The outcomes of a field write: a row of segments is closed, and the record where it ends
    gets the value that `y` held before. -/
theorem mem_assign_field (hx : s.lookup x = .ok (.ptr a)) (hy : s.lookup y = .ok w) :
    (s', .ok ()) ∈ assign structs ⟨x, [f]⟩ (.path ⟨y, []⟩) s ↔
      ∃ t k u c, Closes structs s a t k ∧ Opens structs t k u ∧
        u.heap.slot k = .occupied (.cell c) ∧ f.index < c.fields.length ∧
        s' = u.withField k c f.index w := by
  rw [assign_field hx hy, storeField, mem_bind]
  constructor
  · rintro (⟨u, k, hmem, hstore⟩ | ⟨d, -, hd⟩)
    · obtain ⟨t, hclose, hopen⟩ := mem_materialize_ptr.1 hmem
      obtain ⟨c, hc⟩ := hopen.exists_cell
      rw [storeCell, update, Heap.setField?_of_slot hc] at hstore
      by_cases hf : f.index < c.fields.length
      · rw [if_pos hf] at hstore
        cases mem_singleton.1 hstore
        exact ⟨t, k, u, c, hclose, hopen, hc, hf, rfl⟩
      · rw [if_neg hf] at hstore
        cases mem_singleton.1 hstore
    · cases hd
  · rintro ⟨t, k, u, c, hclose, hopen, hc, hf, rfl⟩
    refine .inl ⟨u, k, mem_materialize_ptr.2 ⟨t, hclose, hopen⟩, ?_⟩
    rw [storeCell, update, Heap.setField?_of_slot hc, if_pos hf]
    exact mem_singleton_self _

/-- After a field write `x` points to a record, and the field holds the value that `y` held before. -/
theorem assign_field_cell {t u : State} {k : Loc} {c : Cell} (hx : s.lookup x = .ok (.ptr a))
    (hclose : Closes structs s a t k) (hopen : Opens structs t k u)
    (hc : u.heap.slot k = .occupied (.cell c)) (hf : f.index < c.fields.length)
    (hs' : s' = u.withField k c f.index w) :
    s'.lookup x = .ok (.ptr k) ∧ s'.lookup y = t.lookup y ∧
      ∃ c', s'.heap.cell? k = some c' ∧ c'.fields[f.index]? = some w := by
  subst hs'
  refine ⟨?_, hopen.lookup y, _,
    Heap.cell?_of_slot (Heap.slot_write_self (Heap.lt_size_of_occupied hc) _), ?_⟩
  · exact (hopen.lookup x).trans (hclose.lookup hopen.slot_ne hx)
  · exact getElem?_set_self hf

/-- After a field write `x->f = y`, `x` points to a record whose field `f` holds the value that `y`
    held before. It is read back as the value of `y` in those outcomes where `y` goes on to hold
    it. So it is read back in all outcomes if and only if `y` keeps its value on every row of
    segments that ends at a record with the field, and in any case if the value is null, or a
    location that is a cell, the root of a full summary or freed. -/
theorem assign_reads_back_iff (hx : s.lookup x = .ok (.ptr a)) (hy : s.lookup y = .ok w) :
    (∀ s', (s', .ok ()) ∈ assign structs ⟨x, [f]⟩ (.path ⟨y, []⟩) s →
      (∃ loc c, s'.lookup x = .ok (.ptr loc) ∧ s'.heap.cell? loc = some c ∧
        c.fields[f.index]? = some w) ∧
      (s'.ReadsBack x f.index y ↔ s'.lookup y = .ok w)) ∧
    ((∀ s', (s', .ok ()) ∈ assign structs ⟨x, [f]⟩ (.path ⟨y, []⟩) s → s'.ReadsBack x f.index y) ↔
      ∀ t k, Closes structs s a t k → t.OpensField structs k f.index → t.lookup y = .ok w) ∧
    ((∀ b, w = .ptr b → s.heap.Settled b) →
      ∀ s', (s', .ok ()) ∈ assign structs ⟨x, [f]⟩ (.path ⟨y, []⟩) s → s'.ReadsBack x f.index y) := by
  have hstored {s'} (hmem : (s', .ok ()) ∈ assign structs ⟨x, [f]⟩ (.path ⟨y, []⟩) s) :
      ∃ t k, Closes structs s a t k ∧ t.OpensField structs k f.index ∧
        s'.lookup x = .ok (.ptr k) ∧ s'.lookup y = t.lookup y ∧
        ∃ c, s'.heap.cell? k = some c ∧ c.fields[f.index]? = some w := by
    obtain ⟨t, k, u, c, hclose, hopen, hc, hf, hs'⟩ := (mem_assign_field hx hy).1 hmem
    exact ⟨t, k, hclose, ⟨u, c, hopen, Heap.cell?_of_slot hc, hf⟩,
      assign_field_cell hx hclose hopen hc hf hs'⟩
  have hread {s'} (hmem : (s', .ok ()) ∈ assign structs ⟨x, [f]⟩ (.path ⟨y, []⟩) s) :
      s'.ReadsBack x f.index y ↔ s'.lookup y = .ok w := by
    obtain ⟨t, k, -, -, hx', -, c, hc, hb⟩ := hstored hmem
    constructor
    · rintro ⟨loc, c', v, hloc, hc', hv, hfield⟩
      cases hx'.symm.trans hloc
      cases hc.symm.trans hc'
      cases hb.symm.trans hfield
      exact hv
    · exact fun hy' => ⟨k, c, _, hx', hc, hy', hb⟩
  refine ⟨fun s' hmem => ⟨?_, hread hmem⟩, ⟨fun hall t k hclose hopen => ?_, fun hkeep s' hmem => ?_⟩,
    fun hb s' hmem => ?_⟩
  · obtain ⟨t, k, -, -, hx', -, c, hc, hb⟩ := hstored hmem
    exact ⟨k, c, hx', hc, hb⟩
  · obtain ⟨u, c, hopen, hc, hf⟩ := hopen
    have hmem : (u.withField k c f.index w, .ok ()) ∈ assign structs ⟨x, [f]⟩ (.path ⟨y, []⟩) s :=
      (mem_assign_field hx hy).2 ⟨t, k, u, c, hclose, hopen, Heap.slot_of_cell? hc, hf, rfl⟩
    have hy' := (hread hmem).1 (hall _ hmem)
    exact (hopen.lookup y).symm.trans hy'
  · obtain ⟨t, k, hclose, hopen, -, hy', -⟩ := hstored hmem
    exact (hread hmem).2 (hy'.trans (hkeep t k hclose hopen))
  · obtain ⟨t, k, hclose, -, -, hy', -⟩ := hstored hmem
    exact (hread hmem).2 (hy'.trans (hclose.keepsValue hb y hy))

/-- The segment of the sample is closed: `x` and `y` hold the cell at its end. -/
theorem closes_sample :
    Closes Sample.nodes Sample.state ⟨1⟩ (Sample.state.emptied ⟨1⟩ (.ptr ⟨0⟩)) ⟨0⟩ :=
  .next rfl rfl rfl rfl rfl (.here _ _)

theorem assign_reads_back_segment :
    Sample.state.lookup "x" = .ok (.ptr ⟨1⟩) ∧ Sample.state.lookup "y" = .ok (.ptr ⟨0⟩) ∧
      (∀ b, Value.ptr ⟨0⟩ = .ptr b → Sample.state.heap.Settled b) ∧
      (∃ s', (s', .ok ()) ∈ assign Sample.nodes ⟨"x", [⟨"next", 0⟩]⟩ (.path ⟨"y", []⟩) Sample.state) ∧
      ∀ s', (s', .ok ()) ∈ assign Sample.nodes ⟨"x", [⟨"next", 0⟩]⟩ (.path ⟨"y", []⟩) Sample.state →
        s'.ReadsBack "x" 0 "y" :=
  have hsettled : ∀ b, Value.ptr ⟨0⟩ = .ptr b → Sample.state.heap.Settled b := by rintro _ ⟨⟩; trivial
  ⟨rfl, rfl, hsettled,
    ⟨_, (mem_assign_field rfl rfl).2
      ⟨_, _, _, ⟨⟨0⟩, [.null]⟩, closes_sample, .cell rfl, rfl, by decide, rfl⟩⟩,
    (assign_reads_back_iff rfl rfl).2.2 hsettled⟩

/-- If the segment of the sample is closed by the field write `x->next = x`, the field holds the
    location that `x` had before, and `x` is at another one. -/
theorem assign_self_not_read_back : ∃ s',
    (s', .ok ()) ∈ assign Sample.nodes ⟨"x", [⟨"next", 0⟩]⟩ (.path ⟨"x", []⟩) Sample.state ∧
      s'.lookup "x" = .ok (.ptr ⟨0⟩) ∧ s'.heap.cell? ⟨0⟩ = some ⟨⟨0⟩, [.ptr ⟨1⟩]⟩ ∧
      ¬ s'.ReadsBack "x" 0 "x" := by
  refine ⟨_, (mem_assign_field rfl rfl).2
    ⟨_, _, _, ⟨⟨0⟩, [.null]⟩, closes_sample, .cell rfl, rfl, by decide, rfl⟩, rfl, rfl, ?_⟩
  rintro ⟨loc, c, v, hx, hc, hv, hfield⟩
  cases hx
  cases hc
  cases hv
  cases hfield

end Exec

end HeapShape
