import HeapShape.Proofs.Unfolding
import Mathlib.Data.Fintype.EquivFin

/-!
# Changes of memory

What a program does to memory, and what a heap that describes memory does along with it.

* `Heap.Describes.store`: a field of a cell and of its record change together;
* `Heap.Describes.release`: a cell is freed together with its record;
* `Heap.Describes.alloc`: a new cell is a new record at an address that does not show in
  memory. Locations that stood for this address, such as freed ones, are given another one
  first (`Heap.Describes.avoid`).
-/

namespace HeapShape

theorem forall₂_set {α β : Type} {R : α → β → Prop} {l : List α} {k : List β}
    (h : List.Forall₂ R l k) {a : α} {b : β} (hab : R a b) (i : Nat) :
    List.Forall₂ R (l.set i a) (k.set i b) := by
  induction h generalizing i with
  | nil => exact .nil
  | cons hcd ht ih =>
    cases i with
    | zero => exact .cons hab ht
    | succ i => exact .cons hcd (ih i)

variable {structs : Structs} {ok : Record → Prop} {ν : Valuation} {m : Memory} {loc : Loc}
  {a : Addr} {r : Record}

/-- A footprint is a part of memory. -/
theorem Fact.Holds.mem {f : Fact} {A : Finset Addr} (h : f.Holds structs ok ν m loc A) {x : Addr}
    (hx : x ∈ A) : x ∈ m := by
  have chain {node : Record → Prop} {next : Nat} {stop d : Datum} {B : Finset Addr}
      (h : m.Chain node next stop d B) : x ∈ B → x ∈ m := by
    induction h with
    | nil => exact fun hx => absurd hx (Finset.notMem_empty x)
    | cons hr _ _ _ _ ih =>
      rw [Finset.mem_insert]
      rintro (rfl | hx)
      · exact Finmap.mem_iff.2 ⟨_, hr⟩
      · exact ih hx
  have tree {node : Record → Prop} {left right up : Nat} {q : Option (Datum × Datum)}
      {parent d : Datum} {B : Finset Addr} (h : m.Tree node left right up q parent d B) :
      x ∈ B → x ∈ m := by
    induction h with
    | empty | hole => exact fun hx => absurd hx (Finset.notMem_empty x)
    | node hr _ _ _ _ _ _ _ _ _ ihl ihr =>
      rw [Finset.mem_insert, Finset.mem_union]
      rintro (rfl | hx | hx)
      · exact Finmap.mem_iff.2 ⟨_, hr⟩
      · exact ihl hx
      · exact ihr hx
  cases f with
  | cell c =>
    obtain ⟨a, r, -, hr, -, -, rfl⟩ := h
    rw [Finset.mem_singleton.1 hx]
    exact Finmap.mem_iff.2 ⟨r, hr⟩
  | summary s =>
    rcases Summary.Holds.layout h with ⟨hp, next, hlay⟩ | ⟨hp, left, right, up, hlay⟩
    · obtain ⟨stop, -, hchain⟩ := (Summary.holds_list hp hlay).1 h
      exact chain hchain hx
    · obtain ⟨q, parent, -, -, htree⟩ := (Summary.holds_tree hp hlay).1 h
      exact tree htree hx
  | member set ty => exact h.elim

namespace Heap

variable {h : Heap} {foot : Loc → Finset Addr} {x : Cell}

section

variable (hd : h.Describes structs ok ν m foot)
include hd

/-- The record of a cell, which no other fact speaks of. -/
theorem Describes.cell (hs : h.slot loc = .occupied (.cell x)) (ha : ν loc = some a) :
    ∃ r, m.lookup a = some r ∧ r.ty = x.ty ∧ List.Forall₂ ν.Holds x.fields r.fields ∧
      ∀ k f, k ≠ loc → h.slot k = .occupied f → a ∉ foot k := by
  obtain ⟨b, r, hb, hr, hty, hf, hfoot⟩ := hd.facts loc _ hs
  cases hb.symm.trans ha
  refine ⟨r, hr, hty, hf, fun k f hk hkf hmem => ?_⟩
  have hdisj := hd.apart k loc f _ hkf hs hk
  rw [hfoot, Finset.disjoint_singleton_right] at hdisj
  exact hdisj hmem

/-- A field of a cell and of its record may change together. -/
theorem Describes.store (hs : h.slot loc = .occupied (.cell x)) (ha : ν loc = some a)
    (hr : m.lookup a = some r) {w : Value} {d : Datum} (hw : ν.Holds w d) (i : Nat) :
    (h.write loc (.occupied (.cell { x with fields := x.fields.set i w }))).Sat structs ok ν
      (m.insert a { r with fields := r.fields.set i d }) := by
  obtain ⟨r', hr', hty, hf, hother⟩ := hd.cell hs ha
  cases hr.symm.trans hr'
  have hl := lt_size_of_occupied hs
  -- The other facts do not notice, so the cell is taken away and put back changed.
  have hd' : (h.write loc .vacant).Describes structs ok ν
      (m.insert a { r with fields := r.fields.set i d }) foot := by
    refine (hd.vacate loc).memory (fun k f hkf y hy => ?_) fun k b _ _ hb hmem => ?_
    · obtain ⟨hne, hkf⟩ := of_occupied_write rfl hkf
      refine Finmap.lookup_insert_of_ne _ fun he => hother k f hne hkf (he ▸ hy)
    · rcases Finmap.mem_insert.1 hmem with rfl | hmem
      · exact hb (Finmap.mem_iff.2 ⟨r, hr⟩)
      · exact hb hmem
  have hcell : (Fact.cell { x with fields := x.fields.set i w }).Holds structs ok ν
      (m.insert a { r with fields := r.fields.set i d }) loc {a} :=
    ⟨a, _, ha, Finmap.lookup_insert _, hty, forall₂_set hf hw i, rfl⟩
  have hd'' := hd'.write (by rwa [size_write]) hcell fun k f hk hkf =>
    Finset.disjoint_singleton_right.2 (hother k f hk (of_occupied_write rfl hkf).2)
  rw [write_write] at hd''
  exact ⟨_, hd''⟩

/-- A cell may be freed together with its record. -/
theorem Describes.release (hs : h.slot loc = .occupied (.cell x)) (ha : ν loc = some a) :
    (h.write loc .tombstone).Describes structs ok ν (m.erase a) foot := by
  obtain ⟨-, -, -, -, hother⟩ := hd.cell hs ha
  -- Every fact that is left was there before, about another location.
  have old {k : Loc} {f : Fact} (hf : (h.write loc .tombstone).slot k = .occupied f) :
      k ≠ loc ∧ h.slot k = .occupied f := of_occupied_write rfl hf
  refine ⟨fun k f hf => ?_, fun k k' f f' hf hf' => ?_, fun k hk => ?_⟩
  · obtain ⟨hne, hf⟩ := old hf
    refine (hd.facts k f hf).of_agree fun y hy => Finmap.lookup_erase_ne ?_
    exact fun he => hother k f hne hf (he ▸ hy)
  · exact hd.apart k k' f f' (old hf).2 (old hf').2
  · rw [slot_write (lt_size_of_occupied hs)] at hk
    split at hk
    · rename_i he
      rw [he]
      exact ⟨a, ha, Finmap.notMem_erase_self⟩
    · obtain ⟨b, hb, hnb⟩ := hd.freed k hk
      exact ⟨b, hb, fun hmem => hnb (Finmap.mem_erase.1 hmem).2⟩

/-- An address that does not show in memory need not be that of a location. -/
theorem Describes.avoid (ha : a ∉ m) (hfields : ∀ b r, m.lookup b = some r → .addr a ∉ r.fields) :
    ∃ ν', h.Describes structs ok ν' m foot ∧ (∀ k, ν' k ≠ some a) ∧
      ∀ k, ν k ≠ some a → ν' k = ν k := by
  -- An address that is not in use stands in for the one to be avoided.
  obtain ⟨b, hb⟩ := Infinite.exists_notMem_finset (insert a m.keys)
  rw [Finset.mem_insert, not_or, Finmap.mem_keys] at hb
  refine ⟨_, hd.rename (ρ := fun x => if x = a then b else x) ⟨rfl, fun x r hx => ?_,
    fun x r hx d hdm => ?_⟩ fun x hx => ?_, fun k hk => ?_, fun k hk => ?_⟩
  · have hne : x ≠ a := fun he => ha (he ▸ Finmap.mem_iff.2 ⟨r, hx⟩)
    simp only [if_neg hne]
  · cases d with
    | null => rfl
    | scalar n => rfl
    | addr y =>
      have hne : y ≠ a := fun he => hfields x r hx (he ▸ hdm)
      simp only [if_neg hne]
  · split
    · exact hb.2
    · exact hx
  · obtain ⟨x, -, hx⟩ := Option.map_eq_some_iff.1 hk
    split at hx
    · exact hb.1 hx
    · exact absurd hx ‹_›
  · cases hν : ν k with
    | none => rfl
    | some x =>
      rw [hν] at hk
      exact congrArg some (if_neg fun he => hk (congrArg some he))

end

/-- A cell for a new record. -/
theorem Describes.alloc (hd : h.Describes structs (Record.Fits structs) ν m foot) (hc : h.Closed)
    (ha : a ∉ m) (hfields : ∀ b r, m.lookup b = some r → .addr a ∉ r.fields)
    {decl : StructDecl} (hdecl : structs.decl? r.ty = some decl) (hfit : r.Fits structs) :
    ∃ ν', (h.allocCell r.ty decl).2.Sat structs (Record.Fits structs) ν' (m.insert a r) ∧
      ν' (h.allocCell r.ty decl).1 = some a ∧
      ∀ k, k.index < h.size → ν k ≠ some a → ν' k = ν k := by
  -- First no location stands for the address, then the record is put there, and then the cell
  -- is made as if it were unfolded: its fields are new locations.
  obtain ⟨ν₁, hd₁, hna, hν₁⟩ := hd.avoid ha hfields
  have hd₂ : h.Describes structs (Record.Fits structs) ν₁ (m.insert a r) foot := by
    refine hd₁.memory (fun k f hf x hx => Finmap.lookup_insert_of_ne _ fun he => ?_)
      fun k b _ hk hb hmem => ?_
    · exact ha (he ▸ (hd₁.facts k f hf).mem hx)
    · rcases Finmap.mem_insert.1 hmem with rfl | hmem
      · exact hna k hk
      · exact hb hmem
  have hnew : (⟨h.size⟩ : Loc).index < h.fresh.2.size := (size_fresh h).symm ▸ Nat.lt_succ_self _
  obtain ⟨decl', hdecl', hof⟩ := hfit
  cases hdecl.symm.trans hdecl'
  have hroot : Summary.RootAt structs (Record.Fits structs) (Function.update ν₁ (⟨h.size⟩ : Loc) (some a))
      (m.insert a r) ⟨h.size⟩ {a} r.ty (decl.fields.mapIdx fun _ f => unknownField f) :=
    Summary.rootAt_of_fields [] (Function.update_self ..) (Finmap.lookup_insert _) rfl hof
      (fun _ f d _ hd => unknownField_holds hd) (Finset.mem_singleton_self a)
      (List.forall_mem_nil _) .nil
  obtain ⟨ν₃, foot₃, hν₃, hd₃⟩ := (hd₂.fresh hc (some a)).unfolded (hc.place (c := .unknown) nofun) hnew
    (fun c hcm v hv k hk => by
      obtain ⟨i, hi, rfl⟩ := List.mem_mapIdx.1 hcm
      exact absurd hk (unknownField_values hv)) hroot fun k f _ hf => by
      rw [Finset.disjoint_singleton_right]
      exact fun hmem => ha ((hd₁.facts k f ((slot_fresh h k).symm.trans hf)).mem hmem)
  have hmap : (decl.fields.mapIdx fun _ f => unknownField f) = decl.fields.map unknownField :=
    List.mapIdx_eq_iff.2 fun i => List.getElem?_map
  rw [hmap] at hd₃
  refine ⟨ν₃, ⟨foot₃, hd₃⟩, ?_, fun k hk hka => ?_⟩
  · exact (hν₃ ⟨h.size⟩ hnew).trans (Function.update_self ..)
  · rw [hν₃ k (hk.trans ((size_fresh h).symm ▸ Nat.lt_succ_self _)),
      Function.update_of_ne (ne_of_lt_size hk), hν₁ k hka]

end Heap

end HeapShape
