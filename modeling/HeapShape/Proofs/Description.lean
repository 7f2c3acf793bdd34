import HeapShape.Proofs.HeapView
import HeapShape.Proofs.Layout
import HeapShape.Proofs.Memory

/-!
# Rules for descriptions of memory

When a heap describes memory, so do the heaps that follow from it, and it goes on to do so
when memory, the valuation or the heap change where it does not matter.

* `Fact.Holds.transport`: values, data and the valuation may change together, as long as
  nothing that is stored in memory changes;
* `Fact.Holds.of_agree`: a fact only speaks about its footprint;
* `Heap.Describes.subst`, `Heap.Describes.congr`, `Heap.Describes.rename`: three uses of the
  first;
* `Heap.Describes.write`, `Heap.Describes.grow`: new facts.
-/

namespace HeapShape

variable {structs : Structs} {ok : Record → Prop} {ν ν' : Valuation} {m m' : Memory}

/-! ### Summaries -/

namespace Summary

variable {s : Summary} {loc : Loc} {A : Finset Addr}

theorem holds_list {next : Nat} (hp : s.pred = .list)
    (hl : Predicate.list.layout? structs s.ty = some ⟨[next], none, [], []⟩) :
    s.Holds structs ok ν m loc A ↔ ∃ stop, Hole.StopsAt ν s.hole stop ∧
      m.Chain (Record.IsOf ok s.ty) next stop (.pointer (ν loc)) A := by
  rw [Holds, hp, hl]

theorem holds_tree {left right up : Nat} (hp : s.pred = .tree)
    (hl : Predicate.tree.layout? structs s.ty = some ⟨[left, right], some up, [], []⟩) :
    s.Holds structs ok ν m loc A ↔ ∃ q parent, Hole.OpenAt ν s.hole q ∧
      List.Forall₂ ν.Holds s.params.ptrs [parent] ∧
      m.Tree (Record.IsOf ok s.ty) left right up q parent (.pointer (ν loc)) A := by
  rw [Holds, hp, hl]

/-- A summary that holds is a list or a tree of a structure that is laid out for it. -/
theorem Holds.layout (h : s.Holds structs ok ν m loc A) :
    (s.pred = .list ∧ ∃ next, Predicate.list.layout? structs s.ty = some ⟨[next], none, [], []⟩) ∨
      (s.pred = .tree ∧ ∃ left right up,
        Predicate.tree.layout? structs s.ty = some ⟨[left, right], some up, [], []⟩) := by
  unfold Holds at h
  split at h
  · rename_i hp hl
    rw [hp] at hl
    obtain ⟨_, next, _, he, _⟩ := Predicate.layout?_list hl
    exact .inl ⟨hp, next, he ▸ hl⟩
  · rename_i hp hl
    rw [hp] at hl
    obtain ⟨_, left, right, up, _, he, _⟩ := Predicate.layout?_tree hl
    exact .inr ⟨hp, left, right, up, he ▸ hl⟩
  · exact h.elim

end Summary

/-! ### What a fact depends on -/

theorem forall₂_transport {α β : Type} {R S : α → β → Prop} {g : α → α} {ρ : β → β} {l : List α}
    {k : List β} (h : List.Forall₂ R l k) (hS : ∀ a ∈ l, ∀ b ∈ k, R a b → S (g a) (ρ b)) :
    List.Forall₂ S (l.map g) (k.map ρ) := by
  induction h with
  | nil => exact .nil
  | cons hab _ ih =>
    refine .cons (hS _ (.head _) _ (.head _) hab) (ih fun a ha b hb => ?_)
    exact hS a (.tail _ ha) b (.tail _ hb)

namespace Memory

/-- A change of data that does not show in memory. -/
structure Unseen (m : Memory) (ρ : Datum → Datum) : Prop where
  null : ρ .null = .null
  addr : ∀ a r, m.lookup a = some r → ρ (.addr a) = .addr a
  fields : ∀ a r, m.lookup a = some r → ∀ d ∈ r.fields, ρ d = d

theorem unseen_id (m : Memory) : m.Unseen id := ⟨rfl, fun _ _ _ => rfl, fun _ _ _ _ _ => rfl⟩

variable {ρ : Datum → Datum} {node : Record → Prop} {d : Datum} {A : Finset Addr}

theorem Chain.transport {next : Nat} {stop : Datum} (hρ : m.Unseen ρ) (h : m.Chain node next stop d A) :
    m.Chain node next (ρ stop) (ρ d) A := by
  induction h with
  | nil => exact .nil
  | cons hr hnode hd ha _ ih =>
    rw [hρ.addr _ _ hr]
    rw [hρ.fields _ _ hr _ (List.mem_of_getElem? hd)] at ih
    exact .cons hr hnode hd ha ih

theorem Tree.transport {left right up : Nat} {q : Option (Datum × Datum)} {parent : Datum}
    (hρ : m.Unseen ρ) (h : m.Tree node left right up q parent d A) :
    m.Tree node left right up (q.map (Prod.map ρ ρ)) (ρ parent) (ρ d) A := by
  induction h with
  | empty => rw [hρ.null]; exact .empty
  | hole => exact .hole
  | node hr hnode hd he hup ho ha hAB _ _ ihl ihr =>
    rw [hρ.addr _ _ hr] at ihl ihr ⊢
    rw [hρ.fields _ _ hr _ (List.mem_of_getElem? hd)] at ihl
    rw [hρ.fields _ _ hr _ (List.mem_of_getElem? he)] at ihr
    rw [hρ.fields _ _ hr _ (List.mem_of_getElem? hup), Option.map_or]
    refine .node hr hnode hd he hup ?_ ha hAB ihl ihr
    rcases ho with rfl | rfl
    · exact .inl rfl
    · exact .inr rfl

/-- A chain only depends on its own records. -/
theorem Chain.of_agree {next : Nat} {stop : Datum} (h : m.Chain node next stop d A)
    (hm : ∀ x ∈ A, m'.lookup x = m.lookup x) : m'.Chain node next stop d A := by
  induction h with
  | nil => exact .nil
  | @cons a r d A hr hnode hd ha _ ih =>
    have htail := ih fun x hx => hm x (Finset.mem_insert_of_mem hx)
    exact .cons ((hm a (Finset.mem_insert_self a A)).trans hr) hnode hd ha htail

/-- A tree only depends on its own records. -/
theorem Tree.of_agree {left right up : Nat} {q : Option (Datum × Datum)} {parent : Datum}
    (h : m.Tree node left right up q parent d A) (hm : ∀ x ∈ A, m'.lookup x = m.lookup x) :
    m'.Tree node left right up q parent d A := by
  induction h with
  | empty => exact .empty
  | hole => exact .hole
  | @node a r parent d e o o' A B hr hnode hd he hup ho ha hAB _ _ ihl ihr =>
    have hl := ihl fun x hx => hm x (Finset.mem_insert_of_mem (Finset.mem_union_left B hx))
    have hr' := ihr fun x hx => hm x (Finset.mem_insert_of_mem (Finset.mem_union_right A hx))
    exact .node ((hm a (Finset.mem_insert_self a _)).trans hr) hnode hd he hup ho ha hAB hl hr'

end Memory

/-- Change every value that a hole mentions. -/
def Hole.mapValues (g : Value → Value) (o : Hole) : Hole :=
  { value := g o.value, params := { o.params with ptrs := o.params.ptrs.map g } }

/-- Change every value that a summary mentions. -/
def Summary.mapValues (g : Value → Value) (s : Summary) : Summary :=
  { s with params := { s.params with ptrs := s.params.ptrs.map g }, hole := s.hole.map (Hole.mapValues g) }

theorem Hole.StopsAt.transport {g : Value → Value} {ρ : Datum → Datum} {o : Option Hole} {d : Datum}
    (hnull : ρ .null = .null) (h : Hole.StopsAt ν o d)
    (hv : ∀ q, o = some q → ∀ d, ν.Holds q.value d → ν'.Holds (g q.value) (ρ d)) :
    Hole.StopsAt ν' (o.map (Hole.mapValues g)) (ρ d) := by
  cases o with
  | none => rw [show d = .null from h]; exact hnull
  | some q => exact hv q rfl d h

theorem Hole.OpenAt.transport {g : Value → Value} {ρ : Datum → Datum} {o : Option Hole}
    {q : Option (Datum × Datum)} (h : Hole.OpenAt ν o q)
    (hv : ∀ e, o = some e → ∀ v ∈ e.value :: e.params.ptrs, ∀ d, ν.Holds v d → ν'.Holds (g v) (ρ d)) :
    Hole.OpenAt ν' (o.map (Hole.mapValues g)) (q.map (Prod.map ρ ρ)) := by
  cases o with
  | none => rw [show q = none from h]; rfl
  | some e =>
    obtain ⟨d, parent, hd, hp, rfl⟩ := h
    refine ⟨ρ d, ρ parent, hv e rfl _ (.head _) d hd, ?_, rfl⟩
    exact forall₂_transport hp fun v hmem d _ => hv e rfl v (.tail _ hmem) d

namespace Fact

variable {f : Fact} {loc : Loc} {A : Finset Addr}

theorem mem_values_of_param {s : Summary} {v : Value} (hv : v ∈ s.params.ptrs) :
    v ∈ (Fact.summary s).values := List.mem_append_left _ hv

theorem mem_values_of_hole {s : Summary} {o : Hole} {v : Value} (ho : s.hole = some o)
    (hv : v ∈ o.value :: o.params.ptrs) : v ∈ (Fact.summary s).values := by
  refine List.mem_append_right _ ?_
  rw [ho]
  exact List.mem_flatMap.2 ⟨o, List.mem_singleton_self o, hv⟩

/-- A fact goes on to hold when its values, the data that they can be and the valuation
    change together, but nothing that is stored in memory does. -/
theorem Holds.transport {g : Value → Value} {ρ : Datum → Datum} (hρ : m.Unseen ρ)
    (hv : ∀ v ∈ f.values, ∀ d, ν.Holds v d → ν'.Holds (g v) (ρ d))
    (hl : .pointer (ν' loc) = ρ (.pointer (ν loc))) (h : f.Holds structs ok ν m loc A) :
    (f.mapValues g).Holds structs ok ν' m loc A := by
  cases f with
  | cell c =>
    obtain ⟨a, r, ha, hr, hty, hf, hA⟩ := h
    refine ⟨a, r, ?_, hr, hty, ?_, hA⟩
    · rw [ha, Datum.pointer, hρ.addr a r hr] at hl
      cases hν : ν' loc with
      | none => rw [hν] at hl; cases hl
      | some b => rw [hν] at hl; cases hl; rfl
    · have hfields : r.fields.map ρ = r.fields :=
        (List.map_congr_left (hρ.fields a r hr)).trans (List.map_id' _)
      rw [← hfields]
      exact forall₂_transport hf fun v hmem d _ => hv v hmem d
  | summary s =>
    rcases Summary.Holds.layout h with ⟨hp, next, hlay⟩ | ⟨hp, left, right, up, hlay⟩
    · obtain ⟨stop, hstop, hchain⟩ := (Summary.holds_list hp hlay).1 h
      refine (Summary.holds_list (s := s.mapValues g) hp hlay).2 ⟨ρ stop, ?_, ?_⟩
      · exact hstop.transport hρ.null fun o ho d => hv _ (mem_values_of_hole ho (.head _)) d
      · exact hl ▸ hchain.transport hρ
    · obtain ⟨q, parent, hq, hparent, htree⟩ := (Summary.holds_tree hp hlay).1 h
      refine (Summary.holds_tree (s := s.mapValues g) hp hlay).2
        ⟨q.map (Prod.map ρ ρ), ρ parent, ?_, ?_, ?_⟩
      · exact hq.transport fun o ho v hmem d => hv v (mem_values_of_hole ho hmem) d
      · exact forall₂_transport hparent fun v hmem d _ => hv v (mem_values_of_param hmem) d
      · exact hl ▸ htree.transport hρ
  | member set ty => exact h.elim

theorem mapValues_id (f : Fact) : f.mapValues id = f := by
  obtain _ | ⟨_, _, _, _ | _⟩ | _ := f <;> simp [mapValues]

/-- A fact only depends on the records at its footprint. -/
theorem Holds.of_agree (h : f.Holds structs ok ν m loc A)
    (hm : ∀ x ∈ A, m'.lookup x = m.lookup x) : f.Holds structs ok ν m' loc A := by
  cases f with
  | cell c =>
    obtain ⟨a, r, ha, hr, hty, hf, rfl⟩ := h
    exact ⟨a, r, ha, (hm a (Finset.mem_singleton_self a)).trans hr, hty, hf, rfl⟩
  | summary s =>
    rcases Summary.Holds.layout h with ⟨hp, next, hlay⟩ | ⟨hp, left, right, up, hlay⟩
    · obtain ⟨stop, hstop, hchain⟩ := (Summary.holds_list hp hlay).1 h
      exact (Summary.holds_list hp hlay).2 ⟨stop, hstop, hchain.of_agree hm⟩
    · obtain ⟨q, parent, hq, hparent, htree⟩ := (Summary.holds_tree hp hlay).1 h
      exact (Summary.holds_tree hp hlay).2 ⟨q, parent, hq, hparent, htree.of_agree hm⟩
  | member set ty => exact h.elim

end Fact

/-! ### Heaps -/

namespace Heap

variable {h h' : Heap} {foot : Loc → Finset Addr} {loc : Loc}

namespace Describes

variable (hd : h.Describes structs ok ν m foot)
include hd

/-- A description only looks at slots. -/
theorem of_slot (hs : ∀ k, h'.slot k = h.slot k) : h'.Describes structs ok ν m foot where
  facts k f hf := hd.facts k f (hs k ▸ hf)
  apart k k' f f' hf hf' := hd.apart k k' f f' (hs k ▸ hf) (hs k' ▸ hf')
  freed k hk := hd.freed k (hs k ▸ hk)

/-- A location may be replaced by a value that it can be. -/
theorem subst {w : Value} (hw : ν.Holds w (.pointer (ν loc))) :
    (h.subst loc w).Describes structs ok ν m foot where
  facts k f hf := by
    obtain ⟨g, hg, rfl⟩ := slot_subst_eq_occupied.1 hf
    exact (hd.facts k g hg).transport (Memory.unseen_id m) (fun v _ d hv => .subst hw hv) rfl
  apart k k' f f' hf hf' := by
    obtain ⟨g, hg, rfl⟩ := slot_subst_eq_occupied.1 hf
    obtain ⟨g', hg', rfl⟩ := slot_subst_eq_occupied.1 hf'
    exact hd.apart k k' g g' hg hg'
  freed k hk := hd.freed k (slot_subst_eq_tombstone.1 hk)

/-- The valuation may change on locations that were not given out. -/
theorem congr (hc : h.Closed) (hν : ∀ k, k.index < h.size → ν' k = ν k) :
    h.Describes structs ok ν' m foot where
  facts k f hf := by
    rw [← f.mapValues_id]
    refine (hd.facts k f hf).transport (Memory.unseen_id m) (fun v hv d hvd => ?_) ?_
    · exact hvd.congr fun l hl => hν l (hc k f hf v hv l hl)
    · exact congrArg _ (hν k (lt_size_of_occupied hf))
  apart := hd.apart
  freed k hk := by
    rw [hν k (lt_size_of_slot_ne (by rw [hk]; simp))]
    exact hd.freed k hk

/-- An address that does not show in memory may be replaced by another such address. -/
theorem rename {ρ : Addr → Addr} (hρ : m.Unseen fun | .addr a => .addr (ρ a) | d => d)
    (hout : ∀ a, a ∉ m → ρ a ∉ m) : h.Describes structs ok (fun k => (ν k).map ρ) m foot where
  facts k f hf := by
    rw [← f.mapValues_id]
    refine (hd.facts k f hf).transport hρ (fun v hv d hvd => ?_) ?_
    · cases v with
      | null => cases hvd; rfl
      | int => obtain ⟨n, rfl⟩ := hvd; exact ⟨n, rfl⟩
      | ptr l =>
        cases hvd
        show _ = Datum.pointer ((ν l).map ρ)
        cases ν l <;> rfl
    · show Datum.pointer ((ν k).map ρ) = _
      cases ν k <;> rfl
  apart := hd.apart
  freed k hk := by
    obtain ⟨a, ha, hna⟩ := hd.freed k hk
    exact ⟨ρ a, by rw [ha]; rfl, hout a hna⟩

/-- Memory may change outside of the footprints. -/
theorem memory (hm : ∀ k f, h.slot k = .occupied f → ∀ x ∈ foot k, m'.lookup x = m.lookup x)
    (hfree : ∀ k a, h.slot k = .tombstone → ν k = some a → a ∉ m → a ∉ m') :
    h.Describes structs ok ν m' foot where
  facts k f hf := (hd.facts k f hf).of_agree (hm k f hf)
  apart := hd.apart
  freed k hk := by
    obtain ⟨a, ha, hna⟩ := hd.freed k hk
    exact ⟨a, ha, hfree k a hk ha hna⟩

/-- A heap goes on to describe memory when it forgets something. -/
theorem forget (hf : h.Forgets h') : h'.Describes structs ok ν m foot where
  facts k f hk := hd.facts k f (hf.occupied hk)
  apart k k' f f' hk hk' := hd.apart k k' f f' (hf.occupied hk) (hf.occupied hk')
  freed k hk := by
    rcases hf.slot k with hs | hs
    · exact hd.freed k (hs ▸ hk)
    · rw [hk] at hs
      cases hs

/-- A fact may be forgotten. -/
theorem vacate (loc : Loc) : (h.write loc .vacant).Describes structs ok ν m foot :=
  hd.forget (h.forgets_vacate loc)

/-- A location may get a fact whose footprint no other fact has a part of. -/
theorem write (hl : loc.index < h.size) {f : Fact} {A : Finset Addr}
    (hf : f.Holds structs ok ν m loc A)
    (hA : ∀ k g, k ≠ loc → h.slot k = .occupied g → Disjoint (foot k) A) :
    (h.write loc (.occupied f)).Describes structs ok ν m (Function.update foot loc A) where
  facts k g hg := by
    rw [slot_write hl] at hg
    by_cases hk : k = loc
    · subst hk
      rw [if_pos rfl] at hg
      cases hg
      rwa [Function.update_self]
    · rw [if_neg hk] at hg
      rw [Function.update_of_ne hk]
      exact hd.facts k g hg
  apart k k' g g' hg hg' hne := by
    rw [slot_write hl] at hg hg'
    by_cases hk : k = loc
    · subst hk
      rw [if_neg hne.symm] at hg'
      rw [Function.update_self, Function.update_of_ne hne.symm]
      exact (hA k' g' hne.symm hg').symm
    · rw [if_neg hk] at hg
      rw [Function.update_of_ne hk]
      by_cases hk' : k' = loc
      · subst hk'
        rw [Function.update_self]
        exact hA k g hk hg
      · rw [if_neg hk'] at hg'
        rw [Function.update_of_ne hk']
        exact hd.apart k k' g g' hg hg' hne
  freed k hk := by
    rw [slot_write hl] at hk
    split at hk
    · cases hk
    · exact hd.freed k hk

end Describes

end Heap

/-! ### New locations -/

/-- The content of a field can be a datum, and needs the records at some addresses. -/
def Content.Holds (structs : Structs) (ok : Record → Prop) (ν : Valuation) (m : Memory) (d : Datum)
    (A : Finset Addr) : Content → Prop
  | .value v => ν.Holds v d ∧ A = ∅
  | .unknown => (∃ p, d = .pointer p) ∧ A = ∅
  | .fact f => ∃ p, d = .pointer p ∧ ∀ (ν' : Valuation) (loc : Loc),
      (∀ v ∈ f.values, ∀ k, v = .ptr k → ν' k = ν k) → ν' loc = p → f.Holds structs ok ν' m loc A

theorem Content.Holds.congr {c : Content} {d : Datum} {A : Finset Addr}
    (h : c.Holds structs ok ν m d A) (hν : ∀ v ∈ c.values, ∀ k, v = .ptr k → ν' k = ν k) :
    c.Holds structs ok ν' m d A := by
  cases c with
  | value v => exact ⟨h.1.congr (hν v (.head _)), h.2⟩
  | unknown => exact h
  | fact f =>
    obtain ⟨p, hp, hf⟩ := h
    refine ⟨p, hp, fun ν'' loc hν'' hl => hf ν'' loc (fun v hv k hk => ?_) hl⟩
    exact (hν'' v hv k hk).trans (hν v hv k hk)

namespace Heap

variable {h : Heap} {foot foot' : Loc → Finset Addr}

/-- A valuation and footprints that are the same for the locations of a heap. -/
def Extends (h : Heap) (ν ν' : Valuation) (foot foot' : Loc → Finset Addr) : Prop :=
  ∀ k, k.index < h.size → ν' k = ν k ∧ foot' k = foot k

namespace Describes

/-- A new location can be any address, or null. -/
theorem fresh (hd : h.Describes structs ok ν m foot) (hc : h.Closed) (p : Option Addr) :
    h.fresh.2.Describes structs ok (Function.update ν (⟨h.size⟩ : Loc) p) m foot := by
  refine (hd.congr hc fun k hk => ?_).of_slot (slot_fresh h)
  exact Function.update_of_ne (ne_of_lt_size hk) ..

/-- A new location for a field. -/
theorem place (hd : h.Describes structs ok ν m foot) (hc : h.Closed) {c : Content} {d : Datum}
    {A : Finset Addr} (hs : c.Holds structs ok ν m d A) (hkn : ∀ v ∈ c.values, h.Knows v)
    (hA : ∀ k f, h.slot k = .occupied f → Disjoint (foot k) A) :
    ∃ ν' foot', h.Extends ν ν' foot foot' ∧ (h.place c).2.Describes structs ok ν' m foot' ∧
      ν'.Holds (h.place c).1 d ∧
      ∀ k f, (h.place c).2.slot k = .occupied f → h.size ≤ k.index → foot' k = A := by
  have old {k : Loc} {f : Fact} (hf : h.slot k = .occupied f) (hle : h.size ≤ k.index) : False :=
    absurd (lt_size_of_occupied hf) (Nat.not_lt.2 hle)
  cases c with
  | value v => exact ⟨ν, foot, fun _ _ => ⟨rfl, rfl⟩, hd, hs.1, fun k f hf hle => (old hf hle).elim⟩
  | unknown =>
    obtain ⟨⟨p, rfl⟩, -⟩ := hs
    refine ⟨_, foot, fun k hk => ⟨Function.update_of_ne (ne_of_lt_size hk) .., rfl⟩,
      hd.fresh hc p, ?_, fun k f hf hle => ?_⟩
    · show Datum.pointer p = Datum.pointer (Function.update ν (⟨h.size⟩ : Loc) p ⟨h.size⟩)
      rw [Function.update_self]
    · exact (old ((slot_fresh h k).symm.trans hf) hle).elim
  | fact f =>
    obtain ⟨p, rfl, hf⟩ := hs
    -- The location is given out first and gets its fact then, as any location would.
    have hnew : (⟨h.size⟩ : Loc).index < h.fresh.2.size := (size_fresh h).symm ▸ Nat.lt_succ_self _
    have hholds := hf (Function.update ν (⟨h.size⟩ : Loc) p) ⟨h.size⟩
      (fun v hv k hk => Function.update_of_ne (ne_of_lt_size (hkn v hv k hk)) ..)
      (Function.update_self ..)
    have hadd := (hd.fresh hc p).write hnew hholds
      fun k g _ hg => hA k g ((slot_fresh h k).symm.trans hg)
    rw [← add_eq_write] at hadd
    refine ⟨_, _, fun k hk => ⟨?_, ?_⟩, hadd, ?_, fun k g hg hle => ?_⟩
    · exact Function.update_of_ne (ne_of_lt_size hk) ..
    · exact Function.update_of_ne (ne_of_lt_size hk) ..
    · show Datum.pointer p = Datum.pointer (Function.update ν (⟨h.size⟩ : Loc) p ⟨h.size⟩)
      rw [Function.update_self]
    · have hk : k = ⟨h.size⟩ := by
        have hg : (h.add f).2.slot k = .occupied g := hg
        rw [slot_add] at hg
        split at hg
        · assumption
        · exact (old hg hle).elim
      rw [hk, Function.update_self]

/-- New locations for the fields of a cell. -/
theorem grow (hd : h.Describes structs ok ν m foot) (hc : h.Closed) {cs : List Content}
    {qs : List (Datum × Finset Addr)}
    (hs : List.Forall₂ (fun c q => c.Holds structs ok ν m q.1 q.2) cs qs)
    (hkn : ∀ c ∈ cs, ∀ v ∈ c.values, h.Knows v) (hqs : qs.Pairwise fun q q' => Disjoint q.2 q'.2)
    (hA : ∀ k f, h.slot k = .occupied f → ∀ q ∈ qs, Disjoint (foot k) q.2) :
    ∃ ν' foot', h.Extends ν ν' foot foot' ∧ (h.grow cs).2.Describes structs ok ν' m foot' ∧
      List.Forall₂ ν'.Holds (h.grow cs).1 (qs.map Prod.fst) ∧
      ∀ k f, (h.grow cs).2.slot k = .occupied f → h.size ≤ k.index → ∃ q ∈ qs, foot' k = q.2 := by
  induction cs generalizing h ν foot qs with
  | nil =>
    cases hs
    refine ⟨ν, foot, fun _ _ => ⟨rfl, rfl⟩, hd, .nil, fun k f hf hle => ?_⟩
    exact absurd (lt_size_of_occupied hf) (Nat.not_lt.2 hle)
  | cons c cs ih =>
    obtain _ | ⟨hcq, hs⟩ := hs
    rename_i q qs
    obtain ⟨ν₁, foot₁, hext₁, hd₁, hv, hnew⟩ :=
      hd.place hc hcq (hkn c (.head _)) fun k f hf => hA k f hf q (.head _)
    have hle := size_le_place h c
    -- The contents of the other fields do not mention the location of the first one, so the
    -- valuation may change there.
    have hs₁ : List.Forall₂ (fun c q => c.Holds structs ok ν₁ m q.1 q.2) cs qs := by
      rw [← List.map_id cs, ← List.map_id qs]
      exact forall₂_transport hs fun c hc q _ hcq =>
        hcq.congr fun v hv k hk => (hext₁ k (hkn c (.tail _ hc) v hv k hk)).1
    have hA₁ : ∀ k f, (h.place c).2.slot k = .occupied f → ∀ q' ∈ qs, Disjoint (foot₁ k) q'.2 := by
      intro k f hf q' hq'
      by_cases hk : k.index < h.size
      · rw [(hext₁ k hk).2]
        exact hA k f ((slot_place_of_lt hk c).symm.trans hf) q' (.tail _ hq')
      · rw [hnew k f hf (Nat.not_lt.1 hk)]
        exact List.rel_of_pairwise_cons hqs hq'
    obtain ⟨ν₂, foot₂, hext₂, hd₂, hvs, hnew₂⟩ := ih hd₁ (hc.place (hkn c (.head _))) hs₁
      (fun d hd v hv => (hkn d (.tail _ hd) v hv).mono hle) hqs.of_cons hA₁
    refine ⟨ν₂, foot₂, fun k hk => ?_, hd₂, .cons ?_ hvs, fun k f hf hk => ?_⟩
    · obtain ⟨h₁, h₂⟩ := hext₂ k (hk.trans_le hle)
      exact ⟨h₁.trans (hext₁ k hk).1, h₂.trans (hext₁ k hk).2⟩
    · exact hv.congr fun k hk => (hext₂ k (knows_place (hkn c (.head _)) k hk)).1
    · by_cases hlt : k.index < (h.place c).2.size
      · refine ⟨q, .head _, (hext₂ k hlt).2.trans (hnew k f ?_ hk)⟩
        exact (slot_grow_of_lt hlt cs).symm.trans hf
      · obtain ⟨q', hq', he⟩ := hnew₂ k f hf (Nat.not_lt.1 hlt)
        exact ⟨q', .tail _ hq', he⟩

end Describes

end Heap

end HeapShape
