import HeapShape.Heap.Widen
import HeapShape.Proofs.Forgetting
import HeapShape.Proofs.Isomorphism
import HeapShape.Proofs.Judging
import HeapShape.Proofs.Outcomes

/-!
# States with the same shape

A path that comes to the head of a loop ends there if a state with the same shape was there before.
Nothing is lost by it as long as whatever comes later can be told from the shape. Here what comes
later is a directive, and the question is which states with the same shape it can tell apart.

A state is *tidy* if its shape shows all that it records: every constraint is between sets that are
declared or mentioned by what the variables lead to, no two names are declared for one set, and an
element is taken out of one set only, and leaves one set. A heap that is widened at the head of a
loop has forgotten the constraints that are not shown. In two tidy states with the same shape,
locations with the same name correspond, and so do sets. What is left to tell the states apart is
the one thing that a shape does not list: a name that is declared for a set which nothing mentions.

* `Heap.Tidy`, `State.Tidy`: the shape shows all that is recorded;
* `Heap.shown_widen`: what is recorded at the head of a loop is shown;
* `State.Tidy.matches`: tidy states with the same shape and the same declared names correspond;
* `State.ruling_eq_iff_declares`: all directives judge tidy states with the same shape alike if and
  only if the same names are declared in them.
-/

namespace HeapShape

open List Outline

/-! ### Lists, names and slots -/

variable {α : Type}

theorem forall₂_of_map_eq {β γ : Type} {R : α → β → Prop} {l : List α} {k : List β} {f : α → γ}
    {g : β → γ} (h : l.map f = k.map g) (hR : ∀ a ∈ l, ∀ b ∈ k, f a = g b → R a b) :
    List.Forall₂ R l k := by
  induction l generalizing k with
  | nil =>
    rw [map_nil, eq_comm, map_eq_nil_iff] at h
    exact h ▸ .nil
  | cons a l ih =>
    rcases k with _ | ⟨b, k⟩
    · cases h
    · obtain ⟨hab, hlk⟩ := List.cons.inj h
      exact .cons (hR a (.head _) b (.head _) hab)
        (ih hlk fun x hx y hy => hR x (.tail _ hx) y (.tail _ hy))

theorem NameMap.find_rel {β : Type} {R : α → β → Prop} {l : List (String × α)} {k : List (String × β)}
    (h : List.Forall₂ (fun e f => e.1 = f.1 ∧ R e.2 f.2) l k) (name : String) :
    Option.Rel R (NameMap.find name l) (NameMap.find name k) := by
  induction h with
  | nil => exact .none
  | @cons e f _ _ hef _ ih =>
    obtain ⟨x, a⟩ := e
    obtain ⟨y, b⟩ := f
    obtain ⟨rfl, hab⟩ : x = y ∧ R a b := hef
    rw [NameMap.find, NameMap.find]
    split
    · exact .some hab
    · exact ih

theorem Arena.slot_of_mem_values {a : Arena α} {e : Nat × α} (he : e ∈ a.values) :
    a.slot e.1 = .occupied e.2 := by
  obtain ⟨⟨s, i⟩, hs, hv⟩ := mem_filterMap.1 he
  obtain ⟨f, hf, rfl⟩ := Option.map_eq_some_iff.1 hv
  rw [mem_zipIdx_iff_getElem?] at hs
  rw [Arena.slot, getD_eq_getElem?_getD, hs]
  rcases s with _ | g | _
  · cases hf
  · obtain rfl : g = f := Option.some.inj hf
    rfl
  · cases hf

namespace SetStore

theorem resolve_eq_getD (s : SetStore) (v : SetVar) : s.resolve v = s.reprs[v.id]?.getD v :=
  getD_eq_getElem?_getD ..

theorem valid_iff {s : SetStore} : s.Valid ↔
    (s.names.entries.map Prod.fst).Nodup ∧ ∀ r ∈ s.reprs, s.resolve r = r := by
  refine ⟨fun hv => ⟨hv.names, fun r hr => ?_⟩, fun h => ⟨h.1, fun v => ?_⟩⟩
  · obtain ⟨i, hi⟩ := getElem?_of_mem hr
    have hres : s.resolve ⟨i⟩ = r := by
      rw [resolve_eq_getD, hi]
      rfl
    exact hres ▸ hv.reprs ⟨i⟩
  · have hself : s.resolve v = v ∨ s.resolve v ∈ s.reprs := by
      rw [resolve_eq_getD]
      rcases hi : s.reprs[v.id]? with _ | r
      · exact .inl rfl
      · exact .inr (mem_of_getElem? hi)
    rcases hself with hself | hmem
    · rw [hself, hself]
    · exact h.2 _ hmem

instance (s : SetStore) : Decidable s.Valid := decidable_of_iff' _ valid_iff

instance (s : SetStore) : Decidable s.SplitsOnce :=
  inferInstanceAs (Decidable (∀ p ∈ s.splits, ∀ q ∈ s.splits, p.elem = q.elem → _ = _))

end SetStore

namespace Heap

variable {h h₁ h₂ : Heap} {roots roots₁ roots₂ : List Value} {l m : Loc} {v w : SetVar}
  {c : Constraint SetVar Loc}

/-- What a heap promises about its sets when everything that it records is shown. -/
@[mk_iff]
structure Tidy (h : Heap) (roots : List Value) : Prop where
  valid : h.sets.Valid
  identifies : h.Identifies
  /-- Two names are not declared for one set: the shape would show the first of them only. -/
  apart : ∀ e ∈ h.sets.names.entries, ∀ f ∈ h.sets.names.entries,
    h.sets.resolve e.2 = h.sets.resolve f.2 → e = f
  /-- The sets that are declared were given out. -/
  declared : ∀ e ∈ h.sets.names.entries, (h.sets.resolve e.2).id < h.sets.reprs.length
  /-- So were the sets that facts mention. -/
  mentioned : ∀ v ∈ h.mentions roots, v.id < h.sets.reprs.length
  /-- All that is recorded is about sets and locations that the shape shows. -/
  shown : ∀ c ∈ h.sets.constraints, c ∈ h.shown roots
  /-- A location is split off one set only. A fold without parameters takes the set that the oldest
      split by its root is of, and the shape does not tell which split is the oldest. -/
  once : h.sets.SplitsOnce
  /-- What it leaves there is one set. -/
  rests : ∀ p ∈ h.sets.splits, ∀ q ∈ h.sets.splits, p.elem = q.elem →
    h.sets.resolve p.rest = h.sets.resolve q.rest

theorem mem_shown : c ∈ h.shown roots ↔ c ∈ h.sets.constraints ∧
    (∀ v ∈ c.sets, h.sets.isDeclared v = true ∨ v ∈ h.mentions roots) ∧
      ∀ loc ∈ c.locs, loc ∈ h.reach roots := by
  simp only [mem_mentions, mem_reach]
  rfl

instance (c : Constraint SetVar Loc) : Decidable (c ∈ h.shown roots) := decidable_of_iff' _ mem_shown

instance : Decidable (h.Tidy roots) := decidable_of_iff' _ (tidy_iff h roots)

instance (v : Value) : Decidable (h.Knows v) :=
  match v with
  | .null => .isTrue (knows_null h)
  | .int => .isTrue (knows_int h)
  | .ptr _ => decidable_of_iff' _ knows_ptr

/-! ### What a loop head sees -/

theorem slot_collect (h : Heap) (roots : List Value) (loc : Loc) :
    (h.collect roots).slot loc = if loc ∈ h.reach roots then h.slot loc else .vacant := by
  rw [slot, collect, keep, Arena.slot_keep]
  simp only [contains_iff_mem]
  rfl

/-- The search meets the same locations in what is kept. -/
theorem reach_collect (h : Heap) (roots : List Value) : (h.collect roots).reach roots = h.reach roots := by
  have hmap : Reach.closure (h.collect roots).links ((roots.filterMap Value.loc?).map id) =
      (h.reach roots).map id := by
    refine Reach.closure_map (fun _ _ _ _ => id) fun l hl => ?_
    rw [map_id, id, next_links, next_links, slot_collect, if_pos (show l ∈ h.reach roots from hl)]
  rwa [map_id, map_id] at hmap

/-- The sets that a collected heap keeps are declared or mentioned. -/
theorem declared_or_mentioned_of_live (hv : h.sets.Valid)
    (hl : h.sets.Live ((h.collect roots).arena.values.flatMap fun e => e.2.sets) v) :
    (h.collect roots).sets.isDeclared (h.sets.resolve v) = true ∨
      h.sets.resolve v ∈ (h.collect roots).mentioned roots := by
  rcases hl with ⟨w, hw, hwv⟩ | hd
  · obtain ⟨e, he, hmem⟩ := mem_flatMap.1 hw
    have hslot : (h.collect roots).slot ⟨e.1⟩ = .occupied e.2 := Arena.slot_of_mem_values he
    have hreach : h.Reaches roots ⟨e.1⟩ := by
      rw [slot_collect] at hslot
      split at hslot
      · exact mem_reach.1 ‹_›
      · cases hslot
    refine .inr ⟨⟨e.1⟩, mem_reach.1 (reach_collect h roots ▸ mem_reach.2 hreach), w, ?_, hwv⟩
    rw [Arena.Slot.sets_node, hslot]
    simpa [Arena.Slot.value?] using hmem
  · obtain ⟨e, he, hev⟩ := SetStore.isDeclared_iff.1 hd
    exact .inl (SetStore.isDeclared_iff.2 ⟨e, he, hev.trans (hv.reprs v).symm⟩)

/-- A heap that was collected shows all constraints that it records. -/
theorem shown_collect (hv : h.sets.Valid) :
    ∀ c ∈ (h.collect roots).sets.constraints, c ∈ (h.collect roots).shown roots := by
  intro c hc
  refine ⟨hc, ?_⟩
  rcases SetStore.mem_constraints.1 hc with ⟨p, hp, rfl⟩ | ⟨p, hp, rfl⟩ | ⟨e, he, rfl⟩
  · obtain ⟨ha, hb, -⟩ := SetStore.mem_subsets_retain.1 hp
    refine ⟨forall_mem_cons.2 ⟨?_, forall_mem_singleton.2 ?_⟩,
      fun _ hl => absurd hl not_mem_nil⟩
    · exact declared_or_mentioned_of_live hv (SetStore.live_of_mem hv ha).2
    · exact declared_or_mentioned_of_live hv (SetStore.live_of_mem hv hb).2
  · obtain ⟨q, -, helem, hwhole, hrest, rfl⟩ := SetStore.mem_splits_retain.1 hp
    refine ⟨forall_mem_cons.2 ⟨?_, forall_mem_singleton.2 ?_⟩,
      forall_mem_singleton.2 ?_⟩
    · exact declared_or_mentioned_of_live hv (hwhole.congr (hv.reprs _).symm)
    · exact declared_or_mentioned_of_live hv (hrest.congr (hv.reprs _).symm)
    · exact mem_reach.1 (reach_collect h roots ▸ helem)
  · obtain ⟨e, -, hlive, rfl⟩ := SetStore.mem_empties_retain.1 he
    refine ⟨forall_mem_singleton.2 ?_, fun _ hl => absurd hl not_mem_nil⟩
    exact declared_or_mentioned_of_live hv (hlive.congr (hv.reprs _).symm)

/-- So does a heap that was widened, as it is at the head of a loop. -/
theorem shown_widen {structs : Structs} (hw : h₁.widen structs roots = .ok h₂) (hv : h₂.sets.Valid) :
    ∀ c ∈ h₂.sets.constraints, c ∈ h₂.shown roots := by
  obtain ⟨h, -, hh⟩ := ok_of_bind hw
  obtain rfl : h.collect roots = h₂ := Except.ok.inj hh
  exact shown_collect ⟨hv.names, hv.reprs⟩

/-! ### Names that are the same -/

/-- Locations that have the same name in two shapes. -/
def SameLoc (n₁ n₂ : Naming) (l m : Loc) : Prop :=
  ∃ name, n₁.loc? l = some name ∧ n₂.loc? m = some name

/-- Sets that have the same name in two shapes. -/
def SameSet (h₁ h₂ : Heap) (n₁ n₂ : Naming) (v w : SetVar) : Prop :=
  ∃ name, h₁.setName? n₁ v = some name ∧ h₂.setName? n₂ w = some name

/-- Constraints that are written in the same way. -/
theorem exists_written_eq (ht₁ : h₁.Tidy roots₁) (ht₂ : h₂.Tidy roots₂)
    (hlines : h₁.lines roots₁ ⊆ h₂.lines roots₂) (hc : c ∈ h₁.sets.constraints) :
    ∃ d ∈ h₂.sets.constraints, h₁.written roots₁ c = h₂.written roots₂ d := by
  have hc₁ := ht₁.shown c hc
  have hline : (h₁.written roots₁ c).text ∈ h₁.lines roots₁ := (mem_lines ht₁.valid).2 ⟨c, hc₁, rfl⟩
  obtain ⟨d, hd, htext⟩ := (mem_lines ht₂.valid).1 (hlines hline)
  exact ⟨d, hd.1, Constraint.text_inj (words_written ht₁.valid ht₁.identifies hc₁)
    (words_written ht₂.valid ht₂.identifies hd) htext.symm⟩

theorem Tidy.sameSet (ht₁ : h₁.Tidy roots₁) (ht₂ : h₂.Tidy roots₂) {d : Constraint SetVar Loc}
    (hc : c ∈ h₁.sets.constraints) (hd : d ∈ h₂.sets.constraints) (hv : h₁.sets.resolve v ∈ c.sets)
    (hw : h₂.sets.resolve w ∈ d.sets)
    (he : h₁.setName (h₁.naming roots₁) (h₁.sets.resolve v) = h₂.setName (h₂.naming roots₂) (h₂.sets.resolve w)) :
    SameSet h₁ h₂ (h₁.naming roots₁) (h₂.naming roots₂) v w := by
  have h₁ := setName?_of_shown ht₁.valid (ht₁.shown c hc) hv
  have h₂ := setName?_of_shown ht₂.valid (ht₂.shown d hd) hw
  rw [setName?_resolve ht₁.valid] at h₁
  rw [setName?_resolve ht₂.valid] at h₂
  exact ⟨_, h₁, he ▸ h₂⟩

theorem Tidy.sameLoc (ht₁ : h₁.Tidy roots₁) (ht₂ : h₂.Tidy roots₂) {d : Constraint SetVar Loc}
    (hc : c ∈ h₁.sets.constraints) (hd : d ∈ h₂.sets.constraints) (hl : l ∈ c.locs) (hm : m ∈ d.locs)
    (he : (h₁.naming roots₁).value (.ptr l) = (h₂.naming roots₂).value (.ptr m)) :
    SameLoc (h₁.naming roots₁) (h₂.naming roots₂) l m :=
  ⟨_, value_ptr ((ht₁.shown c hc).2.2 l hl), he ▸ value_ptr ((ht₂.shown d hd).2.2 m hm)⟩

/-- Sets that have names in the shape were given out. -/
theorem Tidy.given (ht : h.Tidy roots) (hv : (h.setName? (h.naming roots) v).isSome) :
    (h.sets.resolve v).id < h.sets.reprs.length := by
  rcases (setName?_isSome ht.valid).1 hv with hd | hm
  · obtain ⟨e, he, heq⟩ := SetStore.isDeclared_iff.1 hd
    exact heq ▸ ht.declared e he
  · exact ht.mentioned _ (mem_mentions.2 hm)

/-- A declared set is shown under its name. -/
theorem Tidy.setName?_entry (ht : h.Tidy roots) {e : String × SetVar}
    (he : e ∈ h.sets.names.entries) (n : Naming) : h.setName? n e.2 = some e.1 := by
  have hdecl : (h.sets.nameOf? e.2).isSome := by
    rw [← isDeclared_eq_isSome]
    exact SetStore.isDeclared_iff.2 ⟨e, he, rfl⟩
  obtain ⟨name, hname⟩ := Option.isSome_iff_exists.1 hdecl
  obtain ⟨f, hf, rfl⟩ := Option.map_eq_some_iff.1 hname
  have hres := find?_some hf
  rw [decide_eq_true_eq] at hres
  rw [ht.apart e he f (mem_of_find?_eq_some hf) hres.symm] at hname ⊢
  exact setName?_eq_some.2 (.inl hname)

/-- What one of two tidy heaps records, the other records too, about what has the same names. -/
theorem Tidy.embeds (ht₁ : h₁.Tidy roots₁) (ht₂ : h₂.Tidy roots₂)
    (hlines : h₁.lines roots₁ ⊆ h₂.lines roots₂)
    (hnames : ∀ e ∈ h₁.sets.names.entries, ∃ f ∈ h₂.sets.names.entries, f.1 = e.1) :
    SetStore.Embeds (SameLoc (h₁.naming roots₁) (h₂.naming roots₂))
      (SameSet h₁ h₂ (h₁.naming roots₁) (h₂.naming roots₂)) h₁.sets h₂.sets where
  valid := ht₁.valid
  elems := by
    rintro l m m' ⟨name, hl, hm⟩ ⟨name', hl', hm'⟩
    obtain rfl : name = name' := Option.some.inj (hl.symm.trans hl')
    exact loc?_inj hm hm'
  same := by
    rintro v w v' w' ⟨name, hv, hw⟩ ⟨name', hv', hw'⟩ he
    rw [← setName?_resolve ht₁.valid, he, setName?_resolve ht₁.valid] at hv
    obtain rfl : name = name' := Option.some.inj (hv.symm.trans hv')
    exact setName?_inj ht₂.valid ht₂.identifies hw hw'
  reps := by
    rintro v w ⟨name, hv, hw⟩
    exact ⟨name, (setName?_resolve ht₁.valid v).trans hv, (setName?_resolve ht₂.valid w).trans hw⟩
  given := by
    rintro v w ⟨name, hv, -⟩
    exact ht₁.given (hv ▸ rfl)
  names := by
    intro e he
    obtain ⟨f, hf, hname⟩ := hnames e he
    exact ⟨f, hf, hname, e.1, ht₁.setName?_entry he _, hname ▸ ht₂.setName?_entry hf _⟩
  -- A constraint is written in the other shape too, and only one of its kind is written like it.
  subsets := by
    intro p hp
    have hc := SetStore.mem_constraints.2 (.inl ⟨p, hp, rfl⟩)
    obtain ⟨d, hd, he⟩ := exists_written_eq ht₁ ht₂ hlines hc
    rcases SetStore.mem_constraints.1 hd with ⟨q, hq, rfl⟩ | ⟨q, hq, rfl⟩ | ⟨q, hq, rfl⟩ <;>
      simp only [written, Constraint.map, reduceCtorEq, Constraint.subset.injEq] at he
    exact ⟨q, hq, ht₁.sameSet ht₂ hc hd (.head _) (.head _) he.1,
      ht₁.sameSet ht₂ hc hd (.tail _ (.head _)) (.tail _ (.head _)) he.2⟩
  splits := by
    intro p hp
    have hc := SetStore.mem_constraints.2 (.inr (.inl ⟨p, hp, rfl⟩))
    obtain ⟨d, hd, he⟩ := exists_written_eq ht₁ ht₂ hlines hc
    rcases SetStore.mem_constraints.1 hd with ⟨q, hq, rfl⟩ | ⟨q, hq, rfl⟩ | ⟨q, hq, rfl⟩ <;>
      simp only [written, Constraint.map, reduceCtorEq, Constraint.split.injEq] at he
    exact ⟨q, hq, ht₁.sameSet ht₂ hc hd (.head _) (.head _) he.1,
      ht₁.sameLoc ht₂ hc hd (.head _) (.head _) he.2.1,
      ht₁.sameSet ht₂ hc hd (.tail _ (.head _)) (.tail _ (.head _)) he.2.2⟩
  empties := by
    intro e he
    have hc := SetStore.mem_constraints.2 (.inr (.inr ⟨e, he, rfl⟩))
    obtain ⟨d, hd, he⟩ := exists_written_eq ht₁ ht₂ hlines hc
    rcases SetStore.mem_constraints.1 hd with ⟨q, hq, rfl⟩ | ⟨q, hq, rfl⟩ | ⟨q, hq, rfl⟩ <;>
      simp only [written, Constraint.map, reduceCtorEq, Constraint.empty.injEq] at he
    exact ⟨q, hq, ht₁.sameSet ht₂ hc hd (.head _) (.head _) he⟩
  rests p hp q hq hel _ := ht₁.rests p hp q hq hel

theorem sameLoc_flip (n₁ n₂ : Naming) : (fun m l => SameLoc n₁ n₂ l m) = SameLoc n₂ n₁ := by
  funext m l
  exact propext (exists_congr fun _ => and_comm)

theorem sameSet_flip (h₁ h₂ : Heap) (n₁ n₂ : Naming) :
    (fun w v => SameSet h₁ h₂ n₁ n₂ v w) = SameSet h₂ h₁ n₂ n₁ := by
  funext w v
  exact propext (exists_congr fun _ => and_comm)

/-- Values with the same name correspond. -/
theorem rel_of_value_eq {x y : Value} (hx : h₁.Met roots₁ x) (hy : h₂.Met roots₂ y)
    (he : (h₁.naming roots₁).value x = (h₂.naming roots₂).value y) :
    Value.Rel (SameLoc (h₁.naming roots₁) (h₂.naming roots₂)) x y := by
  have hinit : initial x = initial y := by
    have := head?_value hx
    rw [he, head?_value hy] at this
    exact (Option.some.inj this).symm
  rcases x with _ | l | _ <;> rcases y with _ | m | _ <;>
    simp only [initial, Char.reduceEq] at hinit
  · exact .null
  · exact .ptr ⟨_, value_ptr (hx l rfl), he ▸ value_ptr (hy m rfl)⟩
  · exact .int

/-- Sets with the same name correspond. -/
theorem sameSet_of_setName_eq (hv₁ : h₁.sets.Valid) (hv₂ : h₂.sets.Valid)
    (hl : h₁.Reaches roots₁ l) (hm : h₂.Reaches roots₂ m) (hv : v ∈ (h₁.slot l).node.sets)
    (hw : w ∈ (h₂.slot m).node.sets)
    (he : h₁.setName (h₁.naming roots₁) v = h₂.setName (h₂.naming roots₂) w) :
    SameSet h₁ h₂ (h₁.naming roots₁) (h₂.naming roots₂) v w :=
  ⟨_, setName?_eq_setName hv₁ (.inr ⟨l, hl, v, hv, rfl⟩),
    he ▸ setName?_eq_setName hv₂ (.inr ⟨m, hm, w, hw, rfl⟩)⟩

section

variable {ρ : Loc → Loc → Prop} {τ : SetVar → SetVar → Prop} {f f' : Value → String}
  {g g' : SetVar → String}

theorem params_rel_of_map_eq {p q : Params} (he : p.args.map f g = q.args.map f' g')
    (hv : ∀ x ∈ p.ptrs, ∀ y ∈ q.ptrs, f x = f' y → Value.Rel ρ x y)
    (hs : ∀ v ∈ p.sets, ∀ w ∈ q.sets, g v = g' w → τ v w) : Params.Rel ρ τ p q := by
  obtain ⟨hptrs, hsets⟩ := Args.mk.inj he
  exact ⟨forall₂_of_map_eq hptrs hv, forall₂_of_map_eq hsets hs⟩

/-- Locations that are described in the same way correspond. -/
theorem slot_rel_of_node_eq {a b : Slot} (he : a.node.map f g = b.node.map f' g')
    (hv : ∀ x ∈ a.node.values, ∀ y ∈ b.node.values, f x = f' y → Value.Rel ρ x y)
    (hs : ∀ v ∈ a.node.sets, ∀ w ∈ b.node.sets, g v = g' w → τ v w) : Arena.Slot.Rel ρ τ a b := by
  rcases a with _ | (c | ⟨pred, ty, p, o⟩ | ⟨set, ty⟩) | _ <;>
    rcases b with _ | (c' | ⟨pred', ty', p', o'⟩ | ⟨set', ty'⟩) | _ <;>
    simp only [Arena.Slot.node, Node.map, reduceCtorEq, Node.cell.injEq, Node.summary.injEq,
      Node.member.injEq] at he
  · exact .vacant
  · exact .occupied (.cell he.1 (forall₂_of_map_eq he.2 hv))
  · obtain ⟨hpred, hty, hargs, hhole⟩ := he
    refine .occupied (.summary hpred hty (params_rel_of_map_eq hargs (fun x hx y hy => ?_)
      fun x hx y hy => ?_) ?_)
    · exact hv x (mem_append_left _ hx) y (mem_append_left _ hy)
    · exact hs x (mem_append_left _ hx) y (mem_append_left _ hy)
    · rcases o with _ | o <;> rcases o' with _ | o' <;>
        simp only [Option.map_none, Option.map_some, reduceCtorEq, Option.some.injEq,
          Prod.mk.injEq] at hhole
      · exact .none
      · refine .some ⟨hv _ ?_ _ ?_ hhole.1, params_rel_of_map_eq hhole.2
          (fun x hx y hy => hv x ?_ y ?_) fun x hx y hy => hs x ?_ y ?_⟩
        · simp [Arena.Slot.node, Node.values]
        · simp [Arena.Slot.node, Node.values]
        · simp [Arena.Slot.node, Node.values, Params.args, hx]
        · simp [Arena.Slot.node, Node.values, Params.args, hy]
        · simp [Arena.Slot.node, Node.sets, Params.args, hx]
        · simp [Arena.Slot.node, Node.sets, Params.args, hy]
  · exact he.2 ▸ .occupied (.member (hs set (.head _) set' (.head _) he.1) ty)
  · exact .tombstone

end

/-- Locations with the same name are described in the same way. -/
theorem node_eq_of_sameLoc (hnodes : h₁.nodes roots₁ = h₂.nodes roots₂)
    (hl : SameLoc (h₁.naming roots₁) (h₂.naming roots₂) l m) :
    (h₁.slot l).node.map (h₁.naming roots₁).value (h₁.setName (h₁.naming roots₁)) =
      (h₂.slot m).node.map (h₂.naming roots₂).value (h₂.setName (h₂.naming roots₂)) := by
  obtain ⟨name, hl, hm⟩ := hl
  obtain ⟨i, hi, rfl⟩ := Option.map_eq_some_iff.1 hl
  obtain ⟨j, hj, hji⟩ := Option.map_eq_some_iff.1 hm
  obtain rfl := place_inj hji
  obtain ⟨hlt, hget, -⟩ := idxOf?_eq_some_iff.1 hi
  obtain ⟨hlt', hget', -⟩ := idxOf?_eq_some_iff.1 hj
  have hat := congrArg (fun l => l[j]?) hnodes
  simp only [nodes, getElem?_map, getElem?_eq_getElem hlt, getElem?_eq_getElem hlt',
    Option.map_some, Option.some.injEq, hget, hget'] at hat
  exact hat

/-- Heaps with the same shape and the same declared names know the same. -/
theorem Tidy.matches (ht₁ : h₁.Tidy roots₁) (ht₂ : h₂.Tidy roots₂)
    (hnodes : h₁.nodes roots₁ = h₂.nodes roots₂) (hlines : h₁.lines roots₁ = h₂.lines roots₂)
    (hnames₁ : ∀ e ∈ h₁.sets.names.entries, ∃ f ∈ h₂.sets.names.entries, f.1 = e.1)
    (hnames₂ : ∀ e ∈ h₂.sets.names.entries, ∃ f ∈ h₁.sets.names.entries, f.1 = e.1) :
    Heap.Matches (SameLoc (h₁.naming roots₁) (h₂.naming roots₂))
      (SameSet h₁ h₂ (h₁.naming roots₁) (h₂.naming roots₂)) h₁ h₂ where
  sets := by
    refine ⟨ht₁.embeds ht₂ (hlines ▸ List.Subset.refl _) hnames₁, ?_⟩
    rw [sameLoc_flip, sameSet_flip]
    exact ht₂.embeds ht₁ (hlines ▸ List.Subset.refl _) hnames₂
  slots := by
    intro l m hlm
    have hr₁ : h₁.Reaches roots₁ l := by
      obtain ⟨name, hl, -⟩ := hlm
      exact loc?_isSome.1 (hl ▸ rfl)
    have hr₂ : h₂.Reaches roots₂ m := by
      obtain ⟨name, -, hm⟩ := hlm
      exact loc?_isSome.1 (hm ▸ rfl)
    refine slot_rel_of_node_eq (node_eq_of_sameLoc hnodes hlm) (fun x hx y hy he => ?_)
      fun v hv w hw he => ?_
    · exact rel_of_value_eq (met_node hr₁ hx) (met_node hr₂ hy) he
    · exact sameSet_of_setName_eq ht₁.valid ht₂.valid hr₁ hr₂ hv hw he

/-- A declared name leads to the set that is shown under it. -/
theorem Tidy.setName?_lookup (ht : h.Tidy roots) {name : String}
    (hl : h.sets.lookup? name = some v) (n : Naming) : h.setName? n v = some name := by
  obtain ⟨w, hw, rfl⟩ := Option.map_eq_some_iff.1 hl
  rw [setName?_resolve ht.valid]
  exact ht.setName?_entry (NameMap.mem_of_get? hw) n

end Heap

/-! ### States -/

/-- The class of a judgement: whether a directive passes, fails, or does not apply. -/
inductive Ruling where
  /-- It passes. -/
  | pass
  /-- It fails. -/
  | fail
  /-- It does not apply, for a reason of a class. -/
  | defect (label : String)
  deriving DecidableEq

namespace State

variable {s s₁ s₂ : State}

/-- The variables and their types. -/
def types (s : State) : List (String × Ty) := s.env.entries.map fun e => (e.1, e.2.ty)

/-- The class of the judgement of a directive on a state. -/
def ruling (s : State) (structs : Structs) (d : Directive) : Ruling :=
  match s.judge structs d with
  | .ok (j, _) => if j.isPass then .pass else .fail
  | .error d => .defect d.label

/-- Whether a set is declared under a name. -/
def declares (s : State) (name : String) : Bool := (s.heap.sets.lookup? name).isSome

/-- A state of which the shape shows all that is recorded. -/
@[mk_iff]
structure Tidy (s : State) : Prop where
  heap : s.heap.Tidy (s.roots.map Prod.snd)
  /-- The locations of variables were given out. -/
  known : ∀ e ∈ s.env.entries, s.heap.Knows e.2.value

instance : Decidable s.Tidy := decidable_of_iff' _ (tidy_iff s)

/-- The locations that have the same name in the shapes of two states. -/
def SameLoc (s₁ s₂ : State) : Loc → Loc → Prop :=
  Heap.SameLoc (s₁.heap.naming (s₁.roots.map Prod.snd)) (s₂.heap.naming (s₂.roots.map Prod.snd))

/-- The sets that have the same name in the shapes of two states. -/
def SameSet (s₁ s₂ : State) : SetVar → SetVar → Prop :=
  Heap.SameSet s₁.heap s₂.heap (s₁.heap.naming (s₁.roots.map Prod.snd))
    (s₂.heap.naming (s₂.roots.map Prod.snd))

theorem declares_iff {name : String} :
    s.declares name = true ↔ ∃ e ∈ s.heap.sets.names.entries, e.1 = name := by
  rw [declares, SetStore.lookup?, Option.isSome_map, NameMap.isSome_get?]

theorem ruling_eq_of_agree {structs : Structs} {d : Directive}
    (h : Defect.Agree (fun r r' => r.1.isPass = r'.1.isPass) (s₁.judge structs d)
      (s₂.judge structs d)) :
    s₁.ruling structs d = s₂.ruling structs d := by
  rw [ruling, ruling]
  generalize s₁.judge structs d = x at h
  generalize s₂.judge structs d = y at h
  rcases h with hpass | hlabel
  · exact if_congr (Bool.coe_iff_coe.2 hpass) rfl rfl
  · exact congrArg _ hlabel

/-- A name can be declared if and only if it is not. -/
theorem ruling_declareSets (s : State) (structs : Structs) (name : String) :
    s.ruling structs (.declareSets [name]) = if s.declares name then .fail else .pass := by
  rw [ruling, judge, declareSets, SetStore.declare?, declares, SetStore.lookup?, Option.isSome_map]
  rcases s.heap.sets.names.get? name with _ | v <;> rfl

theorem map_roots (s : State) (f : Value → String) :
    (s.roots.map Prod.snd).map f = s.env.entries.map fun e => f e.2.value := by
  rw [roots, map_map, map_map]
  rfl

/-- Variables of one type with values of one name correspond. -/
theorem rel_get? (htypes : s₁.types = s₂.types)
    (hvalues : (s₁.roots.map Prod.snd).map (s₁.heap.naming (s₁.roots.map Prod.snd)).value =
      (s₂.roots.map Prod.snd).map (s₂.heap.naming (s₂.roots.map Prod.snd)).value) (var : String) :
    Option.Rel (Binding.Rel (SameLoc s₁ s₂)) (s₁.env.get? var) (s₂.env.get? var) := by
  have hroot {s : State} {e : String × Binding} (he : e ∈ s.env.entries) :
      s.heap.Met (s.roots.map Prod.snd) e.2.value :=
    Heap.met_root (mem_map.2 ⟨(e.1, e.2.value), mem_map.2 ⟨e, he, rfl⟩, rfl⟩)
  have hboth : (s₁.env.entries.map fun e =>
        ((e.1, e.2.ty), (s₁.heap.naming (s₁.roots.map Prod.snd)).value e.2.value)) =
      s₂.env.entries.map fun e =>
        ((e.1, e.2.ty), (s₂.heap.naming (s₂.roots.map Prod.snd)).value e.2.value) := by
    rw [map_roots, map_roots] at hvalues
    have hzip := congrArg₂ List.zip htypes hvalues
    rwa [types, types, zip_map', zip_map'] at hzip
  refine NameMap.find_rel (forall₂_of_map_eq hboth fun e he f hf heq => ?_) var
  obtain ⟨hkey, hvalue⟩ := Prod.mk.inj heq
  obtain ⟨hname, hty⟩ := Prod.mk.inj hkey
  exact ⟨hname, hty, Heap.rel_of_value_eq (hroot he) (hroot hf) hvalue⟩

theorem Tidy.matches (ht₁ : s₁.Tidy) (ht₂ : s₂.Tidy) (hshape : s₁.shape = s₂.shape)
    (htypes : s₁.types = s₂.types) (hnames : ∀ name, s₁.declares name = s₂.declares name) :
    Matches (SameLoc s₁ s₂) (SameSet s₁ s₂) s₁ s₂ := by
  have hvars : s₁.roots.map Prod.fst = s₂.roots.map Prod.fst := by
    have := congrArg (List.map Prod.fst) htypes
    simpa [types, roots, Function.comp_def] using this
  obtain ⟨hvalues, hnodes, hlines⟩ := (Heap.shape_eq_iff hvars
    (Heap.legible ht₁.heap.valid ht₁.heap.identifies)
    (Heap.legible ht₂.heap.valid ht₂.heap.identifies)).1 hshape
  have hnames' {s t : State} (h : ∀ name, s.declares name = t.declares name) :
      ∀ e ∈ s.heap.sets.names.entries, ∃ f ∈ t.heap.sets.names.entries, f.1 = e.1 := by
    intro e he
    rw [← declares_iff, ← h, declares_iff]
    exact ⟨e, he, rfl⟩
  refine ⟨ht₁.heap.matches ht₂.heap hnodes hlines (hnames' hnames) (hnames' fun n => (hnames n).symm),
    ht₂.heap.once, rel_get? htypes hvalues, fun name => ?_, ?_, ?_⟩
  · have hname := hnames name
    rw [declares, declares] at hname
    rcases h₁ : s₁.heap.sets.lookup? name with _ | v <;>
      rcases h₂ : s₂.heap.sets.lookup? name with _ | w <;> rw [h₁, h₂] at hname
    · exact .none
    · cases hname
    · cases hname
    · exact .some ⟨name, ht₁.heap.setName?_lookup h₁ _, ht₂.heap.setName?_lookup h₂ _⟩
  · exact fun var b hb => ht₁.known _ (NameMap.mem_of_get? hb)
  · exact fun var b hb => ht₂.known _ (NameMap.mem_of_get? hb)

/-- States with one shape and the same variables are judged alike by all directives if and only if
    they declare the same sets. -/
theorem ruling_eq_iff_declares (ht₁ : s₁.Tidy) (ht₂ : s₂.Tidy) (hshape : s₁.shape = s₂.shape)
    (htypes : s₁.types = s₂.types) :
    (∀ structs d, s₁.ruling structs d = s₂.ruling structs d) ↔
      ∀ name, s₁.declares name = s₂.declares name := by
  constructor
  · intro h name
    have hname := h [] (.declareSets [name])
    rw [ruling_declareSets, ruling_declareSets] at hname
    rcases h₁ : s₁.declares name <;> rcases h₂ : s₂.declares name <;> simp [h₁, h₂] at hname ⊢
  · intro hnames structs d
    exact ruling_eq_of_agree (agree_judge (ht₁.matches ht₂ hshape htypes hnames) structs d)

end State

/-- A state where one variable leads into a heap. -/
def Sample.into (h : Heap) : State := ⟨0, h, ⟨[("x", ⟨.ptr ⟨0⟩, .ptr ⟨1⟩⟩)]⟩⟩

theorem Sample.ruling_below_renumbered :
    (Sample.into Sample.below).Tidy ∧ (Sample.into Sample.renumbered).Tidy ∧
      (Sample.into Sample.below).shape = (Sample.into Sample.renumbered).shape ∧
      ∀ structs d, (Sample.into Sample.below).ruling structs d =
        (Sample.into Sample.renumbered).ruling structs d := by
  have htidy : (Sample.into Sample.below).Tidy := by decide +kernel
  have htidy' : (Sample.into Sample.renumbered).Tidy := by decide +kernel
  have hshape : (Sample.into Sample.below).shape = (Sample.into Sample.renumbered).shape := by
    decide +kernel
  refine ⟨htidy, htidy', hshape,
    (State.ruling_eq_iff_declares htidy htidy' hshape rfl).2 fun name => ?_⟩
  rw [Bool.eq_iff_iff, State.declares_iff, State.declares_iff]
  simp [Sample.into, Sample.below, Sample.renumbered]

/-- A state without variables where `A` is declared. -/
def Sample.named : State := ⟨0, ⟨.empty, ⟨⟨[("A", ⟨0⟩)]⟩, [⟨0⟩], [], [], []⟩⟩, .empty⟩

/-- The shape does not tell whether `A` is declared, and a directive that names it does. -/
theorem Sample.forceLive_tells_named :
    (State.initial 0).judge [] (.declareSets ["A"]) = .ok (.pass, Sample.named) ∧
      (State.initial 0).Tidy ∧ Sample.named.Tidy ∧
      (State.initial 0).shape = Sample.named.shape ∧ (State.initial 0).types = Sample.named.types ∧
      (State.initial 0).ruling [] (.forceLive ["A"]) = .defect "UndefinedVariableError" ∧
      Sample.named.ruling [] (.forceLive ["A"]) = .pass :=
  ⟨rfl, by decide +kernel, by decide +kernel, by decide +kernel, rfl, rfl, rfl⟩

end HeapShape
