import HeapShape.Proofs.Constraints
import HeapShape.Proofs.Outline
import Mathlib.Data.Set.Function

/-!
# Shapes tell heaps apart up to isomorphism

Two heaps are *isomorphic* from some values on if there are a renaming of the locations that the
values lead to and one of the sets that the facts about these locations mention, under which the
two heaps look the same: the values, what is known of each location, and the constraints between
sets that are declared or mentioned. A declared set keeps its name. What the values do not lead to
plays no role.

* `Heap.Iso`: the isomorphisms;
* `Heap.Tracks`: renamings under which locations and sets keep the names that shapes give them.
  Under such renamings, each part of two shapes agrees if and only if the same part of the heaps
  does (`Tracks.value_eq_iff`, `Tracks.node_eq_iff`, `Tracks.lines_eq_iff`);
* `Heap.shape_eq_iff_exists_iso`: two heaps have the same shape if and only if they are isomorphic.
-/

namespace HeapShape

open List Outline

/-! ### Comparing position by position -/

section

variable {V V' S S' L L' T T' U U' : Type} {f : V → T} {f' : V' → T} {F : V → T'} {F' : V' → T'}
  {g : S → U} {g' : S' → U} {G : S → U'} {G' : S' → U'}

/-- Two renamings make two lists agree in the same cases as two others, if they do so element by
    element. -/
theorem Outline.map_eq_map_iff {l : List V} {m : List V'}
    (h : ∀ x ∈ l, ∀ y ∈ m, f x = f' y ↔ F x = F' y) : l.map f = m.map f' ↔ l.map F = m.map F' := by
  induction l generalizing m with
  | nil => simp
  | cons x l ih =>
    rcases m with _ | ⟨y, m⟩
    · simp
    · rw [map_cons, map_cons, map_cons, map_cons, List.cons.injEq, List.cons.injEq,
        h x (.head _) y (.head _), ih fun x hx y hy => h x (.tail _ hx) y (.tail _ hy)]

theorem Args.map_eq_map_iff {a : Args V S} {b : Args V' S'}
    (hv : ∀ x ∈ a.ptrs, ∀ y ∈ b.ptrs, f x = f' y ↔ F x = F' y)
    (hs : ∀ x ∈ a.sets, ∀ y ∈ b.sets, g x = g' y ↔ G x = G' y) :
    a.map f g = b.map f' g' ↔ a.map F G = b.map F' G' := by
  rw [Args.map, Args.map, Args.map, Args.map, Args.mk.injEq, Args.mk.injEq,
    Outline.map_eq_map_iff hv, Outline.map_eq_map_iff hs]

theorem Node.map_eq_map_iff {a : Node V S} {b : Node V' S'}
    (hv : ∀ x ∈ a.values, ∀ y ∈ b.values, f x = f' y ↔ F x = F' y)
    (hs : ∀ x ∈ a.sets, ∀ y ∈ b.sets, g x = g' y ↔ G x = G' y) :
    a.map f g = b.map f' g' ↔ a.map F G = b.map F' G' := by
  rcases a with _ | _ | ⟨set, ty⟩ | ⟨ty, fields⟩ | ⟨pred, ty, args, hole⟩ <;>
    rcases b with _ | _ | ⟨set', ty'⟩ | ⟨ty', fields'⟩ | ⟨pred', ty', args', hole'⟩ <;>
    simp only [Node.map, reduceCtorEq, Node.member.injEq, Node.cell.injEq, Node.summary.injEq]
  case member.member => rw [hs set (.head _) set' (.head _)]
  case cell.cell =>
    have hfields : fields.map f = fields'.map f' ↔ fields.map F = fields'.map F' :=
      Outline.map_eq_map_iff hv
    rw [hfields]
  case summary.summary =>
    have hargs : args.map f g = args'.map f' g' ↔ args.map F G = args'.map F' G' :=
      Args.map_eq_map_iff
        (fun x hx y hy => hv x (mem_append_left _ hx) y (mem_append_left _ hy))
        fun x hx y hy => hs x (mem_append_left _ hx) y (mem_append_left _ hy)
    rw [hargs]
    rcases hole with _ | ⟨v, rest⟩ <;> rcases hole' with _ | ⟨v', rest'⟩
    · simp
    · simp
    · simp
    · have hrest : rest.map f g = rest'.map f' g' ↔ rest.map F G = rest'.map F' G' :=
        Args.map_eq_map_iff
          (fun x hx y hy => hv x (by simp [Node.values, hx]) y (by simp [Node.values, hy]))
          fun x hx y hy => hs x (by simp [Node.sets, hx]) y (by simp [Node.sets, hy])
      have hend : f v = f' v' ↔ F v = F' v' := hv v (by simp [Node.values]) v' (by simp [Node.values])
      simp only [Option.map_some, Option.some.injEq, Prod.mk.injEq, hend, hrest]

theorem Constraint.map_eq_map_iff {c : Constraint S V} {d : Constraint S' V'}
    (hs : ∀ x ∈ c.sets, ∀ y ∈ d.sets, g x = g' y ↔ G x = G' y)
    (hl : ∀ x ∈ c.locs, ∀ y ∈ d.locs, f x = f' y ↔ F x = F' y) :
    c.map g f = d.map g' f' ↔ c.map G F = d.map G' F' := by
  rcases c with ⟨a, b⟩ | ⟨w, e, r⟩ | v <;> rcases d with ⟨a', b'⟩ | ⟨w', e', r'⟩ | v' <;>
    simp_all [Constraint.map, Constraint.sets, Constraint.locs]

/-- Two sets have the same image in the same cases under two pairs of maps, if these make elements
    agree in the same cases. -/
theorem Outline.image_eq_image_iff {A : Set V} {B : Set V'}
    (h : ∀ x ∈ A, ∀ y ∈ B, f x = f' y ↔ F x = F' y) : f '' A = f' '' B ↔ F '' A = F' '' B := by
  have hcover {T : Type} {f : V → T} {f' : V' → T} : f '' A = f' '' B ↔
      (∀ x ∈ A, ∃ y ∈ B, f x = f' y) ∧ ∀ y ∈ B, ∃ x ∈ A, f x = f' y := by
    rw [Set.Subset.antisymm_iff, Set.image_subset_iff, Set.image_subset_iff]
    refine and_congr (forall₂_congr fun x _ => ?_) Iff.rfl
    exact exists_congr fun y => and_congr_right fun _ => eq_comm
  rw [hcover, hcover]
  refine and_congr (forall₂_congr fun x hx => ?_) (forall₂_congr fun y hy => ?_)
  · exact exists_congr fun y => and_congr_right fun hy => h x hx y hy
  · exact exists_congr fun x => and_congr_right fun hx => h x hx y hy

end

/-! ### What values lead to -/

/-- Rename the location of a pointer. -/
def Value.rename (ρ : Loc → Loc) : Value → Value
  | .ptr loc => .ptr (ρ loc)
  | .null => .null
  | .int => .int

theorem Value.loc?_rename (ρ : Loc → Loc) (v : Value) : (v.rename ρ).loc? = v.loc?.map ρ := by
  cases v <;> rfl

theorem Value.loc?_eq_some {v : Value} {loc : Loc} : v.loc? = some loc ↔ v = .ptr loc := by
  cases v <;> simp [Value.loc?]

theorem Arena.Slot.values_node (s : Arena.Slot Fact) :
    s.node.values = s.value?.toList.flatMap Fact.values := by
  obtain _ | ⟨_ | ⟨_, _, _, _ | _⟩ | _⟩ | _ := s <;>
    simp [Arena.Slot.node, Node.values, Arena.Slot.value?, Fact.values, Params.args]

theorem Arena.Slot.sets_node (s : Arena.Slot Fact) :
    s.node.sets = s.value?.toList.flatMap Fact.sets := by
  obtain _ | ⟨_ | ⟨_, _, _, _ | _⟩ | _⟩ | _ := s <;>
    simp [Arena.Slot.node, Node.sets, Arena.Slot.value?, Fact.sets, Params.args]

namespace Heap

/-- The locations that some values lead to. -/
inductive Reaches (h : Heap) (roots : List Value) : Loc → Prop where
  | root {loc : Loc} : .ptr loc ∈ roots → h.Reaches roots loc
  | step {loc next : Loc} :
    h.Reaches roots loc → .ptr next ∈ (h.slot loc).node.values → h.Reaches roots next

variable {h h₁ h₂ : Heap} {roots roots₁ roots₂ : List Value}

/-- The values of an arena under one number. -/
theorem flatMap_values {β : Type} (a : Arena Fact) (g : Fact → List β) (k : Nat) :
    (a.values.flatMap fun e => if e.1 = k then g e.2 else []) = (a.value? k).toList.flatMap g := by
  have hone (n : Nat) (l : List β) :
      ((range n).flatMap fun i => if i = k then l else []) = if k < n then l else [] := by
    induction n with
    | zero => rfl
    | succ n ih => grind [range_succ, flatMap_singleton]
  have hvalue (i : Nat) : (((a.value? i).map fun v => (i, v)).toList.flatMap fun e =>
      if e.1 = k then g e.2 else []) = if i = k then (a.value? k).toList.flatMap g else [] := by
    by_cases hi : i = k
    · subst hi
      cases a.value? i <;> simp
    · cases a.value? i <;> simp [hi]
  rw [Arena.values_eq, filterMap_eq_flatMap_toList, flatMap_assoc, funext hvalue, hone]
  split
  · rfl
  · rw [Arena.value?, Arena.slot_of_size_le (Nat.le_of_not_lt ‹_›)]
    rfl

/-- The locations that a fact leads to, in order. -/
theorem next_links (h : Heap) (loc : Loc) :
    Reach.next h.links loc = (h.slot loc).node.values.filterMap Value.loc? := by
  have hkey (e : Nat × Fact) : ((e.2.locs.map fun next => ((⟨e.1⟩ : Loc), next)).filterMap fun p =>
      if p.1 = loc then some p.2 else none) = if e.1 = loc.index then e.2.locs else [] := by
    rw [filterMap_map]
    split
    · rename_i he
      simp [he]
    · rename_i he
      have hne : (⟨e.1⟩ : Loc) ≠ loc := fun heq => he (congrArg Loc.index heq)
      simp [hne]
  calc Reach.next h.links loc
      = h.arena.values.flatMap fun e => if e.1 = loc.index then e.2.locs else [] := by
        rw [Reach.next, links, facts, flatMap_map, filterMap_flatMap]
        exact congrArg (fun f => h.arena.values.flatMap f) (funext hkey)
    _ = (h.arena.value? loc.index).toList.flatMap Fact.locs := flatMap_values ..
    _ = (h.slot loc).node.values.filterMap Value.loc? := by
        rw [Arena.Slot.values_node, filterMap_flatMap]
        rfl

/-- The search meets the locations that the values lead to. -/
theorem mem_reach {loc : Loc} : loc ∈ h.reach roots ↔ h.Reaches roots loc := by
  rw [reach, Reach.mem_closure]
  constructor
  · rintro ⟨start, hstart, hlead⟩
    obtain ⟨v, hv, hloc⟩ := mem_filterMap.1 hstart
    rw [Value.loc?_eq_some] at hloc
    subst hloc
    induction hlead with
    | refl => exact .root hv
    | step _ he ih =>
      rw [← Reach.mem_next, next_links] at he
      obtain ⟨w, hw, hnext⟩ := mem_filterMap.1 he
      rw [Value.loc?_eq_some] at hnext
      exact .step ih (hnext ▸ hw)
  · intro hr
    induction hr with
    | root hv => exact ⟨_, mem_filterMap.2 ⟨_, hv, rfl⟩, .refl _⟩
    | step _ hw ih =>
      obtain ⟨start, hstart, hlead⟩ := ih
      refine ⟨start, hstart, .step hlead ?_⟩
      rw [← Reach.mem_next, next_links]
      exact mem_filterMap.2 ⟨_, hw, rfl⟩

theorem nodup_reach : (h.reach roots).Nodup := Reach.nodup_closure

/-- The sets that facts about the locations mention which some values lead to, by their
    representatives. -/
def mentioned (h : Heap) (roots : List Value) : Set SetVar :=
  {v | ∃ loc, h.Reaches roots loc ∧ ∃ w ∈ (h.slot loc).node.sets, h.sets.resolve w = v}

/-- The constraints about sets that are declared or mentioned, and about locations that some values
    lead to. -/
def shown (h : Heap) (roots : List Value) : Set (Constraint SetVar Loc) :=
  {c | c ∈ h.sets.constraints ∧ (∀ v ∈ c.sets, h.sets.isDeclared v = true ∨ v ∈ h.mentioned roots) ∧
    ∀ loc ∈ c.locs, h.Reaches roots loc}

end Heap

/-- A set by its declared name, or renamed if it has none. -/
def SetStore.label (s : SetStore) (σ : SetVar → SetVar) (v : SetVar) : String ⊕ SetVar :=
  match s.nameOf? v with
  | some name => .inl name
  | none => .inr (σ v)

namespace Heap

/-- Two heaps look the same from some values on, up to a renaming `ρ` of locations and a renaming
    `σ` of sets. -/
structure Iso (h₁ h₂ : Heap) (roots₁ roots₂ : List Value) (ρ : Loc → Loc) (σ : SetVar → SetVar) :
    Prop where
  /-- The locations that the values lead to are renamed one to one. -/
  locs : Set.BijOn ρ {loc | h₁.Reaches roots₁ loc} {loc | h₂.Reaches roots₂ loc}
  /-- So are the sets that are mentioned. -/
  sets : Set.BijOn σ (h₁.mentioned roots₁) (h₂.mentioned roots₂)
  /-- A set keeps its declared name. -/
  names : ∀ v ∈ h₁.mentioned roots₁, h₂.sets.nameOf? (σ v) = h₁.sets.nameOf? v
  /-- The values correspond. -/
  roots : roots₁.map (Value.rename ρ) = roots₂
  /-- So does what is known of each location. -/
  nodes : ∀ loc, h₁.Reaches roots₁ loc →
    (h₁.slot loc).node.map (Value.rename ρ) (fun v => σ (h₁.sets.resolve v)) =
      (h₂.slot (ρ loc)).node.map id h₂.sets.resolve
  /-- So do the constraints. -/
  constraints : Constraint.map (h₁.sets.label σ) ρ '' h₁.shown roots₁ =
    Constraint.map (h₂.sets.label id) id '' h₂.shown roots₂

/-! ### The names that a shape gives -/

variable {h h₁ h₂ : Heap} {roots roots₁ roots₂ : List Value} {n n₁ n₂ : Naming} {v w v₁ v₂ : SetVar}
  {loc loc' : Loc} {name : String} {α β : Type} {l : List α}

theorem idxOf?_inj [DecidableEq α] {a b : α} {i : Nat} (ha : l.idxOf? a = some i)
    (hb : l.idxOf? b = some i) : a = b := by
  obtain ⟨_, ha, -⟩ := idxOf?_eq_some_iff.1 ha
  obtain ⟨_, hb, -⟩ := idxOf?_eq_some_iff.1 hb
  exact ha.symm.trans hb

/-- The locations that the values lead to are named. -/
theorem loc?_isSome : ((h.naming roots).loc? loc).isSome ↔ h.Reaches roots loc := by
  rw [Naming.loc?, Option.isSome_map, isSome_idxOf?]
  exact mem_reach

theorem loc?_inj (h₁ : n.loc? loc = some name) (h₂ : n.loc? loc' = some name) : loc = loc' := by
  obtain ⟨i, hi, rfl⟩ := Option.map_eq_some_iff.1 h₁
  obtain ⟨j, hj, hij⟩ := Option.map_eq_some_iff.1 h₂
  exact idxOf?_inj hi (place_inj hij ▸ hj)

theorem isDeclared_eq_isSome (s : SetStore) (v : SetVar) : s.isDeclared v = (s.nameOf? v).isSome := by
  rw [SetStore.isDeclared, SetStore.nameOf?, Option.isSome_map, isSome_find?]

/-- The sets that are mentioned, in order. -/
def mentions (h : Heap) (roots : List Value) : List SetVar :=
  (h.reach roots).flatMap fun loc => (h.slot loc).node.sets.map h.sets.resolve

theorem mem_mentions : v ∈ h.mentions roots ↔ v ∈ h.mentioned roots := by
  simp only [mentions, mentioned, mem_flatMap, mem_map, mem_reach, Set.mem_ofPred_eq]

theorem sets_naming (h : Heap) (roots : List Value) : (h.naming roots).sets =
    ((h.mentions roots).filter fun v => !h.sets.isDeclared v).eraseDups := by
  simp only [naming, anonymous, mentions, Arena.Slot.sets_node, map_flatMap]
  rfl

/-- The sets without a name are those that are mentioned and not declared. -/
theorem mem_naming_sets : v ∈ (h.naming roots).sets ↔
    v ∈ h.mentioned roots ∧ h.sets.nameOf? v = none := by
  rw [sets_naming, mem_eraseDups, mem_filter, mem_mentions, isDeclared_eq_isSome]
  simp

theorem nameOf?_resolve (hv : h.sets.Valid) (v : SetVar) :
    h.sets.nameOf? (h.sets.resolve v) = h.sets.nameOf? v := by
  simp only [SetStore.nameOf?, hv.reprs]

theorem setName?_resolve (hv : h.sets.Valid) (v : SetVar) :
    h.setName? n (h.sets.resolve v) = h.setName? n v := by
  rw [setName?, setName?, nameOf?_resolve hv, hv.reprs]

theorem setName?_eq_some : h.setName? n v = some name ↔ h.sets.nameOf? v = some name ∨
    h.sets.nameOf? v = none ∧ n.set? (h.sets.resolve v) = some name := by
  rw [setName?]
  rcases h.sets.nameOf? v with _ | x <;> simp

/-- A declared name belongs to one set. -/
theorem resolve_eq_of_nameOf? (hv : h.sets.Valid) (h₁ : h.sets.nameOf? v = some name)
    (h₂ : h.sets.nameOf? w = some name) : h.sets.resolve v = h.sets.resolve w := by
  obtain ⟨⟨x, a⟩, ha, rfl⟩ := Option.map_eq_some_iff.1 h₁
  obtain ⟨⟨y, b⟩, hb, hxy⟩ := Option.map_eq_some_iff.1 h₂
  obtain rfl : y = x := hxy
  have hab : a = b := by
    have := inj_on_of_nodup_map hv.names (mem_of_find?_eq_some ha)
      (mem_of_find?_eq_some hb) rfl
    exact (Prod.mk.inj this).2
  have hra := find?_some ha
  have hrb := find?_some hb
  simp only [decide_eq_true_eq] at hra hrb
  rw [← hra, ← hrb, hab]

/-- Sets that are declared or mentioned are named, and no others are. -/
theorem setName?_isSome (hv : h.sets.Valid) : (h.setName? (h.naming roots) v).isSome ↔
    h.sets.isDeclared v = true ∨ h.sets.resolve v ∈ h.mentioned roots := by
  rw [isDeclared_eq_isSome, setName?]
  rcases hname : h.sets.nameOf? v with _ | x
  · simp [Naming.set?, mem_naming_sets, nameOf?_resolve hv, hname]
  · simp

theorem set?_inj (h₁ : n.set? v = some name) (h₂ : n.set? w = some name) : v = w := by
  obtain ⟨i, hi, rfl⟩ := Option.map_eq_some_iff.1 h₁
  obtain ⟨j, hj, hij⟩ := Option.map_eq_some_iff.1 h₂
  have hij : j = i := number_inj ((String.append_right_inj "?").1 hij)
  exact idxOf?_inj hi (hij ▸ hj)

/-- All declared names are identifiers. -/
def Identifies (h : Heap) : Prop := ∀ e ∈ h.sets.names.entries, Token.isIdent e.1 = true

instance (h : Heap) : Decidable h.Identifies :=
  inferInstanceAs (Decidable (∀ e ∈ h.sets.names.entries, Token.isIdent e.1 = true))

theorem Identifies.isIdent (hi : h.Identifies) (hn : h.sets.nameOf? v = some name) :
    Token.isIdent name = true := by
  obtain ⟨e, he, rfl⟩ := Option.map_eq_some_iff.1 hn
  exact hi e (mem_of_find?_eq_some he)

/-- A set that is given a name has none that is declared. -/
theorem Identifies.ne_set? (hi : h₁.Identifies) (hn : h₁.sets.nameOf? v = some name) :
    n₂.set? w ≠ some name := by
  intro hs
  obtain ⟨i, -, rfl⟩ := Option.map_eq_some_iff.1 hs
  have hident := hi.isIdent hn
  rw [Token.isIdent, String.toList_append] at hident
  change (Token.startsIdent '?' && _) = true at hident
  rw [show Token.startsIdent '?' = false by decide] at hident
  cases hident

/-- Sets with the same name in two shapes have the same declared name, if any. -/
theorem nameOf?_eq_of_setName? (hi₁ : h₁.Identifies) (hi₂ : h₂.Identifies)
    (hs₁ : h₁.setName? n₁ v₁ = some name) (hs₂ : h₂.setName? n₂ v₂ = some name) :
    h₁.sets.nameOf? v₁ = h₂.sets.nameOf? v₂ := by
  rcases setName?_eq_some.1 hs₁ with h₁ | ⟨h₁, hset₁⟩ <;>
    rcases setName?_eq_some.1 hs₂ with h₂ | ⟨h₂, hset₂⟩
  · rw [h₁, h₂]
  · exact (hi₁.ne_set? h₁ hset₂).elim
  · exact (hi₂.ne_set? h₂ hset₁).elim
  · rw [h₁, h₂]

theorem setName?_inj (hv : h.sets.Valid) (hi : h.Identifies) (h₁ : h.setName? n v = some name)
    (h₂ : h.setName? n w = some name) : h.sets.resolve v = h.sets.resolve w := by
  have hname := nameOf?_eq_of_setName? hi hi h₁ h₂
  rcases setName?_eq_some.1 h₁ with hn | ⟨hn, hset⟩
  · exact resolve_eq_of_nameOf? hv hn (hname ▸ hn)
  · rcases setName?_eq_some.1 h₂ with hn' | ⟨-, hset'⟩
    · rw [← hname, hn] at hn'
      cases hn'
    · exact set?_inj hset hset'

/-- A value that the search meets. -/
def Met (h : Heap) (roots : List Value) (v : Value) : Prop := ∀ loc, v = .ptr loc → h.Reaches roots loc

theorem met_root {v : Value} (hv : v ∈ roots) : h.Met roots v := by
  rintro loc rfl
  exact .root hv

theorem met_node {v : Value} (hr : h.Reaches roots loc) (hv : v ∈ (h.slot loc).node.values) :
    h.Met roots v := by
  rintro next rfl
  exact .step hr hv

theorem isWord_loc? (hn : n.loc? loc = some name) : IsWord name := by
  obtain ⟨i, -, rfl⟩ := Option.map_eq_some_iff.1 hn
  exact isWord_place i

theorem value_ptr (hr : h.Reaches roots loc) :
    (h.naming roots).loc? loc = some ((h.naming roots).value (.ptr loc)) := by
  obtain ⟨name, hname⟩ := Option.isSome_iff_exists.1 (loc?_isSome.2 hr)
  rw [Naming.value, hname, Option.getD_some]

theorem isWord_value {v : Value} (hm : h.Met roots v) : IsWord ((h.naming roots).value v) := by
  rcases v with _ | loc | _
  · exact (by decide : IsWord "null")
  · exact isWord_loc? (value_ptr (hm loc rfl))
  · exact (by decide : IsWord "int")

/-- What the name of a value starts with. -/
def initial : Value → Char
  | .null => 'n'
  | .int => 'i'
  | .ptr _ => '#'

theorem head?_value {v : Value} (hm : h.Met roots v) :
    ((h.naming roots).value v).toList.head? = some (initial v) := by
  rcases v with _ | loc | _
  · simp [Naming.value, initial]
  · obtain ⟨i, -, hi⟩ := Option.map_eq_some_iff.1 (value_ptr (hm loc rfl))
    rw [← hi, toList_place]
    rfl
  · simp [Naming.value, initial]

/-- Values that the search meets have different names. -/
theorem value_inj {v w : Value} (hv : h.Met roots v) (hw : h.Met roots w)
    (he : (h.naming roots).value v = (h.naming roots).value w) : v = w := by
  have hinit : initial v = initial w := by
    have := head?_value hv
    rw [he, head?_value hw] at this
    exact (Option.some.inj this).symm
  rcases v with _ | loc | _ <;> rcases w with _ | loc' | _ <;>
    simp only [initial, Char.reduceEq] at hinit
  · rfl
  · rw [loc?_inj (value_ptr (hv loc rfl)) (he ▸ value_ptr (hw loc' rfl))]
  · rfl

/-- The name of a set is a word, and not that of a location. -/
theorem isWord_setName? (hi : h.Identifies) (hn : h.setName? n v = some name) :
    IsWord name ∧ '#' ∉ name.toList.head? := by
  rcases setName?_eq_some.1 hn with hn | ⟨-, hset⟩
  · have hident := hi.isIdent hn
    refine ⟨isWord_of_isIdent hident, ?_⟩
    rw [Token.isIdent] at hident
    split at hident
    · cases hident
    · rename_i c cs hcs
      rw [hcs]
      rintro ⟨⟩
      rw [show Token.startsIdent '#' = false by decide] at hident
      cases hident
  · obtain ⟨i, -, rfl⟩ := Option.map_eq_some_iff.1 hset
    refine ⟨isWord_append (by decide) (isWord_number i), ?_⟩
    rw [String.toList_append]
    exact fun hmem => by cases hmem

theorem setName?_eq_setName (hv : h.sets.Valid)
    (hm : h.sets.isDeclared v = true ∨ h.sets.resolve v ∈ h.mentioned roots) :
    h.setName? (h.naming roots) v = some (h.setName (h.naming roots) v) := by
  obtain ⟨name, hname⟩ := Option.isSome_iff_exists.1 ((setName?_isSome hv).2 hm)
  rw [setName, hname, Option.getD_some]

theorem resolve_of_mentioned (hv : h.sets.Valid) (hm : v ∈ h.mentioned roots) :
    h.sets.resolve v = v := by
  obtain ⟨-, -, w, -, rfl⟩ := hm
  exact hv.reprs w

theorem resolve_of_mem_sets (hv : h.sets.Valid) {c : Constraint SetVar Loc}
    (hc : c ∈ h.sets.constraints) (hmem : v ∈ c.sets) : h.sets.resolve v = v := by
  rcases SetStore.mem_constraints.1 hc with ⟨p, -, rfl⟩ | ⟨p, -, rfl⟩ | ⟨e, -, rfl⟩ <;>
    simp only [Constraint.sets, mem_cons, not_mem_nil, or_false] at hmem
  · rcases hmem with rfl | rfl <;> exact hv.reprs _
  · rcases hmem with rfl | rfl <;> exact hv.reprs _
  · exact hmem ▸ hv.reprs _

/-- A constraint as a shape writes it. -/
def written (h : Heap) (roots : List Value) (c : Constraint SetVar Loc) : Constraint String String :=
  c.map (h.setName (h.naming roots)) fun loc => (h.naming roots).value (.ptr loc)

/-- The lines of a shape are the constraints that are shown. -/
theorem mem_lines (hv : h.sets.Valid) {line : String} :
    line ∈ h.lines roots ↔ ∃ c ∈ h.shown roots, (h.written roots c).text = line := by
  have hnamed {c : Constraint SetVar Loc} (hc : c ∈ h.sets.constraints) :
      ((∀ v ∈ c.sets, (h.setName? (h.naming roots) v).isSome) ∧
        ∀ loc ∈ c.locs, ((h.naming roots).loc? loc).isSome) ↔
      (∀ v ∈ c.sets, h.sets.isDeclared v = true ∨ v ∈ h.mentioned roots) ∧
        ∀ loc ∈ c.locs, h.Reaches roots loc := by
    refine and_congr (forall₂_congr fun v hmem => ?_) (forall₂_congr fun loc _ => loc?_isSome)
    rw [setName?_isSome hv, resolve_of_mem_sets hv hc hmem]
  rw [lines, SetStore.mem_render]
  constructor
  · rintro ⟨c, hc, hn, rfl⟩
    exact ⟨c, ⟨hc, (hnamed hc).1 hn⟩, rfl⟩
  · rintro ⟨c, ⟨hc, hn⟩, rfl⟩
    exact ⟨c, hc, (hnamed hc).2 hn, rfl⟩

theorem setName?_of_shown (hv : h.sets.Valid) {c : Constraint SetVar Loc} (hc : c ∈ h.shown roots)
    (hmem : v ∈ c.sets) :
    h.setName? (h.naming roots) v = some (h.setName (h.naming roots) v) := by
  refine setName?_eq_setName hv ?_
  rw [resolve_of_mem_sets hv hc.1 hmem]
  exact hc.2.1 v hmem

theorem words_written (hv : h.sets.Valid) (hi : h.Identifies) {c : Constraint SetVar Loc}
    (hc : c ∈ h.shown roots) : (h.written roots c).Words := by
  have hset : ∀ w ∈ (h.written roots c).sets, IsWord w ∧ '#' ∉ w.toList.head? := by
    intro w hw
    rw [written, Constraint.sets_map] at hw
    obtain ⟨v, hmem, rfl⟩ := mem_map.1 hw
    exact isWord_setName? hi (setName?_of_shown hv hc hmem)
  refine ⟨fun w hw => (hset w hw).1, fun w hw => ?_, fun w hw => (hset w hw).2⟩
  rw [written, Constraint.locs_map] at hw
  obtain ⟨loc, hmem, rfl⟩ := mem_map.1 hw
  refine isWord_value fun loc' he => ?_
  cases he
  exact hc.2.2 loc hmem

/-- All names in the shape of a heap are words. -/
theorem legible (hv : h.sets.Valid) (hi : h.Identifies) : h.Legible roots where
  values v hmem := isWord_value (met_root hmem)
  nodes := by
    intro a ha
    obtain ⟨loc, hloc, rfl⟩ := mem_map.1 ha
    have hr : h.Reaches roots loc := mem_reach.1 hloc
    constructor
    · intro w hw
      rw [Node.values_map] at hw
      obtain ⟨v, hv, rfl⟩ := mem_map.1 hw
      exact isWord_value (met_node hr hv)
    · intro w hw
      rw [Node.sets_map] at hw
      obtain ⟨v, hmem, rfl⟩ := mem_map.1 hw
      exact (isWord_setName? hi (setName?_eq_setName hv (.inr ⟨loc, hr, v, hmem, rfl⟩))).1
  lines := by
    intro line hline
    obtain ⟨c, hc, rfl⟩ := (mem_lines hv).1 hline
    have hwords := words_written hv hi hc
    exact ⟨hwords.over, hwords.head?_text⟩

/-! ### Renamings that keep the names -/

variable {ρ : Loc → Loc} {σ : SetVar → SetVar}

/-- Renamings under which locations and sets keep the names that shapes give them. -/
structure Tracks (h₁ h₂ : Heap) (roots₁ roots₂ : List Value) (ρ : Loc → Loc) (σ : SetVar → SetVar) :
    Prop where
  injOn : Set.InjOn ρ {loc | h₁.Reaches roots₁ loc}
  order : h₂.reach roots₂ = (h₁.reach roots₁).map ρ
  sets : Set.BijOn σ (h₁.mentioned roots₁) (h₂.mentioned roots₂)
  name : ∀ v ∈ h₁.mentioned roots₁,
    h₂.setName? (h₂.naming roots₂) (σ v) = h₁.setName? (h₁.naming roots₁) v

theorem nodes_eq_map (ho : h₂.reach roots₂ = (h₁.reach roots₁).map ρ) :
    h₂.nodes roots₂ = (h₁.reach roots₁).map fun loc =>
      (h₂.slot (ρ loc)).node.map (h₂.naming roots₂).value (h₂.setName (h₂.naming roots₂)) := by
  show (h₂.reach roots₂).map _ = _
  rw [ho, map_map]
  rfl

/-- A renaming one to one leaves out the same repeats. -/
theorem eraseDups_map [DecidableEq α] [DecidableEq β] {f : α → β}
    (hf : ∀ a ∈ l, ∀ b ∈ l, f a = f b → a = b) : (l.map f).eraseDups = l.eraseDups.map f := by
  induction hn : l.length using Nat.strongRecOn generalizing l with
  | ind n ih =>
    rcases l with _ | ⟨a, l⟩
    · rfl
    · have hfilter : (l.map f).filter (fun b => !b == f a) = (l.filter fun b => !b == a).map f := by
        rw [filter_map]
        refine congrArg _ (filter_congr fun b hb => ?_)
        by_cases hab : b = a
        · simp [hab]
        · have : f b ≠ f a := fun he => hab (hf b (.tail _ hb) a (.head _) he)
          simp [hab, this]
      rw [map_cons, eraseDups_cons, eraseDups_cons, map_cons, hfilter]
      refine congrArg _ (ih _ ?_ (fun x hx y hy => ?_) rfl)
      · have := length_filter_le (fun b => !b == a) l
        simp only [length_cons] at hn
        omega
      · exact hf x (.tail _ (mem_filter.1 hx).1) y (.tail _ (mem_filter.1 hy).1)

/-- The place of an element in a list that is renamed one to one. -/
theorem idxOf?_map [DecidableEq α] [DecidableEq β] {f : α → β} {a : α}
    (hf : ∀ b ∈ l, f b = f a → b = a) : (l.map f).idxOf? (f a) = l.idxOf? a := by
  induction l with
  | nil => rfl
  | cons b l ih =>
    rw [map_cons, idxOf?_cons, idxOf?_cons, ih fun c hc => hf c (.tail _ hc)]
    by_cases hb : b = a
    · simp [hb]
    · have hne : f b ≠ f a := fun he => hb (hf b (.head _) he)
      simp [hb, hne]

namespace Tracks

section

variable (ht : Tracks h₁ h₂ roots₁ roots₂ ρ σ)
include ht

theorem locs : Set.BijOn ρ {loc | h₁.Reaches roots₁ loc} {loc | h₂.Reaches roots₂ loc} := by
  refine ⟨fun loc hr => ?_, ht.injOn, fun loc hr => ?_⟩
  · have hmem : ρ loc ∈ (h₁.reach roots₁).map ρ := mem_map_of_mem (mem_reach.2 hr)
    exact mem_reach.1 (ht.order ▸ hmem)
  · have hmem : loc ∈ h₂.reach roots₂ := mem_reach.2 hr
    rw [ht.order] at hmem
    obtain ⟨loc', hmem', rfl⟩ := mem_map.1 hmem
    exact ⟨loc', mem_reach.1 hmem', rfl⟩

theorem loc? (hr : h₁.Reaches roots₁ loc) :
    (h₂.naming roots₂).loc? (ρ loc) = (h₁.naming roots₁).loc? loc := by
  have hidx : (h₂.reach roots₂).idxOf? (ρ loc) = (h₁.reach roots₁).idxOf? loc := by
    rw [ht.order]
    exact idxOf?_map fun b hb he => ht.injOn (mem_reach.1 hb) hr he
  exact congrArg (Option.map Naming.place) hidx

theorem met_rename {v : Value} (hm : h₁.Met roots₁ v) : h₂.Met roots₂ (v.rename ρ) := by
  intro loc he
  rcases v with _ | loc' | _ <;> simp only [Value.rename, reduceCtorEq, Value.ptr.injEq] at he
  exact he ▸ ht.locs.mapsTo (hm loc' rfl)

theorem value_rename {v : Value} (hm : h₁.Met roots₁ v) :
    (h₂.naming roots₂).value (v.rename ρ) = (h₁.naming roots₁).value v := by
  rcases v with _ | loc | _
  · rfl
  · simp only [Value.rename, Naming.value, ht.loc? (hm loc rfl)]
  · rfl

/-- Values have the same name if and only if they correspond. -/
theorem value_eq_iff {v₁ v₂ : Value} (hm₁ : h₁.Met roots₁ v₁) (hm₂ : h₂.Met roots₂ v₂) :
    (h₁.naming roots₁).value v₁ = (h₂.naming roots₂).value v₂ ↔ v₁.rename ρ = v₂ := by
  rw [← ht.value_rename hm₁]
  exact ⟨value_inj (ht.met_rename hm₁) hm₂, fun he => he ▸ rfl⟩

theorem roots_eq_iff : roots₁.map (h₁.naming roots₁).value = roots₂.map (h₂.naming roots₂).value ↔
      roots₁.map (Value.rename ρ) = roots₂ := by
  have hmap : roots₁.map (h₁.naming roots₁).value = roots₂.map (h₂.naming roots₂).value ↔
      roots₁.map (Value.rename ρ) = roots₂.map id :=
    Outline.map_eq_map_iff fun x hx y hy => ht.value_eq_iff (met_root hx) (met_root hy)
  rw [hmap, map_id]

theorem nameOf?_eq (hv₁ : h₁.sets.Valid) (hi₁ : h₁.Identifies) (hi₂ : h₂.Identifies)
    (hm : v ∈ h₁.mentioned roots₁) : h₂.sets.nameOf? (σ v) = h₁.sets.nameOf? v := by
  have hname : h₁.setName? (h₁.naming roots₁) v = some (h₁.setName (h₁.naming roots₁) v) :=
    setName?_eq_setName hv₁ (.inr ((resolve_of_mentioned hv₁ hm).symm ▸ hm))
  exact nameOf?_eq_of_setName? hi₂ hi₁ ((ht.name v hm).trans hname) hname

end

variable (hv₁ : h₁.sets.Valid) (hv₂ : h₂.sets.Valid) (hi₁ : h₁.Identifies) (hi₂ : h₂.Identifies)

include hv₁ hv₂ hi₂

section

variable (ht : Tracks h₁ h₂ roots₁ roots₂ ρ σ)
include ht

/-- Sets that are mentioned have the same name if and only if they correspond. -/
theorem setName_eq_iff (hm₁ : h₁.sets.resolve v₁ ∈ h₁.mentioned roots₁)
    (hm₂ : h₂.sets.resolve v₂ ∈ h₂.mentioned roots₂) :
    h₁.setName (h₁.naming roots₁) v₁ = h₂.setName (h₂.naming roots₂) v₂ ↔
      σ (h₁.sets.resolve v₁) = h₂.sets.resolve v₂ := by
  have hrep := resolve_of_mentioned hv₂ (ht.sets.mapsTo hm₁)
  have hname := ht.name _ hm₁
  rw [setName?_resolve hv₁, setName?_eq_setName hv₁ (.inr hm₁)] at hname
  have hname₂ := setName?_eq_setName hv₂ (.inr hm₂)
  constructor
  · intro he
    rw [← hrep]
    exact setName?_inj hv₂ hi₂ hname (he ▸ hname₂)
  · intro he
    rw [he, setName?_resolve hv₂, hname₂] at hname
    exact (Option.some.inj hname).symm

/-- What is known of a location is described in the same way if and only if it corresponds. -/
theorem node_eq_iff (hr : h₁.Reaches roots₁ loc) :
    (h₁.slot loc).node.map (h₁.naming roots₁).value (h₁.setName (h₁.naming roots₁)) =
        (h₂.slot (ρ loc)).node.map (h₂.naming roots₂).value (h₂.setName (h₂.naming roots₂)) ↔
      (h₁.slot loc).node.map (Value.rename ρ) (fun v => σ (h₁.sets.resolve v)) =
        (h₂.slot (ρ loc)).node.map id h₂.sets.resolve := by
  have hr₂ : h₂.Reaches roots₂ (ρ loc) := ht.locs.mapsTo hr
  refine Node.map_eq_map_iff (fun x hx y hy => ?_) fun x hx y hy => ?_
  · exact ht.value_eq_iff (met_node hr hx) (met_node hr₂ hy)
  · exact ht.setName_eq_iff hv₁ hv₂ hi₂ ⟨loc, hr, x, hx, rfl⟩ ⟨ρ loc, hr₂, y, hy, rfl⟩

theorem nodes_eq_iff : h₁.nodes roots₁ = h₂.nodes roots₂ ↔ ∀ loc, h₁.Reaches roots₁ loc →
      (h₁.slot loc).node.map (Value.rename ρ) (fun v => σ (h₁.sets.resolve v)) =
        (h₂.slot (ρ loc)).node.map id h₂.sets.resolve := by
  rw [nodes_eq_map ht.order]
  show (h₁.reach roots₁).map _ = _ ↔ _
  rw [map_inj_left]
  refine forall_congr' fun loc => ?_
  rw [mem_reach]
  exact forall_congr' fun hr => ht.node_eq_iff hv₁ hv₂ hi₂ hr

end

include hi₁

/-- Sets in constraints that are shown have the same name if and only if they correspond. -/
theorem setName_eq_iff_label (ht : Tracks h₁ h₂ roots₁ roots₂ ρ σ) {c₁ c₂ : Constraint SetVar Loc}
    (hc₁ : c₁ ∈ h₁.shown roots₁) (hc₂ : c₂ ∈ h₂.shown roots₂) (hm₁ : v₁ ∈ c₁.sets)
    (hm₂ : v₂ ∈ c₂.sets) :
    h₁.setName (h₁.naming roots₁) v₁ = h₂.setName (h₂.naming roots₂) v₂ ↔
      h₁.sets.label σ v₁ = h₂.sets.label id v₂ := by
  have hname₁ := setName?_of_shown hv₁ hc₁ hm₁
  have hname₂ := setName?_of_shown hv₂ hc₂ hm₂
  by_cases hname : h₁.sets.nameOf? v₁ = h₂.sets.nameOf? v₂
  · rcases hd : h₂.sets.nameOf? v₂ with _ | x
    · -- Neither set is declared, so both are mentioned.
      have hr₁ := resolve_of_mem_sets hv₁ hc₁.1 hm₁
      have hr₂ := resolve_of_mem_sets hv₂ hc₂.1 hm₂
      have hment₁ : h₁.sets.resolve v₁ ∈ h₁.mentioned roots₁ := by
        rw [hr₁]
        refine (hc₁.2.1 v₁ hm₁).resolve_left ?_
        rw [isDeclared_eq_isSome, hname, hd]
        exact Bool.false_ne_true
      have hment₂ : h₂.sets.resolve v₂ ∈ h₂.mentioned roots₂ := by
        rw [hr₂]
        refine (hc₂.2.1 v₂ hm₂).resolve_left ?_
        rw [isDeclared_eq_isSome, hd]
        exact Bool.false_ne_true
      rw [ht.setName_eq_iff hv₁ hv₂ hi₂ hment₁ hment₂, hr₁, hr₂, SetStore.label, SetStore.label, hname,
        hd, Sum.inr.injEq, id_eq]
    · have hx₁ : h₁.setName (h₁.naming roots₁) v₁ = x := by
        rw [setName, setName?_eq_some.2 (.inl (hname.trans hd)), Option.getD_some]
      have hx₂ : h₂.setName (h₂.naming roots₂) v₂ = x := by
        rw [setName, setName?_eq_some.2 (.inl hd), Option.getD_some]
      rw [hx₁, hx₂, SetStore.label, SetStore.label, hname, hd]
      exact iff_of_true rfl rfl
  · refine iff_of_false (fun he => hname ?_) fun he => hname ?_
    · exact nameOf?_eq_of_setName? hi₁ hi₂ hname₁ (he ▸ hname₂)
    · rw [SetStore.label, SetStore.label] at he
      rcases hd₁ : h₁.sets.nameOf? v₁ with _ | x <;> rcases hd₂ : h₂.sets.nameOf? v₂ with _ | y <;>
        simp only [hd₁, hd₂, reduceCtorEq, Sum.inl.injEq] at he
      · rfl
      · rw [he]

/-- The constraints are written in the same lines if and only if they correspond. -/
theorem lines_eq_iff (ht : Tracks h₁ h₂ roots₁ roots₂ ρ σ) :
    h₁.lines roots₁ = h₂.lines roots₂ ↔ Constraint.map (h₁.sets.label σ) ρ '' h₁.shown roots₁ =
      Constraint.map (h₂.sets.label id) id '' h₂.shown roots₂ := by
  have hiff : ∀ c₁ ∈ h₁.shown roots₁, ∀ c₂ ∈ h₂.shown roots₂,
      (h₁.written roots₁ c₁).text = (h₂.written roots₂ c₂).text ↔
        c₁.map (h₁.sets.label σ) ρ = c₂.map (h₂.sets.label id) id := by
    intro c₁ hc₁ c₂ hc₂
    have htext : (h₁.written roots₁ c₁).text = (h₂.written roots₂ c₂).text ↔
        h₁.written roots₁ c₁ = h₂.written roots₂ c₂ :=
      ⟨Constraint.text_inj (words_written hv₁ hi₁ hc₁) (words_written hv₂ hi₂ hc₂), fun he => he ▸ rfl⟩
    rw [htext]
    refine Constraint.map_eq_map_iff (fun x hx y hy => ?_) fun x hx y hy => ?_
    · exact ht.setName_eq_iff_label hv₁ hv₂ hi₁ hi₂ hc₁ hc₂ hx hy
    · have hx : h₁.Met roots₁ (.ptr x) := fun loc he => Value.ptr.inj he ▸ hc₁.2.2 x hx
      have hy : h₂.Met roots₂ (.ptr y) := fun loc he => Value.ptr.inj he ▸ hc₂.2.2 y hy
      rw [ht.value_eq_iff hx hy, Value.rename, Value.ptr.injEq, id_eq]
  have hlines : h₁.lines roots₁ = h₂.lines roots₂ ↔
      (fun c => (h₁.written roots₁ c).text) '' h₁.shown roots₁ =
        (fun c => (h₂.written roots₂ c).text) '' h₂.shown roots₂ := by
    rw [Set.ext_iff]
    simp only [Set.mem_image, ← mem_lines hv₁, ← mem_lines hv₂]
    exact Sorted.ofList_eq_iff
  rw [hlines]
  exact Outline.image_eq_image_iff hiff

end Tracks

/-! ### Isomorphic heaps have the same shape -/

namespace Iso

variable (hiso : Iso h₁ h₂ roots₁ roots₂ ρ σ)
include hiso

theorem reach_eq : h₂.reach roots₂ = (h₁.reach roots₁).map ρ := by
  have hlocs (l : List Value) : (l.map (Value.rename ρ)).filterMap Value.loc? =
      (l.filterMap Value.loc?).map ρ := by
    rw [filterMap_map, map_filterMap]
    exact congrArg (List.filterMap · l) (funext fun v => v.loc?_rename ρ)
  rw [reach, ← hiso.roots, hlocs]
  refine Reach.closure_map (fun x y hx hy he => ?_) fun x hx => ?_
  · exact hiso.locs.injOn (mem_reach.1 hx) (mem_reach.1 hy) he
  · have hvalues := congrArg Node.values (hiso.nodes x (mem_reach.1 hx))
    rw [Node.values_map, Node.values_map, map_id] at hvalues
    rw [next_links, next_links, ← hvalues, hlocs]

theorem mentions_eq : h₂.mentions roots₂ = (h₁.mentions roots₁).map σ := by
  rw [mentions, mentions, hiso.reach_eq, flatMap_map, map_flatMap]
  refine flatMap_congr fun loc hloc => ?_
  have hsets := congrArg Node.sets (hiso.nodes loc (mem_reach.1 hloc))
  rw [Node.sets_map, Node.sets_map] at hsets
  rw [← hsets, map_map]
  rfl

theorem sets_naming_eq : (h₂.naming roots₂).sets = (h₁.naming roots₁).sets.map σ := by
  have hfilter : (h₁.mentions roots₁).filter ((fun v => !h₂.sets.isDeclared v) ∘ σ) =
      (h₁.mentions roots₁).filter fun v => !h₁.sets.isDeclared v := by
    refine filter_congr fun v hv => ?_
    rw [Function.comp_apply, isDeclared_eq_isSome, isDeclared_eq_isSome,
      hiso.names v (mem_mentions.1 hv)]
  rw [sets_naming, sets_naming, hiso.mentions_eq, filter_map, hfilter]
  refine eraseDups_map fun a ha b hb he => ?_
  exact hiso.sets.injOn (mem_mentions.1 (mem_filter.1 ha).1)
    (mem_mentions.1 (mem_filter.1 hb).1) he

/-- Isomorphic heaps are searched in the same order and mention their sets in the same order. -/
theorem tracks (hv₁ : h₁.sets.Valid) (hv₂ : h₂.sets.Valid) : Tracks h₁ h₂ roots₁ roots₂ ρ σ where
  injOn := hiso.locs.injOn
  order := hiso.reach_eq
  sets := hiso.sets
  name := by
    intro v hm
    have hset : (h₂.naming roots₂).set? (σ v) = (h₁.naming roots₁).set? v := by
      rw [Naming.set?, Naming.set?, hiso.sets_naming_eq]
      refine congrArg _ (idxOf?_map fun b hb he => ?_)
      exact hiso.sets.injOn (mem_naming_sets.1 hb).1 hm he
    rw [setName?, setName?, hiso.names v hm, resolve_of_mentioned hv₁ hm,
      resolve_of_mentioned hv₂ (hiso.sets.mapsTo hm), hset]

end Iso

/-! ### Heaps with the same shape are isomorphic -/

/-- Sets whose elements are told apart by labels correspond one to one, if they have the same
    labels. -/
theorem exists_bijOn {γ : Type} [Nonempty β] {A : Set α} {B : Set β} {f : α → γ} {g : β → γ}
    (hf : Set.InjOn f A) (hg : Set.InjOn g B) (h : f '' A = g '' B) :
    ∃ e, Set.BijOn e A B ∧ ∀ a ∈ A, g (e a) = f a := by
  have hinv : ∀ a ∈ A, ∃ b ∈ B, g b = f a := fun a ha => by
    have : f a ∈ f '' A := ⟨a, ha, rfl⟩
    rwa [h] at this
  choose! e heB he using hinv
  refine ⟨e, ⟨heB, fun a ha b hb hab => hf ha hb ?_, fun b hb => ?_⟩, he⟩
  · rw [← he a ha, ← he b hb, hab]
  · have : g b ∈ g '' B := ⟨b, hb, rfl⟩
    rw [← h] at this
    obtain ⟨a, ha, hab⟩ := this
    exact ⟨a, ha, hg (heB a ha) hb ((he a ha).trans hab)⟩

/-- A location goes to the one with the same number. -/
theorem exists_reach_map (hlen : (h₁.reach roots₁).length = (h₂.reach roots₂).length) :
    ∃ ρ : Loc → Loc, (h₁.reach roots₁).map ρ = h₂.reach roots₂ := by
  refine ⟨fun loc => (h₂.reach roots₂).getD ((h₁.reach roots₁).idxOf loc) loc, ?_⟩
  refine ext_getElem (by rw [length_map, hlen]) fun i hi hi' => ?_
  rw [getElem_map, nodup_reach.idxOf_getElem i, getD_eq_getElem?_getD,
    getElem?_eq_getElem hi', Option.getD_some]

/-- Sets that are mentioned are told apart by their names. -/
theorem injOn_setName? (roots : List Value) (hv : h.sets.Valid) (hi : h.Identifies) :
    Set.InjOn (h.setName? (h.naming roots)) (h.mentioned roots) := by
  intro a ha b hb he
  have hra := resolve_of_mentioned hv ha
  have hname : h.setName? (h.naming roots) a = some (h.setName (h.naming roots) a) :=
    setName?_eq_setName hv (.inr (hra.symm ▸ ha))
  have hab := setName?_inj hv hi hname (he ▸ hname)
  rwa [hra, resolve_of_mentioned hv hb] at hab

/-- The names of the sets that are mentioned. -/
theorem image_setName? (roots : List Value) (hv : h.sets.Valid) :
    h.setName? (h.naming roots) '' h.mentioned roots =
      {name | ∃ loc ∈ h.reach roots, ∃ w ∈ (h.slot loc).node.sets.map (h.setName (h.naming roots)),
        some w = name} := by
  ext name
  constructor
  · rintro ⟨_, ⟨loc, hr, w, hw, rfl⟩, rfl⟩
    refine ⟨loc, mem_reach.2 hr, _, mem_map_of_mem hw, ?_⟩
    rw [setName?_resolve hv, setName?_eq_setName hv (.inr ⟨loc, hr, w, hw, rfl⟩)]
  · rintro ⟨loc, hloc, _, hmem, rfl⟩
    obtain ⟨w, hw, rfl⟩ := mem_map.1 hmem
    refine ⟨_, ⟨loc, mem_reach.1 hloc, w, hw, rfl⟩, ?_⟩
    rw [setName?_resolve hv, setName?_eq_setName hv (.inr ⟨loc, mem_reach.1 hloc, w, hw, rfl⟩)]

/-- Two heaps whose locations are described in the same way have renamings that keep the names. -/
theorem exists_tracks (hv₁ : h₁.sets.Valid) (hv₂ : h₂.sets.Valid) (hi₁ : h₁.Identifies)
    (hi₂ : h₂.Identifies) (hnodes : h₁.nodes roots₁ = h₂.nodes roots₂) :
    ∃ ρ σ, Tracks h₁ h₂ roots₁ roots₂ ρ σ := by
  obtain ⟨ρ, hρ⟩ : ∃ ρ : Loc → Loc, (h₁.reach roots₁).map ρ = h₂.reach roots₂ := by
    have hlen := congrArg List.length hnodes
    rw [nodes, nodes, length_map, length_map] at hlen
    exact exists_reach_map hlen
  have hinj : Set.InjOn ρ {loc | h₁.Reaches roots₁ loc} := by
    intro a ha b hb he
    have hnodup : ((h₁.reach roots₁).map ρ).Nodup := hρ ▸ nodup_reach
    exact inj_on_of_nodup_map hnodup (mem_reach.2 ha) (mem_reach.2 hb) he
  have hsets : ∀ loc ∈ h₁.reach roots₁, (h₁.slot loc).node.sets.map (h₁.setName (h₁.naming roots₁)) =
      (h₂.slot (ρ loc)).node.sets.map (h₂.setName (h₂.naming roots₂)) := by
    intro loc hloc
    have hnode := map_inj_left.1 (hnodes.trans (nodes_eq_map hρ.symm)) loc hloc
    simpa only [Node.sets_map] using congrArg Node.sets hnode
  -- The same names are used for sets, so a set goes to the one with the same name.
  have himage : h₁.setName? (h₁.naming roots₁) '' h₁.mentioned roots₁ =
      h₂.setName? (h₂.naming roots₂) '' h₂.mentioned roots₂ := by
    rw [image_setName? _ hv₁, image_setName? _ hv₂, ← hρ]
    ext name
    constructor
    · rintro ⟨loc, hloc, w, hw, rfl⟩
      exact ⟨ρ loc, mem_map_of_mem hloc, w, hsets loc hloc ▸ hw, rfl⟩
    · rintro ⟨_, hmem, w, hw, rfl⟩
      obtain ⟨loc, hloc, rfl⟩ := mem_map.1 hmem
      exact ⟨loc, hloc, w, (hsets loc hloc).symm ▸ hw, rfl⟩
  obtain ⟨σ, hσ, hname⟩ := exists_bijOn (injOn_setName? roots₁ hv₁ hi₁) (injOn_setName? roots₂ hv₂ hi₂)
    himage
  exact ⟨ρ, σ, hinj, hρ.symm, hσ, hname⟩

/-- Two heaps have the same shape if and only if they are isomorphic. -/
theorem shape_eq_iff_exists_iso {roots₁ roots₂ : List (String × Value)}
    (hnames : roots₁.map Prod.fst = roots₂.map Prod.fst) (hv₁ : h₁.sets.Valid) (hv₂ : h₂.sets.Valid)
    (hi₁ : h₁.Identifies) (hi₂ : h₂.Identifies) :
    h₁.shape roots₁ = h₂.shape roots₂ ↔
      ∃ ρ σ, Iso h₁ h₂ (roots₁.map Prod.snd) (roots₂.map Prod.snd) ρ σ := by
  rw [shape_eq_iff hnames (legible hv₁ hi₁) (legible hv₂ hi₂)]
  constructor
  · rintro ⟨hvalues, hnodes, hlines⟩
    obtain ⟨ρ, σ, ht⟩ := exists_tracks hv₁ hv₂ hi₁ hi₂ hnodes
    refine ⟨ρ, σ, ht.locs, ht.sets, ?_, ht.roots_eq_iff.1 hvalues, ?_, ?_⟩
    · exact fun v hm => ht.nameOf?_eq hv₁ hi₁ hi₂ hm
    · exact (ht.nodes_eq_iff hv₁ hv₂ hi₂).1 hnodes
    · exact (ht.lines_eq_iff hv₁ hv₂ hi₁ hi₂).1 hlines
  · rintro ⟨ρ, σ, hiso⟩
    have ht := hiso.tracks hv₁ hv₂
    exact ⟨ht.roots_eq_iff.2 hiso.roots, (ht.nodes_eq_iff hv₁ hv₂ hi₂).2 hiso.nodes,
      (ht.lines_eq_iff hv₁ hv₂ hi₁ hi₂).2 hiso.constraints⟩

end Heap

/-- A graph below a node of which the next one is known, whose nodes are in `A`. -/
def Sample.below : Heap where
  arena := .ofSlots [.occupied (.summary ⟨.graph, ⟨0⟩, ⟨[], [⟨1⟩, ⟨0⟩]⟩, none⟩),
    .occupied (.cell ⟨⟨0⟩, [.ptr ⟨0⟩, .int]⟩)]
  sets := ⟨⟨[("A", ⟨0⟩)]⟩, [⟨0⟩, ⟨1⟩], [(⟨1⟩, ⟨0⟩)], [⟨⟨0⟩, ⟨1⟩, ⟨1⟩⟩], []⟩

/-- The same heap with other numbers, and something that it does not lead to. -/
def Sample.renumbered : Heap where
  arena := .ofSlots [.tombstone, .occupied (.cell ⟨⟨0⟩, [.ptr ⟨2⟩, .int]⟩),
    .occupied (.summary ⟨.graph, ⟨0⟩, ⟨[], [⟨0⟩, ⟨1⟩]⟩, none⟩)]
  sets := ⟨⟨[("A", ⟨1⟩)]⟩, [⟨0⟩, ⟨1⟩], [(⟨0⟩, ⟨1⟩)], [⟨⟨1⟩, ⟨1⟩, ⟨0⟩⟩], []⟩

theorem Sample.below_iso_renumbered :
    Sample.below.shape [("x", .ptr ⟨1⟩)] = Sample.renumbered.shape [("x", .ptr ⟨1⟩)] ∧
      ∃ ρ σ, Heap.Iso Sample.below Sample.renumbered [.ptr ⟨1⟩] [.ptr ⟨1⟩] ρ σ := by
  have hshape : Sample.below.shape [("x", .ptr ⟨1⟩)] = Sample.renumbered.shape [("x", .ptr ⟨1⟩)] := by
    decide +kernel
  have hres (v : SetVar) : SetStore.resolve Sample.below.sets v = v := by
    rcases v with ⟨_ | _ | n⟩ <;> rfl
  have hres' (v : SetVar) : SetStore.resolve Sample.renumbered.sets v = v := by
    rcases v with ⟨_ | _ | n⟩ <;> rfl
  refine ⟨hshape, (Heap.shape_eq_iff_exists_iso rfl ⟨by decide, fun v => ?_⟩ ⟨by decide, fun v => ?_⟩
    (by decide) (by decide)).1 hshape⟩
  · rw [hres, hres]
  · rw [hres', hres']

end HeapShape
