import HeapShape.Heap.Fold
import HeapShape.Proofs.Correspondence
import HeapShape.Proofs.HeapView

/-!
# Folds on heaps that correspond

Two heaps *correspond* under a relation of locations and a relation of set variables if their stores
do and if the same is known of related locations. A structure can be folded in one of them exactly
when it can be folded in the other, by searches that go through related goals in the same order.
Along the way new variables may become related, never new locations.

* `Heap.Matches`: the heaps that correspond;
* `Alike`: both of two computations return, or both fail with errors of one kind;
* `Folding.agree_visit`: related goals are met in the same way;
* `Folding.agree_absorb`: so are all goals of a search;
* `Heap.agree_check`: a structure is found whole in both heaps or in neither.
-/

namespace HeapShape

open List

/-! ### Related data -/

section

variable {ρ : Loc → Loc → Prop} {τ τ' : SetVar → SetVar → Prop}

/-- Values that correspond. -/
inductive Value.Rel (ρ : Loc → Loc → Prop) : Value → Value → Prop where
  | null : Value.Rel ρ .null .null
  | int : Value.Rel ρ .int .int
  | ptr {l m : Loc} (h : ρ l m) : Value.Rel ρ (.ptr l) (.ptr m)

/-- Parameters that correspond. -/
structure Params.Rel (ρ : Loc → Loc → Prop) (τ : SetVar → SetVar → Prop) (p q : Params) : Prop where
  ptrs : List.Forall₂ (Value.Rel ρ) p.ptrs q.ptrs
  sets : List.Forall₂ τ p.sets q.sets

/-- Ends of segments that correspond. -/
structure Hole.Rel (ρ : Loc → Loc → Prop) (τ : SetVar → SetVar → Prop) (o o' : Hole) : Prop where
  value : Value.Rel ρ o.value o'.value
  params : Params.Rel ρ τ o.params o'.params

/-- Facts that correspond. -/
inductive Fact.Rel (ρ : Loc → Loc → Prop) (τ : SetVar → SetVar → Prop) : Fact → Fact → Prop where
  | cell {c c' : Cell} (hty : c.ty = c'.ty) (hfields : List.Forall₂ (Value.Rel ρ) c.fields c'.fields) :
    Fact.Rel ρ τ (.cell c) (.cell c')
  | summary {s s' : Summary} (hpred : s.pred = s'.pred) (hty : s.ty = s'.ty)
      (hparams : Params.Rel ρ τ s.params s'.params) (hhole : Option.Rel (Hole.Rel ρ τ) s.hole s'.hole) :
    Fact.Rel ρ τ (.summary s) (.summary s')
  | member {v w : SetVar} (hset : τ v w) (ty : StructId) : Fact.Rel ρ τ (.member v ty) (.member w ty)

/-- States of locations that correspond. -/
inductive Arena.Slot.Rel (ρ : Loc → Loc → Prop) (τ : SetVar → SetVar → Prop) :
    Arena.Slot Fact → Arena.Slot Fact → Prop where
  | vacant : Arena.Slot.Rel ρ τ .vacant .vacant
  | tombstone : Arena.Slot.Rel ρ τ .tombstone .tombstone
  | occupied {f f' : Fact} (h : Fact.Rel ρ τ f f') : Arena.Slot.Rel ρ τ (.occupied f) (.occupied f')

/-- Goals that correspond. -/
inductive Folding.Goal.Rel (ρ : Loc → Loc → Prop) (τ : SetVar → SetVar → Prop) :
    Folding.Goal → Folding.Goal → Prop where
  | inst {v v' : Value} {p p' : Params} (hv : Value.Rel ρ v v') (pred : Predicate) (ty : StructId)
      (hp : Params.Rel ρ τ p p') : Folding.Goal.Rel ρ τ (.inst v pred ty p) (.inst v' pred ty p')
  | ref {v v' : Value} {s s' : Option SetVar} (hv : Value.Rel ρ v v') (hs : Option.Rel τ s s') :
    Folding.Goal.Rel ρ τ (.ref v s) (.ref v' s')
  | missing : Folding.Goal.Rel ρ τ .missing .missing

/-- Parameters below roots that correspond. -/
structure Step.Rel (ρ : Loc → Loc → Prop) (τ : SetVar → SetVar → Prop) (s s' : Step) : Prop where
  succ : Params.Rel ρ τ s.succ s'.succ
  nested : Params.Rel ρ τ s.nested s'.nested
  refs : Option.Rel τ s.refs s'.refs

theorem Params.Rel.none : Params.Rel ρ τ .none .none := ⟨.nil, .nil⟩

variable (hτ : ∀ v w, τ v w → τ' v w)
include hτ

theorem Params.Rel.mono {p q : Params} (h : Params.Rel ρ τ p q) : Params.Rel ρ τ' p q :=
  ⟨h.ptrs, h.sets.imp hτ⟩

omit hτ in
theorem Option.Rel.imp {α β : Type} {R S : α → β → Prop} (hRS : ∀ a b, R a b → S a b) {o : Option α}
    {o' : Option β} (h : Option.Rel R o o') : Option.Rel S o o' := by
  rcases h with h | _
  · exact .some (hRS _ _ h)
  · exact .none

omit hτ in
theorem Option.Rel.map {α β γ δ : Type} {R : α → β → Prop} {S : γ → δ → Prop} {f : α → γ} {g : β → δ}
    (hf : ∀ a b, R a b → S (f a) (g b)) {o : Option α} {o' : Option β} (h : Option.Rel R o o') :
    Option.Rel S (o.map f) (o'.map g) := by
  rcases h with h | _
  · exact .some (hf _ _ h)
  · exact .none

theorem Fact.Rel.mono {f g : Fact} (h : Fact.Rel ρ τ f g) : Fact.Rel ρ τ' f g := by
  rcases h with ⟨hty, hfields⟩ | ⟨hpred, hty, hparams, hhole⟩ | ⟨hset, ty⟩
  · exact .cell hty hfields
  · exact .summary hpred hty (hparams.mono hτ)
      (Option.Rel.imp (fun _ _ ho => ⟨ho.value, ho.params.mono hτ⟩) hhole)
  · exact .member (hτ _ _ hset) ty

theorem Arena.Slot.Rel.mono {s t : Arena.Slot Fact} (h : Arena.Slot.Rel ρ τ s t) :
    Arena.Slot.Rel ρ τ' s t := by
  rcases h with _ | _ | hf
  · exact .vacant
  · exact .tombstone
  · exact .occupied (hf.mono hτ)

theorem Folding.Goal.Rel.mono {g g' : Folding.Goal} (h : Folding.Goal.Rel ρ τ g g') :
    Folding.Goal.Rel ρ τ' g g' := by
  rcases h with ⟨hv, pred, ty, hp⟩ | ⟨hv, hs⟩ | _
  · exact .inst hv pred ty (hp.mono hτ)
  · exact .ref hv (Option.Rel.imp hτ hs)
  · exact .missing

end

/-! ### Outcomes -/

/-- Two computations both return, with related results, or both fail, with errors of one kind. -/
inductive Alike {ε κ α β : Type} (kind : ε → κ) (R : α → β → Prop) :
    Except ε α → Except ε β → Prop where
  | ok {a : α} {b : β} (h : R a b) : Alike kind R (.ok a) (.ok b)
  | error {e e' : ε} (h : kind e = kind e') : Alike kind R (.error e) (.error e')

namespace Alike

variable {ε κ α β γ δ : Type} {kind : ε → κ} {R : α → β → Prop} {Q : γ → δ → Prop} {x : Except ε α}
  {y : Except ε β}

theorem bind {f : α → Except ε γ} {g : β → Except ε δ} (h : Alike kind R x y)
    (hf : ∀ a b, R a b → Alike kind Q (f a) (g b)) : Alike kind Q (x >>= f) (y >>= g) := by
  rcases h with hab | he
  · exact hf _ _ hab
  · exact .error he

theorem map {f : α → γ} {g : β → δ} (h : Alike kind R x y) (hf : ∀ a b, R a b → Q (f a) (g b)) :
    Alike kind Q (x.map f) (y.map g) := by
  rcases h with hab | he
  · exact .ok (hf _ _ hab)
  · exact .error he

end Alike

/-- The class of a refusal. -/
def Refusal.label (r : Refusal) : String := r.defect.label

/-- Two searches both return, or both are refused for the same kind of reason. -/
abbrev Refusal.Agree {α β : Type} (R : α → β → Prop) : Except Refusal α → Except Refusal β → Prop :=
  Alike Refusal.label R

/-! ### Heaps -/

/-- Two heaps know the same of related locations and sets. -/
structure Heap.Matches (ρ : Loc → Loc → Prop) (τ : SetVar → SetVar → Prop) (h k : Heap) : Prop where
  sets : SetStore.Matches ρ τ h.sets k.sets
  slots : ∀ {l m}, ρ l m → Arena.Slot.Rel ρ τ (h.slot l) (k.slot m)

/-- A statement about a relation of variables holds for one that relates more of them. -/
def Grown (τ : SetVar → SetVar → Prop) (P : (SetVar → SetVar → Prop) → Prop) : Prop :=
  ∃ τ' : SetVar → SetVar → Prop, (∀ v w, τ v w → τ' v w) ∧ P τ'

variable {ρ : Loc → Loc → Prop} {τ : SetVar → SetVar → Prop} {s t : SetStore} {l m : Loc}

theorem Grown.here {P : (SetVar → SetVar → Prop) → Prop} (h : P τ) : Grown τ P :=
  ⟨τ, fun _ _ hv => hv, h⟩

namespace SetStore.Matches

theorem value_iff (hm : Matches ρ τ s t) {v v' w w' : Value} (hv : Value.Rel ρ v v')
    (hw : Value.Rel ρ w w') : v = w ↔ v' = w' := by
  rcases hv with _ | _ | hv <;> rcases hw with _ | _ | hw <;>
    simp only [reduceCtorEq, Value.ptr.injEq]
  exact hm.elem_iff hv hw

theorem values_iff (hm : Matches ρ τ s t) {l l' k k' : List Value}
    (hl : List.Forall₂ (Value.Rel ρ) l l') (hk : List.Forall₂ (Value.Rel ρ) k k') :
    l = k ↔ l' = k' := by
  induction hl generalizing k k' with
  | nil => rcases hk with _ | _ <;> simp
  | cons hv _ ih =>
    rcases hk with _ | ⟨hw, hk⟩
    · simp
    · rw [List.cons.injEq, List.cons.injEq, hm.value_iff hv hw, ih hk]

/-- An element is taken out of related sets in the same way. -/
theorem step (hm : Matches ρ τ s t) (pred : Predicate) (hl : ρ l m) {p q : Params}
    (hp : Params.Rel ρ τ p q) : Grown τ fun τ' => Matches ρ τ' (pred.step l p s).1 (pred.step m q t).1 ∧
      Option.Rel (Step.Rel ρ τ') (pred.step l p s).2 (pred.step m q t).2 := by
  obtain ⟨ptrs, sets⟩ := p
  obtain ⟨ptrs', sets'⟩ := q
  obtain ⟨-, hsets : List.Forall₂ τ sets sets'⟩ := hp
  rcases pred with _ | _ | _ | _
  · exact .here ⟨hm, .some ⟨.none, .none, .none⟩⟩
  · exact .here ⟨hm, .some ⟨⟨.cons (.ptr hl) .nil, .nil⟩, .none, .none⟩⟩
  · rcases hsets with _ | ⟨hnodes, _ | ⟨htargets, -⟩⟩
    · exact .here ⟨hm, .none⟩
    · exact .here ⟨hm, .none⟩
    · obtain ⟨τ', hτ, hm', hrest⟩ := hm.takeOut hnodes hl
      refine ⟨τ', hτ, hm', ?_⟩
      have htargets := hτ _ _ htargets
      exact Option.Rel.map (fun _ _ hr => ⟨⟨.nil, .cons hr (.cons htargets .nil)⟩,
        ⟨.nil, .cons htargets .nil⟩, .none⟩) hrest
  · rcases hsets with _ | ⟨htargets, -⟩
    · exact .here ⟨hm, .none⟩
    · exact .here ⟨hm, .some ⟨⟨.nil, .cons htargets .nil⟩, .none, .some htargets⟩⟩

/-- An instance is empty in the same cases. -/
theorem baseCase (hm : Matches ρ τ s t) (pred : Predicate) {p q : Params} (hp : Params.Rel ρ τ p q) :
    Option.Rel (Matches ρ τ) (pred.baseCase p s) (pred.baseCase q t) := by
  obtain ⟨ptrs, sets⟩ := p
  obtain ⟨ptrs', sets'⟩ := q
  obtain ⟨-, hsets : List.Forall₂ τ sets sets'⟩ := hp
  rcases pred with _ | _ | _ | _
  · exact .some hm
  · exact .some hm
  · rcases hsets with _ | ⟨hnodes, -⟩
    · exact .none
    · exact hm.setEmpty? hnodes
  · exact .some hm

end SetStore.Matches

namespace Folding

open Refusal

/-! ### Parameters and references -/

/-- Sets become aliases in the same cases. -/
theorem agree_unifySets (loc loc' : Loc) {as as' bs bs' : List SetVar} (hm : SetStore.Matches ρ τ s t)
    (ha : List.Forall₂ τ as as') (hb : List.Forall₂ τ bs bs') :
    Agree (SetStore.Matches ρ τ) (unifySets loc as bs s) (unifySets loc' as' bs' t) := by
  induction ha generalizing bs bs' s t with
  | nil => exact .ok hm
  | cons ha _ ih =>
    rcases hb with _ | ⟨hb, hbs⟩
    · exact .ok hm
    · rw [unifySets, unifySets]
      rcases hm.unify ha hb with ⟨hs, ht⟩ | ⟨s', t', hs, ht, hm'⟩
      · rw [hs, ht]
        exact .error rfl
      · rw [hs, ht]
        exact ih hm' hbs

variable {p p' : Params} {c c' : Cell}

theorem agree_matchParams (loc loc' : Loc) {q q' : Params} (hm : SetStore.Matches ρ τ s t)
    (hp : Params.Rel ρ τ p p') (hq : Params.Rel ρ τ q q') :
    Agree (SetStore.Matches ρ τ) (matchParams loc p q s) (matchParams loc' p' q' t) := by
  have hptrs := hm.values_iff hp.ptrs hq.ptrs
  rw [matchParams, matchParams, hp.sets.length_eq, hq.sets.length_eq]
  by_cases he : p.ptrs = q.ptrs
  · rw [if_neg (not_not_intro he), if_neg (not_not_intro (hptrs.1 he))]
    split
    · exact .error rfl
    · exact agree_unifySets loc loc' hm hp.sets hq.sets
  · rw [if_pos he, if_pos fun he' => he (hptrs.2 he')]
    exact .error rfl

/-- Locations are in related sets in the same cases. -/
theorem both_inside {h k : Heap} (hm : Heap.Matches ρ τ h k) (hl : ρ l m) {v w : SetVar} (hv : τ v w) :
    SetStore.Both ρ τ (inside h l v) (inside k m w) := by
  have hslot := hm.slots hl
  rw [inside, inside]
  rcases hs : h.slot l with _ | f | _ <;> rcases hs' : k.slot m with _ | f' | _ <;>
    rw [hs, hs'] at hslot
  case vacant.vacant => exact .inl ⟨rfl, rfl⟩
  case tombstone.tombstone => exact .inl ⟨rfl, rfl⟩
  case occupied.occupied =>
    have hcontains := hm.sets.contains hv hl
    rcases hslot with _ | _ | ⟨hty, hfields⟩ | ⟨hpred, hty, hparams, hhole⟩ | ⟨hset, ty⟩
    · dsimp only
      rw [hcontains]
      split
      · exact .inr ⟨_, _, rfl, rfl, hm.sets⟩
      · exact .inl ⟨rfl, rfl⟩
    · dsimp only
      rw [hcontains]
      split
      · exact .inr ⟨_, _, rfl, rfl, hm.sets⟩
      · exact .inl ⟨rfl, rfl⟩
    · dsimp only
      rw [hm.sets.isSubset hset hv]
      split
      · exact .inr ⟨_, _, rfl, rfl, hm.sets⟩
      · exact hm.sets.unify hset hv
  all_goals cases hslot

theorem agree_checkRef {h k : Heap} (hm : Heap.Matches ρ τ h k) {v v' : Value} {o o' : Option SetVar}
    (hv : Value.Rel ρ v v') (ho : Option.Rel τ o o') :
    Agree (SetStore.Matches ρ τ) (checkRef h v o) (checkRef k v' o') := by
  rcases hv with _ | _ | hl
  · exact .ok hm.sets
  · rcases ho with _ | _ <;> exact .error rfl
  · rcases ho with hset | _
    · simp only [checkRef]
      rcases both_inside hm hl hset with ⟨hs, ht⟩ | ⟨s', t', hs, ht, hm'⟩
      · rw [hs, ht]
        exact .error rfl
      · rw [hs, ht]
        exact .ok hm'
    · exact .error rfl

/-! ### Records -/

theorem agree_checkBack (loc loc' : Loc) (layout : Layout) (hm : SetStore.Matches ρ τ s t)
    (hc : List.Forall₂ (Value.Rel ρ) c.fields c'.fields) (hp : Params.Rel ρ τ p p') :
    Agree (fun _ _ => True) (checkBack loc c layout p) (checkBack loc' c' layout p') := by
  rw [checkBack, checkBack]
  split
  · exact .ok trivial
  · rename_i i _
    have hfield := forall₂_getElem? hc i
    have hhead {l l' : List Value} (h : List.Forall₂ (Value.Rel ρ) l l') :
        Value.Rel ρ (l.headD .null) (l'.headD .null) := by
      rcases h with _ | ⟨hv, -⟩
      · exact .null
      · exact hv
    generalize c.fields[i]? = o at hfield
    generalize c'.fields[i]? = o' at hfield
    rcases hfield with hval | _
    · have hiff := hm.value_iff hval (hhead hp.ptrs)
      dsimp only
      split
      · rename_i he
        rw [if_pos (hiff.1 he)]
        exact .ok trivial
      · rename_i he
        rw [if_neg fun he' => he (hiff.2 he')]
        exact .error rfl
    · exact .error rfl

theorem rel_ofField (hc : List.Forall₂ (Value.Rel ρ) c.fields c'.fields) (i : Nat)
    {f f' : Value → Goal} (hf : ∀ v v', Value.Rel ρ v v' → Goal.Rel ρ τ (f v) (f' v')) :
    Goal.Rel ρ τ (.ofField c i f) (.ofField c' i f') := by
  have hfield := forall₂_getElem? hc i
  rw [Goal.ofField, Goal.ofField]
  generalize c.fields[i]? = o at hfield
  generalize c'.fields[i]? = o' at hfield
  rcases hfield with hval | _
  · exact hf _ _ hval
  · exact .missing

theorem rel_cellGoals (hty : c.ty = c'.ty) (hc : List.Forall₂ (Value.Rel ρ) c.fields c'.fields)
    (pred : Predicate) (layout : Layout) {step step' : Step} (hstep : Step.Rel ρ τ step step') :
    List.Forall₂ (Goal.Rel ρ τ) (cellGoals c pred layout step) (cellGoals c' pred layout step') := by
  have hmap {α : Type} {l : List α} {f g : α → Goal} (h : ∀ a, Goal.Rel ρ τ (f a) (g a)) :
      List.Forall₂ (Goal.Rel ρ τ) (l.map f) (l.map g) := by
    induction l with
    | nil => exact .nil
    | cons a l ih => exact .cons (h a) ih
  refine rel_append (rel_append (hmap fun i => ?_) (hmap fun e => ?_)) (hmap fun e => ?_)
  · exact rel_ofField hc i fun v v' hv => hty ▸ .inst hv pred c.ty hstep.succ
  · exact rel_ofField hc e.1 fun v v' hv => .inst hv e.2.1 e.2.2 hstep.nested
  · exact rel_ofField hc e.1 fun v v' hv => .ref hv hstep.refs

/-- What a record or a summary gives to the search. -/
def Met (ρ : Loc → Loc → Prop) (τ : SetVar → SetVar → Prop) (r r' : SetStore × List Goal) : Prop :=
  Grown τ fun τ' => SetStore.Matches ρ τ' r.1 r'.1 ∧ List.Forall₂ (Goal.Rel ρ τ') r.2 r'.2

theorem agree_meetCell (structs : Structs) (hm : SetStore.Matches ρ τ s t) (hl : ρ l m)
    (hty : c.ty = c'.ty) (hc : List.Forall₂ (Value.Rel ρ) c.fields c'.fields) (pred : Predicate)
    (ty : StructId) (hp : Params.Rel ρ τ p p') :
    Agree (Met ρ τ) (meetCell structs s l c pred ty p) (meetCell structs t m c' pred ty p') := by
  rw [meetCell, meetCell, ← hty]
  split
  · exact .error rfl
  · split
    · exact .error rfl
    · rename_i layout _
      refine (agree_checkBack l m layout hm hc hp).bind fun _ _ _ => ?_
      obtain ⟨τ', hτ, hm', hstep⟩ := hm.step pred hl hp
      generalize pred.step l p s = r at hm' hstep ⊢
      generalize pred.step m p' t = r' at hm' hstep ⊢
      obtain ⟨s', o⟩ := r
      obtain ⟨t', o'⟩ := r'
      dsimp only at hstep
      rcases hstep with hstep | _
      · exact .ok ⟨τ', hτ, hm', rel_cellGoals hty hc pred layout hstep⟩
      · exact .error rfl

theorem agree_meetSummary (hm : SetStore.Matches ρ τ s t) (loc loc' : Loc) {u u' : Summary}
    (hpred : u.pred = u'.pred) (hty : u.ty = u'.ty) (hparams : Params.Rel ρ τ u.params u'.params)
    (hhole : Option.Rel (Hole.Rel ρ τ) u.hole u'.hole) (pred : Predicate) (ty : StructId)
    (hp : Params.Rel ρ τ p p') :
    Agree (Met ρ τ) (meetSummary s loc u pred ty p) (meetSummary t loc' u' pred ty p') := by
  rw [meetSummary, meetSummary, ← hpred, ← hty]
  split
  · exact .error rfl
  · have hgoals {o o' : Option Hole} (ho : Option.Rel (Hole.Rel ρ τ) o o') :
        List.Forall₂ (Goal.Rel ρ τ) (o.toList.map fun o => .inst o.value pred ty o.params)
          (o'.toList.map fun o => .inst o.value pred ty o.params) := by
      rcases ho with ho | _
      · exact .cons (.inst ho.value pred ty ho.params) .nil
      · exact .nil
    exact (agree_matchParams loc loc' hm hparams hp).bind fun s' t' hm' =>
      .ok (.here ⟨hm', hgoals hhole⟩)

/-! ### The search -/

/-- Two searches for a whole structure that are at the same point. -/
structure Matches (ρ : Loc → Loc → Prop) (τ : SetVar → SetVar → Prop) (st st' : Folding) : Prop where
  heap : Heap.Matches ρ τ st.heap st'.heap
  hole : st.hole = none ∧ st'.hole = none
  visited : ∀ {l m}, ρ l m → (l ∈ st.visited ↔ m ∈ st'.visited)

/-- Two searches are at the same point, with related goals. -/
def Onward (ρ : Loc → Loc → Prop) (τ : SetVar → SetVar → Prop) (r r' : Folding × List Goal) : Prop :=
  Grown τ fun τ' => Matches ρ τ' r.1 r'.1 ∧ List.Forall₂ (Goal.Rel ρ τ') r.2 r'.2

variable {cfg cfg' : Setting} {st st' : Folding}

/-- Related locations are taken, with the constraints and goals that they give. -/
theorem Matches.take (hm : Matches ρ τ st st') (hl : ρ l m) {r r' : SetStore × List Goal}
    (hr : Met ρ τ r r') : Onward ρ τ
      ({ st with heap := { st.heap.write l .vacant with sets := r.1 }, visited := l :: st.visited }, r.2)
      ({ st' with
        heap := { st'.heap.write m .vacant with sets := r'.1 }, visited := m :: st'.visited }, r'.2) := by
  obtain ⟨τ', hτ, hsets, hgoals⟩ := hr
  refine ⟨τ', hτ, ⟨⟨hsets, fun {x y} hxy => ?_⟩, hm.hole, fun {x y} hxy => ?_⟩, hgoals⟩
  · show Arena.Slot.Rel ρ τ' ((st.heap.write l .vacant).slot x) ((st'.heap.write m .vacant).slot y)
    rw [Heap.slot_write_vacant, Heap.slot_write_vacant]
    have hiff := hsets.elem_iff hxy hl
    by_cases he : x = l
    · rw [if_pos he, if_pos (hiff.1 he)]
      exact .vacant
    · rw [if_neg he, if_neg fun he' => he (hiff.2 he')]
      exact (hm.heap.slots hxy).mono hτ
  · rw [mem_cons, mem_cons, hsets.elem_iff hxy hl, hm.visited hxy]

theorem agree_enter (hcfg : cfg.structs = cfg'.structs) (hm : Matches ρ τ st st') (hl : ρ l m)
    (pred : Predicate) (ty : StructId) (hp : Params.Rel ρ τ p p') :
    Agree (Onward ρ τ) (st.enter cfg l pred ty p) (st'.enter cfg' m pred ty p') := by
  have hslot := hm.heap.slots hl
  rw [enter, enter]
  by_cases hvis : l ∈ st.visited
  · rw [if_pos hvis, if_pos ((hm.visited hl).1 hvis)]
    exact .error rfl
  · rw [if_neg hvis, if_neg fun hvis' => hvis ((hm.visited hl).2 hvis')]
    dsimp only
    generalize st.heap.slot l = a at hslot
    generalize st'.heap.slot m = a' at hslot
    rcases hslot with _ | _ | ⟨hty, hfields⟩ | ⟨hpred, hty, hparams, hhole⟩ | ⟨hset, ty'⟩
    · exact .error rfl
    · exact .error rfl
    · rw [← hcfg]
      refine (agree_meetCell cfg.structs hm.heap.sets hl hty hfields pred ty hp).map ?_
      exact fun r r' hr => hm.take hl hr
    · refine (agree_meetSummary hm.heap.sets l m hpred hty hparams hhole pred ty hp).map ?_
      exact fun r r' hr => hm.take hl hr
    · exact .error rfl

/-- Related goals are met in the same way. -/
theorem agree_visit (hcfg : cfg.structs = cfg'.structs) (hstops : cfg.stops = [])
    (hstops' : cfg'.stops = []) (hm : Matches ρ τ st st') {g g' : Goal} (hg : Goal.Rel ρ τ g g') :
    Agree (Onward ρ τ) (st.visit cfg g) (st'.visit cfg' g') := by
  rcases hg with ⟨hv, pred, ty, hp⟩ | ⟨hv, hs⟩ | _
  · rcases hv with _ | _ | hl
    · have hbase := hm.heap.sets.baseCase pred hp
      simp only [visit]
      generalize pred.baseCase _ st.heap.sets = o at hbase
      generalize pred.baseCase _ st'.heap.sets = o' at hbase
      rcases hbase with hsets | _
      · exact .ok (.here ⟨⟨⟨hsets, hm.heap.slots⟩, hm.hole, hm.visited⟩, .nil⟩)
      · exact .error rfl
    · exact .error rfl
    · simp only [visit, hstops, hstops', not_mem_nil, and_false, if_false]
      exact agree_enter hcfg hm hl pred ty hp
  · refine (agree_checkRef hm.heap hv hs).map fun s t hsets => ?_
    exact .here ⟨⟨⟨hsets, hm.heap.slots⟩, hm.hole, hm.visited⟩, .nil⟩
  · exact .error rfl

/-- All goals are met in the same way. -/
theorem agree_absorb (hcfg : cfg.structs = cfg'.structs) (hstops : cfg.stops = [])
    (hstops' : cfg'.stops = []) {goals goals' : List Goal} (hm : Matches ρ τ st st')
    (hg : List.Forall₂ (Goal.Rel ρ τ) goals goals') :
    Agree (fun st st' => st.hole = none ∧ st'.hole = none) (st.absorb cfg goals)
      (st'.absorb cfg' goals') := by
  induction st, goals using absorb.induct cfg generalizing τ st' goals' with
  | case1 st =>
    rcases hg with _ | _
    rw [absorb, absorb]
    exact .ok hm.hole
  | case2 st goal goals e hv =>
    rcases hg with _ | ⟨hgoal, hgoals⟩
    have hvisit := agree_visit hcfg hstops hstops' hm hgoal
    rw [hv] at hvisit
    generalize hv' : st'.visit cfg' _ = y at hvisit
    rw [absorb, hv, absorb, hv']
    rcases hvisit with _ | he
    exact .error he
  | case3 st goal goals st₁ new hv ih =>
    rcases hg with _ | ⟨hgoal, hgoals⟩
    have hvisit := agree_visit hcfg hstops hstops' hm hgoal
    rw [hv] at hvisit
    generalize hv' : st'.visit cfg' _ = y at hvisit
    rcases hvisit with ⟨τ', hτ, hm', hnew⟩ | _
    rw [absorb, hv, absorb, hv']
    exact ih hm' (rel_append hnew (hgoals.imp fun _ _ hg => hg.mono hτ))

end Folding

namespace Heap

open Folding Refusal

variable {h k : Heap}

theorem agree_rootStruct (hm : Heap.Matches ρ τ h k) (hl : ρ l m) :
    Agree (· = ·) (h.rootStruct l) (k.rootStruct m) := by
  have hslot := hm.slots hl
  rw [rootStruct, rootStruct]
  generalize h.slot l = a at hslot
  generalize k.slot m = a' at hslot
  rcases hslot with _ | _ | ⟨hty, -⟩ | ⟨-, hty, -, -⟩ | ⟨-, -⟩
  · exact .error rfl
  · exact .error rfl
  · exact .ok hty
  · exact .ok hty
  · exact .error rfl

/-- The parameters that related roots show, with the stores that they need. -/
def Shown (ρ : Loc → Loc → Prop) (τ : SetVar → SetVar → Prop) (r r' : Params × SetStore) : Prop :=
  Grown τ fun τ' => Params.Rel ρ τ' r.1 r'.1 ∧ SetStore.Matches ρ τ' r.2 r'.2

variable (hm : Heap.Matches ρ τ h k) {p p' : Option Params}
include hm

theorem rel_fact? (hl : ρ l m) : Option.Rel (Fact.Rel ρ τ) (h.fact? l) (k.fact? m) := by
  have hslot := hm.slots hl
  rw [fact?, fact?]
  generalize h.slot l = a at hslot
  generalize k.slot m = a' at hslot
  rcases hslot with _ | _ | hf
  · exact .none
  · exact .none
  · exact .some hf

theorem rel_summary? (hl : ρ l m) :
    Option.Rel (fun u u' => Fact.Rel ρ τ (.summary u) (.summary u')) (h.summary? l) (k.summary? m) := by
  have hfact := rel_fact? hm hl
  rw [summary?, summary?]
  generalize h.fact? l = o at hfact
  generalize k.fact? m = o' at hfact
  rcases hfact with (⟨hty, hfields⟩ | ⟨hpred, hty, hparams, hhole⟩ | ⟨hset, ty⟩) | _
  · exact .none
  · exact .some (.summary hpred hty hparams hhole)
  · exact .none
  · exact .none

/-- The back pointers of related records correspond. -/
theorem rel_back (hl : ρ l m) (i : Nat) :
    Option.Rel (Value.Rel ρ) ((h.cell? l).bind fun c => c.fields[i]?)
      ((k.cell? m).bind fun c => c.fields[i]?) := by
  have hfact := rel_fact? hm hl
  rw [cell?, cell?]
  generalize h.fact? l = o at hfact
  generalize k.fact? m = o' at hfact
  rcases hfact with (⟨hty, hfields⟩ | ⟨hpred, hty, hparams, hhole⟩ | ⟨hset, ty⟩) | _
  · exact forall₂_getElem? hfields i
  · exact .none
  · exact .none
  · exact .none

/-- Related roots show related parameters. -/
theorem agree_inferParams (honce : k.sets.SplitsOnce) (hl : ρ l m) (pred : Predicate) (layout : Layout) :
    Agree (Shown ρ τ) (h.inferParams l pred layout) (k.inferParams m pred layout) := by
  have hsum := rel_summary? hm hl
  unfold inferParams
  generalize h.summary? l = o at hsum
  generalize k.summary? m = o' at hsum
  rcases hsum with hu | _
  · rcases hu with _ | ⟨hpred, -, hparams, -⟩ | _
    dsimp only
    rw [← hpred]
    split
    · exact .ok (.here ⟨hparams, hm.sets⟩)
    · exact .error rfl
  · rcases pred with _ | _ | _ | _
    · exact .ok (.here ⟨.none, hm.sets⟩)
    · dsimp only
      rcases layout.back with _ | i
      · exact .error rfl
      · have hback := rel_back hm hl i
        simp only [Option.bind_some]
        generalize ((h.cell? l).bind fun c => c.fields[i]?) = b at hback
        generalize ((k.cell? m).bind fun c => c.fields[i]?) = b' at hback
        rcases hback with hv | _
        · exact .ok (.here ⟨⟨.cons hv .nil, .nil⟩, hm.sets⟩)
        · exact .error rfl
    · have hwhole := hm.sets.wholeOf? honce hl
      dsimp only
      generalize h.sets.wholeOf? l = b at hwhole
      generalize k.sets.wholeOf? m = b' at hwhole
      rcases hwhole with hv | _
      · exact .ok ⟨_, fun _ _ => .inl, ⟨.nil, .cons (.inl hv) (.cons (.inr ⟨rfl, rfl⟩) .nil)⟩,
          hm.sets.fresh⟩
      · exact .ok ⟨_, fun _ _ hvw => .inl (.inl hvw),
          ⟨.nil, .cons (.inl (.inr ⟨rfl, rfl⟩)) (.cons (.inr ⟨rfl, rfl⟩) .nil)⟩, hm.sets.fresh.fresh⟩
    · exact .ok ⟨_, fun _ _ => .inl, ⟨.nil, .cons (.inr ⟨rfl, rfl⟩) .nil⟩, hm.sets.fresh⟩

theorem agree_chooseParams (honce : k.sets.SplitsOnce) (hl : ρ l m) (pred : Predicate)
    (layout : Layout) (hp : Option.Rel (Params.Rel ρ τ) p p') :
    Agree (Shown ρ τ) (h.chooseParams l pred layout p) (k.chooseParams m pred layout p') := by
  rcases hp with hp | _
  · exact .ok (.here ⟨hp, hm.sets⟩)
  · exact agree_inferParams hm honce hl pred layout

omit hm in
theorem agree_checkArity (pred : Predicate) (loc loc' : Option Loc) {p p' : Option Params}
    (hp : Option.Rel (Params.Rel ρ τ) p p') :
    Agree (fun _ _ => True) (checkArity pred p loc) (checkArity pred p' loc') := by
  rcases hp with hp | _
  · simp only [checkArity, hp.ptrs.length_eq, hp.sets.length_eq]
    split
    · exact .ok trivial
    · exact .error rfl
  · exact .ok trivial

/-- A whole structure is taken out of both heaps or of neither. -/
theorem agree_gather (honce : k.sets.SplitsOnce) (structs : Structs) (hl : ρ l m) (pred : Predicate)
    (hp : Option.Rel (Params.Rel ρ τ) p p') :
    Agree (fun r r' => r.1.hole = none ∧ r'.1.hole = none) (h.gather structs l pred p [])
      (k.gather structs m pred p' []) := by
  rw [gather, gather]
  refine (agree_checkArity pred (some l) (some m) hp).bind fun _ _ _ => ?_
  refine (agree_rootStruct hm hl).bind fun ty ty' hty => ?_
  subst hty
  split
  · exact .error rfl
  · rename_i layout _
    refine (agree_chooseParams hm honce hl pred layout hp).bind ?_
    rintro ⟨q, s⟩ ⟨q', t⟩ ⟨τ', hτ, hq, hsets⟩
    have hstart : Folding.Matches ρ τ' ⟨{ h with sets := s }, none, []⟩
        ⟨{ k with sets := t }, none, []⟩ :=
      ⟨⟨hsets, fun hxy => (hm.slots hxy).mono hτ⟩, ⟨rfl, rfl⟩,
        fun _ => iff_of_false not_mem_nil not_mem_nil⟩
    have hcfg : (⟨structs, [], l, pred⟩ : Setting).structs =
        (⟨structs, [], m, pred⟩ : Setting).structs := rfl
    refine (agree_enter hcfg hstart hl pred ty hq).bind ?_
    rintro ⟨st, goals⟩ ⟨st', goals'⟩ ⟨τ'', -, hst, hgoals⟩
    refine (agree_absorb hcfg rfl rfl hst hgoals).bind fun st st' hhole => .ok ?_
    rw [hhole.1, hhole.2]
    exact ⟨rfl, rfl⟩

/-- A structure is found whole in both heaps or in neither. -/
theorem agree_check (honce : k.sets.SplitsOnce) (structs : Structs) {v v' : Value}
    (hv : Value.Rel ρ v v') (pred : Predicate) (hp : Option.Rel (Params.Rel ρ τ) p p') :
    Agree (fun _ _ => True) (h.check structs v pred p) (k.check structs v' pred p') := by
  have hfold : Agree (fun r r' => r.2 = none ∧ r'.2 = none) (h.fold structs v pred p [])
      (k.fold structs v' pred p' []) := by
    rcases hv with _ | _ | hl
    · refine (agree_checkArity pred none none hp).bind fun _ _ _ => ?_
      rcases hp with hp | _
      · have hbase := hm.sets.baseCase pred hp
        dsimp only
        generalize pred.baseCase _ h.sets = o at hbase
        generalize pred.baseCase _ k.sets = o' at hbase
        rcases hbase with _ | _
        · exact .ok ⟨rfl, rfl⟩
        · exact .error rfl
      · exact .ok ⟨rfl, rfl⟩
    · exact (agree_checkArity pred none none hp).bind fun _ _ _ => .error rfl
    · exact (agree_gather hm honce structs hl pred hp).bind fun r r' hr => .ok hr
  rw [check, check]
  refine hfold.bind ?_
  rintro ⟨a, o⟩ ⟨b, o'⟩ ⟨rfl, rfl⟩
  exact .ok trivial

end Heap

end HeapShape
