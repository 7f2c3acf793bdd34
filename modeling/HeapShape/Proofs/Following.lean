import HeapShape.Proofs.Clearing
import HeapShape.Proofs.Parallel

/-!
# Searches that follow each other

Two searches go through the same heap with different sets. As long as the sets allow it, one of them
*follows* the other: it meets the same values in the same order, and takes the same facts. So it can
only fail where the other does not because of sets.

What is known about the two stores of constraints is left open here. It is a relation of stores,
together with a relation of their variables that may grow on the way, which has to be kept by the four
things that a search does with sets.

* `Refusal.isAboutSets`: the reasons that only one of the two searches may have to fail;
* `Folding.Meets`: the goals that a search meets, each with the state in which it is met;
* `Folding.Tracks`: what has to be known about a relation of stores;
* `Folding.Paired`: two searches that are at the same point;
* `Folding.follows_visit`, `Folding.follows_absorb`: one search follows the other.
-/

namespace HeapShape

open List

/-- The sets of a structure are not those that they should be. -/
def Mismatch.Cause.isAboutSets : Mismatch.Cause → Bool
  | .setDiffers .. | .outside _ | .nodesLeft _ | .nodesEmpty _ => true
  | _ => false

/-- A search was refused because of sets, or because a set was not given out. -/
def Refusal.isAboutSets : Refusal → Bool
  | .mismatch m => m.cause.isAboutSets
  | .misuse _ => true

/-- If the second of two computations returns, so does the first, with a related result. If it is
    `lax`, the first may also be refused because of sets. -/
inductive Refusal.Follows {α β : Type} (lax : Prop) (R : α → β → Prop) :
    Except Refusal α → Except Refusal β → Prop where
  | ok {a : α} {b : β} (h : R a b) : Follows lax R (.ok a) (.ok b)
  | refused {e : Refusal} {y : Except Refusal β} (hl : lax) (he : e.isAboutSets = true) :
    Follows lax R (.error e) y
  | failed {x : Except Refusal α} {e : Refusal} : Follows lax R x (.error e)

namespace Refusal.Follows

variable {α β γ δ : Type} {lax : Prop} {R : α → β → Prop} {Q : γ → δ → Prop} {x : Except Refusal α}
  {y : Except Refusal β}

theorem bind {f : α → Except Refusal γ} {g : β → Except Refusal δ} (h : Follows lax R x y)
    (hf : ∀ a b, R a b → Follows lax Q (f a) (g b)) : Follows lax Q (x >>= f) (y >>= g) := by
  rcases h with hab | ⟨hl, he⟩ | _
  · exact hf _ _ hab
  · exact .refused hl he
  · exact .failed

theorem map {f : α → γ} {g : β → δ} (h : Follows lax R x y) (hf : ∀ a b, R a b → Q (f a) (g b)) :
    Follows lax Q (x.map f) (y.map g) := by
  rcases h with hab | ⟨hl, he⟩ | _
  · exact .ok (hf _ _ hab)
  · exact .refused hl he
  · exact .failed

theorem mono {R' : α → β → Prop} (h : Follows lax R x y) (hR : ∀ a b, R a b → R' a b) :
    Follows lax R' x y := by
  rcases h with hab | ⟨hl, he⟩ | _
  · exact .ok (hR _ _ hab)
  · exact .refused hl he
  · exact .failed

end Refusal.Follows

/-! ### Equal locations -/

theorem Value.Rel.eq {v w : Value} (h : Value.Rel Eq v w) : v = w := by
  rcases h with _ | _ | rfl <;> rfl

theorem Value.Rel.refl (v : Value) : Value.Rel Eq v v := by
  cases v with
  | null => exact .null
  | int => exact .int
  | ptr l => exact .ptr rfl

theorem forall₂_value_eq {l l' : List Value} (h : List.Forall₂ (Value.Rel Eq) l l') : l = l' := by
  induction h with
  | nil => rfl
  | cons hv _ ih => rw [hv.eq, ih]

theorem forall₂_value_refl (l : List Value) : List.Forall₂ (Value.Rel Eq) l l :=
  forall₂_same.2 fun v _ => .refl v

theorem Params.Rel.refl {τ : SetVar → SetVar → Prop} {p : Params} (h : ∀ v ∈ p.sets, τ v v) :
    Params.Rel Eq τ p p :=
  ⟨forall₂_value_refl _, forall₂_same.2 h⟩

namespace Folding

open Refusal

/-! ### What is asked of the stores -/

/-- A search from some goals comes to meet a goal, in the state that it has then. -/
inductive Meets (cfg : Setting) : Folding → List Goal → Folding → Goal → Prop where
  | here {st : Folding} {goal : Goal} {goals : List Goal} : Meets cfg st (goal :: goals) st goal
  | later {st st₁ st' : Folding} {goal goal' : Goal} {goals new : List Goal}
      (hv : st.visit cfg goal = .ok (st₁, new)) (h : Meets cfg st₁ (new ++ goals) st' goal') :
    Meets cfg st (goal :: goals) st' goal'

/-- The variables that two facts about a location share are related to themselves. -/
def FactsRel (τ : SetVar → SetVar → Prop) (h : Heap) : Prop :=
  ∀ k f, h.slot k = .occupied f → ∀ v ∈ f.sets, τ v v

/-- A relation of stores, for a relation of their variables, that is kept by what a search does with
    sets when it meets a goal of which `pre` holds. If it is `lax`, it may be that the first store
    refuses what the second one allows. -/
structure Tracks (lax : Prop) (pre : Folding → Goal → Prop)
    (I : (SetVar → SetVar → Prop) → SetStore → SetStore → Prop) : Prop where
  unify : ∀ {τ : SetVar → SetVar → Prop} {s t t' : SetStore} {a b a' b' : SetVar}, I τ s t → τ a a' →
    τ b b' → t.unify a' b' = .ok (some t') →
      (∃ s', s.unify a b = .ok (some s') ∧ I τ s' t') ∨ lax ∧ ∀ s', s.unify a b ≠ .ok (some s')
  inside : ∀ {τ : SetVar → SetVar → Prop} {h : Heap} {t' : SetStore} {st : Folding} {l : Loc}
    {v w : SetVar}, I τ h.sets st.heap.sets → h.arena = st.heap.arena → FactsRel τ st.heap → τ v w →
    pre st (.ref (.ptr l) (some w)) → inside st.heap l w = .ok (some t') →
      (∃ s', inside h l v = .ok (some s') ∧ I τ s' t') ∨ lax ∧ ∀ s', inside h l v ≠ .ok (some s')
  setEmpty? : ∀ {τ : SetVar → SetVar → Prop} {s t' : SetStore} {st : Folding} {v w : SetVar}
    {ptrs : List Value} {sets : List SetVar} {ty : StructId}, I τ s st.heap.sets → τ v w →
    pre st (.inst .null .graph ty ⟨ptrs, w :: sets⟩) → st.heap.sets.setEmpty? w = some t' →
      (∃ s', s.setEmpty? v = some s' ∧ I τ s' t') ∨ lax ∧ s.setEmpty? v = none
  takeOut : ∀ {τ : SetVar → SetVar → Prop} {s t' : SetStore} {st : Folding} {l : Loc} {v w r' : SetVar}
    {ptrs : List Value} {sets : List SetVar} {ty : StructId}, I τ s st.heap.sets → τ v w →
    l ∉ st.visited → pre st (.inst (.ptr l) .graph ty ⟨ptrs, w :: sets⟩) →
    st.heap.sets.takeOut w l = (t', some r') →
      (∃ s' r, s.takeOut v l = (s', some r) ∧ Grown τ fun τ' => I τ' s' t' ∧ τ' r r') ∨
        lax ∧ (s.takeOut v l).2 = none

/-- Two searches are at the same point. -/
structure Paired (I : (SetVar → SetVar → Prop) → SetStore → SetStore → Prop) (τ : SetVar → SetVar → Prop)
    (st st' : Folding) : Prop where
  arena : st.heap.arena = st'.heap.arena
  visited : st.visited = st'.visited
  hole : st.hole = none ↔ st'.hole = none
  sets : I τ st.heap.sets st'.heap.sets
  facts : FactsRel τ st'.heap

variable {lax : Prop} {pre : Folding → Goal → Prop}
  {I : (SetVar → SetVar → Prop) → SetStore → SetStore → Prop} {τ : SetVar → SetVar → Prop}
  {s t : SetStore} {cfg : Setting} {st st' : Folding} {loc : Loc} {pred : Predicate} {ty : StructId}
  {p p' : Params}

theorem Paired.slot (hp : Paired I τ st st') (k : Loc) : st.heap.slot k = st'.heap.slot k := by
  rw [Heap.slot, Heap.slot, hp.arena]

/-! ### Parameters and references -/

theorem follows_unifySets (ht : Tracks lax pre I) (loc : Loc) {as as' bs bs' : List SetVar}
    (hI : I τ s t) (ha : List.Forall₂ τ as as') (hb : List.Forall₂ τ bs bs') :
    Follows lax (I τ) (unifySets loc as bs s) (unifySets loc as' bs' t) := by
  induction ha generalizing bs bs' s t with
  | nil => exact .ok hI
  | @cons a a' as as' ha _ ih =>
    rcases hb with _ | ⟨hb, hbs⟩
    · exact .ok hI
    · rename_i b b' bs bs'
      rw [unifySets, unifySets]
      rcases hu' : t.unify a' b' with m | _ | t'
      · exact .failed
      · exact .failed
      · rcases ht.unify hI ha hb hu' with ⟨s', hu, hI'⟩ | ⟨hl, hu⟩
        · rw [hu]
          exact ih hI' hbs
        · rcases hs : s.unify a b with m | _ | s'
          · exact .refused hl rfl
          · exact .refused hl rfl
          · exact absurd hs (hu s')

theorem follows_matchParams (ht : Tracks lax pre I) (loc : Loc) {q : Params} (hI : I τ s t)
    (hq : ∀ v ∈ q.sets, τ v v) (hp : Params.Rel Eq τ p p') :
    Follows lax (I τ) (matchParams loc q p s) (matchParams loc q p' t) := by
  rw [matchParams, matchParams, forall₂_value_eq hp.ptrs, hp.sets.length_eq]
  split
  · exact .failed
  · split
    · exact .failed
    · exact follows_unifySets ht loc hI (forall₂_same.2 hq) hp.sets

theorem follows_checkRef (ht : Tracks lax pre I) (hp : Paired I τ st st') {v v' : Value}
    {o o' : Option SetVar} (hv : Value.Rel Eq v v') (ho : Option.Rel τ o o')
    (hpre : pre st' (.ref v' o')) :
    Follows lax (I τ) (checkRef st.heap v o) (checkRef st'.heap v' o') := by
  rcases hv with _ | _ | rfl
  · exact .ok hp.sets
  · rcases ho with _ | _ <;> exact .failed
  · rename_i l
    rcases ho with hset | _
    · rename_i set set'
      simp only [checkRef]
      rcases hin' : inside st'.heap l set' with m | _ | t'
      · exact .failed
      · exact .failed
      · rcases ht.inside hp.sets hp.arena hp.facts hset hpre hin' with ⟨s', hin, hI⟩ | ⟨hl, hin⟩
        · rw [hin]
          exact .ok hI
        · rcases hs : inside st.heap l set with m | _ | s'
          · exact .refused hl rfl
          · exact .refused hl rfl
          · exact absurd hs (hin s')
    · exact .failed

/-! ### Facts -/

/-- What a fact gives to both searches. -/
def MetAs (J : (SetVar → SetVar → Prop) → SetStore → SetStore → Prop) (r r' : SetStore × List Goal) :
    Prop :=
  ∃ τ, J τ r.1 r'.1 ∧ List.Forall₂ (Goal.Rel Eq τ) r.2 r'.2

/-- A record meets both goals, if both searches find the sets below it. -/
theorem follows_meetCell {J : (SetVar → SetVar → Prop) → SetStore → SetStore → Prop} (structs : Structs)
    (c : Cell) (hptrs : p.ptrs = p'.ptrs)
    (hstep : ∀ t' q', pred.step loc p' t = (t', some q') →
      (∃ s' q τ', pred.step loc p s = (s', some q) ∧ J τ' s' t' ∧ Step.Rel Eq τ' q q') ∨
        lax ∧ (pred.step loc p s).2 = none) :
    Follows lax (MetAs J) (meetCell structs s loc c pred ty p)
      (meetCell structs t loc c pred ty p') := by
  rw [meetCell, meetCell]
  split
  · exact .failed
  · split
    · exact .failed
    · rename_i layout _
      have hback : checkBack loc c layout p = checkBack loc c layout p' := by
        simp only [checkBack, hptrs]
      rw [hback]
      rcases checkBack loc c layout p' with e | _
      · exact .failed
      · rcases hs' : pred.step loc p' t with ⟨t', _ | q'⟩
        · exact .failed
        · rcases hstep t' q' hs' with ⟨s', q, τ', hs, hJ, hq⟩ | ⟨hl, hs⟩
          · simp only [bind, Except.bind, hs]
            exact .ok ⟨τ', hJ, rel_cellGoals rfl (forall₂_value_refl _) pred layout hq⟩
          · generalize pred.step loc p s = r at hs ⊢
            obtain ⟨s', o⟩ := r
            dsimp only at hs
            subst hs
            exact .refused hl rfl

/-- A summary meets both goals, if its sets can be those that both searches expect. -/
theorem follows_meetSummary {J : (SetVar → SetVar → Prop) → SetStore → SetStore → Prop} {u : Summary}
    (hmatch : Follows lax (J τ) (matchParams loc u.params p s) (matchParams loc u.params p' t))
    (hu : ∀ v ∈ (Fact.summary u).sets, τ v v) :
    Follows lax (MetAs J) (meetSummary s loc u pred ty p) (meetSummary t loc u pred ty p') := by
  rw [meetSummary, meetSummary]
  split
  · exact .failed
  · refine hmatch.bind fun s' t' hI => .ok ⟨τ, hI, ?_⟩
    rw [forall₂_map_left_iff, forall₂_map_right_iff, forall₂_same]
    refine fun o ho => .inst (.refl _) pred ty (.refl fun v hv => hu v ?_)
    exact mem_append_right _ (mem_flatMap.2 ⟨o, ho, hv⟩)

/-- The sets below a root are found in both stores. -/
theorem Tracks.step (ht : Tracks lax pre I) (hI : I τ s st'.heap.sets) (hnew : loc ∉ st'.visited)
    (hp : Params.Rel Eq τ p p') (hpre : pre st' (.inst (.ptr loc) pred ty p')) {t' : SetStore}
    {q' : Step} (hs : pred.step loc p' st'.heap.sets = (t', some q')) :
    (∃ s' q τ', pred.step loc p s = (s', some q) ∧ ((∀ v w, τ v w → τ' v w) ∧ I τ' s' t') ∧
      Step.Rel Eq τ' q q') ∨ lax ∧ (pred.step loc p s).2 = none := by
  obtain ⟨ptrs, sets⟩ := p
  obtain ⟨ptrs', sets'⟩ := p'
  obtain ⟨-, hsets : List.Forall₂ τ sets sets'⟩ := hp
  have hkeep : (∀ v w, τ v w → τ v w) ∧ I τ s st'.heap.sets := ⟨fun _ _ hv => hv, hI⟩
  rcases pred with _ | _ | _ | _
  · cases hs
    exact .inl ⟨s, _, τ, rfl, hkeep, .none, .none, .none⟩
  · cases hs
    exact .inl ⟨s, _, τ, rfl, hkeep, ⟨.cons (.ptr rfl) .nil, .nil⟩, .none, .none⟩
  · rcases hsets with _ | ⟨hnodes, _ | ⟨htargets, -⟩⟩
    · cases hs
    · cases hs
    · rename_i nodes nodes' targets targets' more more'
      rcases hout : st'.heap.sets.takeOut nodes' loc with ⟨t₁, _ | rest'⟩
      · simp only [Predicate.step, hout, Option.map_none, Prod.mk.injEq, reduceCtorEq, and_false] at hs
      simp only [Predicate.step, hout, Option.map_some, Prod.mk.injEq, Option.some.injEq] at hs
      obtain ⟨rfl, rfl⟩ := hs
      rcases ht.takeOut hI hnodes hnew hpre hout with ⟨s', r, hs', τ', hτ, hI', hrest⟩ | ⟨hl, hnone⟩
      · have htargets' := hτ _ _ htargets
        refine .inl ⟨s', ⟨⟨[], [r, targets]⟩, ⟨[], [targets]⟩, none⟩, τ', ?_, ⟨hτ, hI'⟩,
          ⟨.nil, .cons hrest (.cons htargets' .nil)⟩, ⟨.nil, .cons htargets' .nil⟩, .none⟩
        simp only [Predicate.step, hs', Option.map_some]
      · refine .inr ⟨hl, ?_⟩
        simp only [Predicate.step, hnone, Option.map_none]
  · rcases hsets with _ | ⟨htargets, -⟩
    · cases hs
    · cases hs
      exact .inl ⟨s, _, τ, rfl, hkeep, ⟨.nil, .cons htargets .nil⟩, .none, .some htargets⟩

/-! ### The search -/

/-- Both searches go on from the same point, with related goals. -/
def GoOn (I : (SetVar → SetVar → Prop) → SetStore → SetStore → Prop) (τ : SetVar → SetVar → Prop)
    (r r' : Folding × List Goal) : Prop :=
  Grown τ fun τ' => Paired I τ' r.1 r'.1 ∧ List.Forall₂ (Goal.Rel Eq τ') r.2 r'.2

theorem FactsRel.mono {τ' : SetVar → SetVar → Prop} {h : Heap} (hf : FactsRel τ h)
    (hτ : ∀ v w, τ v w → τ' v w) : FactsRel τ' h :=
  fun k f hk v hv => hτ v v (hf k f hk v hv)

/-- Both searches take a fact. -/
theorem Paired.take {K : (SetVar → SetVar → Prop) → SetStore → SetStore → Prop} (hp : Paired K τ st st')
    (loc : Loc) {r r' : SetStore × List Goal}
    (hr : MetAs (fun τ' s t => (∀ v w, τ v w → τ' v w) ∧ I τ' s t) r r') :
    GoOn I τ (st.takeWith loc r.1, r.2) (st'.takeWith loc r'.1, r'.2) := by
  obtain ⟨τ', ⟨hτ, hI⟩, hgoals⟩ := hr
  refine ⟨τ', hτ, ⟨?_, ?_, hp.hole, hI, fun k f hk => ?_⟩, hgoals⟩
  · show (st.heap.write loc .vacant).arena = (st'.heap.write loc .vacant).arena
    rw [Heap.write, Heap.write, hp.arena]
  · show loc :: st.visited = loc :: st'.visited
    rw [hp.visited]
  · rw [(Takes.takeWith st' loc r'.1).slot] at hk
    split at hk
    · cases hk
    · exact hp.facts.mono hτ k f hk

theorem follows_enter (ht : Tracks lax pre I) (hp : Paired I τ st st') (hpar : Params.Rel Eq τ p p')
    (hpre : pre st' (.inst (.ptr loc) pred ty p')) :
    Follows lax (GoOn I τ) (st.enter cfg loc pred ty p) (st'.enter cfg loc pred ty p') := by
  by_cases hnew : loc ∈ st'.visited
  · rw [enter, enter, if_pos hnew]
    exact .failed
  · rcases hs : st'.heap.slot loc with _ | f | _
    · rw [enter, enter, if_neg hnew, hs]
      exact .failed
    · rw [enter_eq_meet hnew hs, enter_eq_meet (hp.visited ▸ hnew) ((hp.slot loc).trans hs)]
      refine Follows.map (R := MetAs fun τ' s t => (∀ v w, τ v w → τ' v w) ∧ I τ' s t) ?_
        fun r r' hr => hp.take loc hr
      cases f with
      | member => exact .failed
      | cell c =>
        exact follows_meetCell cfg.structs c (forall₂_value_eq hpar.ptrs) fun t' q' hq =>
          ht.step hp.sets hnew hpar hpre hq
      | summary u =>
        have hu := hp.facts loc _ hs
        have hmatch := follows_matchParams ht loc hp.sets
          (fun v hv => hu v (mem_append_left _ hv)) hpar
        exact follows_meetSummary (hmatch.mono fun s' t' hI => ⟨fun _ _ hv => hv, hI⟩) hu
    · rw [enter, enter, if_neg hnew, hs]
      exact .failed

/-- An instance is empty in both stores. -/
theorem Tracks.baseCase (ht : Tracks lax pre I) (hI : I τ s st'.heap.sets) (hp : Params.Rel Eq τ p p')
    (hpre : pre st' (.inst .null pred ty p')) {t' : SetStore}
    (hb : pred.baseCase p' st'.heap.sets = some t') :
    (∃ s', pred.baseCase p s = some s' ∧ I τ s' t') ∨ lax ∧ pred.baseCase p s = none := by
  obtain ⟨ptrs, sets⟩ := p
  obtain ⟨ptrs', sets'⟩ := p'
  obtain ⟨-, hsets : List.Forall₂ τ sets sets'⟩ := hp
  rcases pred with _ | _ | _ | _
  · cases hb
    exact .inl ⟨s, rfl, hI⟩
  · cases hb
    exact .inl ⟨s, rfl, hI⟩
  · rcases hsets with _ | ⟨hnodes, -⟩
    · cases hb
    · exact ht.setEmpty? hI hnodes hpre hb
  · cases hb
    exact .inl ⟨s, rfl, hI⟩

theorem follows_visit (ht : Tracks lax pre I) (hp : Paired I τ st st') {g g' : Goal}
    (hg : Goal.Rel Eq τ g g') (hpre : pre st' g') :
    Follows lax (GoOn I τ) (st.visit cfg g) (st'.visit cfg g') := by
  have hsets {s' t' : SetStore} (hI : I τ s' t') :
      GoOn I τ ({ st with heap := { st.heap with sets := s' } }, [])
        ({ st' with heap := { st'.heap with sets := t' } }, []) :=
    .here ⟨⟨hp.arena, hp.visited, hp.hole, hI, hp.facts⟩, .nil⟩
  rcases hg with ⟨hv, pred, ty, hpar⟩ | ⟨hv, hs⟩ | _
  · rename_i p p'
    rcases hv with _ | _ | rfl
    · simp only [visit]
      rcases hb' : pred.baseCase p' st'.heap.sets with _ | t'
      · exact .failed
      · rcases ht.baseCase hp.sets hpar hpre hb' with ⟨s', hb, hI⟩ | ⟨hl, hb⟩
        · rw [hb]
          exact .ok (hsets hI)
        · rw [hb]
          exact .refused hl rfl
    · exact .failed
    · simp only [visit, hp.hole]
      split
      · split
        · refine .ok (.here ⟨⟨hp.arena, hp.visited, ?_, hp.sets, hp.facts⟩, .nil⟩)
          exact iff_of_false (Option.some_ne_none _) (Option.some_ne_none _)
        · exact .failed
      · exact follows_enter ht hp hpar hpre
  · exact (follows_checkRef ht hp hv hs hpre).map fun s' t' hI => hsets hI
  · exact .failed

/-- One search follows another one, if all goals that this one meets can be followed. -/
theorem follows_absorb (ht : Tracks lax pre I) {goals goals' : List Goal} (hp : Paired I τ st st')
    (hg : List.Forall₂ (Goal.Rel Eq τ) goals goals')
    (hpre : ∀ st₁ goal, Meets cfg st' goals' st₁ goal → pre st₁ goal) :
    Follows lax (fun _ _ => True) (st.absorb cfg goals) (st'.absorb cfg goals') := by
  induction st', goals' using absorb.induct cfg generalizing τ st goals with
  | case1 st' =>
    rcases hg with _ | _
    rw [absorb, absorb]
    exact .ok trivial
  | case2 st' goal goals e hv =>
    rw [absorb_refused hv]
    exact .failed
  | case3 st' goal' goals' st₁' new' hv' ih =>
    rcases hg with _ | ⟨hgoal, hgoals⟩
    rename_i goal goals
    have hvisit : Follows lax (GoOn I τ) (st.visit cfg goal) (st'.visit cfg goal') :=
      follows_visit ht hp hgoal (hpre _ _ .here)
    rw [hv'] at hvisit
    generalize hv : st.visit cfg goal = x at hvisit
    rcases hvisit with ⟨τ', hτ, hp', hnew⟩ | ⟨hl, he⟩ | _
    · rw [absorb_cons hv, absorb_cons hv']
      refine ih hp' (rel_append hnew (hgoals.imp fun _ _ hg => hg.mono hτ)) fun st₁ goal hm => ?_
      exact hpre st₁ goal (.later hv' hm)
    · rw [absorb_refused hv]
      exact .refused hl he

end Folding

end HeapShape
