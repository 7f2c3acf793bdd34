import HeapShape.Proofs.Coarsening
import HeapShape.Proofs.Following
import HeapShape.Proofs.Restoring

/-!
# Parameters that the root shows

A fold may be asked for without parameters. Its root then shows them: a summary has its own, the root
of a tree has its back pointer, and a node was taken out of a set of nodes. What the root does not
show is guessed, as a set that nothing is known of, and gets bound by what the search meets first.

This finds the parameters of lists and trees. It need not find the sets of a graph: a guess is bound
to the set of the first member that an edge leads to, also where a larger set was meant. Still a
search with guessed sets follows any search with given ones, up to refusals that are about sets. And
it does not end before the other one where edges only lead to members of the given set itself.

* `Folding.tracks_any`, `Folding.tracks_exact`: how stores are related along two searches;
* `Heap.Starts.exists_shown`: what the root shows;
* `Heap.FollowsPast`: how a search with guesses follows the one with given sets past the root;
* `Heap.fold_without_params`: a fold with parameters, and the same fold without them.
-/

namespace HeapShape

open List hiding set

namespace Folding

variable {cfg : Setting} {st st' : Folding} {goal goal' : Goal} {goals new : List Goal}

/-! ### The order of the search -/

/-- What was taken stays taken. -/
theorem visited_of_visit {k : Loc} (hv : st.visit cfg goal = .ok (st', new)) (hk : k ∈ st.visited) :
    k ∈ st'.visited := by
  cases steps_of_visit hv with
  | ref => exact hk
  | null => exact hk
  | stop => exact hk
  | enter he =>
    obtain ⟨f, sets, -, -, -, rfl⟩ := enter_eq_ok he
    exact .tail _ hk

theorem Meets.visited {k : Loc} (h : Meets cfg st goals st' goal') (hk : k ∈ st.visited) :
    k ∈ st'.visited := by
  induction h with
  | here => exact hk
  | later hv _ ih => exact ih (visited_of_visit hv hk)

/-- What a search meets, if it is known how it meets its first goal. -/
theorem Meets.of_visit {st₁ : Folding}
    (hm : Meets cfg st (goal :: goals) st' goal') (hv : st.visit cfg goal = .ok (st₁, new)) :
    (st' = st ∧ goal' = goal) ∨ Meets cfg st₁ (new ++ goals) st' goal' := by
  rcases hm with _ | ⟨hv', hm⟩
  · exact .inl ⟨rfl, rfl⟩
  · cases hv.symm.trans hv'
    exact .inr hm

/-! ### Two ways to relate stores -/

/-- Nothing has to be known of the stores, if the search may be refused because of sets. -/
theorem tracks_any : Tracks True (fun _ _ => True) fun _ _ _ => True where
  unify {τ s t t' a b a' b'} _ _ _ _ := by
    by_cases h : ∃ s', s.unify a b = .ok (some s')
    · obtain ⟨s', hs⟩ := h
      exact .inl ⟨s', hs, trivial⟩
    · exact .inr ⟨trivial, fun s' hs => h ⟨s', hs⟩⟩
  inside {τ h t' st l v w} _ _ _ _ _ _ := by
    by_cases hin : ∃ s', inside h l v = .ok (some s')
    · obtain ⟨s', hs⟩ := hin
      exact .inl ⟨s', hs, trivial⟩
    · exact .inr ⟨trivial, fun s' hs => hin ⟨s', hs⟩⟩
  setEmpty? {τ s t' st v w ptrs sets ty} _ _ _ _ := by
    rcases hs : s.setEmpty? v with _ | s'
    · exact .inr ⟨trivial, rfl⟩
    · exact .inl ⟨s', rfl, trivial⟩
  takeOut {τ s t' st l v w r' ptrs sets ty} _ _ _ _ _ := by
    rcases hs : s.takeOut v l with ⟨s', _ | r⟩
    · exact .inr ⟨trivial, rfl⟩
    · exact .inl ⟨s', r, rfl, fun _ _ => True, fun _ _ _ => trivial, trivial, trivial⟩

/-- A goal that a guess can meet where a given set does. A reference leads to a member of the set
    itself, not of one that is known to be included in it, or to a member whose set can become the
    set. The nodes of an instance are not those of a given set. -/
def Exact (given : List SetVar) (st : Folding) : Goal → Prop
  | .ref (.ptr loc) (some set) => ∃ own ty, st.heap.slot loc = .occupied (.member own ty) ∧
      (st.heap.sets.isSubset own set = true → st.heap.sets.resolve own = st.heap.sets.resolve set)
  | .inst _ .graph _ params =>
      ∀ nodes, params.sets.head? = some nodes → ¬ st.heap.sets.AliasOf given nodes
  | _ => True

/-- Live variables of the first store stand for those of the second one, which has given sets in the
    place of guesses. -/
def Guesses (given : List SetVar) (root : Loc) (τ : SetVar → SetVar → Prop) (s t : SetStore) : Prop :=
  ∃ dead σ, SetStore.Coarsens given root dead σ s t ∧
    ∀ v w, τ v w → ¬ dead v ∧ SetStore.StandsFor σ s t v w

theorem Guesses.of_coarsens {given : List SetVar} {root : Loc} {τ : SetVar → SetVar → Prop}
    {dead : SetVar → Prop} {σ : SetVar → SetVar} {s t s' t' : SetStore}
    (hτ : ∀ v w, τ v w → ¬ dead v ∧ SetStore.StandsFor σ s t v w)
    (hc : SetStore.Coarsens given root dead σ s' t')
    (hmono : ∀ v w, SetStore.StandsFor σ s t v w → SetStore.StandsFor σ s' t' v w) :
    Guesses given root τ s' t' :=
  ⟨dead, σ, hc, fun v w hv => ⟨(hτ v w hv).1, hmono v w (hτ v w hv).2⟩⟩

/-- With guesses a search goes on below the root as long as its goals are exact. -/
theorem tracks_exact (given : List SetVar) (root : Loc) :
    Tracks False (fun st goal => root ∈ st.visited ∧ Exact given st goal) (Guesses given root) where
  unify {τ s t t' a b a' b'} hI ha hb hu := by
    obtain ⟨dead, σ, hc, hτ⟩ := hI
    obtain ⟨hda, ha⟩ := hτ a a' ha
    obtain ⟨hdb, hb⟩ := hτ b b' hb
    obtain ⟨s', hs, hc', hmono⟩ := hc.unify ha hb hda hdb hu
    exact .inl ⟨s', hs, .of_coarsens hτ hc' hmono⟩
  inside {τ h t' st l v w} hI harena hfacts hv hpre hin := by
    obtain ⟨-, own, ty, hslot, hexact⟩ := hpre
    have hslot' : h.slot l = .occupied (.member own ty) := by
      rw [← hslot, Heap.slot, Heap.slot, harena]
    obtain ⟨dead, σ, hc, hτ⟩ := hI
    obtain ⟨hdo, hown⟩ := hτ own own (hfacts l _ hslot own (.head _))
    obtain ⟨hdv, hv⟩ := hτ v w hv
    -- In the second store the two sets become aliases in any case.
    have hu : st.heap.sets.unify own w = .ok (some t') := by
      rw [inside, hslot] at hin
      dsimp only at hin
      split at hin
      · rename_i hsub
        rw [SetStore.unify, if_pos (hexact hsub), ← hin]
      · exact hin
    rw [inside, hslot']
    dsimp only
    split
    · rename_i hsub
      have hsub' := hc.records.isSubset hown hv hsub
      rw [inside, hslot] at hin
      simp only [hsub', if_true, Except.ok.injEq, Option.some.injEq] at hin
      exact .inl ⟨h.sets, rfl, dead, σ, hin ▸ hc, hin ▸ hτ⟩
    · obtain ⟨s', hs, hc', hmono⟩ := hc.unify hown hv hdo hdv hu
      exact .inl ⟨s', hs, .of_coarsens hτ hc' hmono⟩
  setEmpty? {τ s t' st v w ptrs sets ty} hI hv hpre ht := by
    obtain ⟨dead, σ, hc, hτ⟩ := hI
    obtain ⟨hd, hv⟩ := hτ v w hv
    have hpin := SetStore.Coarsens.pinned hv hd (hpre.2 w rfl)
    obtain ⟨s', hs, hc', hmono⟩ := hc.setEmpty? hv hpin ht
    exact .inl ⟨s', hs, .of_coarsens hτ hc' hmono⟩
  takeOut {τ s t' st l v w r' ptrs sets ty} hI hv hnew hpre ht := by
    obtain ⟨dead, σ, hc, hτ⟩ := hI
    obtain ⟨hd, hv⟩ := hτ v w hv
    have hne : l ≠ root := by
      rintro rfl
      exact hnew hpre.1
    have hpin := SetStore.Coarsens.pinned hv hd (hpre.2 w rfl)
    obtain ⟨s', r, σ', hs, hc', hmono, hdr, hr⟩ := hc.takeOut hv hpin hne ht
    refine .inl ⟨s', r, hs, fun v w => ¬ dead v ∧ SetStore.StandsFor σ' s' t' v w, fun v w hv => ?_,
      ⟨dead, σ', hc', fun _ _ hv => hv⟩, hdr, hr⟩
    exact ⟨(hτ v w hv).1, hmono v w (hτ v w hv).2⟩

end Folding

namespace Heap

open Folding

variable {structs : Structs} {h : Heap} {loc : Loc} {pred : Predicate} {p : Params} {stops : List Loc}

/-! ### The root -/

/-- A fold with parameters that succeeds: the fact about its root meets the goal, and the search goes
    on below it. -/
structure Starts (structs : Structs) (stops : List Loc) (h : Heap) (loc : Loc) (pred : Predicate)
    (p : Params) (ty : StructId) (layout : Layout) (f : Fact) (q : SetStore × List Goal) : Prop where
  arity : p.ptrs.length = pred.signature.ptrArity ∧ p.sets.length = pred.signature.setArity
  struct : h.rootStruct loc = .ok ty
  layout : pred.layout? structs ty = some layout
  slot : h.slot loc = .occupied f
  met : meet structs h.sets loc f pred ty p = .ok q
  rest : ∃ st, absorb ⟨structs, stops, loc, pred⟩ (takeWith ⟨h, none, []⟩ loc q.1) q.2 = .ok st

section

variable {s : SetStore} {ty : StructId} {f : Fact} (hf : h.slot loc = .occupied f)
include hf

theorem visit_root : visit ⟨structs, stops, loc, pred⟩ ⟨{ h with sets := s }, none, []⟩
      (.inst (.ptr loc) pred ty p) =
    (meet structs s loc f pred ty p).map fun q => (takeWith ⟨h, none, []⟩ loc q.1, q.2) := by
  rw [visit_ptr fun hne => absurd rfl hne]
  exact enter_eq_meet not_mem_nil hf

/-- The search starts with the fact about the root. -/
theorem absorb_root : absorb ⟨structs, stops, loc, pred⟩ ⟨{ h with sets := s }, none, []⟩
      [.inst (.ptr loc) pred ty p] = (meet structs s loc f pred ty p).bind fun q =>
        absorb ⟨structs, stops, loc, pred⟩ (takeWith ⟨h, none, []⟩ loc q.1) q.2 := by
  have hv : visit ⟨structs, stops, loc, pred⟩ ⟨{ h with sets := s }, none, []⟩
      (.inst (.ptr loc) pred ty p) = _ := visit_root hf
  rcases hm : meet structs s loc f pred ty p with e | q
  · rw [hm] at hv
    exact absorb_refused hv
  · rw [hm] at hv
    rw [absorb_cons hv, append_nil]
    rfl

end

theorem exists_starts {r : Heap × Option Hole}
    (hf : h.fold structs (.ptr loc) pred (some p) stops = .ok r) :
    ∃ ty layout f q, Starts structs stops h loc pred p ty layout f q := by
  rcases fold_eq_ok hf with ⟨_, s, h₁, ⟨⟩, hg, -⟩ | ⟨⟨⟩, -⟩
  obtain ⟨ty, layout, p', sets, st₁, goals, st, ha, hty, hl, hchoose, henter, habsorb, -, -⟩ := gather_steps hg
  cases hchoose
  obtain ⟨f, sets, -, hslot, hm, rfl⟩ := enter_eq_ok henter
  exact ⟨ty, layout, f, (sets, goals), checkArity_eq_ok ha, hty, hl, hslot, hm, st, habsorb⟩

/-- The parameters that a root shows, where others were given: as many of each kind, the same
    pointers, and all of them the same for a list or a tree. -/
structure ShownAs (pred : Predicate) (s : SetStore) (p : Params) (r : Params × SetStore) : Prop where
  ptrs : r.1.ptrs = p.ptrs
  sets : r.1.sets.length = p.sets.length
  same : pred = .list ∨ pred = .tree → r = (p, s)

theorem Starts.exists_shown {ty : StructId} {layout : Layout} {f : Fact} {q : SetStore × List Goal}
    (hs : Starts structs stops h loc pred p ty layout f q) :
    ∃ r, h.inferParams loc pred layout = .ok r ∧ ShownAs pred h.sets p r := by
  obtain ⟨hptrs, hsets⟩ := hs.arity
  have hmet := hs.met
  have hlayout := hs.layout
  obtain ⟨ptrs, sets⟩ := p
  rw [inferParams.eq_def]
  cases f with
  | member => cases hmet
  | summary u =>
    obtain ⟨hpred, -, hp, hn, -⟩ := meetSummary_eq_ok hmet
    rw [summary?_of_slot hs.slot]
    refine ⟨(u.params, h.sets), if_pos hpred, hp, hn, fun hkind => ?_⟩
    have hzero : pred.signature.setArity = 0 := by rcases hkind with rfl | rfl <;> rfl
    obtain rfl := eq_nil_of_length_eq_zero (hsets.trans hzero)
    obtain rfl : u.params.ptrs = ptrs := hp
    rw [← eq_nil_of_length_eq_zero (hn.trans (hsets.trans hzero))]
  | cell c =>
    rw [summary?_of_cell hs.slot]
    cases pred with
    | list =>
      obtain rfl := eq_nil_of_length_eq_zero hptrs
      obtain rfl := eq_nil_of_length_eq_zero hsets
      exact ⟨_, rfl, rfl, rfl, fun _ => rfl⟩
    | tree =>
      obtain ⟨back, rfl⟩ := length_eq_one_iff.1 hptrs
      obtain rfl := eq_nil_of_length_eq_zero hsets
      obtain ⟨-, layout', -, hlayout', hback, -⟩ := meetCell_eq_ok hmet
      cases hlayout.symm.trans hlayout'
      obtain ⟨decl, left, right, up, -, rfl, -⟩ := Predicate.layout?_tree hlayout
      simp only [checkBack] at hback
      rcases hv : c.fields[up]? with _ | v
      · rw [hv] at hback
        cases hback
      · simp only [hv] at hback
        split at hback
        · rename_i he
          have hshown :
              ((some up).bind fun i => (h.cell? loc).bind fun c => c.fields[i]?) = some back := by
            rw [cell?_of_slot hs.slot, Option.bind_some, Option.bind_some, hv, he]
            rfl
          simp only [hshown]
          exact ⟨_, rfl, rfl, rfl, fun _ => rfl⟩
        · cases hback
    | graph =>
      have hnone := eq_nil_of_length_eq_zero hptrs
      rcases hw : h.sets.wholeOf? loc with _ | w <;>
        exact ⟨_, rfl, hnone.symm, hsets.symm, fun hkind => by rcases hkind with hk | hk <;> cases hk⟩
    | edges =>
      have hnone := eq_nil_of_length_eq_zero hptrs
      exact ⟨_, rfl, hnone.symm, hsets.symm, fun hkind => by rcases hkind with hk | hk <;> cases hk⟩

/-! ### Guesses at the root -/

/-- A variable that was given out, with itself. -/
def Old (s : SetStore) (v w : SetVar) : Prop := v = w ∧ s.Has v

/-- The stores of a search with guesses and of one with given sets, below the root. The variables from
    before stand for themselves. -/
def Guessed (given : List SetVar) (root : Loc) (s₀ : SetStore) (τ : SetVar → SetVar → Prop)
    (s t : SetStore) : Prop :=
  (∀ v w, Old s₀ v w → τ v w) ∧ Guesses given root τ s t

section

open SetStore

variable {s : SetStore} {given : List SetVar} (hs : s.Grounded) (hgiven : ∀ g ∈ given, s.Has g)
include hs hgiven

/-- A summary that is the root keeps its own sets, while those that are given become aliases of them. -/
theorem guessed_unifySets {t : SetStore} {sets : List SetVar} (hsets : ∀ v ∈ sets, s.Has v)
    (hu : unifySets loc sets given s = .ok t) : Guessed given loc s (Old s) s t := by
  suffices h : ∀ {as bs : List SetVar} {t₁ : SetStore}, Coarsens given loc (fun _ => False) id s t₁ →
      (∀ a ∈ as, s.Has a) → (∀ b ∈ bs, b ∈ given) → unifySets loc as bs t₁ = .ok t →
      Coarsens given loc (fun _ => False) id s t by
    refine ⟨fun _ _ hv => hv, _, _, h (.start hs hgiven) hsets (fun _ hb => hb) hu, ?_⟩
    rintro v w ⟨rfl, hv⟩
    exact ⟨not_false, hv, rfl⟩
  intro as
  induction as with
  | nil =>
    intro bs t₁ hc _ _ hu
    cases hu
    exact hc
  | cons a as ih =>
    rintro (_ | ⟨b, bs⟩) t₁ hc ha hb hu
    · cases hu
      exact hc
    · rw [unifySets] at hu
      rcases hab : t₁.unify a b with m | _ | t₂
      · rw [hab] at hu
        cases hu
      · rw [hab] at hu
        cases hu
      · simp only [hab] at hu
        have hc' := (hc.unify_given ⟨ha a (.head _), rfl⟩ (hb b (.head _)) hab).1
        exact ih hc' (fun c hm => ha c (.tail _ hm)) (fun c hm => hb c (.tail _ hm)) hu

/-- A guess stands for a given set. -/
theorem exists_guess (root : Loc) {w : SetVar} (hw : w ∈ given) :
    ∃ τ, Guessed given root s τ s.fresh.2 s ∧ τ s.fresh.1 w := by
  have hc : Coarsens given root (fun _ => False) (Function.update id s.fresh.1 w) s.fresh.2 s :=
    (Coarsens.start hs hgiven).guess hw
  refine ⟨StandsFor (Function.update id s.fresh.1 w) s.fresh.2 s,
    ⟨?_, _, _, hc, fun v w hv => ⟨not_false, hv⟩⟩, standsFor_fresh⟩
  rintro v w ⟨rfl, hv⟩
  exact StandsFor.fresh_left ⟨hv, rfl⟩

/-- The root is taken out of a guess for its set of nodes, which is dead then, as it is taken out of the
    given set. -/
theorem exists_guess_split {t : SetStore} {nodes targets rest : SetVar} (hn : nodes ∈ given)
    (ht : targets ∈ given) (hw : s.wholeOf? loc = none) (hout : s.takeOut nodes loc = (t, some rest)) :
    ∃ s' r τ, s.fresh.2.fresh.2.takeOut s.fresh.1 loc = (s', some r) ∧ Guessed given loc s τ s' t ∧
      τ r rest ∧ τ s.fresh.2.fresh.1 targets := by
  let σ := Function.update (Function.update id s.fresh.1 nodes) s.fresh.2.fresh.1 targets
  have hc : Coarsens given loc (fun _ => False) σ s.fresh.2.fresh.2 s :=
    ((Coarsens.start hs hgiven).guess hn).guess ht
  have hnodes : StandsFor σ s.fresh.2.fresh.2 s s.fresh.1 nodes := standsFor_fresh.fresh_left
  have htargets : StandsFor σ s.fresh.2.fresh.2 s s.fresh.2.fresh.1 targets := standsFor_fresh
  have hres (v : SetVar) : s.fresh.2.fresh.2.resolve v = s.resolve v := by
    rw [resolve_fresh, resolve_fresh]
  have hfree : s.fresh.2.fresh.2.isUnconstrained s.fresh.1 = true := by
    refine isUnconstrained_iff_mentions.2 fun e he => ?_
    rw [hres, hres]
    exact resolve_ne_fresh hs.reprs (hs.mentions e he)
  -- No set was split by the root before.
  have hnone (u : SetStore) (hsplits : u.splits = s.splits) (v : SetVar) : u.splitOf? v loc = none := by
    rcases hsome : u.splitOf? v loc with _ | rest
    · rfl
    · obtain ⟨p, hp, hel, -⟩ := splitOf?_eq_some hsome
      have hwhole := wholeOf?_isSome.2 ⟨p, hsplits ▸ hp, hel⟩
      rw [hw] at hwhole
      cases hwhole
  obtain ⟨s', r, σ', hout', hc', hmono, hdr, hr⟩ := (hc.bury hnodes.1 hfree).takeOut_new hnodes
    (.inl ⟨.inr rfl, rfl⟩) (hnone s.fresh.2.fresh.2 rfl _) (hnone s rfl _) hout
  refine ⟨s', r, _, hout', ⟨?_, _, σ', hc', fun v w hv => hv⟩, ⟨hdr, hr⟩, ?_, hmono _ _ htargets⟩
  · rintro v w ⟨rfl, hv⟩
    refine ⟨not_or.2 ⟨not_false, ?_⟩, hmono v v (StandsFor.fresh_left (StandsFor.fresh_left ⟨hv, rfl⟩))⟩
    rw [hres, hres]
    exact resolve_ne_fresh hs.reprs hv
  · have hne := resolve_ne_fresh (fun v hv => has_resolve_fresh hs.reprs hv) (has_fresh_iff.2 (.inr rfl))
    rw [resolve_fresh, resolve_fresh] at hne
    rw [hres, hres]
    exact not_or.2 ⟨not_false, hne.symm⟩

end

/-- A search with the parameters that the root shows follows the one with given parameters past the
    root. -/
def FollowsPast (structs : Structs) (h : Heap) (loc : Loc) (pred : Predicate) (p : Params)
    (ty : StructId) (layout : Layout) (f : Fact) : Prop :=
  ∃ r, h.inferParams loc pred layout = .ok r ∧
    Refusal.Follows False (MetAs (Guessed p.sets loc h.sets)) (meet structs r.2 loc f pred ty r.1)
      (meet structs h.sets loc f pred ty p)

section

variable {ty : StructId} {layout : Layout} {q : SetStore × List Goal} (hg : h.sets.Grounded)
  (hp : ∀ v ∈ p.sets, h.sets.Has v) {c : Cell}
include hg hp

theorem followsPast_summary {u : Summary}
    (hs : Starts structs stops h loc pred p ty layout (.summary u) q)
    (hu : ∀ v ∈ (Fact.summary u).sets, h.sets.Has v) :
    FollowsPast structs h loc pred p ty layout (.summary u) := by
  have hmet := hs.met
  obtain ⟨hpred, -, hptrs, hn, -⟩ := meetSummary_eq_ok hmet
  have hmatch : Refusal.Follows False (Guessed p.sets loc h.sets (Old h.sets))
      (matchParams loc u.params u.params h.sets) (matchParams loc u.params p h.sets) := by
    have hself : matchParams loc u.params u.params h.sets = .ok h.sets := by
      rw [matchParams, if_neg (not_not_intro rfl), if_neg (not_not_intro rfl),
        unifySets_of_aliases rfl]
    rw [hself, matchParams, if_neg (not_not_intro hptrs), if_neg (not_not_intro hn)]
    rcases hsets : unifySets loc u.params.sets p.sets h.sets with e | t
    · exact .failed
    · exact .ok (guessed_unifySets hg hp (fun v hv => hu v (mem_append_left _ hv)) hsets)
  refine ⟨(u.params, h.sets), ?_, follows_meetSummary hmatch fun v hv => ⟨rfl, hu v hv⟩⟩
  rw [inferParams.eq_def, summary?_of_slot hs.slot]
  exact if_pos hpred

theorem followsPast_edges (hs : Starts structs stops h loc .edges p ty layout (.cell c) q) :
    FollowsPast structs h loc .edges p ty layout (.cell c) := by
  obtain ⟨hptrs, hsets⟩ := hs.arity
  have hslot := hs.slot
  obtain ⟨ptrs, sets⟩ := p
  obtain rfl := eq_nil_of_length_eq_zero hptrs
  obtain ⟨targets, rfl⟩ := length_eq_one_iff.1 hsets
  obtain ⟨τ, hτ, htargets⟩ := exists_guess hg hp loc (.head _)
  refine ⟨(⟨[], [h.sets.fresh.1]⟩, h.sets.fresh.2), ?_, follows_meetCell structs c rfl fun t q hq => ?_⟩
  · rw [inferParams.eq_def, summary?_of_cell hslot]
  · cases hq
    exact .inl ⟨_, _, τ, rfl, hτ, ⟨.nil, .cons htargets .nil⟩, .none, .some htargets⟩

open SetStore in
/-- A node that was taken out of a set before is taken out of it along the same split. -/
theorem followsPast_graph_split {w : SetVar}
    (hs : Starts structs stops h loc .graph p ty layout (.cell c) q)
    (hw : h.sets.wholeOf? loc = some w) (hnodes : ∀ v, p.sets.head? = some v → h.sets.resolve v = w) :
    FollowsPast structs h loc .graph p ty layout (.cell c) := by
  obtain ⟨hptrs, hsets⟩ := hs.arity
  have hslot := hs.slot
  obtain ⟨ptrs, sets⟩ := p
  obtain rfl := eq_nil_of_length_eq_zero hptrs
  obtain ⟨nodes, targets, rfl⟩ := length_eq_two.1 hsets
  have hnodes := hnodes nodes rfl
  obtain ⟨split, hsplit, hel, hwhole⟩ := wholeOf?_eq_some hw
  obtain ⟨rest, hrest⟩ := Option.isSome_iff_exists.1
    (splitOf?_isSome.2 ⟨split, hsplit, hel, hwhole.trans hnodes.symm⟩)
  have hrest' : h.sets.fresh.2.splitOf? w loc = some rest := by
    rw [← hrest, SetStore.splitOf?, SetStore.splitOf?]
    simp only [resolve_fresh, ← hnodes, hg.valid.reprs]
    rfl
  have hout : h.sets.takeOut nodes loc = (h.sets, some rest) := by rw [takeOut, hrest]
  have hout' : h.sets.fresh.2.takeOut w loc = (h.sets.fresh.2, some rest) := by rw [takeOut, hrest']
  have hhas : h.sets.Has rest := by
    obtain ⟨split, hsplit, -, -, rfl⟩ := splitOf?_eq_some hrest
    exact hg.reprs _ (hg.mentions _ (.inr (.inr (.inl ⟨split, hsplit, .inr rfl⟩))))
  obtain ⟨τ, hτ, htargets⟩ := exists_guess hg hp loc (.tail _ (.head _))
  refine ⟨(⟨[], [w, h.sets.fresh.1]⟩, h.sets.fresh.2), ?_,
    follows_meetCell structs c rfl fun t q hq => ?_⟩
  · rw [inferParams.eq_def, summary?_of_cell hslot, hw]
  · simp only [Predicate.step, hout, Option.map_some, Prod.mk.injEq, Option.some.injEq] at hq
    obtain ⟨rfl, rfl⟩ := hq
    have hrest := hτ.1 rest rest ⟨rfl, hhas⟩
    refine .inl ⟨_, ⟨⟨[], [rest, h.sets.fresh.1]⟩, ⟨[], [h.sets.fresh.1]⟩, none⟩, τ, ?_, hτ,
      ⟨.nil, .cons hrest (.cons htargets .nil)⟩, ⟨.nil, .cons htargets .nil⟩, .none⟩
    simp only [Predicate.step, hout', Option.map_some]

/-- A node is taken out of a set for the first time. -/
theorem followsPast_graph_new (hs : Starts structs stops h loc .graph p ty layout (.cell c) q)
    (hw : h.sets.wholeOf? loc = none) : FollowsPast structs h loc .graph p ty layout (.cell c) := by
  obtain ⟨hptrs, hsets⟩ := hs.arity
  have hslot := hs.slot
  obtain ⟨ptrs, sets⟩ := p
  obtain rfl := eq_nil_of_length_eq_zero hptrs
  obtain ⟨nodes, targets, rfl⟩ := length_eq_two.1 hsets
  refine ⟨(⟨[], [h.sets.fresh.1, h.sets.fresh.2.fresh.1]⟩, h.sets.fresh.2.fresh.2), ?_,
    follows_meetCell structs c rfl fun t q hq => ?_⟩
  · rw [inferParams.eq_def, summary?_of_cell hslot, hw]
  · rcases hout : h.sets.takeOut nodes loc with ⟨t₁, _ | rest⟩
    · simp only [Predicate.step, hout, Option.map_none, Prod.mk.injEq, reduceCtorEq, and_false] at hq
    simp only [Predicate.step, hout, Option.map_some, Prod.mk.injEq, Option.some.injEq] at hq
    obtain ⟨rfl, rfl⟩ := hq
    obtain ⟨s', r, τ, hout', hτ, hr, htargets⟩ :=
      exists_guess_split hg hp (.head _) (.tail _ (.head _)) hw hout
    refine .inl ⟨s', ⟨⟨[], [r, h.sets.fresh.2.fresh.1]⟩, ⟨[], [h.sets.fresh.2.fresh.1]⟩, none⟩, τ, ?_,
      hτ, ⟨.nil, .cons hr (.cons htargets .nil)⟩, ⟨.nil, .cons htargets .nil⟩, .none⟩
    simp only [Predicate.step, hout', Option.map_some]

end

/-! ### Folds without parameters -/

/-- All sets of a heap were given out. -/
structure Grounded (h : Heap) : Prop where
  sets : h.sets.Grounded
  facts : ∀ k f, h.slot k = .occupied f → ∀ v ∈ f.sets, h.sets.Has v

/-- The parameters of a fold can be guessed. A node that was taken out of a set is the root of a graph
    over this set, and all goals that the search meets below the root are exact. -/
structure Guessable (structs : Structs) (stops : List Loc) (h : Heap) (loc : Loc) (pred : Predicate)
    (p : Params) : Prop where
  nodes : pred = .graph → ∀ c, h.slot loc = .occupied (.cell c) → ∀ w, h.sets.wholeOf? loc = some w →
    ∀ v, p.sets.head? = some v → h.sets.resolve v = w
  goals : ∀ ty st goal, h.rootStruct loc = .ok ty → Meets ⟨structs, stops, loc, pred⟩ ⟨h, none, []⟩
    [.inst (.ptr loc) pred ty p] st goal → loc ∈ st.visited → Exact p.sets st goal

section

variable {ty : StructId} {layout : Layout} {f : Fact} {q : SetStore × List Goal} {r : Params × SetStore}

variable (hs : Starts structs stops h loc pred p ty layout f q)
include hs

/-- A structure is taken out by a search with the parameters that its root shows. -/
theorem Starts.gather_none (hr : h.inferParams loc pred layout = .ok r) :
    h.gather structs loc pred none stops =
      (absorb ⟨structs, stops, loc, pred⟩ ⟨{ h with sets := r.2 }, none, []⟩
        [.inst (.ptr loc) pred ty r.1]).map fun st => (⟨pred, ty, st.heap.resolveParams r.1,
          st.hole.map fun o => { o with params := st.heap.resolveParams o.params }⟩, st.heap) :=
  gather_eq_absorb rfl hs.struct hs.layout hr

/-- A search with the parameters that the root shows is refused only because of sets. -/
theorem Starts.isAboutSets (hr : h.inferParams loc pred layout = .ok r)
    (hshown : ShownAs pred h.sets p r) {e : Refusal}
    (he : h.fold structs (.ptr loc) pred none stops = .error e) : e.isAboutSets = true := by
  have hpaired : Paired (fun _ _ _ => True) (fun _ _ => True) ⟨{ h with sets := r.2 }, none, []⟩
      ⟨h, none, []⟩ :=
    ⟨rfl, rfl, Iff.rfl, trivial, fun _ _ _ _ _ => trivial⟩
  have hparams : Params.Rel Eq (fun _ _ => True) r.1 p := by
    refine ⟨?_, forall₂_iff_zip.2 ⟨hshown.sets, fun _ => trivial⟩⟩
    rw [hshown.ptrs]
    exact forall₂_value_refl _
  have hgoal : Goal.Rel Eq (fun _ _ => True) (.inst (.ptr loc) pred ty r.1)
      (.inst (.ptr loc) pred ty p) := .inst (.refl _) pred ty hparams
  have hfollow : Refusal.Follows True (fun _ _ => True)
      (absorb ⟨structs, stops, loc, pred⟩ ⟨{ h with sets := r.2 }, none, []⟩
        [.inst (.ptr loc) pred ty r.1])
      (absorb ⟨structs, stops, loc, pred⟩ ⟨h, none, []⟩ [.inst (.ptr loc) pred ty p]) :=
    follows_absorb tracks_any hpaired (.cons hgoal .nil) fun _ _ _ => trivial
  obtain ⟨st, hst⟩ := hs.rest
  rw [absorb_root (s := h.sets) hs.slot, hs.met, Except.bind, hst] at hfollow
  rw [fold, hs.gather_none hr] at he
  generalize absorb _ _ [.inst (.ptr loc) pred ty r.1] = x at hfollow he
  rcases hfollow with _ | ⟨-, hsets⟩ | _
  · cases he
  · cases he
    exact hsets

/-- A search with guesses goes through where a search with given sets does. -/
theorem Starts.exists_fold (hh : h.Grounded) (hp : ∀ v ∈ p.sets, h.sets.Has v)
    (hg : Guessable structs stops h loc pred p) (hkind : pred = .graph ∨ pred = .edges) :
    ∃ r, h.fold structs (.ptr loc) pred none stops = .ok r := by
  obtain ⟨r, hr, hfollow⟩ : FollowsPast structs h loc pred p ty layout f := by
    cases f with
    | member => cases hs.met
    | summary u => exact followsPast_summary hh.sets hp hs (hh.facts loc _ hs.slot)
    | cell c =>
      rcases hkind with rfl | rfl
      · rcases hw : h.sets.wholeOf? loc with _ | w
        · exact followsPast_graph_new hh.sets hp hs hw
        · exact followsPast_graph_split hh.sets hp hs hw (hg.nodes rfl c hs.slot w hw)
      · exact followsPast_edges hh.sets hp hs
  obtain ⟨st', hst'⟩ := hs.rest
  rw [hs.met] at hfollow
  generalize hm : meet structs r.2 loc f pred ty r.1 = x at hfollow
  rcases hfollow with hmet | ⟨hno, -⟩ | _
  · rename_i q₁
    have hstart : Paired (fun _ _ _ => True) (Old h.sets) ⟨h, none, []⟩ ⟨h, none, []⟩ :=
      ⟨rfl, rfl, Iff.rfl, trivial, fun k f hk v hv => ⟨rfl, hh.facts k f hk v hv⟩⟩
    obtain ⟨τ, -, hpaired, hgoals⟩ := hstart.take loc hmet
    have hpre (st : Folding) (goal : Goal) (hmeets : Meets ⟨structs, stops, loc, pred⟩
        (takeWith ⟨h, none, []⟩ loc q.1) q.2 st goal) : loc ∈ st.visited ∧ Exact p.sets st goal := by
      have hvisited := hmeets.visited (.head _)
      have hv : visit ⟨structs, stops, loc, pred⟩ ⟨h, none, []⟩ (.inst (.ptr loc) pred ty p) = _ :=
        visit_root (s := h.sets) hs.slot
      rw [hs.met] at hv
      rw [← append_nil q.2] at hmeets
      exact ⟨hvisited, hg.goals ty st goal hs.struct (.later hv hmeets) hvisited⟩
    have hfollow := follows_absorb (tracks_exact p.sets loc) hpaired hgoals hpre
    rw [hst'] at hfollow
    generalize hx : absorb _ _ q₁.2 = x at hfollow
    rcases hfollow with _ | ⟨hno, -⟩ | _
    · rw [fold, hs.gather_none hr, absorb_root hs.slot, hm, Except.bind, hx]
      exact ⟨_, rfl⟩
    · exact hno.elim
  · exact hno.elim

end

/-- A fold with parameters, and the same fold without them. For a list or a tree they have the same
    result. For other predicates the fold without parameters can only be refused because of sets, and it
    succeeds if the parameters can be guessed. -/
theorem fold_without_params {root : Value} {r : Heap × Option Hole}
    (hf : h.fold structs root pred (some p) stops = .ok r) :
    (pred = .list ∨ pred = .tree → h.fold structs root pred none stops = .ok r) ∧
    (∀ e, h.fold structs root pred none stops = .error e → e.isAboutSets = true) ∧
    (h.Grounded → (∀ v ∈ p.sets, h.sets.Has v) →
      (∀ loc, root = .ptr loc → Guessable structs stops h loc pred p) →
      ∃ r', h.fold structs root pred none stops = .ok r') := by
  rcases fold_eq_ok hf with ⟨loc, -, -, rfl, -⟩ | ⟨rfl, ho, -, ⟨⟨⟩, -⟩ | ⟨_, sets, ⟨⟩, hb, hr⟩⟩
  · obtain ⟨ty, layout, f, q, hs⟩ := exists_starts hf
    obtain ⟨r', hr, hshown⟩ := hs.exists_shown
    have hlist (hkind : pred = .list ∨ pred = .tree) :
        h.fold structs (.ptr loc) pred none stops = .ok r := by
      obtain rfl := hshown.same hkind
      have harity : checkArity pred (some p) (some loc) = .ok () := if_pos hs.arity
      rw [← hf, fold, fold, hs.gather_none hr, gather_eq_absorb harity hs.struct hs.layout rfl]
    refine ⟨hlist, fun e he => hs.isAboutSets hr hshown he, fun hh hp hg => ?_⟩
    by_cases hkind : pred = .list ∨ pred = .tree
    · exact ⟨r, hlist hkind⟩
    · refine hs.exists_fold hh hp (hg loc rfl) ?_
      cases pred <;> simp_all
  · have hnone : h.fold structs .null pred none stops = .ok (h, none) := rfl
    refine ⟨fun hkind => ?_, fun e he => ?_, fun _ _ _ => ⟨_, hnone⟩⟩
    · obtain ⟨h', o⟩ := r
      obtain rfl : o = none := ho
      obtain rfl : h' = _ := hr
      rcases hkind with rfl | rfl <;> cases hb <;> exact hnone
    · rw [hnone] at he
      cases he

end Heap

namespace Sample

/-- Two sets that are included in a third one. -/
def twoInclusions : SetStore :=
  ⟨⟨[("A", ⟨0⟩), ("B", ⟨1⟩), ("E", ⟨2⟩)]⟩, [⟨0⟩, ⟨1⟩, ⟨2⟩], [(⟨0⟩, ⟨2⟩), (⟨1⟩, ⟨2⟩)], [], []⟩

/-- Two edges, which lead to members of two sets. -/
def twoEdges (a b : SetVar) : Heap :=
  ⟨.ofSlots [.occupied (.cell ⟨⟨0⟩, [.ptr ⟨1⟩, .ptr ⟨2⟩]⟩), .occupied (.cell ⟨⟨0⟩, [.null, .ptr ⟨3⟩]⟩),
    .occupied (.member a ⟨1⟩), .occupied (.member b ⟨1⟩)], twoInclusions⟩

open Folding Heap

theorem exists_fold_twoEdges {a b : SetVar} (ha : twoInclusions.isSubset a ⟨2⟩ = true)
    (hb : twoInclusions.isSubset b ⟨2⟩ = true) :
    ∃ r, (twoEdges a b).fold graphs (.ptr ⟨0⟩) .edges (some ⟨[], [⟨2⟩]⟩) [] = .ok r := by
  have hclears : Clears ⟨graphs, [], ⟨0⟩, .edges⟩ (twoEdges a b) twoInclusions
      [.inst (.ptr ⟨0⟩) .edges ⟨0⟩ ⟨[], [⟨2⟩]⟩] [⟨0⟩, ⟨1⟩] none twoInclusions [] :=
    .fact rfl (fun _ => not_mem_nil) rfl (.fact rfl (fun _ => not_mem_nil) rfl
      (.null rfl (.member rfl hb (.member rfl ha .nil))))
  have hp : (twoEdges a b).chooseParams ⟨0⟩ .edges ⟨[0], none, [], [(1, ⟨1⟩)]⟩ (some ⟨[], [⟨2⟩]⟩) =
      .ok (⟨[], [⟨2⟩]⟩, twoInclusions) := rfl
  obtain ⟨h', hf, -⟩ := fold_of_clears rfl rfl rfl hp hclears (by decide)
  exact ⟨_, hf⟩

theorem twoEdges_guessable : Guessable graphs [] (twoEdges ⟨2⟩ ⟨2⟩) ⟨0⟩ .edges ⟨[], [⟨2⟩]⟩ := by
  refine ⟨fun h => (by cases h), fun ty st goal hty hm hvis => ?_⟩
  cases hty
  rcases hm.of_visit rfl with ⟨rfl, rfl⟩ | hm
  · cases hvis
  rcases hm.of_visit rfl with ⟨rfl, rfl⟩ | hm
  · trivial
  rcases hm.of_visit rfl with ⟨rfl, rfl⟩ | hm
  · trivial
  rcases hm.of_visit rfl with ⟨rfl, rfl⟩ | hm
  · exact ⟨_, _, rfl, fun _ => rfl⟩
  rcases hm.of_visit rfl with ⟨rfl, rfl⟩ | hm
  · exact ⟨_, _, rfl, fun _ => rfl⟩
  cases hm

theorem twoInclusions_grounded : twoInclusions.Grounded where
  valid := ⟨(by decide : ["A", "B", "E"].Nodup), fun v => by obtain ⟨_ | _ | _ | i⟩ := v <;> rfl⟩
  reprs v hv := by obtain ⟨_ | _ | _ | i⟩ := v <;> exact hv
  mentions v hv := by
    have hnames : ∀ e ∈ twoInclusions.names.entries, e.2.id < 3 := by decide
    have hsubsets : ∀ p ∈ twoInclusions.subsets, p.1.id < 3 ∧ p.2.id < 3 := by decide
    rcases hv with ⟨e, he, rfl⟩ | ⟨p, hp, rfl | rfl⟩ | ⟨p, hp, -⟩ | he
    · exact hnames e he
    · exact (hsubsets p hp).1
    · exact (hsubsets p hp).2
    · cases hp
    · cases he

theorem twoEdges_grounded : (twoEdges ⟨2⟩ ⟨2⟩).Grounded where
  sets := twoInclusions_grounded
  facts k f hk v hv := by
    obtain ⟨_ | _ | _ | _ | i⟩ := k <;> cases hk
    · cases hv
    · cases hv
    · rw [mem_singleton.1 hv]
      exact Nat.lt_succ_self 2
    · rw [mem_singleton.1 hv]
      exact Nat.lt_succ_self 2

/-- The guess for the set that two edges lead into is bound to the set of the last one, and the first
    one leads outside of it. -/
theorem fold_twoEdges_refused : (twoEdges ⟨0⟩ ⟨1⟩).fold graphs (.ptr ⟨0⟩) .edges none [] =
    .error (.mismatch ⟨some ⟨2⟩, .outside "B"⟩) := by
  let cfg : Setting := ⟨graphs, [], ⟨0⟩, .edges⟩
  let guess : Params := ⟨[], [⟨3⟩]⟩
  let start : Folding := ⟨{ twoEdges ⟨0⟩ ⟨1⟩ with sets := twoInclusions.fresh.2 }, none, []⟩
  let st := start.takeWith ⟨0⟩ twoInclusions.fresh.2
  let st₁ := st.takeWith ⟨1⟩ twoInclusions.fresh.2
  let bound : SetStore := { twoInclusions with reprs := [⟨0⟩, ⟨1⟩, ⟨2⟩, ⟨1⟩] }
  have hroot : start.visit cfg (.inst (.ptr ⟨0⟩) .edges ⟨0⟩ guess) =
      .ok (st, [.inst (.ptr ⟨1⟩) .edges ⟨0⟩ guess, .ref (.ptr ⟨2⟩) (some ⟨3⟩)]) := rfl
  have hnext : st.visit cfg (.inst (.ptr ⟨1⟩) .edges ⟨0⟩ guess) =
      .ok (st₁, [.inst .null .edges ⟨0⟩ guess, .ref (.ptr ⟨3⟩) (some ⟨3⟩)]) := rfl
  have hnull : st₁.visit cfg (.inst .null .edges ⟨0⟩ guess) = .ok (st₁, []) := rfl
  have hbound : checkRef st₁.heap (.ptr ⟨3⟩) (some ⟨3⟩) = .ok bound := by decide +kernel
  have hrefused : checkRef { st₁.heap with sets := bound } (.ptr ⟨2⟩) (some ⟨3⟩) =
      .error (.mismatch ⟨some ⟨2⟩, .outside "B"⟩) := by decide +kernel
  have hlast : st₁.visit cfg (.ref (.ptr ⟨3⟩) (some ⟨3⟩)) =
      .ok ({ st₁ with heap := { st₁.heap with sets := bound } }, []) := by
    rw [visit, hbound]
    rfl
  have hfirst : visit cfg { st₁ with heap := { st₁.heap with sets := bound } }
      (.ref (.ptr ⟨2⟩) (some ⟨3⟩)) = .error (.mismatch ⟨some ⟨2⟩, .outside "B"⟩) := by
    rw [visit, hrefused]
    rfl
  have hp : (twoEdges ⟨0⟩ ⟨1⟩).chooseParams ⟨0⟩ .edges ⟨[0], none, [], [(1, ⟨1⟩)]⟩ none =
      .ok (guess, twoInclusions.fresh.2) := rfl
  refine fold_refused rfl rfl rfl hp ?_
  exact (absorb_cons hroot).trans ((absorb_cons hnext).trans ((absorb_cons hnull).trans
    ((absorb_cons hlast).trans (absorb_refused hfirst))))

end Sample

namespace Heap

/-- Two edges to members of one set fold with this set, and without parameters. -/
theorem fold_without_params_twoEdges :
    (∃ r, (Sample.twoEdges ⟨2⟩ ⟨2⟩).fold Sample.graphs (.ptr ⟨0⟩) .edges (some ⟨[], [⟨2⟩]⟩) [] = .ok r) ∧
    ∃ r, (Sample.twoEdges ⟨2⟩ ⟨2⟩).fold Sample.graphs (.ptr ⟨0⟩) .edges none [] = .ok r := by
  have hset : Sample.twoInclusions.isSubset ⟨2⟩ ⟨2⟩ = true := rfl
  obtain ⟨r, hr⟩ := Sample.exists_fold_twoEdges hset hset
  refine ⟨⟨r, hr⟩, (fold_without_params hr).2.2 Sample.twoEdges_grounded ?_ ?_⟩
  · intro v hv
    rw [mem_singleton.1 hv]
    exact Nat.lt_succ_self 2
  · intro loc hloc
    cases hloc
    exact Sample.twoEdges_guessable

/-- Two edges to members of two sets fold with a set that includes both, but not without parameters:
    the guess is bound to one of the two sets. -/
theorem fold_guess_too_small :
    (∃ r, (Sample.twoEdges ⟨0⟩ ⟨1⟩).fold Sample.graphs (.ptr ⟨0⟩) .edges (some ⟨[], [⟨2⟩]⟩) [] = .ok r) ∧
    (Sample.twoEdges ⟨0⟩ ⟨1⟩).fold Sample.graphs (.ptr ⟨0⟩) .edges none [] =
      .error (.mismatch ⟨some ⟨2⟩, .outside "B"⟩) :=
  ⟨Sample.exists_fold_twoEdges (by decide +kernel) (by decide +kernel), Sample.fold_twoEdges_refused⟩

end Heap

end HeapShape
