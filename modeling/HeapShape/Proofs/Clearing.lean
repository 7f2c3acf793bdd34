import HeapShape.Heap.Fold
import HeapShape.Proofs.HeapView
import HeapShape.Proofs.Outcomes

/-!
# Searches that go through

How a search for a structure goes is told of the heap that it starts from: which facts meet its
goals, in which order, and how the constraints change on the way. The locations in this order have
to be different, since each is taken once. Then the search takes exactly these facts.

* `Folding.Clears`: a part of a search, from some goals to those that are left;
* `Folding.Takes`: what a search did, seen from outside;
* `Folding.Clears.absorb`: a search does what a part of it says;
* `Heap.gather_eq_ok`: a structure is taken out by a search that goes through;
* `Heap.fold_of_clears`: where no goals are left the fold succeeds, and puts the summary in the place
  of the structure.
-/

namespace HeapShape

open List

namespace Folding

/-- A part of a search: from some goals to those that are left, it takes the facts of a heap about
    some locations in this order, the constraints change from `s` to `s'`, and at most one stop
    becomes the hole. -/
inductive Clears (cfg : Setting) (h : Heap) :
    SetStore → List Goal → List Loc → Option Hole → SetStore → List Goal → Prop
  | nil {s : SetStore} {goals : List Goal} : Clears cfg h s goals [] none s goals
  | null {s s₁ s' : SetStore} {goals left : List Goal} {locs : List Loc} {o : Option Hole}
      {pred : Predicate} {ty : StructId} {params : Params}
      (hb : pred.baseCase params s = some s₁) (tail : Clears cfg h s₁ goals locs o s' left) :
      Clears cfg h s (.inst .null pred ty params :: goals) locs o s' left
  | nullRef {s s' : SetStore} {goals left : List Goal} {locs : List Loc} {o : Option Hole}
      {set : Option SetVar} (tail : Clears cfg h s goals locs o s' left) :
      Clears cfg h s (.ref .null set :: goals) locs o s' left
  | member {s s' : SetStore} {goals left : List Goal} {locs : List Loc} {o : Option Hole}
      {loc : Loc} {own set : SetVar} {ty : StructId} (hs : h.slot loc = .occupied (.member own ty))
      (hsub : s.isSubset own set = true) (tail : Clears cfg h s goals locs o s' left) :
      Clears cfg h s (.ref (.ptr loc) (some set) :: goals) locs o s' left
  | stop {s s' : SetStore} {goals left : List Goal} {locs : List Loc} {loc : Loc} {ty : StructId}
      {params : Params} (hroot : loc ≠ cfg.root) (hloc : loc ∈ cfg.stops)
      (tail : Clears cfg h s goals locs none s' left) :
      Clears cfg h s (.inst (.ptr loc) cfg.pred ty params :: goals) locs (some ⟨.ptr loc, params⟩) s' left
  | fact {s s₁ s' : SetStore} {goals new left : List Goal} {locs : List Loc} {o : Option Hole}
      {loc : Loc} {pred : Predicate} {ty : StructId} {params : Params} {f : Fact}
      (hs : h.slot loc = .occupied f) (hfree : loc ≠ cfg.root → loc ∉ cfg.stops)
      (hm : meet cfg.structs s loc f pred ty params = .ok (s₁, new))
      (tail : Clears cfg h s₁ (new ++ goals) locs o s' left) :
      Clears cfg h s (.inst (.ptr loc) pred ty params :: goals) (loc :: locs) o s' left

/-- A search took the facts about some locations and left all others. -/
structure Takes (locs : List Loc) (st st' : Folding) : Prop where
  size : st'.heap.size = st.heap.size
  slot : ∀ k, st'.heap.slot k = if k ∈ locs then .vacant else st.heap.slot k
  visited : ∀ k, k ∈ st'.visited ↔ k ∈ locs ∨ k ∈ st.visited

/-- What a search has left of a heap: it took no member of a set, and none of what it did not
    take has changed. -/
structure Leaves (h : Heap) (st : Folding) : Prop where
  slot : ∀ k, k ∉ st.visited → st.heap.slot k = h.slot k
  members : ∀ k set ty, h.slot k = .occupied (.member set ty) → k ∉ st.visited

variable {cfg : Setting} {h : Heap} {s s₁ s' : SetStore} {st st' : Folding} {goals left : List Goal}
  {locs : List Loc} {o : Option Hole} {loc : Loc} {pred : Predicate} {ty : StructId} {params : Params}

/-- One part of a search after another, where at most one of them meets a stop. -/
theorem Clears.trans {goals₁ : List Goal} {locs' : List Loc} {o' : Option Hole}
    (hc : Clears cfg h s goals locs o s₁ goals₁) (hc' : Clears cfg h s₁ goals₁ locs' o' s' left)
    (ho : o = none ∨ o' = none) : Clears cfg h s goals (locs ++ locs') (o.or o') s' left := by
  induction hc with
  | nil => exact hc'
  | null hb _ ih => exact .null hb (ih hc' ho)
  | nullRef _ ih => exact .nullRef (ih hc' ho)
  | member hs hsub _ ih => exact .member hs hsub (ih hc' ho)
  | stop hroot hloc _ ih =>
    have hnone : o' = none := ho.resolve_left (Option.some_ne_none _)
    subst hnone
    exact .stop hroot hloc (ih hc' (.inl rfl))
  | fact hs hfree hm _ ih => exact .fact hs hfree hm (ih hc' ho)

namespace Takes

theorem refl (ha : st'.heap.arena = st.heap.arena) (hv : st'.visited = st.visited) :
    Takes [] st st' where
  size := congrArg Arena.size ha
  slot k := by
    rw [if_neg not_mem_nil]
    exact congrArg (·.slot k.index) ha
  visited k := by rw [hv, or_iff_right not_mem_nil]

theorem trans {locs' : List Loc} {st'' : Folding} (ht : Takes locs st st') (ht' : Takes locs' st' st'') :
    Takes (locs ++ locs') st st'' where
  size := ht'.size.trans ht.size
  slot k := by
    rw [ht'.slot, ht.slot]
    simp only [mem_append]
    split <;> split <;> simp_all
  visited k := by
    rw [ht'.visited, ht.visited, mem_append]
    tauto

theorem takeWith (st : Folding) (loc : Loc) (sets : SetStore) : Takes [loc] st (st.takeWith loc sets) where
  size := Heap.size_write (h := st.heap) _
  slot k := by
    rw [show (st.takeWith loc sets).heap.slot k = (st.heap.write loc .vacant).slot k from rfl,
      Heap.slot_write_vacant]
    simp only [mem_singleton]
  visited k := by rw [Folding.takeWith, mem_cons, mem_singleton]

/-- What was not taken is as it was. -/
theorem slot_of_unvisited (ht : Takes locs st st')
    (hslot : ∀ k, k ∉ st.visited → st.heap.slot k = h.slot k) {k : Loc} (hk : k ∉ st'.visited) :
    st'.heap.slot k = h.slot k := by
  rw [ht.visited, not_or] at hk
  rw [ht.slot, if_neg hk.1, hslot k hk.2]

/-- What is left after facts were taken of which none is a member of a set. -/
theorem leaves (ht : Takes locs st st') (hl : Leaves h st)
    (hm : ∀ k ∈ locs, ∀ set ty, h.slot k ≠ .occupied (.member set ty)) : Leaves h st' where
  slot _ hk := ht.slot_of_unvisited hl.slot hk
  members k set ty hs hk := by
    rcases (ht.visited k).1 hk with hk | hk
    · exact hm k hk set ty hs
    · exact hl.members k set ty hs hk

end Takes

/-- Sets that are aliases already stay as they are. -/
theorem unifySets_of_aliases {as bs : List SetVar} (h : as.map s.resolve = bs.map s.resolve) :
    unifySets loc as bs s = .ok s := by
  induction as generalizing bs with
  | nil => rfl
  | cons a as ih =>
    cases bs with
    | nil => rfl
    | cons b bs =>
      obtain ⟨hab, h⟩ := List.cons.inj h
      have hu : s.unify a b = .ok (some s) := if_pos hab
      rw [unifySets, hu]
      exact ih h

/-- A summary with the parameters that are expected, up to aliases, leaves its hole to be found. -/
theorem meetSummary_of_aliases (s : SetStore) (loc : Loc) (pred : Predicate) (ty : StructId)
    {p q : Params} (hole : Option Hole) (hptrs : p.ptrs = q.ptrs)
    (hsets : p.sets.map s.resolve = q.sets.map s.resolve) :
    meetSummary s loc ⟨pred, ty, p, hole⟩ pred ty q =
      .ok (s, hole.toList.map fun o => .inst o.value pred ty o.params) := by
  have hlen : p.sets.length = q.sets.length := by simpa using congrArg List.length hsets
  have hmatch : matchParams loc p q s = .ok s := by
    rw [matchParams, if_neg (not_not_intro hptrs), if_neg (not_not_intro hlen),
      unifySets_of_aliases hsets]
  simp only [meetSummary, ne_eq, not_true, or_self, if_false, hmatch]
  rfl

/-- A search goes through a summary with the parameters that are expected, up to aliases, and on to
    its hole. -/
theorem clears_summary {q : Summary} (hs : h.slot loc = .occupied (.summary q))
    (hfree : loc ≠ cfg.root → loc ∉ cfg.stops) (hptrs : q.params.ptrs = params.ptrs)
    (hsets : q.params.sets.map s.resolve = params.sets.map s.resolve) (hhole : ∀ o, q.hole = some o →
      q.pred = cfg.pred ∧ ∃ m, o.value = .ptr m ∧ m ≠ cfg.root ∧ m ∈ cfg.stops) :
    Clears cfg h s (.inst (.ptr loc) q.pred q.ty params :: goals) [loc] q.hole s goals := by
  obtain ⟨pred, ty, p, hole⟩ := q
  refine .fact hs hfree (meetSummary_of_aliases s loc pred ty hole hptrs hsets) ?_
  cases hole with
  | none => exact .nil
  | some o =>
    obtain ⟨hp, m, hm, hroot, hstop⟩ := hhole o rfl
    obtain ⟨value, oparams⟩ := o
    cases hp
    cases hm
    exact .stop hroot hstop .nil

/-- A location that is no stop, or is the root, is entered. -/
theorem visit_ptr (hfree : loc ≠ cfg.root → loc ∉ cfg.stops) :
    st.visit cfg (.inst (.ptr loc) pred ty params) = st.enter cfg loc pred ty params :=
  if_neg fun hs => hfree hs.1 hs.2

/-- No member of a set meets a goal. -/
theorem not_member_of_meet {structs : Structs} {f : Fact} {r : SetStore × List Goal}
    (hm : meet structs s loc f pred ty params = .ok r) (set : SetVar) (ty' : StructId) :
    f ≠ .member set ty' := by
  rintro rfl
  cases hm

/-- A search does what a part of it says, and goes on with the goals that are left. -/
theorem Clears.absorb (hc : Clears cfg h s goals locs o s' left) (hn : locs.Nodup) (hl : Leaves h st)
    (hsets : st.heap.sets = s) (hnew : ∀ k ∈ locs, k ∉ st.visited) (ho : o = none ∨ st.hole = none) :
    ∃ st', st.absorb cfg goals = st'.absorb cfg left ∧ Takes locs st st' ∧
      st'.heap.sets = s' ∧ st'.hole = o.or st.hole := by
  induction hc generalizing st with
  | nil => exact ⟨st, rfl, .refl rfl rfl, hsets, rfl⟩
  | @null s s₁ s' goals left locs o pred ty params hb tail ih =>
    have hv : st.visit cfg (.inst .null pred ty params) =
        .ok ({ st with heap := { st.heap with sets := s₁ } }, []) := by
      rw [visit, hsets, hb]
    have hl' : Leaves h { st with heap := { st.heap with sets := s₁ } } := ⟨hl.slot, hl.members⟩
    obtain ⟨st', hrun, ht, hs', ho'⟩ := ih hn hl' rfl hnew ho
    exact ⟨st', (absorb_cons hv).trans hrun, ⟨ht.size, ht.slot, ht.visited⟩, hs', ho'⟩
  | nullRef tail ih =>
    obtain ⟨st', hrun, ht⟩ := ih hn hl hsets hnew ho
    exact ⟨st', (absorb_cons rfl).trans hrun, ht⟩
  | @member s s' goals left locs o loc own set ty hs hsub tail ih =>
    have hv : st.visit cfg (.ref (.ptr loc) (some set)) = .ok (st, []) := by
      have hin : inside st.heap loc set = .ok (some st.heap.sets) := by
        rw [inside, hl.slot loc (hl.members loc own ty hs), hs]
        exact if_pos (hsets.symm ▸ hsub)
      rw [visit, checkRef, hin]
      rfl
    obtain ⟨st', hrun, ht⟩ := ih hn hl hsets hnew ho
    exact ⟨st', (absorb_cons hv).trans hrun, ht⟩
  | @stop s s' goals left locs loc ty params hroot hloc tail ih =>
    have hnone : st.hole = none := ho.resolve_left (Option.some_ne_none _)
    have hv : st.visit cfg (.inst (.ptr loc) cfg.pred ty params) =
        .ok ({ st with hole := some ⟨.ptr loc, params⟩ }, []) := by
      rw [visit, if_pos ⟨hroot, hloc⟩, if_pos ⟨rfl, hnone⟩]
    have hl' : Leaves h { st with hole := some ⟨.ptr loc, params⟩ } := ⟨hl.slot, hl.members⟩
    obtain ⟨st', hrun, ht, hs', ho'⟩ := ih hn hl' hsets hnew (.inl rfl)
    exact ⟨st', (absorb_cons hv).trans hrun, ⟨ht.size, ht.slot, ht.visited⟩, hs', ho'⟩
  -- A fact was taken: the rest of the search starts from what is left without it.
  | @fact s s₁ s' goals new left locs o loc pred ty params f hs hfree hm tail ih =>
    obtain ⟨hloc, hn⟩ := nodup_cons.1 hn
    have hold := hnew loc (.head _)
    have hv : st.visit cfg (.inst (.ptr loc) pred ty params) = .ok (st.takeWith loc s₁, new) := by
      rw [visit_ptr hfree, enter_eq_meet hold ((hl.slot loc hold).trans hs), hsets, hm]
      rfl
    have hl' : Leaves h (st.takeWith loc s₁) := (Takes.takeWith st loc s₁).leaves hl fun k hk set ty he => by
      rw [mem_singleton.1 hk, hs] at he
      exact not_member_of_meet hm set ty (Arena.Slot.occupied.inj he)
    have hnew' (k : Loc) (hk : k ∈ locs) : k ∉ loc :: st.visited := by
      rw [mem_cons, not_or]
      exact ⟨fun he => hloc (he ▸ hk), hnew k (.tail _ hk)⟩
    obtain ⟨st', hrun, ht, hs', ho'⟩ := ih hn hl' rfl hnew' ho
    exact ⟨st', (absorb_cons hv).trans hrun, (Takes.takeWith st loc s₁).trans ht, hs', ho'⟩

end Folding

namespace Heap

open Folding

variable {structs : Structs} {h h' : Heap} {loc : Loc} {pred : Predicate} {ty : StructId}
  {layout : Layout} {params : Option Params} {p : Params} {sets : SetStore} {stops : List Loc}

/-- A root whose structure is known was given out. -/
theorem lt_size_of_rootStruct (hty : h.rootStruct loc = .ok ty) : loc.index < h.size := by
  refine lt_size_of_slot_ne fun hv => ?_
  rw [rootStruct, hv] at hty
  cases hty

/-- The start of a search does what a part of it says. -/
theorem absorb_start {cfg : Setting} {goals left : List Goal} {locs : List Loc} {o : Option Hole}
    {s' : SetStore} (hc : Clears cfg h sets goals locs o s' left) (hn : locs.Nodup) :
    ∃ st, absorb cfg ⟨{ h with sets }, none, []⟩ goals = st.absorb cfg left ∧
      Takes locs ⟨{ h with sets }, none, []⟩ st ∧ st.heap.sets = s' ∧ st.hole = o := by
  have hl : Leaves h ⟨{ h with sets }, none, []⟩ := ⟨fun _ _ => rfl, fun _ _ _ _ => not_mem_nil⟩
  obtain ⟨st, hrun, ht, hs, ho⟩ := hc.absorb hn hl rfl (fun _ _ => not_mem_nil) (.inr rfl)
  exact ⟨st, hrun, ht, hs, ho.trans Option.or_none⟩

section

variable (ha : checkArity pred params (some loc) = .ok ()) (hty : h.rootStruct loc = .ok ty)
  (hl : pred.layout? structs ty = some layout)
  (hp : h.chooseParams loc pred layout params = .ok (p, sets))
include ha hty hl hp

/-- A structure is taken out by a search from its root. -/
theorem gather_eq_absorb :
    h.gather structs loc pred params stops =
      (absorb ⟨structs, stops, loc, pred⟩ ⟨{ h with sets }, none, []⟩ [.inst (.ptr loc) pred ty p]).map
        fun st => (⟨pred, ty, st.heap.resolveParams p,
          st.hole.map fun o => { o with params := st.heap.resolveParams o.params }⟩, st.heap) := by
  have hv : Folding.visit ⟨structs, stops, loc, pred⟩ ⟨{ h with sets }, none, []⟩
      (.inst (.ptr loc) pred ty p) = Folding.enter ⟨structs, stops, loc, pred⟩
        ⟨{ h with sets }, none, []⟩ loc pred ty p := visit_ptr fun hne => absurd rfl hne
  simp only [gather, ha, hty, hl, hp, bind, Except.bind, pure, Except.pure]
  rw [← hv]
  rcases he : Folding.visit ⟨structs, stops, loc, pred⟩ ⟨{ h with sets }, none, []⟩
      (.inst (.ptr loc) pred ty p) with e | ⟨st, goals⟩
  · rw [absorb_refused he]
    rfl
  · rw [absorb_cons he, append_nil]
    simp only
    cases st.absorb ⟨structs, stops, loc, pred⟩ goals <;> rfl

/-- Where a search from the root goes through, the fold puts the summary in the place of the
    structure: its root has the summary, and its other locations have no facts any more. -/
theorem fold_of_clears {locs : List Loc} {o : Option Hole} {s' : SetStore}
    (hc : Clears ⟨structs, stops, loc, pred⟩ h sets [.inst (.ptr loc) pred ty p] locs o s' [])
    (hn : locs.Nodup) :
    ∃ h', h.fold structs (.ptr loc) pred params stops =
        .ok (h', o.map fun o => { o with params := h'.resolveParams o.params }) ∧
      h'.size = h.size ∧ h'.sets = s' ∧
      ∀ k, h'.slot k = if k = loc then .occupied (.summary ⟨pred, ty, h'.resolveParams p,
          o.map fun o => { o with params := h'.resolveParams o.params }⟩)
        else if k ∈ locs then .vacant else h.slot k := by
  obtain ⟨st, hrun, ht, hs, ho⟩ := absorb_start hc hn
  rw [absorb] at hrun
  have hloc : loc.index < st.heap.size := ht.size ▸ lt_size_of_rootStruct hty
  refine ⟨st.heap.write loc (.occupied (.summary ⟨pred, ty, st.heap.resolveParams p,
    o.map fun o => { o with params := st.heap.resolveParams o.params }⟩)), ?_, ?_, hs, fun k => ?_⟩
  · simp only [fold, gather_eq_absorb ha hty hl hp, hrun, ho, Except.map, bind, Except.bind]
    rfl
  · rw [size_write, ht.size]
    rfl
  · rw [slot_write hloc, ht.slot]
    rfl

/-- Where a search from the root is refused, the fold is refused for the same reason. -/
theorem fold_refused {e : Refusal}
    (he : absorb ⟨structs, stops, loc, pred⟩ ⟨{ h with sets }, none, []⟩ [.inst (.ptr loc) pred ty p] =
      .error e) : h.fold structs (.ptr loc) pred params stops = .error e := by
  rw [fold, gather_eq_absorb ha hty hl hp, he]
  rfl

end

/-- What is asked of the root of a structure, and the search for the structure from there. -/
structure Search (structs : Structs) (stops : List Loc) (h : Heap) (loc : Loc) (pred : Predicate)
    (params : Option Params) (ty : StructId) (layout : Layout) (p : Params) (sets : SetStore)
    (st : Folding) : Prop where
  arity : checkArity pred params (some loc) = .ok ()
  struct : h.rootStruct loc = .ok ty
  laid : pred.layout? structs ty = some layout
  chosen : h.chooseParams loc pred layout params = .ok (p, sets)
  found : absorb ⟨structs, stops, loc, pred⟩ ⟨{ h with sets }, none, []⟩ [.inst (.ptr loc) pred ty p] =
    .ok st

/-- A structure is taken out if the search for it goes through. -/
theorem gather_eq_ok {s : Summary} (hg : h.gather structs loc pred params stops = .ok (s, h')) :
    ∃ ty layout p sets st, h.Search structs stops loc pred params ty layout p sets st ∧
      s = ⟨pred, ty, st.heap.resolveParams p,
        st.hole.map fun o => { o with params := st.heap.resolveParams o.params }⟩ ∧ h' = st.heap := by
  obtain ⟨ty, layout, p, sets, st₁, goals, st, harity, hty, hlayout, hp, henter, habsorb, rfl, rfl⟩ :=
    gather_steps hg
  refine ⟨ty, layout, p, sets, st, ⟨harity, hty, hlayout, hp, ?_⟩, rfl, rfl⟩
  rw [absorb_cons ((visit_ptr fun hne => absurd rfl hne).trans henter), append_nil]
  exact habsorb

/-- A fold without a hole and without stops is a check that succeeds. -/
theorem check_of_fold {root : Value} (hf : h.fold structs root pred params [] = .ok (h', none)) :
    h.check structs root pred params = .ok h' := by
  rw [check, hf]
  rfl

theorem check_refused {root : Value} {e : Refusal} (hf : h.fold structs root pred params [] = .error e) :
    h.check structs root pred params = .error e := by
  rw [check, hf]
  rfl

end Heap

end HeapShape
