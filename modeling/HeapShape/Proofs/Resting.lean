import HeapShape.Proofs.CutPoints
import HeapShape.Proofs.Walks

/-!
# Widening comes to rest

A fold that is refused might become possible when the heap around it changes. In widening of heaps
without sets it does not. What a move puts into a heap is a summary that stands for the facts it took
away, so a search through the summary could have gone through these facts as well. And a segment that
found nothing to take over at its hole finds nothing later.

So a location where nothing more is to be done stays so, whatever is done elsewhere. As each location
is left in this state, and all that a run comes to is visited, another run changes nothing.

This needs that a segment takes over only what is of its own structure.

* `Heap.Plain`: heaps without sets whose segments take over only their own structure;
* `Heap.Abridges`, `Heap.Abridges.replays`: a summary stands for some facts, and searches in the
  heap with the summary are searches in the heap with these facts;
* `Heap.AtRest`, `Heap.Develops.atRest`: nothing is to be done at a location, and this persists;
* `Heap.Explored`, `Heap.exists_explored`: what a run of widening has visited, and at its end;
* `Heap.Explored.widenAll`: a run that changes nothing.
-/

namespace HeapShape

open List Folding Relation

/-! ### Heaps without sets -/

/-- A heap without sets, where no segment can be taken for one of another structure. -/
structure Heap.Plain (structs : Structs) (cuts : List Loc) (h : Heap) : Prop where
  setFree : h.SetFree
  matched : ∀ k s, h.slot k = .occupied (.summary s) → (s.pred.layout? structs s.ty).isSome →
    s.Matched structs cuts h

namespace Heap

variable {structs : Structs} {cuts : List Loc} {h h₁ h' : Heap} {loc next k : Loc} {s rest : Summary}
  {params : Params} {locs : List Loc}

theorem SetFree.forget (hfree : h.SetFree) (hf : h.Forgets h') : h'.SetFree :=
  fun k f hs => hfree k f (hf.occupied hs)

theorem Plain.forget (hp : h.Plain structs cuts) (hf : h.Forgets h') : h'.Plain structs cuts where
  setFree := hp.setFree.forget hf
  matched k s hs hl next params c ho hcut hc :=
    hp.matched k s (hf.occupied hs) hl next params c ho hcut (hf.occupied hc)

/-! ### Searches in a changed heap -/

/-- Every walk over different locations of the second heap can be made in the first one. -/
def Replays (structs : Structs) (cuts : List Loc) (h h' : Heap) : Prop :=
  ∀ pred ty, (pred.layout? structs ty).isSome → ∀ goals locs holes whole,
    Walks structs cuts h' pred ty goals locs holes whole → locs.Nodup →
    ∃ locs', Walks structs cuts h pred ty goals locs' holes whole ∧ locs'.Nodup

theorem Forgets.replays (hf : h.Forgets h') : h.Replays structs cuts h' :=
  fun _ _ _ _ locs _ _ hw hn => ⟨locs, hw.mono hf, hn⟩

/-- A summary may come out of what is at a location: out of a record that can be folded, or out of a
    summary that it differs from in its hole. -/
def GivesRise (structs : Structs) (cuts : List Loc) (h : Heap) (loc : Loc) (s : Summary) : Prop :=
  (∃ c, h.slot loc = .occupied (.cell c) ∧
    ∀ e, h.gather structs loc s.pred (some s.params) cuts ≠ .error (.mismatch e)) ∨
  ∃ o, h.slot loc = .occupied (.summary { s with hole := o })

/-- A heap where a summary at a location stands for the facts about some locations. -/
structure Abridges (structs : Structs) (cuts : List Loc) (h : Heap) (loc : Loc) (s : Summary)
    (locs : List Loc) (h' : Heap) : Prop where
  size : h'.size = h.size
  slot : ∀ k, h'.slot k = if k = loc then .occupied (.summary s) else
    if k ∈ locs then .vacant else h.slot k
  root : loc ∈ locs
  nodup : locs.Nodup
  sets : (Fact.summary s).sets = []
  matched : (s.pred.layout? structs s.ty).isSome → s.Matched structs cuts h
  spans : (s.pred.layout? structs s.ty).isSome → loc ∉ cuts → ∀ params : Params,
    params.ptrs = s.params.ptrs → params.sets = [] →
    Spans structs cuts h s.pred s.ty loc params locs s.hole
  rise : h.GivesRise structs cuts loc s

namespace Abridges

variable (ha : h.Abridges structs cuts loc s locs h')

include ha

/-- What is not the summary was there before. -/
theorem occupied_cases {f : Fact} (hs : h'.slot k = .occupied f) :
    k = loc ∧ f = .summary s ∨ h.slot k = .occupied f ∧ k ∉ locs := by
  rw [ha.slot] at hs
  split at hs
  · exact .inl ⟨‹_›, (Arena.Slot.occupied.inj hs).symm⟩
  · split at hs
    · cases hs
    · exact .inr ⟨hs, ‹_›⟩

theorem slot_root : h'.slot loc = .occupied (.summary s) := by
  rw [ha.slot, if_pos rfl]

/-- A walk goes over the facts instead of the summary that stands for them. -/
theorem exists_walks {pred : Predicate} {ty : StructId} (hl : (pred.layout? structs ty).isSome)
    {goals : List Goal} {locs' : List Loc} {holes : List Hole} {whole : Bool}
    (hw : Walks structs cuts h' pred ty goals locs' holes whole) (hn : locs'.Nodup) :
    ∃ locs'', Walks structs cuts h pred ty goals locs'' holes whole ∧ locs''.Nodup ∧
      ∀ k ∈ locs'', k ∈ locs' ∨ loc ∈ locs' ∧ k ∈ locs := by
  induction hw with
  | done => exact ⟨[], .done, .nil, forall_mem_nil _⟩
  | missing => exact ⟨[], .missing, .nil, forall_mem_nil _⟩
  | null tail ih =>
    obtain ⟨locs'', hw, hrest⟩ := ih hn
    exact ⟨locs'', .null hw, hrest⟩
  | stop hcut hsets tail ih =>
    obtain ⟨locs'', hw, hrest⟩ := ih hn
    exact ⟨locs'', .stop hcut hsets hw, hrest⟩
  | @fact goals new locs' holes whole k params f hcut hs ho tail ih =>
    obtain ⟨hk, hn⟩ := nodup_cons.1 hn
    obtain ⟨locs'', hw, hn'', hmem⟩ := ih hn
    obtain ⟨rfl, rfl⟩ | ⟨hs', hlocs⟩ := ha.occupied_cases hs
    · -- the rest of the walk does not come to the facts that the summary stands for
      obtain ⟨rfl, rfl, hptrs, hlen, -, hnew⟩ := meetSummary_eq_ok (ho .empty)
      have hin (j : Loc) (hj : j ∈ locs'') : j ∈ locs' := (hmem j hj).resolve_right fun hr => hk hr.1
      have hdisj (j : Loc) (hj : j ∈ locs) (hj' : j ∈ locs'') : False := by
        obtain ⟨f, hf⟩ := tail.occupied (hin j hj')
        exact (ha.occupied_cases hf).elim (fun he => hk (he.1 ▸ hin j hj')) fun hr => hr.2 hj
      have hsets : params.sets = [] := by
        rw [(append_eq_nil_iff.1 ha.sets).1] at hlen
        exact eq_nil_of_length_eq_zero hlen.symm
      obtain rfl : new = s.hole.toList.map (Hole.goal s.pred s.ty) := hnew
      refine ⟨locs ++ locs'', ha.spans hl hcut params hptrs.symm hsets _ _ _ _ hw,
        nodup_append'.2 ⟨ha.nodup, hn'', hdisj⟩, fun j hj => ?_⟩
      rcases mem_append.1 hj with hj | hj
      · exact .inr ⟨.head _, hj⟩
      · exact .inl (.tail _ (hin j hj))
    · refine ⟨k :: locs'', .fact hcut hs' ho hw, nodup_cons.2 ⟨fun hj => ?_, hn''⟩, ?_⟩
      · exact (hmem k hj).elim hk fun hr => hlocs hr.2
      · refine forall_mem_cons.2 ⟨.inl (.head _), fun j hj => ?_⟩
        exact (hmem j hj).imp (.tail _) fun hr => ⟨.tail _ hr.1, hr.2⟩
  | @short goals k params f hcut hs hf =>
    obtain ⟨rfl, rfl⟩ | ⟨hs', -⟩ := ha.occupied_cases hs
    · -- a summary lacks no field
      obtain ⟨m, hm⟩ := hf .empty
      rcases meetSummary_plain ha.sets k pred ty params with hr | ⟨ho, -⟩
      · obtain ⟨e, he⟩ := hr .empty
        cases hm.symm.trans he
      · cases hm.symm.trans (ho .empty)
    · exact ⟨[k], .short hcut hs' hf, nodup_singleton _, fun j hj => .inl hj⟩

theorem replays : h.Replays structs cuts h' := by
  intro pred ty hl goals locs' holes whole hw hn
  obtain ⟨locs'', hw', hn', -⟩ := ha.exists_walks hl hw hn
  exact ⟨locs'', hw', hn'⟩

theorem plain (hp : h.Plain structs cuts) : h'.Plain structs cuts := by
  have hcell {k : Loc} {c : Cell} (hc : h'.slot k = .occupied (.cell c)) : h.slot k = .occupied (.cell c) :=
    (ha.occupied_cases hc).elim (fun he => Fact.noConfusion he.2) And.left
  refine ⟨fun k f hs => ?_, fun k s' hs hl next params c ho hcut hc => ?_⟩
  · obtain ⟨-, rfl⟩ | ⟨hs, -⟩ := ha.occupied_cases hs
    · exact ha.sets
    · exact hp.setFree k f hs
  · obtain ⟨-, he⟩ | ⟨hs, -⟩ := ha.occupied_cases hs
    · cases he
      exact ha.matched hl next params c ho hcut (hcell hc)
    · exact hp.matched k s' hs hl next params c ho hcut (hcell hc)

end Abridges

/-! ### Moves -/

/-- A summary whose hole is at a cut is not taken for one of another structure. -/
theorem matched_of_stop (hs : ∀ o, s.hole = some o → ∃ k ∈ cuts, o.value = .ptr k) :
    s.Matched structs cuts h := by
  intro next params c ho hcut
  obtain ⟨k, hk, hv⟩ := hs _ ho
  cases hv
  exact absurd hk hcut

/-- What a segment goes on with at its hole: facts that lead to another hole. -/
structure Continued (structs : Structs) (cuts : List Loc) (h : Heap) (s : Summary) (next : Loc)
    (params : Params) (hole : Option Hole) (locs : List Loc) (h₁ : Heap) : Prop where
  size : h₁.size = h.size
  store : h₁.sets = h.sets
  slot : ∀ k, h₁.slot k = if k ∈ locs then .vacant else h.slot k
  nodup : locs.Nodup
  sets : ∀ o ∈ hole.toList, o.params.sets = []
  matched : (s.pred.layout? structs s.ty).isSome → Summary.Matched structs cuts h { s with hole }
  spans : (s.pred.layout? structs s.ty).isSome →
    Spans structs cuts h s.pred s.ty next params locs hole

/-- A segment goes on with a structure at its hole, or with the segment there. -/
theorem exists_continued (hg : structs.Graphless) (hp : h.Plain structs cuts)
    (hs : h.slot loc = .occupied (.summary s)) (ho : s.hole = some ⟨.ptr next, params⟩)
    (hcut : next ∉ cuts) (ht : h.takeRest structs cuts s next params = .ok (some (rest, h₁))) :
    ∃ locs, h.Continued structs cuts s next params rest.hole locs h₁ := by
  rcases takeRest_eq_some ht with ⟨c, hc, hgather⟩ | ⟨hrest, hpred, hty, rfl, rfl⟩
  · obtain ⟨_, _, _, _, _, hsearch, -⟩ := gather_eq_ok hgather
    have hkind := hg.kind (Option.isSome_of_eq_some hsearch.laid)
    obtain ⟨layout, p, o, locs, hw, rfl, hsize, hstore, hslot⟩ :=
      exists_walk_of_gather hc hkind hp.setFree hcut hgather
    obtain rfl : params = p := congrArg Prod.fst (Except.ok.inj hw.chosen)
    refine ⟨locs, hsize, hstore, hslot, hw.nodup, fun o ho => (hw.walks.hole_at ho).2, fun _ => ?_, fun hl => ?_⟩
    · exact matched_of_stop fun o ho => (hw.walks.hole_at (Option.mem_toList.2 ho)).1
    · -- the record is laid out for the segment, so it is of its structure
      rcases hp.matched loc s hs hl next params c ho hcut hc with hty | hnone
      · exact .of_walks (hty ▸ hw.walks)
      · cases hnone.symm.trans hw.laid
  · have hsets := hp.setFree next _ hrest
    obtain ⟨hparams, hhole⟩ := append_eq_nil_iff.1 hsets
    refine ⟨[next], size_write _, rfl, fun k => ?_, nodup_singleton _,
      flatMap_eq_nil_iff.1 hhole, fun hl next' params' c ho' => ?_, fun _ => ?_⟩
    · rw [slot_write_vacant]
      simp only [mem_singleton]
    · have hm := hp.matched next rest hrest (by rwa [hpred, hty]) next' params' c ho'
      rwa [hpred, hty] at hm
    · rw [← hpred, ← hty]
      exact .of_summary hcut hrest hsets rfl hparams

/-- A move puts a summary in the place of facts that it stands for, or only forgets facts. -/
theorem Moves.forgets_or_abridges (hg : structs.Graphless) (hp : h.Plain structs cuts)
    (hm : Moves structs cuts loc h h') :
    h.Forgets h' ∨ ∃ s locs, h.Abridges structs cuts loc s locs h' := by
  cases hm with
  | @fold c p s h₁ hs hcut hmem hgather =>
    have hkind := hg.candidates hmem
    obtain ⟨layout, q, o, locs, hw, rfl, hsize, -, hslot⟩ :=
      exists_walk_of_gather hs hkind hp.setFree hcut hgather
    have hroom : loc.index < h₁.size := hsize ▸ lt_size_of_occupied hs
    refine .inr ⟨⟨p, c.ty, q, o⟩, locs, (size_write _).trans hsize, fun k => ?_, hw.walks.root_mem hcut, hw.nodup, ?_,
      fun _ => ?_, fun _ _ params hptrs _ => ?_, ?_⟩
    · rw [slot_write hroom, hslot]
    · exact append_eq_nil_iff.2 ⟨hw.sets, flatMap_eq_nil_iff.2 fun o ho => (hw.walks.hole_at ho).2⟩
    · exact matched_of_stop fun o ho => (hw.walks.hole_at (Option.mem_toList.2 ho)).1
    · exact .of_ptrs hkind hcut hs hptrs hw.walks
    · exact .inl ⟨c, hs, (hw.given hkind hs).not_refused hkind hcut⟩
  | @extend s rest next params h₁ hs ho hne hcut ht =>
    obtain ⟨locs, hc⟩ := exists_continued hg hp hs ho hcut ht
    by_cases hmem : loc ∈ locs
    · -- the segment itself was taken
      have hnone : h₁.summary? loc = none := by
        rw [summary?, fact?, hc.slot, if_pos hmem]
        rfl
      refine .inl ?_
      rw [setHole, hnone]
      refine ⟨hc.size, fun k => ?_⟩
      rw [hc.slot]
      split
      · exact .inr rfl
      · exact .inl rfl
    · have hs₁ : h₁.slot loc = .occupied (.summary s) := by rw [hc.slot, if_neg hmem, hs]
      have hsets := hp.setFree loc _ hs
      refine .inr ⟨{ s with hole := rest.hole }, loc :: locs, ?_, fun k => ?_, .head _,
        nodup_cons.2 ⟨hmem, hc.nodup⟩, ?_, hc.matched, fun hl hcut' q hptrs hq => ?_, .inr ⟨s.hole, hs⟩⟩
      · rw [setHole, summary?_of_slot hs₁, size_write, hc.size]
      · by_cases he : k = loc
        · rw [if_pos he, he, slot_setHole hs₁]
        · rw [if_neg he, slot_setHole_of_ne he, hc.slot]
          simp only [mem_cons, he, false_or]
      · exact append_eq_nil_iff.2 ⟨(append_eq_nil_iff.1 hsets).1, flatMap_eq_nil_iff.2 hc.sets⟩
      · have hseg : Spans structs cuts h s.pred s.ty loc q [loc] s.hole :=
          .of_summary hcut' hs hsets hptrs hq
        rw [ho] at hseg
        exact hseg.trans (hc.spans hl)

/-- What widening makes of a heap: no search becomes possible that was refused, and a slot stays, or
    is emptied, or gets a summary that it gives rise to. -/
structure Develops (structs : Structs) (cuts : List Loc) (h h' : Heap) : Prop where
  plain : h'.Plain structs cuts
  replays : h.Replays structs cuts h'
  slot : ∀ k, h'.slot k = h.slot k ∨ h'.slot k = .vacant ∨
    ∃ s, h'.slot k = .occupied (.summary s) ∧ h.GivesRise structs cuts k s

theorem Forgets.develops (hf : h.Forgets h') (hp : h.Plain structs cuts) : h.Develops structs cuts h' where
  plain := hp.forget hf
  replays := hf.replays
  slot k := (hf.slot k).imp_right .inl

theorem Moves.develops (hm : Moves structs cuts loc h h') (hg : structs.Graphless)
    (hp : h.Plain structs cuts) : h.Develops structs cuts h' := by
  rcases hm.forgets_or_abridges hg hp with hf | ⟨s, locs, ha⟩
  · exact hf.develops hp
  · refine ⟨ha.plain hp, ha.replays, fun k => ?_⟩
    by_cases hk : k = loc
    · subst hk
      exact .inr (.inr ⟨s, ha.slot_root, ha.rise⟩)
    · exact (hm.slot_of_ne hk).imp_right fun hv => .inl hv.1

/-- A run of moves asks nothing of the constraints, and tells them nothing. -/
theorem plain_of_moves (hg : structs.Graphless) (hp : h.Plain structs cuts)
    (hm : ReflTransGen (fun h h' => ∃ loc, Moves structs cuts loc h h') h h') :
    h'.Plain structs cuts ∧ h'.sets = h.sets := by
  induction hm with
  | refl => exact ⟨hp, rfl⟩
  | @tail h₁ h' _ hmove ih =>
    obtain ⟨loc, hmove⟩ := hmove
    obtain ⟨hp₁, hsets⟩ := ih
    refine ⟨(hmove.develops hg hp₁).plain, Eq.trans ?_ hsets⟩
    cases hmove with
    | fold hs hcut hmem hgather =>
      obtain ⟨_, _, _, _, _, _, _, hstore, _⟩ :=
        exists_walk_of_gather hs (hg.candidates hmem) hp₁.setFree hcut hgather
      exact hstore
    | @extend s rest next params h₂ hs ho hne hcut ht =>
      obtain ⟨locs, hc⟩ := exists_continued hg hp₁ hs ho hcut ht
      refine Eq.trans ?_ hc.store
      rw [setHole]
      split <;> rfl

/-! ### Locations at rest -/

/-- Nothing is to be done at a location: a record there cannot be folded, and a segment there does not
    go on at its hole. -/
structure AtRest (structs : Structs) (cuts : List Loc) (h : Heap) (loc : Loc) : Prop where
  cell : ∀ c, h.slot loc = .occupied (.cell c) → loc ∉ cuts →
    ∀ p ∈ Predicate.candidates structs c.ty,
      ∃ e, h.gather structs loc p none cuts = .error (.mismatch e)
  segment : ∀ s next params, h.slot loc = .occupied (.summary s) →
    s.hole = some ⟨.ptr next, params⟩ → next ≠ loc → next ∉ cuts →
      h.takeRest structs cuts s next params = .ok none

theorem takeRest_eq_none :
    h.takeRest structs cuts s next params = .ok none ↔
      (∀ c, h.slot next = .occupied (.cell c) →
        ∃ e, h.gather structs next s.pred (some params) cuts = .error (.mismatch e)) ∧
      ∀ rest, h.slot next = .occupied (.summary rest) →
        ¬ (rest.pred = s.pred ∧ rest.ty = s.ty ∧ rest.params = params) := by
  rw [takeRest]
  rcases h.slot next with _ | (c | rest | ⟨set, ty⟩) | _
  · simp
  · rcases h.gather structs next s.pred (some params) cuts with (e | m) | r <;> simp
  · by_cases hsame : rest.pred = s.pred ∧ rest.ty = s.ty ∧ rest.params = params
    · simp [hsame]
    · simpa [if_neg hsame] using hsame
  · simp
  · simp

/-- A structure that was refused at a record is refused later. -/
theorem Develops.refused {c : Cell} {p : Predicate} {ps : Option Params} {e : Mismatch}
    (hd : h.Develops structs cuts h') (hg : structs.Graphless) (hs : h.slot loc = .occupied (.cell c))
    (hs' : h'.slot loc = .occupied (.cell c)) (hcut : loc ∉ cuts)
    (he : h.gather structs loc p ps cuts = .error (.mismatch e)) :
    ∃ e, h'.gather structs loc p ps cuts = .error (.mismatch e) := by
  by_contra hno
  rw [not_exists] at hno
  rcases hl : p.layout? structs c.ty with _ | layout
  · obtain ⟨e', he'⟩ := refused_of_unlaid hs' hl ps cuts
    exact hno e' he'
  · have hkind := hg.kind (Option.isSome_of_eq_some hl)
    obtain ⟨layout, q, locs, holes, whole, hw⟩ := exists_walk hs' hkind hd.plain.setFree hcut hno
    obtain ⟨locs', hw', hn⟩ := hd.replays p c.ty (Option.isSome_of_eq_some hl) _ _ _ _ hw.walks hw.nodup
    exact (hw.transfer hkind hs' hs hw' hn).not_refused hkind hcut e he

/-- A location at rest whose slot stays, or is emptied, stays at rest. -/
theorem Develops.atRest (hd : h.Develops structs cuts h') (hg : structs.Graphless)
    (hk : h'.slot k = h.slot k ∨ h'.slot k = .vacant) (hs : h.AtRest structs cuts k) :
    h'.AtRest structs cuts k := by
  have hsame {f : Fact} (hf : h'.slot k = .occupied f) : h.slot k = .occupied f := by
    rcases hk with hk | hk
    · rw [← hk, hf]
    · rw [hf] at hk
      cases hk
  refine ⟨fun c hc hcut p hp => ?_, fun s next params hseg ho hne hcut => ?_⟩
  · obtain ⟨e, he⟩ := hs.cell c (hsame hc) hcut p hp
    exact hd.refused hg (hsame hc) hc hcut he
  · obtain ⟨hcell, hsum⟩ := takeRest_eq_none.1 (hs.segment s next params (hsame hseg) ho hne hcut)
    refine takeRest_eq_none.2 ⟨fun c hc => ?_, fun rest hrest => ?_⟩
    · rcases hd.slot next with hn | hn | ⟨s', hn, -⟩
      · rw [hn] at hc
        obtain ⟨e, he⟩ := hcell c hc
        exact hd.refused hg hc (hn.trans hc) hcut he
      · cases hc.symm.trans hn
      · cases hc.symm.trans hn
    · rintro ⟨hpred, hty, rfl⟩
      rcases hd.slot next with hn | hn | ⟨s', hn, hrise⟩
      · exact hsum rest (hn ▸ hrest) ⟨hpred, hty, rfl⟩
      · cases hrest.symm.trans hn
      · cases hrest.symm.trans hn
        -- the record at the hole was refused, so it was not folded into this summary
        rcases hrise with ⟨c, hc, hno⟩ | ⟨o, ho'⟩
        · obtain ⟨e, he⟩ := hcell c hc
          exact hno e (hpred ▸ he)
        · exact hsum _ ho' ⟨hpred, hty, rfl⟩

/-- Moves at a location leave the others at rest. -/
theorem atRest_of_moves (hg : structs.Graphless) (hp : h.Plain structs cuts)
    (hm : ReflTransGen (Moves structs cuts loc) h h') :
    h'.Plain structs cuts ∧ ∀ k, k ≠ loc → (h'.slot k = h.slot k ∨ h'.slot k = .vacant) ∧
      (h.AtRest structs cuts k → h'.AtRest structs cuts k) := by
  induction hm with
  | refl => exact ⟨hp, fun k _ => ⟨.inl rfl, id⟩⟩
  | @tail h₁ h' _ hmove ih =>
    obtain ⟨hp₁, hrest⟩ := ih
    have hd := hmove.develops hg hp₁
    refine ⟨hd.plain, fun k hk => ?_⟩
    have hslot : h'.slot k = h₁.slot k ∨ h'.slot k = .vacant := (hmove.slot_of_ne hk).imp_right And.left
    obtain ⟨hk₁, hset⟩ := hrest k hk
    refine ⟨?_, fun hs => hd.atRest hg hslot (hset hs)⟩
    rcases hslot with he | he
    · rw [he]
      exact hk₁
    · exact .inr he

/-- Where there is no record, only a segment can have something to be done. -/
theorem atRest_of_no_cell (hc : ∀ c, h.slot loc ≠ .occupied (.cell c))
    (hseg : ∀ s next params, h.summary? loc = some s → s.hole = some ⟨.ptr next, params⟩ →
      next ≠ loc → next ∉ cuts → h.takeRest structs cuts s next params = .ok none) :
    h.AtRest structs cuts loc where
  cell c hcell := absurd hcell (hc c)
  segment s next params hs := hseg s next params (summary?_of_slot hs)

/-- A segment that is extended is at rest in the end. -/
theorem atRest_of_extend (hc : ∀ c, h.slot loc ≠ .occupied (.cell c))
    (he : h.extend structs cuts loc = .ok h') :
    h'.AtRest structs cuts loc ∧ ∀ c, h'.slot loc ≠ .occupied (.cell c) := by
  induction h using extend.induct structs cuts loc with
  | case1 h s hs next params ho hstop =>
    rw [extend] at he
    simp only [hs, ho, if_pos hstop] at he
    cases he
    refine ⟨atRest_of_no_cell hc fun s' next' params' hs' ho' hne hcut => ?_, hc⟩
    cases hs.symm.trans hs'
    cases ho.symm.trans ho'
    exact absurd hstop (not_or.2 ⟨hne, hcut⟩)
  | case2 h s hs next params ho hstop rest h₁ ht ih =>
    rw [extend_of_takeRest hs ho hstop, ht] at he
    refine ih (fun c hcell => ?_) he
    rcases slot_of_takeRest (not_or.1 hstop).2 ht with hslot | ⟨hslot, -⟩
    · rw [slot_setHole (hslot.trans (slot_of_summary? hs))] at hcell
      cases hcell
    · rw [setHole, summary?, fact?, hslot] at hcell
      cases hslot.symm.trans hcell
  | case3 h s hs next params ho hstop ht =>
    rw [extend_of_takeRest hs ho hstop, ht] at he
    cases he
    refine ⟨atRest_of_no_cell hc fun s' next' params' hs' ho' _ _ => ?_, hc⟩
    cases hs.symm.trans hs'
    cases ho.symm.trans ho'
    exact ht
  | case4 h s hs next params ho hstop e ht =>
    rw [extend_of_takeRest hs ho hstop, ht] at he
    cases he
  | case5 h s hs ho =>
    rw [extend] at he
    simp only [hs] at he
    cases he
    refine ⟨atRest_of_no_cell hc fun s' next' params' hs' ho' => ?_, hc⟩
    cases hs.symm.trans hs'
    exact absurd ho' (ho next' params')
  | case6 h hs =>
    rw [extend] at he
    simp only [hs] at he
    cases he
    refine ⟨atRest_of_no_cell hc fun s' next' params' hs' => ?_, hc⟩
    cases hs.symm.trans hs'

/-- Where a record cannot be folded, none of its candidates is found. -/
theorem foldFirst_eq_none {ps : List Predicate} :
    h.foldFirst structs cuts loc ps = .ok none ↔
      ∀ p ∈ ps, ∃ e, h.gather structs loc p none cuts = .error (.mismatch e) := by
  induction ps with
  | nil => exact ⟨fun _ => forall_mem_nil _, fun _ => rfl⟩
  | cons p ps ih =>
    rw [forall_mem_cons, foldFirst, fold]
    rcases hg : h.gather structs loc p none cuts with (e | m) | r
    · simpa [bind, Except.bind] using ih
    · simp [bind, Except.bind]
    · simp [bind, Except.bind, pure, Except.pure]

theorem AtRest.extend (hs : h.AtRest structs cuts loc) : h.extend structs cuts loc = .ok h := by
  rcases hsum : h.summary? loc with _ | s
  · rw [Heap.extend]
    simp only [hsum]
  · by_cases hgo : ∃ next params, s.hole = some ⟨.ptr next, params⟩ ∧ ¬(next = loc ∨ next ∈ cuts)
    · obtain ⟨next, params, ho, hstop⟩ := hgo
      obtain ⟨hne, hcut⟩ := not_or.1 hstop
      rw [extend_of_takeRest hsum ho hstop, hs.segment s next params (slot_of_summary? hsum) ho hne hcut]
    · rw [Heap.extend]
      simp only [hsum]
      split
      · rename_i next params ho
        exact if_pos (not_not.1 fun hstop => hgo ⟨next, params, ho, hstop⟩)
      · rfl

/-- Widening at a location at rest changes nothing, and goes on below a record. -/
theorem AtRest.widenAt (hs : h.AtRest structs cuts loc) :
    ∃ new, h.widenAt structs cuts loc = .ok (h, new) ∧
      ∀ j ∈ new, ∃ c, h.slot loc = .occupied (.cell c) ∧ j ∈ below c cuts := by
  rw [Heap.widenAt]
  rcases hslot : h.slot loc with _ | (c | s | ⟨set, ty⟩) | _
  · exact ⟨[], rfl, forall_mem_nil _⟩
  · refine ⟨below c cuts, ?_, fun j hj => ⟨c, rfl, hj⟩⟩
    by_cases hcut : loc ∈ cuts
    · simp only [if_pos hcut, bind, Except.bind, pure, Except.pure]
    · simp only [if_neg hcut, foldFirst_eq_none.2 (hs.cell c hslot hcut), bind, Except.bind, pure, Except.pure]
  · refine ⟨[], ?_, forall_mem_nil _⟩
    simp only [hs.extend, bind, Except.bind, pure, Except.pure]
  · exact ⟨[], rfl, forall_mem_nil _⟩
  · exact ⟨[], rfl, forall_mem_nil _⟩

/-! ### Runs -/

/-- Locations that were visited: nothing more is to be done there, and where folding goes on below
    them was visited as well, or waits. -/
structure Explored (structs : Structs) (cuts : List Loc) (h : Heap) (seen : Set Loc) (waiting : List Loc) :
    Prop where
  plain : h.Plain structs cuts
  atRest : ∀ k ∈ seen, h.AtRest structs cuts k
  closed : ∀ k ∈ seen, ∀ c, h.slot k = .occupied (.cell c) → ∀ j ∈ below c cuts, j ∈ seen ∨ j ∈ waiting

variable {seen : Set Loc} {waiting new : List Loc}

/-- A step of widening leaves its location at rest. -/
theorem atRest_of_widenAt (hw : h.widenAt structs cuts loc = .ok (h', new)) :
    h'.AtRest structs cuts loc ∧
      ∀ c, h'.slot loc = .occupied (.cell c) → ∀ j ∈ below c cuts, j ∈ new := by
  have hrested {g : Heap} (hg : g.AtRest structs cuts loc ∧ ∀ c, g.slot loc ≠ .occupied (.cell c)) :
      g.AtRest structs cuts loc ∧
        ∀ c, g.slot loc = .occupied (.cell c) → ∀ j ∈ below c cuts, j ∈ new :=
    ⟨hg.1, fun c hc => absurd hc (hg.2 c)⟩
  cases widensAt_of_widenAt hw with
  | @stay c hs hno =>
    refine ⟨⟨fun c' hc hcut => ?_, fun s next params hsum => ?_⟩, fun c' hc j hj => ?_⟩
    · cases hs.symm.trans hc
      exact foldFirst_eq_none.1 (hno.resolve_left hcut)
    · cases hs.symm.trans hsum
    · cases hs.symm.trans hc
      exact hj
  | @fold c h₁ _ hs hcut hf he =>
    refine hrested (atRest_of_extend (fun c' hc => ?_) he)
    cases moves_of_foldFirst hs hcut hf with
    | fold hs' _ _ hgather =>
      rw [slot_write_self (size_of_gather hgather ▸ lt_size_of_occupied hs')] at hc
      cases hc
    | extend hsum =>
      cases hs.symm.trans hsum
  | extend hs he =>
    refine hrested (atRest_of_extend (fun c hc => ?_) he)
    cases hs.symm.trans hc
  | pass hc hs =>
    exact hrested ⟨atRest_of_no_cell hc fun s _ _ hsum => absurd (slot_of_summary? hsum) (hs s), hc⟩

/-- A step of widening adds its location to those that were visited. -/
theorem Explored.step (he : h.Explored structs cuts seen (loc :: waiting)) (hg : structs.Graphless)
    (hw : h.widenAt structs cuts loc = .ok (h', new)) :
    h'.Explored structs cuts (insert loc seen) (new ++ waiting) := by
  obtain ⟨hp, hothers⟩ := atRest_of_moves hg he.plain (moves_of_widenAt hw)
  obtain ⟨hset, hbelow⟩ := atRest_of_widenAt hw
  refine ⟨hp, fun k hk => ?_, fun k hk c hc j hj => ?_⟩
  · by_cases hkl : k = loc
    · exact hkl ▸ hset
    · exact (hothers k hkl).2 (he.atRest k (hk.resolve_left hkl))
  · by_cases hkl : k = loc
    · subst hkl
      exact .inr (mem_append_left _ (hbelow c hc j hj))
    · have hc' : h.slot k = .occupied (.cell c) := by
        rcases (hothers k hkl).1 with hslot | hslot
        · rw [← hslot, hc]
        · cases hc.symm.trans hslot
      rcases he.closed k (hk.resolve_left hkl) c hc' j hj with hj | hj
      · exact .inl (.inr hj)
      · rcases mem_cons.1 hj with rfl | hj
        · exact .inl (.inl rfl)
        · exact .inr (mem_append_right _ hj)

/-- A run of widening visits all that waits, and leaves it at rest. -/
theorem exists_explored (hg : structs.Graphless) {unseen : List Loc}
    (he : h.Explored structs cuts seen waiting) (hall : ∀ k, k ∈ unseen ∨ k ∈ seen)
    (hw : widenAll structs cuts h unseen waiting = .ok h') :
    ∃ seen', seen ⊆ seen' ∧ (∀ k ∈ waiting, k ∈ seen') ∧ h'.Explored structs cuts seen' [] := by
  induction h, unseen, waiting using widenAll.induct structs cuts generalizing seen with
  | case1 h unseen =>
    rw [widenAll] at hw
    cases hw
    exact ⟨seen, subset_rfl, forall_mem_nil _, he⟩
  | case2 h unseen loc waiting hmem h₁ new hstep ih =>
    rw [widenAll, if_pos hmem, hstep] at hw
    have hall' (k : Loc) : k ∈ unseen.erase loc ∨ k ∈ insert loc seen := by
      by_cases hk : k = loc
      · exact .inr (.inl hk)
      · exact (hall k).imp (mem_erase_of_ne hk).2 .inr
    obtain ⟨seen', hsub, hwait, he'⟩ := ih (he.step hg hstep) hall' hw
    refine ⟨seen', (Set.subset_insert _ _).trans hsub, ?_, he'⟩
    exact forall_mem_cons.2 ⟨hsub (Set.mem_insert _ _), fun k hk => hwait k (mem_append_right _ hk)⟩
  | case3 h unseen loc waiting hmem e hstep =>
    rw [widenAll, if_pos hmem, hstep] at hw
    cases hw
  | case4 h unseen loc waiting hmem ih =>
    rw [widenAll, if_neg hmem] at hw
    have hloc : loc ∈ seen := (hall loc).resolve_left hmem
    have he₁ : h.Explored structs cuts seen waiting := by
      refine ⟨he.plain, he.atRest, fun k hk c hc j hj => ?_⟩
      rcases he.closed k hk c hc j hj with hj | hj
      · exact .inl hj
      · exact (mem_cons.1 hj).imp_left fun (he : j = loc) => he ▸ hloc
    obtain ⟨seen', hsub, hwait, he'⟩ := ih he₁ hall hw
    exact ⟨seen', hsub, forall_mem_cons.2 ⟨hsub hloc, hwait⟩, he'⟩

/-- A run of widening where all was visited before changes nothing. -/
theorem Explored.widenAll (he : h.Explored structs cuts seen []) (unseen : List Loc)
    (hwait : ∀ k ∈ waiting, k ∈ seen) : Heap.widenAll structs cuts h unseen waiting = .ok h := by
  induction h, unseen, waiting using widenAll.induct structs cuts with
  | case1 h unseen => rw [Heap.widenAll]
  | case2 h unseen loc waiting hmem h₁ new hstep ih =>
    obtain ⟨hloc, hwait⟩ := forall_mem_cons.1 hwait
    obtain ⟨new', hok, hnew⟩ := (he.atRest loc hloc).widenAt
    cases hstep.symm.trans hok
    rw [Heap.widenAll, if_pos hmem, hstep]
    refine ih he fun k hk => ?_
    rcases mem_append.1 hk with hk | hk
    · obtain ⟨c, hc, hbelow⟩ := hnew k hk
      exact (he.closed loc hloc c hc k hbelow).resolve_right not_mem_nil
    · exact hwait k hk
  | case3 h unseen loc waiting hmem e hstep =>
    obtain ⟨new, hok, -⟩ := (he.atRest loc (hwait loc (.head _))).widenAt
    cases hstep.symm.trans hok
  | case4 h unseen loc waiting hmem ih =>
    rw [Heap.widenAll, if_neg hmem]
    exact ih he fun k hk => hwait k (.tail _ hk)

/-- At the start, what was not given out is at rest. -/
theorem Plain.explored (hp : h.Plain structs cuts) : h.Explored structs cuts { k | k ∉ h.locs } cuts := by
  have hvacant {k : Loc} (hk : k ∉ h.locs) : h.slot k = .vacant := by
    refine slot_of_size_le (Nat.le_of_not_lt fun hlt => hk ?_)
    exact mem_map.2 ⟨k.index, mem_range.2 hlt, rfl⟩
  refine ⟨hp, fun k hk => ⟨fun c hc => ?_, fun s next params hs => ?_⟩, fun k hk c hc => ?_⟩
  · cases (hvacant hk).symm.trans hc
  · cases (hvacant hk).symm.trans hs
  · cases (hvacant hk).symm.trans hc

/-- A run of widening from the cuts visits them, and leaves what it visits at rest. -/
theorem Plain.exists_explored (hp : h.Plain structs cuts) (hg : structs.Graphless)
    (hw : widenAll structs cuts h h.locs cuts = .ok h') :
    ∃ seen, (∀ k ∈ cuts, k ∈ seen) ∧ h'.Explored structs cuts seen [] := by
  obtain ⟨seen, -, hcuts, he⟩ :=
    Heap.exists_explored hg hp.explored (fun k => Decidable.em (k ∈ h.locs)) hw
  exact ⟨seen, hcuts, he⟩

theorem Explored.forget (he : h.Explored structs cuts seen []) (hg : structs.Graphless)
    (hf : h.Forgets h') : h'.Explored structs cuts seen [] where
  plain := he.plain.forget hf
  atRest k hk := (hf.develops he.plain).atRest hg (hf.slot k) (he.atRest k hk)
  closed k hk c hc := he.closed k hk c (hf.occupied hc)

end Heap

end HeapShape
