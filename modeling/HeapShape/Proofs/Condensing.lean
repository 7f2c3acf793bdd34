import HeapShape.Proofs.Issued
import HeapShape.Proofs.Widening

/-!
# Folding and widening keep heaps sound

A fold takes facts out of a heap and puts one summary in their place. It gives out no locations,
and the summary is made of what the facts mention. All that a fold asks of the tables is there:
the fields of a cell, because a cell has the fields of its structure, and the set variables,
because they were given out. It follows no types, so it is not refused for them either.

* `Layout.Fits`: a layout speaks of pointer fields that the structure has;
* `Heap.Condenses`: what folding does to the slots of a heap;
* `Folding.absorb_yields`, `Heap.fold_yields`: a fold keeps a heap sound;
* `Heap.condenses_widening`, `Heap.Sound.collect`, `Heap.Sound.widen`: so does widening.
-/

namespace HeapShape

open List hiding set

/-- A scalar is followed, tested or freed, or a field is missing. -/
def Mismatch.Cause.IsIllTyped : Mismatch.Cause → Prop
  | .derefScalar | .testScalar | .freeScalar | .noField _ | .noMemberField .. => True
  | _ => False

/-- A table was misused, or types do not agree. -/
def Refusal.IsFault : Refusal → Prop
  | .misuse _ => True
  | .mismatch m => m.cause.IsIllTyped

theorem Folding.yields_mismatch {α : Type} {P : α → Prop} (loc : Option Loc) (cause : Mismatch.Cause)
    (h : ¬ cause.IsIllTyped) :
    Yields Refusal.IsFault (mismatch loc cause : Except Refusal α) P := h

/-! ### The fields that a layout speaks of -/

/-- The parts of a layout are pointer fields of a structure. -/
structure Layout.Fits (layout : Layout) (decl : StructDecl) (ty : StructId) : Prop where
  successors : ∀ i ∈ layout.successors, ∃ f, decl.fields[i]? = some f ∧ f.ty = .ptr ty
  back : ∀ i, layout.back = some i → ∃ f, decl.fields[i]? = some f ∧ f.ty = .ptr ty
  nested : ∀ q ∈ layout.nested, ∃ f, decl.fields[q.1]? = some f ∧ f.ty = .ptr q.2.2
  refs : ∀ q ∈ layout.refs, ∃ f, decl.fields[q.1]? = some f ∧ f.ty = .ptr q.2

variable {structs : Structs} {ty : StructId}

theorem Predicate.fits_of_layoutBy {fits : Predicate → StructId → Bool} {p : Predicate}
    {layout : Layout} (h : layoutBy fits structs p ty = some layout) :
    ∃ decl, structs.decl? ty = some decl ∧ layout.Fits decl ty := by
  obtain ⟨decl, hdecl, ha⟩ := layoutBy_eq_some h
  have hself {names : List String} {places : List Nat} {i : Nat}
      (h : List.Forall₂ (fun name i => selfField? decl ty name = some i) names places)
      (hi : i ∈ places) : ∃ f, decl.fields[i]? = some f ∧ f.ty = .ptr ty := by
    obtain ⟨name, -, hname⟩ := exists_mem_of_forall₂ h.flip hi
    obtain ⟨f, hf, -, hty⟩ := StructDecl.selfField?_eq_some hname
    exact ⟨f, hf, hty⟩
  refine ⟨decl, hdecl, fun i => hself ha.successors, fun i hi => hself ha.back (Option.mem_toList.2 hi),
    fun q hq => ?_, fun q hq => ?_⟩
  · obtain ⟨n, -, hn, -⟩ := exists_mem_of_forall₂ ha.nested.flip hq
    obtain ⟨f, hf, -, hty⟩ := StructDecl.pointer?_eq_some hn
    exact ⟨f, hf, hty⟩
  · obtain ⟨name, -, hname⟩ := exists_mem_of_forall₂ ha.refs.flip hq
    obtain ⟨f, hf, -, hty⟩ := StructDecl.pointer?_eq_some hname
    exact ⟨f, hf, hty⟩

theorem Predicate.fits_of_layout {p : Predicate} {layout : Layout}
    (h : p.layout? structs ty = some layout) :
    ∃ decl, structs.decl? ty = some decl ∧ layout.Fits decl ty := fits_of_layoutBy h

/-- A complete cell has every field that its structure has. -/
theorem Cell.Complete.exists_field {c : Cell} {decl : StructDecl} {i : Nat} (hc : c.Complete structs)
    (hd : structs.decl? c.ty = some decl) (hi : ∃ f, decl.fields[i]? = some f ∧ f.ty = .ptr ty) :
    ∃ v ∈ c.fields, c.fields[i]? = some v := by
  obtain ⟨f, hf, -⟩ := hi
  have hlt := (List.getElem?_eq_some_iff.1 hf).1.trans_le (hc decl hd)
  exact ⟨c.fields[i], getElem_mem hlt, getElem?_eq_getElem hlt⟩

/-! ### What folding does to slots -/

/-- The locations are the same, and facts went into summaries: a slot is as it was, or it had a
    fact and is vacant or has a summary. -/
structure Heap.Condenses (h h' : Heap) : Prop where
  size : h'.size = h.size
  sets : h.sets.reprs.length ≤ h'.sets.reprs.length
  slot : ∀ k, h'.slot k = h.slot k ∨
    (∃ f, h.slot k = .occupied f) ∧ (h'.slot k = .vacant ∨ ∃ s, h'.slot k = .occupied (.summary s))

namespace Heap.Condenses

variable {h h' h'' : Heap} {k loc : Loc} {f : Fact}

theorem withSets {sets : SetStore} (hg : h.sets.Grows sets) : h.Condenses { h with sets } :=
  ⟨rfl, hg.length, fun _ => .inl rfl⟩

theorem refl (h : Heap) : h.Condenses h := ⟨rfl, Nat.le_refl _, fun _ => .inl rfl⟩

theorem trans (hc : h.Condenses h') (hc' : h'.Condenses h'') : h.Condenses h'' where
  size := hc'.size.trans hc.size
  sets := hc.sets.trans hc'.sets
  slot k := by
    rcases hc'.slot k with hk | ⟨⟨f, hf⟩, hk⟩
    · rw [hk]
      exact hc.slot k
    · rcases hc.slot k with hk' | ⟨hf', -⟩
      · exact .inr ⟨⟨f, hk' ▸ hf⟩, hk⟩
      · exact .inr ⟨hf', hk⟩

/-- A fact is taken. -/
theorem vacate {sets : SetStore} (hk : h.slot loc = .occupied f) (hg : h.sets.Grows sets) :
    h.Condenses { h.write loc .vacant with sets } where
  size := size_write _
  sets := hg.length
  slot k := by
    show (h.write loc .vacant).slot k = _ ∨ _ ∧ ((h.write loc .vacant).slot k = _ ∨ _)
    rw [slot_write_vacant]
    split
    · rename_i he
      exact .inr ⟨⟨f, he ▸ hk⟩, .inl rfl⟩
    · exact .inl rfl

/-- A summary is put where there was a fact. -/
theorem fill (hc : h.Condenses h') (hk : h.slot loc = .occupied f) (s : Summary) :
    h.Condenses (h'.write loc (.occupied (.summary s))) where
  size := (size_write _).trans hc.size
  sets := hc.sets
  slot k := by
    have hl : loc.index < h'.size := hc.size ▸ lt_size_of_occupied hk
    rw [slot_write hl]
    split
    · rename_i he
      exact .inr ⟨⟨f, he ▸ hk⟩, .inr ⟨s, rfl⟩⟩
    · exact hc.slot k

theorem cell (hc : h.Condenses h') {c : Cell} (hk : h'.slot k = .occupied (.cell c)) :
    h.slot k = .occupied (.cell c) := by
  rcases hc.slot k with hk' | ⟨-, hk' | ⟨s, hk'⟩⟩
  · rw [← hk', hk]
  · rw [hk] at hk'
    cases hk'
  · rw [hk] at hk'
    cases hk'

theorem tombstone (hc : h.Condenses h') (hk : h.slot k = .tombstone) : h'.slot k = .tombstone := by
  rcases hc.slot k with hk' | ⟨⟨f, hf⟩, -⟩
  · rw [hk', hk]
  · rw [hk] at hf
    cases hf

end Heap.Condenses

/-! ### Goals -/

namespace Folding

variable {structs : Structs} {lost : Loc → Prop} {cfg : Setting} {st : Folding} {h h' : Heap}
  {s : SetStore} {loc : Loc} {pred : Predicate} {ty : StructId} {params : Params} {c : Cell}

/-- A goal that is made of values and variables that can be used, and not of a field that is
    missing. -/
def Goal.Fine (lost : Loc → Prop) (h : Heap) : Goal → Prop
  | .inst v _ _ params => h.Usable lost v ∧ h.UsableParams lost params
  | .ref _ set => ∀ v, set = some v → h.sets.Has v
  | .missing => False

theorem Goal.Fine.mono {goal : Goal} (hg : goal.Fine lost h) (hsize : h.size ≤ h'.size)
    (hsets : h.sets.reprs.length ≤ h'.sets.reprs.length) : goal.Fine lost h' := by
  cases goal with
  | inst v pred ty params => exact ⟨hg.1.mono hsize, hg.2.mono hsize hsets⟩
  | ref v set => exact fun w hw => (hg w hw).mono hsets
  | missing => exact hg

/-- A sound heap, and a hole that can be used. -/
structure Fine (structs : Structs) (lost : Loc → Prop) (st : Folding) : Prop where
  heap : st.heap.Sound structs lost
  hole : ∀ o, st.hole = some o → st.heap.Usable lost o.value ∧ st.heap.UsableParams lost o.params

theorem unifySets_yields {as bs : List SetVar} (hs : s.Issued) (ha : ∀ a ∈ as, s.Has a)
    (hb : ∀ b ∈ bs, s.Has b) : Yields Refusal.IsFault (unifySets loc as bs s) s.Grows := by
  induction as, bs, s using unifySets.induct with
  | case1 a as b bs s s₁ hu ih =>
    obtain ⟨r, hr, hg⟩ := hs.unify (ha a (.head _)) (hb b (.head _))
    cases hu.symm.trans hr
    have hg := hg s₁ rfl
    simp only [unifySets, hu]
    exact (ih hg.issued (fun c hc => hg.has (ha c (.tail _ hc)))
      fun c hc => hg.has (hb c (.tail _ hc))).mono fun _ => hg.trans
  | case2 a as b bs s hu =>
    simp only [unifySets, hu]
    exact yields_mismatch _ _ id
  | case3 a as b bs s m hu =>
    obtain ⟨r, hr, -⟩ := hs.unify (ha a (.head _)) (hb b (.head _))
    cases hu.symm.trans hr
  | case4 as bs s hne =>
    rw [unifySets]
    · exact hs.grows
    · exact hne

theorem matchParams_yields {actual expected : Params} (hs : s.Issued) (ha : ∀ a ∈ actual.sets, s.Has a)
    (hb : ∀ b ∈ expected.sets, s.Has b) :
    Yields Refusal.IsFault (matchParams loc actual expected s) s.Grows := by
  rw [matchParams]
  split
  · exact yields_mismatch _ _ id
  · split
    · exact yields_mismatch _ _ id
    · exact unifySets_yields hs ha hb

theorem inside_eq_ok {set : SetVar} (hs : h.Sound structs lost) (hset : h.sets.Has set) (loc : Loc) :
    ∃ r, inside h loc set = .ok r ∧ ∀ sets, r = some sets → h.sets.Grows sets := by
  have hsame : ∀ sets, some h.sets = some sets → h.sets.Grows sets := fun sets he => by
    cases he
    exact hs.sets.grows
  rw [inside.eq_def]
  split
  · rename_i own ty hk
    split
    · exact ⟨_, rfl, hsame⟩
    · exact hs.sets.unify ((hs.facts loc _ hk).sets own (.head _)) hset
  · split
    · exact ⟨_, rfl, hsame⟩
    · exact ⟨_, rfl, fun _ hr => (Option.not_mem_none _ hr).elim⟩
  · exact ⟨_, rfl, fun _ hr => (Option.not_mem_none _ hr).elim⟩

theorem checkRef_yields {value : Value} {set : Option SetVar} (hs : h.Sound structs lost)
    (hset : ∀ v, set = some v → h.sets.Has v) :
    Yields Refusal.IsFault (checkRef h value set) h.sets.Grows := by
  rw [checkRef.eq_def]
  split
  · exact hs.sets.grows
  · rename_i loc set
    obtain ⟨r, hr, hg⟩ := inside_eq_ok hs (hset set rfl) loc
    rw [hr]
    cases r with
    | some sets => exact hg sets rfl
    | none => exact yields_mismatch _ _ id
  · exact yields_mismatch _ _ id

theorem checkBack_yields {layout : Layout} {decl : StructDecl} (hc : c.Complete structs)
    (hd : structs.decl? c.ty = some decl) (hl : layout.Fits decl c.ty) :
    Yields Refusal.IsFault (checkBack loc c layout params) fun _ => True := by
  rw [checkBack.eq_def]
  split
  · trivial
  · rename_i i hi
    obtain ⟨v, -, hv⟩ := hc.exists_field hd (hl.back i hi)
    rw [hv]
    dsimp only
    split
    · trivial
    · exact yields_mismatch _ _ id

/-- The goals for the fields of a cell are fine. -/
theorem cellGoals_fine {layout : Layout} {decl : StructDecl} {step : Step}
    (hc : h.Admits structs lost (.cell c)) (hd : structs.decl? c.ty = some decl)
    (hl : layout.Fits decl c.ty) (hsucc : h.UsableParams lost step.succ)
    (hnested : h.UsableParams lost step.nested) (hrefs : ∀ v, step.refs = some v → h.sets.Has v) :
    ∀ g ∈ cellGoals c pred layout step, g.Fine lost h := by
  have hfield {i : Nat} {ty : StructId} {goal : Value → Goal}
      (hi : ∃ f, decl.fields[i]? = some f ∧ f.ty = .ptr ty)
      (hgoal : ∀ v, h.Usable lost v → (goal v).Fine lost h) : (Goal.ofField c i goal).Fine lost h := by
    obtain ⟨v, hmem, hv⟩ := (hc.cell c rfl).exists_field hd hi
    rw [Goal.ofField, hv]
    exact hgoal v (hc.values v hmem)
  intro g hg
  rw [cellGoals, mem_append, mem_append] at hg
  rcases hg with (hg | hg) | hg
  · obtain ⟨i, hi, rfl⟩ := mem_map.1 hg
    exact hfield (hl.successors i hi) fun v hv => ⟨hv, hsucc⟩
  · obtain ⟨q, hq, rfl⟩ := mem_map.1 hg
    exact hfield (hl.nested q hq) fun v hv => ⟨hv, hnested⟩
  · obtain ⟨q, hq, rfl⟩ := mem_map.1 hg
    exact hfield (hl.refs q hq) fun v _ => hrefs

/-- A goal is met by a cell, with goals that are fine. -/
theorem meetCell_yields (hs : h.Sound structs lost) (hk : h.slot loc = .occupied (.cell c))
    (hp : h.UsableParams lost params) :
    Yields Refusal.IsFault (meetCell structs h.sets loc c pred ty params) fun r =>
      h.sets.Grows r.1 ∧ ∀ g ∈ r.2, g.Fine lost { h with sets := r.1 } := by
  rw [meetCell]
  split
  · exact yields_mismatch _ _ id
  · rename_i hty
    obtain rfl := not_not.1 hty
    split
    · exact yields_mismatch _ _ id
    · rename_i layout hlay
      obtain ⟨decl, hd, hl⟩ := Predicate.fits_of_layout hlay
      have hc := hs.facts loc _ hk
      refine (checkBack_yields (hc.cell c rfl) hd hl).bind fun _ _ => ?_
      obtain ⟨hg, hsets⟩ := Predicate.step_issued pred loc hs.sets hp.2
      rcases hstep : pred.step loc params h.sets with ⟨sets, _ | step⟩
      · exact yields_mismatch _ _ id
      · obtain ⟨hptrs, hnested⟩ := Predicate.step_ptrs (congrArg Prod.snd hstep)
        rw [hstep] at hg hsets
        obtain ⟨hsucc, hnest, hrefs⟩ := hsets step rfl
        refine ⟨hg, cellGoals_fine (hc.mono (Nat.le_refl _) hg.length) hd hl ⟨fun v hv => ?_, hsucc⟩
          ⟨fun v hv => ?_, hnest⟩ hrefs⟩
        · rw [hptrs v hv]
          exact hs.usable_of_occupied hk
        · rw [hnested] at hv
          cases hv

/-- A goal is met by a summary, with a goal for its hole that is fine. -/
theorem meetSummary_yields {sum : Summary} (hs : h.Sound structs lost)
    (hk : h.slot loc = .occupied (.summary sum)) (hp : h.UsableParams lost params) :
    Yields Refusal.IsFault (meetSummary h.sets loc sum pred ty params) fun r =>
      h.sets.Grows r.1 ∧ ∀ g ∈ r.2, g.Fine lost { h with sets := r.1 } := by
  obtain ⟨hparams, hhole⟩ := Heap.admits_summary.1 (hs.facts loc _ hk)
  rw [meetSummary]
  split
  · exact yields_mismatch _ _ id
  · refine (matchParams_yields hs.sets hparams.2 hp.2).bind fun sets hg => ⟨hg, fun g hmem => ?_⟩
    obtain ⟨o, ho, rfl⟩ := mem_map.1 hmem
    obtain ⟨hvalue, hused⟩ := hhole o (Option.mem_toList.1 ho)
    exact ⟨hvalue, hused.mono (Nat.le_refl _) hg.length⟩

/-! ### The search -/

/-- One step of the search: the facts are condensed, the heap stays sound, and the new goals are
    fine. -/
def Advances (structs : Structs) (lost : Loc → Prop) (st : Folding) (r : Folding × List Goal) : Prop :=
  st.heap.Condenses r.1.heap ∧ r.1.Fine structs lost ∧ ∀ g ∈ r.2, g.Fine lost r.1.heap

theorem Advances.taken {f : Fact} {r : SetStore × List Goal} (hst : st.Fine structs lost)
    (hk : st.heap.slot loc = .occupied f)
    (hr : st.heap.sets.Grows r.1 ∧ ∀ g ∈ r.2, g.Fine lost { st.heap with sets := r.1 }) :
    st.Advances structs lost
      ({ st with heap := { st.heap.write loc .vacant with sets := r.1 }, visited := loc :: st.visited },
        r.2) := by
  have hc := Heap.Condenses.vacate hk hr.1
  refine ⟨hc, ⟨(hst.heap.vacate loc).withSets hr.1, fun o ho => ?_⟩, fun g hg => ?_⟩
  · exact ⟨(hst.hole o ho).1.mono hc.size.ge, (hst.hole o ho).2.mono hc.size.ge hc.sets⟩
  · exact (hr.2 g hg).mono hc.size.ge (Nat.le_refl _)

/-- A location is entered by taking its fact. -/
theorem enter_yields (hst : st.Fine cfg.structs lost) (hp : st.heap.UsableParams lost params) :
    Yields Refusal.IsFault (st.enter cfg loc pred ty params) (st.Advances cfg.structs lost) := by
  rw [enter]
  split
  · exact yields_mismatch _ _ id
  · rcases hk : st.heap.slot loc with _ | (c | sum | ⟨set, target⟩) | _
    · exact yields_mismatch _ _ id
    · exact (meetCell_yields hst.heap hk hp).map fun r hr => .taken hst hk hr
    · exact (meetSummary_yields hst.heap hk hp).map fun r hr => .taken hst hk hr
    · exact yields_mismatch _ _ id
    · exact yields_mismatch _ _ id

theorem advances_withSets {sets : SetStore} (hst : st.Fine structs lost) (hg : st.heap.sets.Grows sets) :
    st.Advances structs lost ({ st with heap := { st.heap with sets } }, []) :=
  ⟨.withSets hg, ⟨hst.heap.withSets hg, fun o ho =>
    ⟨(hst.hole o ho).1, (hst.hole o ho).2.mono (Nat.le_refl _) hg.length⟩⟩, nofun⟩

theorem visit_yields {goal : Goal} (hst : st.Fine cfg.structs lost) (hg : goal.Fine lost st.heap) :
    Yields Refusal.IsFault (st.visit cfg goal) (st.Advances cfg.structs lost) := by
  rw [visit.eq_def]
  split
  · exact hg.elim
  · exact (checkRef_yields hst.heap hg).map fun sets hsets => advances_withSets hst hsets
  · split
    · rename_i hb
      exact advances_withSets hst (Predicate.baseCase_issued hst.heap.sets hb)
    · exact yields_mismatch _ _ id
  · exact yields_mismatch _ _ id
  · split
    · split
      · refine ⟨.refl _, ⟨hst.heap, fun o ho => ?_⟩, forall_mem_nil _⟩
        cases ho
        exact hg
      · exact yields_mismatch _ _ id
    · exact enter_yields hst hg.2

theorem absorb_yields {goals : List Goal} (hst : st.Fine cfg.structs lost)
    (hg : ∀ g ∈ goals, g.Fine lost st.heap) :
    Yields Refusal.IsFault (st.absorb cfg goals) fun st' =>
      st.heap.Condenses st'.heap ∧ st'.Fine cfg.structs lost := by
  induction st, goals using absorb.induct cfg with
  | case1 st =>
    rw [absorb]
    exact ⟨.refl _, hst⟩
  | case2 st goal goals e hv =>
    have he := visit_yields hst (hg goal (.head _))
    rw [absorb, hv]
    rw [hv] at he
    exact he
  | case3 st goal goals st₁ new hv ih =>
    obtain ⟨hc, hst₁, hnew⟩ := (visit_yields hst (hg goal (.head _))).of_ok hv
    rw [absorb, hv]
    refine (ih hst₁ fun g hmem => ?_).mono fun st' hst' => ⟨hc.trans hst'.1, hst'.2⟩
    rcases mem_append.1 hmem with hmem | hmem
    · exact hnew g hmem
    · exact (hg g (.tail _ hmem)).mono hc.size.ge hc.sets

end Folding

namespace Heap

open Folding

variable {structs : Structs} {lost : Loc → Prop} {h h' : Heap} {loc : Loc} {pred : Predicate}
  {params : Option Params} {stops cuts : List Loc} {p : Params}

theorem UsableParams.resolve (hs : h.Sound structs lost) (hp : h.UsableParams lost p) :
    h.UsableParams lost (h.resolveParams p) := by
  refine ⟨hp.1, fun v hv => ?_⟩
  obtain ⟨w, hw, rfl⟩ := mem_map.1 hv
  exact hs.sets.resolve (hp.2 w hw)

theorem inferParams_yields (hs : h.Sound structs lost) (layout : Layout) :
    Yields Refusal.IsFault (h.inferParams loc pred layout) fun r =>
      h.sets.Grows r.2 ∧ ({ h with sets := r.2 } : Heap).UsableParams lost r.1 := by
  rw [inferParams.eq_def]
  split
  · rename_i sum hsum
    split
    · exact ⟨hs.sets.grows, (admits_summary.1 (hs.facts loc _ (slot_of_summary? hsum))).1⟩
    · exact yields_mismatch _ _ id
  · split
    · exact ⟨hs.sets.grows, nofun, nofun⟩
    · split
      · rename_i back hback
        refine ⟨hs.sets.grows, forall_mem_singleton.2 ?_, nofun⟩
        obtain ⟨i, -, hback⟩ := Option.bind_eq_some_iff.1 hback
        obtain ⟨c, hc, hi⟩ := Option.bind_eq_some_iff.1 hback
        exact (hs.facts loc _ (slot_of_cell? hc)).values back (mem_of_getElem? hi)
      · exact yields_mismatch _ _ id
    · have hnew {nodes : SetVar} {sets : SetStore} (hg : h.sets.Grows sets) (hn : sets.Has nodes) :
          h.sets.Grows sets.fresh.2 ∧ ({ h with sets := sets.fresh.2 } : Heap).UsableParams lost
            ⟨[], [nodes, sets.fresh.1]⟩ := by
        obtain ⟨hg', ht⟩ := hg.issued.fresh
        exact ⟨hg.trans hg', nofun,
          forall_mem_cons.2 ⟨hg'.has hn, forall_mem_singleton.2 ht⟩⟩
      -- the nodes are the set that the root was taken out of, or a new one
      cases hw : h.sets.wholeOf? loc with
      | some nodes => exact hnew hs.sets.grows (hs.sets.wholeOf? hw)
      | none => exact hnew hs.sets.fresh.1 hs.sets.fresh.2
    · exact ⟨hs.sets.fresh.1, nofun, forall_mem_singleton.2 hs.sets.fresh.2⟩

theorem chooseParams_yields (hs : h.Sound structs lost) (layout : Layout)
    (hp : ∀ p, params = some p → h.UsableParams lost p) :
    Yields Refusal.IsFault (h.chooseParams loc pred layout params) fun r =>
      h.sets.Grows r.2 ∧ ({ h with sets := r.2 } : Heap).UsableParams lost r.1 := by
  rw [chooseParams.eq_def]
  split
  · rename_i p
    exact ⟨hs.sets.grows, hp p rfl⟩
  · exact inferParams_yields hs layout

theorem checkArity_yields {at? : Option Loc} :
    Yields Refusal.IsFault (checkArity pred params at?) fun _ => True := by
  rw [checkArity.eq_def]
  split
  · split
    · trivial
    · exact yields_mismatch _ _ id
  · trivial

/-- A structure is taken out of a heap that stays sound, and its summary may be recorded. -/
structure Gathered (structs : Structs) (lost : Loc → Prop) (h : Heap) (loc : Loc) (r : Summary × Heap) :
    Prop where
  condenses : h.Condenses r.2
  sound : r.2.Sound structs lost
  admits : r.2.Admits structs lost (.summary r.1)
  root : ∃ f, h.slot loc = .occupied f

theorem gather_yields (hs : h.Sound structs lost) (hp : ∀ p, params = some p → h.UsableParams lost p) :
    Yields Refusal.IsFault (h.gather structs loc pred params stops) (h.Gathered structs lost loc) := by
  rw [gather]
  refine checkArity_yields.bind fun _ _ => ?_
  have hroot : Yields Refusal.IsFault (h.rootStruct loc) fun _ => True := by
    rw [rootStruct.eq_def]
    split <;> first | trivial | exact yields_mismatch _ _ id
  refine hroot.bind fun ty _ => ?_
  split
  · exact yields_mismatch _ _ id
  · rename_i layout _
    refine (chooseParams_yields hs layout hp).bind ?_
    rintro ⟨p, sets⟩ ⟨hg, hused⟩
    let start : Folding := ⟨{ h with sets }, none, []⟩
    have hstart : start.Fine structs lost :=
      ⟨hs.withSets hg, fun _ ho => (Option.not_mem_none _ ho).elim⟩
    refine (enter_yields hstart hused).and_ok.bind ?_
    rintro ⟨st₁, goals⟩ ⟨⟨hc₁, hst₁, hgoals⟩, he⟩
    refine (absorb_yields hst₁ hgoals).bind ?_
    rintro st₂ ⟨hc₂, hst₂⟩
    obtain ⟨f, -, -, hk, -⟩ := enter_eq_ok he
    have hparams : st₂.heap.UsableParams lost p :=
      hused.mono (hc₁.trans hc₂).size.ge (hc₁.trans hc₂).sets
    refine ⟨(Condenses.withSets hg).trans (hc₁.trans hc₂), hst₂.heap,
      admits_summary.2 ⟨hparams.resolve hst₂.heap, fun o ho => ?_⟩, ⟨f, hk⟩⟩
    obtain ⟨o', ho', rfl⟩ := Option.map_eq_some_iff.1 ho
    exact ⟨(hst₂.hole o' ho').1, (hst₂.hole o' ho').2.resolve hst₂.heap⟩

/-- A fold keeps a heap sound. -/
theorem fold_yields {root : Value} (hs : h.Sound structs lost)
    (hp : ∀ p, params = some p → h.UsableParams lost p) :
    Yields Refusal.IsFault (h.fold structs root pred params stops) fun r =>
      h.Condenses r.1 ∧ r.1.Sound structs lost := by
  rw [fold.eq_def]
  split
  · refine (gather_yields hs hp).bind fun r hr => ?_
    obtain ⟨f, hf⟩ := hr.root
    refine ⟨hr.condenses.fill hf r.1, hr.sound.write ?_ hr.admits⟩
    exact (hs.usable_of_occupied hf).mono hr.condenses.size.ge
  · refine checkArity_yields.bind fun _ _ => ?_
    split
    · exact ⟨.refl _, hs⟩
    · split
      · rename_i sets hb
        have hg := Predicate.baseCase_issued hs.sets hb
        exact ⟨.withSets hg, hs.withSets hg⟩
      · exact yields_mismatch _ _ id
  · exact checkArity_yields.bind fun _ _ => yields_mismatch _ _ id

theorem check_yields {root : Value} (hs : h.Sound structs lost)
    (hp : ∀ p, params = some p → h.UsableParams lost p) :
    Yields Refusal.IsFault (h.check structs root pred params) fun h' =>
      h.Condenses h' ∧ h'.Sound structs lost := by
  refine (fold_yields hs hp).bind ?_
  rintro ⟨h', _ | o⟩ hr
  · exact hr
  · exact yields_mismatch _ _ id

/-! ### Widening -/

theorem not_misuse {α : Type} {x : Except Refusal α} {P : α → Prop} {m : Misuse}
    (hx : Yields Refusal.IsFault x P) : x ≠ .error (.misuse m) := by
  rintro rfl
  exact hx trivial

variable (hs : h.Sound structs lost)
include hs

theorem takeRest_yields {s : Summary} {next : Loc} (hp : h.UsableParams lost p) :
    Yields (fun _ => True) (h.takeRest structs cuts s next p) fun r => ∀ rest h', r = some (rest, h') →
      h.Condenses h' ∧ h'.Sound structs lost ∧ h'.Admits structs lost (.summary rest) := by
  rw [takeRest.eq_def]
  split
  · have hg : Yields Refusal.IsFault (h.gather structs next s.pred (some p) cuts)
        (h.Gathered structs lost next) := gather_yields hs fun q hq => Option.some.inj hq ▸ hp
    split
    · rename_i r hr
      rintro rest h' ⟨⟩
      have := hg.of_ok hr
      exact ⟨this.condenses, this.sound, this.admits⟩
    · exact nofun
    · rename_i m hm
      exact (not_misuse hg hm).elim
  · rename_i rest hk
    split
    · rintro rest' h' ⟨⟩
      have hc : h.Condenses (h.write next .vacant) := .vacate hk hs.sets.grows
      exact ⟨hc, hs.vacate next, (hs.facts next _ hk).mono hc.size.ge hc.sets⟩
    · exact nofun
  · exact nofun

theorem setHole_sound {hole : Option Hole} (loc : Loc)
    (ho : ∀ o, hole = some o → h.Usable lost o.value ∧ h.UsableParams lost o.params) :
    h.Condenses (h.setHole loc hole) ∧ (h.setHole loc hole).Sound structs lost := by
  rw [setHole]
  split
  · rename_i s hsum
    have hk := slot_of_summary? hsum
    refine ⟨(Condenses.refl h).fill hk _, hs.write (hs.usable_of_occupied hk) ?_⟩
    exact admits_summary.2 ⟨(admits_summary.1 (hs.facts loc _ hk)).1, ho⟩
  · exact ⟨.refl h, hs⟩

omit hs in
/-- The steps of widening condense the facts, and keep a heap sound. -/
theorem condenses_widening (h : Heap) : WideningKeeps structs cuts (fun _ => True) fun h' =>
    h.Condenses h' ∧ h'.Sound structs lost where
  fold {h₁ loc c p} hI _ _ _ := by
    have hf : Yields Refusal.IsFault (h₁.fold structs (.ptr loc) p none cuts) fun r =>
        h₁.Condenses r.1 ∧ r.1.Sound structs lost := fold_yields hI.2 nofun
    refine (hf.mono fun r hr => ⟨hI.1.trans hr.1, hr.2⟩).mono_bad fun e he => ?_
    cases e with
    | mismatch => exact he.elim
    | misuse => exact he
  extend loc h₁ s next params hI hk ho _ _ := by
    have hp := ((admits_summary.1 (hI.2.facts loc _ hk)).2 _ ho).2
    refine (takeRest_yields hI.2 hp).mono fun r hr rest h₂ he => ?_
    obtain ⟨hc, hs₂, hadmits⟩ := hr rest h₂ he
    obtain ⟨hc', hs'⟩ := setHole_sound hs₂ loc (admits_summary.1 hadmits).2
    exact ⟨(hI.1.trans hc).trans hc', hs'⟩

theorem Sound.collect (roots : List Value) : (h.collect roots).Sound structs lost :=
  hs.forget (forgets_collect h roots) ⟨Nat.le_refl _, hs.sets.retain _ _⟩

/-- Widening folds, and then forgets what cannot be reached. -/
theorem Sound.widen (roots : List Value) :
    ∃ h', h.widen structs roots = .ok (h'.collect roots) ∧ h.Condenses h' ∧ h'.Sound structs lost := by
  obtain ⟨h', hok, hc, hs'⟩ :=
    ((condenses_widening h).widenAll ⟨.refl h, hs⟩ h.locs (roots.filterMap Value.loc?)).exists_ok
  refine ⟨h', ?_, hc, hs'⟩
  rw [Heap.widen, hok]
  rfl

end Heap

end HeapShape
