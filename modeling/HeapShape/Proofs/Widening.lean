import HeapShape.Heap.Widen
import HeapShape.Proofs.Folding
import HeapShape.Proofs.Outcomes

/-!
# Widening, seen from memory

Widening replaces facts by weaker ones: cells by summaries, a segment and what follows it by
a longer one, and a fact by none. So what a heap describes, the widened heap should describe
as well.

There is one step for which this can fail. A segment is extended by a cell at its hole without
a look at the structure of the cell. If the cell is of another structure than the segment, and
is laid out for the same predicate, the longer segment claims records of the wrong structure.

* `Heap.WideningKeeps.widenAll`: a run of widening keeps what its steps keep;
* `Heap.Ready`: no segment of the heap can be extended in this way;
* `Heap.weakens_widening`: the steps of widening weaken heaps that are ready;
* `Heap.widen_entails`: the widened heap describes what the heap describes, if it is ready;
* `Heap.seam_not_widensSoundly`: the step that fails, for any two structures that are laid out
  for one predicate;
* `Heap.widen_overapproximates`: so the tables for which widening never fails are those where
  no two structures are (`Structs.Unmistakable`).
-/

namespace HeapShape

open List

/-! ### The rule for widening -/

namespace Heap

variable {structs : Structs} {cuts : List Loc} {bad : Misuse → Prop} {I : Heap → Prop} {h : Heap}
  {loc next : Loc} {s : Summary} {params : Params}

theorem extend_of_takeRest (hs : h.summary? loc = some s) (ho : s.hole = some ⟨.ptr next, params⟩)
    (hstop : ¬(next = loc ∨ next ∈ cuts)) :
    h.extend structs cuts loc = match h.takeRest structs cuts s next params with
      | .ok (some (rest, h')) => (h'.setHole loc rest.hole).extend structs cuts loc
      | .ok none => .ok h
      | .error m => .error m := by
  rw [extend]
  simp only [hs, ho, if_neg hstop]
  split <;> rename_i ht <;> rw [ht]

/-- A segment takes over what is at its hole, and keeps an invariant. -/
def ExtensionKeeps (structs : Structs) (cuts : List Loc) (bad : Misuse → Prop) (I : Heap → Prop)
    (loc : Loc) : Prop :=
  ∀ h s next params, I h → h.slot loc = .occupied (.summary s) → s.hole = some ⟨.ptr next, params⟩ →
    next ≠ loc → next ∉ cuts → Yields bad (h.takeRest structs cuts s next params) fun r =>
      ∀ rest h₁, r = some (rest, h₁) → I (h₁.setHole loc rest.hole)

theorem extend_yields (hext : ExtensionKeeps structs cuts bad I loc) (hI : I h) :
    Yields bad (h.extend structs cuts loc) I := by
  induction h using extend.induct structs cuts loc with
  | case1 h s hs next params ho hstop =>
    rw [extend]
    simp only [hs, ho, if_pos hstop]
    exact hI
  | case2 h s hs next params ho hstop rest h₁ ht ih =>
    obtain ⟨hne, hcut⟩ := not_or.1 hstop
    rw [extend_of_takeRest hs ho hstop, ht]
    exact ih ((hext h s next params hI (slot_of_summary? hs) ho hne hcut).of_ok ht rest h₁ rfl)
  | case3 h s hs next params ho hstop ht =>
    rw [extend_of_takeRest hs ho hstop, ht]
    exact hI
  | case4 h s hs next params ho hstop e ht =>
    obtain ⟨hne, hcut⟩ := not_or.1 hstop
    have hno := hext h s next params hI (slot_of_summary? hs) ho hne hcut
    rw [extend_of_takeRest hs ho hstop]
    rw [ht] at hno ⊢
    exact hno
  | case5 h s hs ho =>
    rw [extend]
    simp only [hs]
    exact hI
  | case6 h hs =>
    rw [extend]
    simp only [hs]
    exact hI

/-- A refusal because of a bad misuse. -/
def BadRefusal (bad : Misuse → Prop) : Refusal → Prop
  | .misuse m => bad m
  | .mismatch _ => False

theorem not_badRefusal (e : Refusal) : ¬ BadRefusal (fun _ => False) e := by
  cases e <;> exact id

theorem foldFirst_yields {ps : List Predicate}
    (hf : ∀ p ∈ ps, Yields (BadRefusal bad) (h.fold structs (.ptr loc) p none cuts) fun r => I r.1) :
    Yields bad (h.foldFirst structs cuts loc ps) fun r => ∀ h', r = some h' → I h' := by
  induction ps with
  | nil => exact nofun
  | cons p ps ih =>
    obtain ⟨hp, hps⟩ := forall_mem_cons.1 hf
    rw [foldFirst]
    split
    · rename_i h' o hok
      rintro _ ⟨⟩
      exact hp.of_ok hok
    · exact ih hps
    · rename_i m hm
      rw [hm] at hp
      exact hp

/-- An invariant of widening: the fold of a cell keeps it, and so does a segment that takes over
    what is at its hole. -/
structure WideningKeeps (structs : Structs) (cuts : List Loc) (bad : Misuse → Prop) (I : Heap → Prop) :
    Prop where
  fold : ∀ {h loc c p}, I h → h.slot loc = .occupied (.cell c) → loc ∉ cuts →
    p ∈ Predicate.candidates structs c.ty →
    Yields (BadRefusal bad) (h.fold structs (.ptr loc) p none cuts) fun r => I r.1
  extend : ∀ loc, ExtensionKeeps structs cuts bad I loc

/-- A step of widening keeps an invariant. -/
theorem WideningKeeps.widenAt (hk : WideningKeeps structs cuts bad I) (hI : I h) (loc : Loc) :
    Yields bad (h.widenAt structs cuts loc) fun r => I r.1 := by
  rw [Heap.widenAt.eq_def]
  split
  · rename_i c hs
    dsimp only
    -- A cut stays as it is, and so does a cell that cannot be folded.
    split
    · exact hI
    · rename_i hcut
      refine (foldFirst_yields fun p hp => hk.fold hI hs hcut hp).bind fun r hr => ?_
      cases r with
      | none => exact hI
      | some h₁ => exact (extend_yields (hk.extend loc) (hr h₁ rfl)).bind fun _ h => h
  · exact (extend_yields (hk.extend loc) hI).bind fun _ h => h
  · exact hI

/-- So a run of steps keeps it. -/
theorem WideningKeeps.widenAll (hk : WideningKeeps structs cuts bad I) (hI : I h)
    (unseen waiting : List Loc) : Yields bad (widenAll structs cuts h unseen waiting) I := by
  induction h, unseen, waiting using widenAll.induct structs cuts with
  | case1 h unseen =>
    rw [Heap.widenAll]
    exact hI
  | case2 h unseen loc waiting hmem h₁ new hstep ih =>
    rw [Heap.widenAll, if_pos hmem, hstep]
    exact ih ((hk.widenAt hI loc).of_ok hstep)
  | case3 h unseen loc waiting hmem e hstep =>
    have hno := hk.widenAt hI loc
    rw [Heap.widenAll, if_pos hmem]
    rw [hstep] at hno ⊢
    exact hno
  | case4 h unseen loc waiting hmem ih =>
    rw [Heap.widenAll, if_neg hmem]
    exact ih hI

end Heap

/-! ### Weaker heaps -/

/-- The hole of a segment is not at a cell that is laid out for the segment but is of another
    structure, unless it is at a cut. -/
def Summary.Matched (structs : Structs) (cuts : List Loc) (h : Heap) (s : Summary) : Prop :=
  ∀ next params c, s.hole = some ⟨.ptr next, params⟩ → next ∉ cuts →
    h.slot next = .occupied (.cell c) → c.ty = s.ty ∨ s.pred.layout? structs c.ty = none

/-- A heap that is widened soundly: no segment of it is mistaken for one of another structure. -/
structure Heap.Ready (structs : Structs) (cuts : List Loc) (h : Heap) : Prop
    extends h.Regular structs where
  matched : ∀ k s, h.slot k = .occupied (.summary s) → s.Matched structs cuts h

/-- A weaker heap that is ready to be widened. -/
structure Heap.Weakens (structs : Structs) (ok : Record → Prop) (cuts : List Loc) (h h' : Heap) :
    Prop where
  ready : h'.Ready structs cuts
  entails : h.Entails structs ok h'

namespace Heap

variable {structs : Structs} {ok : Record → Prop} {cuts : List Loc} {h h₁ h₂ : Heap} {loc next : Loc}
  {s : Summary} {params : Params}

theorem Forgets.entails (hf : h.Forgets h₁) : h.Entails structs ok h₁ := by
  rintro ν m - ⟨foot, hd⟩
  exact ⟨foot, hd.forget hf⟩

theorem Ready.forget (hr : h.Ready structs cuts) (hf : h.Forgets h₁) : h₁.Ready structs cuts where
  toRegular := hr.toRegular.forget hf
  matched k s hs next params c ho hcut hc :=
    hr.matched k s (hf.occupied hs) next params c ho hcut (hf.occupied hc)

theorem Ready.write (hr : h.Ready structs cuts) (hw : s.WellFormed structs)
    (hm : s.Matched structs cuts h) : (h.write loc (.occupied (.summary s))).Ready structs cuts := by
  -- The heap has one summary more, and no cell that was not there before.
  have hcell {k : Loc} {c : Cell}
      (hk : (h.write loc (.occupied (.summary s))).slot k = .occupied (.cell c)) :
      h.slot k = .occupied (.cell c) := by
    obtain ⟨-, he⟩ | ⟨-, hk⟩ := occupied_write_cases hk
    · cases he
    · exact hk
  refine ⟨⟨fun k f hk => ?_, fun k c hk => hr.cells k c (hcell hk)⟩,
    fun k s' hk next params c ho hcut hc => ?_⟩
  · obtain ⟨-, he⟩ | ⟨-, hk⟩ := occupied_write_cases hk
    · cases he
      exact hw
    · exact hr.facts k f hk
  · obtain ⟨-, he⟩ | ⟨-, hk⟩ := occupied_write_cases hk
    · cases he
      exact hm next params c ho hcut (hcell hc)
    · exact hr.matched k s' hk next params c ho hcut (hcell hc)

namespace Weakens

theorem refl (hr : h.Ready structs cuts) : h.Weakens structs ok cuts h := ⟨hr, fun _ _ _ hs => hs⟩

theorem trans (hw : h.Weakens structs ok cuts h₁) (hw' : h₁.Weakens structs ok cuts h₂) :
    h.Weakens structs ok cuts h₂ :=
  ⟨hw'.ready, fun ν m hm hs => hw'.entails ν m hm (hw.entails ν m hm hs)⟩

theorem forget (hr : h.Ready structs cuts) (hf : h.Forgets h₁) : h.Weakens structs ok cuts h₁ :=
  ⟨hr.forget hf, hf.entails⟩

/-- What was taken out of a heap may come back as a summary that holds of it. -/
theorem replace (hr : h.Ready structs cuts) (hf : h.Forgets h₁) (hl : loc.index < h.size)
    (hw : s.WellFormed structs) (hm : s.Matched structs cuts h₁)
    (hs : ∀ ν m foot, (∀ a r, m.lookup a = some r → ok r) → h.Describes structs ok ν m foot →
      ∃ A, s.Holds structs ok ν m loc A ∧ ∀ k f, k ≠ loc → h₁.slot k = .occupied f →
        Disjoint (foot k) A) :
    h.Weakens structs ok cuts (h₁.write loc (.occupied (.summary s))) := by
  have hl₁ : loc.index < h₁.size := hf.size ▸ hl
  refine ⟨(hr.forget hf).write hw hm, ?_⟩
  rintro ν m hrec ⟨foot, hd⟩
  obtain ⟨A, hA, hdisj⟩ := hs ν m foot hrec hd
  exact ⟨_, (hd.forget hf).write hl₁ hA hdisj⟩

end Weakens

/-! ### Folding a cell -/

/-- A summary that was gathered has its hole at a cut. -/
theorem Gathers.matched (hg : h.Gathers structs loc cuts s h₁) (g : Heap) :
    s.Matched structs cuts g := by
  rintro next params c ho hcut -
  obtain ⟨k, hk, hv⟩ := hg.hole _ ho
  cases hv
  exact absurd hk hcut

/-- A fold puts a summary in the place of what it holds of. -/
theorem fold_weakens (ok : Record → Prop) (loc : Loc) {p : Predicate} (hr : h.Ready structs cuts)
    (hp : p = .list ∨ p = .tree) :
    (∃ e, h.fold structs (.ptr loc) p none cuts = .error (.mismatch e)) ∨
    ∃ h' hole, h.fold structs (.ptr loc) p none cuts = .ok (h', hole) ∧
      h.Weakens structs ok cuts h' := by
  rw [fold]
  rcases hr.toRegular.gather_cases loc none cuts hp with ⟨e, he⟩ | ⟨s, h', hok, -, -, hg⟩
  · rw [he]
    exact .inl ⟨e, rfl⟩
  · rw [hok]
    exact .inr ⟨_, s.hole, rfl, (hr.forget hg.forgets).write hg.wellFormed (hg.matched h'),
      hg.entails ok⟩

/-! ### Extending a segment -/

/-- What a segment goes on with, taken out of a heap as a summary. -/
structure Continues (structs : Structs) (cuts : List Loc) (h : Heap) (s : Summary) (next : Loc)
    (params : Params) (rest : Summary) (h' : Heap) : Prop where
  forgets : h.Forgets h'
  wellFormed : rest.WellFormed structs
  pred : rest.pred = s.pred
  struct : rest.ty = s.ty
  params : rest.params = params
  matched : rest.Matched structs cuts h
  holds : ∀ ok ν m foot, (∀ a r, m.lookup a = some r → ok r) →
    h.Describes structs ok ν m foot → ∃ B, rest.Holds structs ok ν m next B ∧ (B : Set Addr) ⊆ h.lost h' foot

/-- In a heap that is ready, a segment only goes on with its own structure. -/
theorem takeRest_cases (hr : h.Ready structs cuts) (hs : h.slot loc = .occupied (.summary s))
    (ho : s.hole = some ⟨.ptr next, params⟩) (hcut : next ∉ cuts) :
    h.takeRest structs cuts s next params = .ok none ∨
    ∃ rest h', h.takeRest structs cuts s next params = .ok (some (rest, h')) ∧
      h.Continues structs cuts s next params rest h' := by
  have hw : s.WellFormed structs := hr.facts loc _ hs
  rw [takeRest]
  rcases hn : h.slot next with _ | f | _
  · exact .inl rfl
  · rcases f with c | rest | ⟨set, target⟩
    · rcases hr.toRegular.gather_cases next (some params) cuts hw.kind with
        ⟨e, he⟩ | ⟨rest, h', hok, hpred, hparams, hg⟩
      · exact .inl (by simp only [he])
      · refine .inr ⟨rest, h', by simp only [hok], hg.forgets, hg.wellFormed, hpred, ?_, ?_,
          hg.matched h, hg.holds⟩
        -- The cell was taken, so it is laid out for the segment and must be of its structure.
        · have hlayout := hg.wellFormed.layout
          rw [hpred, hg.struct c hn] at hlayout
          rcases hr.matched loc s hs next params c ho hcut hn with hty | hnone
          · exact (hg.struct c hn).trans hty
          · rw [hnone] at hlayout
            cases hlayout
        · rcases hparams with hnone | hsome
          · cases hnone
          · exact (Option.some.inj hsome).symm
    · by_cases hsame : rest.pred = s.pred ∧ rest.ty = s.ty ∧ rest.params = params
      · refine .inr ⟨rest, h.write next .vacant, by simp only [if_pos hsame], h.forgets_vacate next,
          hr.facts next _ hn, hsame.1, hsame.2.1, hsame.2.2, hr.matched next rest hn, ?_⟩
        intro ok ν m foot hm hd
        refine ⟨foot next, hd.facts next _ hn, fun x hx => ⟨next, _, hn, ?_, hx⟩⟩
        rw [slot_write_vacant, if_pos rfl]
      · exact .inl (by simp only [if_neg hsame])
    · exact .inl rfl
  · exact .inl rfl

/-- A segment takes over what it goes on with. -/
theorem Continues.weakens {rest : Summary} (hc : h.Continues structs cuts s next params rest h₁)
    (hr : h.Ready structs cuts) (hs : h.slot loc = .occupied (.summary s))
    (ho : s.hole = some ⟨.ptr next, params⟩) : h.Weakens structs ok cuts (h₁.setHole loc rest.hole) := by
  rw [setHole]
  rcases hs₁ : h₁.summary? loc with _ | s'
  · -- The segment itself was taken, so facts were forgotten and nothing is left to extend.
    exact .forget hr hc.forgets
  · have hslot := slot_of_summary? hs₁
    cases hs.symm.trans (hc.forgets.occupied hslot)
    have hw : s.WellFormed structs := hr.facts loc _ hs
    refine .replace hr hc.forgets (lt_size_of_occupied hs) ?_ ?_ ?_
    · exact { hw with hole := fun o ho => hc.pred ▸ hc.wellFormed.hole o ho }
    · rintro next' params' c ho' hcut' hc'
      have hm := hc.matched next' params' c ho' hcut' (hc.forgets.occupied hc')
      rwa [hc.struct, hc.pred] at hm
    · intro ν m foot hm hd
      obtain ⟨B, hB, hlost⟩ := hc.holds ok ν m foot hm hd
      have hdisj {k : Loc} {f : Fact} (hk : h₁.slot k = .occupied f) : Disjoint (foot k) B :=
        hd.disjoint_lost (.refl h) (hc.forgets.occupied hk) (.inr hk) hlost
      have hseg : s.Holds structs ok ν m loc (foot loc) := hd.facts loc _ hs
      refine ⟨foot loc ∪ B, hseg.plug hB hw hc.wellFormed ho hc.pred hc.struct hc.params
        (hdisj hslot), fun k f hne hk => ?_⟩
      refine Finset.disjoint_union_right.2 ⟨?_, hdisj hk⟩
      exact hd.apart k loc f _ (hc.forgets.occupied hk) hs hne

end Heap

/-! ### Steps and runs -/

theorem Predicate.mem_candidates {structs : Structs} {ty : StructId} {p : Predicate} :
    p ∈ candidates structs ty ↔ (p.layout? structs ty).isSome := by
  rw [candidates, mem_filter, and_iff_right]
  cases p <;> decide

namespace Structs

/-- No structure of a table is laid out for a predicate with sets. -/
def Graphless (structs : Structs) : Prop :=
  ∀ ty, Predicate.graph.layout? structs ty = none ∧ Predicate.edges.layout? structs ty = none

theorem Graphless.kind {structs : Structs} (hg : structs.Graphless) {ty : StructId} {p : Predicate}
    (hl : (p.layout? structs ty).isSome) : p = .list ∨ p = .tree := by
  rcases p with _ | _ | _ | _
  · exact .inl rfl
  · exact .inr rfl
  · rw [(hg ty).1] at hl
    cases hl
  · rw [(hg ty).2] at hl
    cases hl

theorem Graphless.candidates {structs : Structs} (hg : structs.Graphless) {ty : StructId}
    {p : Predicate} (hp : p ∈ Predicate.candidates structs ty) : p = .list ∨ p = .tree :=
  hg.kind (Predicate.mem_candidates.1 hp)

end Structs

namespace Heap

variable {structs : Structs} {ok : Record → Prop} {cuts : List Loc} {h : Heap}

/-- The steps of widening weaken a heap. -/
theorem weakens_widening (ok : Record → Prop) (hg : structs.Graphless) (h : Heap) :
    WideningKeeps structs cuts (fun _ => True) (h.Weakens structs ok cuts) where
  fold {_ loc _ _} hw hs _ hp := by
    rcases fold_weakens ok loc hw.ready (hg.candidates hp) with ⟨e, he⟩ | ⟨h', hole, hok, hw'⟩
    · rw [he]
      exact id
    · rw [hok]
      exact hw.trans hw'
  extend loc h₁ s next params hw hs ho _ hcut := by
    rcases takeRest_cases hw.ready hs ho hcut with hnone | ⟨rest, h', hok, hc⟩
    · rw [hnone]
      exact nofun
    · rw [hok]
      rintro _ _ ⟨⟩
      exact hw.trans (hc.weakens hw.ready hs ho)

theorem forgets_collect (h : Heap) (roots : List Value) : h.Forgets (h.collect roots) where
  size := Arena.size_keep ..
  slot k := by
    rw [slot, collect, keep, Arena.slot_keep]
    split
    · exact .inl rfl
    · exact .inr rfl

/-- The widened heap is weaker. -/
theorem widen_entails (ok : Record → Prop) (hg : structs.Graphless) {roots : List Value}
    (hr : h.Ready structs (roots.filterMap Value.loc?)) :
    ∃ h', h.widen structs roots = .ok h' ∧ h.Entails structs ok h' := by
  obtain ⟨h₁, hrun, hw⟩ :=
    ((weakens_widening ok hg h).widenAll (.refl hr) h.locs (roots.filterMap Value.loc?)).exists_ok
  refine ⟨h₁.collect roots, ?_, fun ν m hm hs => ?_⟩
  · simp only [widen, hrun, bind, Except.bind, pure, Except.pure]
  · exact (forgets_collect h₁ roots).entails ν m hm (hw.entails ν m hm hs)

end Heap

/-! ### Tables that are widened soundly -/

/-- A record has all the fields of its structure. -/
def Record.Complete (structs : Structs) (r : Record) : Prop :=
  ∀ decl, structs.decl? r.ty = some decl → decl.fields.length ≤ r.fields.length

/-- No segment of a heap can be taken for one of another structure. -/
def Heap.Matched (structs : Structs) (roots : List Value) (h : Heap) : Prop :=
  ∀ k s, h.slot k = .occupied (.summary s) → s.Matched structs (roots.filterMap Value.loc?) h

/-- The widened heap describes all the memory that the heap describes. -/
def Heap.WidensSoundly (structs : Structs) (ok : Record → Prop) (h : Heap) (roots : List Value) : Prop :=
  ∀ ν m, (∀ a r, m.lookup a = some r → ok r) → h.Sat structs ok ν m →
    ∃ h', h.widen structs roots = .ok h' ∧ h'.Sat structs ok ν m

/-- No two structures of a table are laid out for the same predicate without sets. -/
def Structs.Unmistakable (structs : Structs) : Prop :=
  ∀ p : Predicate, p = .list ∨ p = .tree → ∀ ty ty', (p.layout? structs ty).isSome →
    (p.layout? structs ty').isSome → ty = ty'

namespace Heap

variable {structs : Structs} {ok : Record → Prop} {h : Heap} {roots : List Value}

/-- The cells that describe complete records are complete. -/
theorem Describes.complete {ν : Valuation} {m : Memory} {foot : Loc → Finset Addr}
    (hd : h.Describes structs ok ν m foot) (hm : ∀ a r, m.lookup a = some r → r.Complete structs)
    {k : Loc} {c : Cell} (hk : h.slot k = .occupied (.cell c)) : c.Complete structs := by
  obtain ⟨a, r, -, hr, hty, hfields, -⟩ := hd.facts k _ hk
  intro decl hdecl
  rw [hfields.length_eq]
  exact hm a r hr decl (hty ▸ hdecl)

/-- Widening is sound for heaps whose segments cannot be mistaken. -/
theorem WellFormed.widensSoundly (hw : h.WellFormed structs) (hg : structs.Graphless)
    (hok : ∀ r, ok r → r.Complete structs) (hm : h.Matched structs roots) :
    h.WidensSoundly structs ok roots := by
  intro ν m hrec hs
  obtain ⟨foot, hd⟩ := hs
  have hcells := fun k c hk => hd.complete (fun a r hr => hok r (hrec a r hr)) (k := k) (c := c) hk
  obtain ⟨h', hwiden, hent⟩ := widen_entails ok hg ⟨⟨hw, hcells⟩, hm⟩
  exact ⟨h', hwiden, hent ν m hrec ⟨foot, hd⟩⟩

/-- In a table without mistakable structures no segment can be mistaken. -/
theorem WellFormed.matched (hw : h.WellFormed structs) (hu : structs.Unmistakable) :
    h.Matched structs roots := by
  intro k s hs next params c _ _ _
  have hws : s.WellFormed structs := hw k _ hs
  rcases hl : s.pred.layout? structs c.ty with _ | layout
  · exact .inr rfl
  · exact .inl (hu s.pred hws.kind c.ty s.ty (Option.isSome_of_eq_some hl) hws.layout)

end Heap

/-! ### A segment that is mistaken -/

/-- What is known of a field that is null if it is a pointer. -/
def Ty.blank : Ty → Value
  | .int => .int
  | .ptr _ => .null

/-- A datum of a type. -/
def Ty.zero : Ty → Datum
  | .int => .scalar 0
  | .ptr _ => .null

namespace StructDecl

/-- A cell whose pointers are null. -/
def blank (decl : StructDecl) (ty : StructId) : Cell := ⟨ty, decl.fields.map fun f => f.ty.blank⟩

/-- A record whose pointers are null. -/
def zero (decl : StructDecl) (ty : StructId) : Record := ⟨ty, decl.fields.map fun f => f.ty.zero⟩

variable {decl : StructDecl} {ty : StructId}

theorem blank_holds (ν : Valuation) :
    List.Forall₂ ν.Holds (decl.blank ty).fields (decl.zero ty).fields := by
  refine forall₂_map_left_iff.2 (forall₂_map_right_iff.2 (forall₂_same.2 fun f _ => ?_))
  rcases f.ty with _ | target
  · exact ⟨0, rfl⟩
  · exact rfl

theorem zero_fits {structs : Structs} (hdecl : structs.decl? ty = some decl) :
    (decl.zero ty).Fits structs := by
  refine ⟨decl, hdecl, forall₂_map_right_iff.2 (forall₂_same.2 fun f _ => ?_)⟩
  rcases f.ty with _ | target
  · exact ⟨0, rfl⟩
  · exact ⟨none, rfl⟩

theorem blank_field {places : List Nat} (hat : decl.PointersAt ty places) {i : Nat}
    (hi : i ∈ places) : (decl.blank ty).fields[i]? = some .null := by
  obtain ⟨f, hf, hty⟩ := hat.target i hi
  rw [blank, getElem?_map, hf, Option.map_some, hty]
  rfl

end StructDecl

/-- Memory with one record. -/
def Memory.single (r : Record) : Memory := Finmap.singleton 0 r

theorem Memory.lookup_single {r r' : Record} {a : Addr} :
    (single r).lookup a = some r' ↔ a = 0 ∧ r' = r := by
  constructor
  · intro hr
    have ha : a = 0 := (Finmap.mem_singleton _ _ _).1 (Finmap.mem_of_lookup_eq_some hr)
    subst ha
    exact ⟨rfl, Option.some.inj (hr.symm.trans Finmap.lookup_singleton_eq)⟩
  · rintro ⟨rfl, rfl⟩
    exact Finmap.lookup_singleton_eq

/-- Parameters that are null. -/
def Params.nulls (p : Predicate) : Params := ⟨List.replicate p.signature.ptrArity .null, []⟩

/-- A heap with a cell at its first location, and a segment that ends there at its second. -/
def Heap.seam (p : Predicate) (ty : StructId) (c : Cell) : Heap :=
  ⟨.ofSlots [.occupied (.cell c), .occupied (.summary ⟨p, ty, .nulls p, some ⟨.ptr ⟨0⟩, .nulls p⟩⟩)], .empty⟩

namespace Heap

open Folding

variable {structs : Structs} {ok : Record → Prop} {h : Heap} {shape : Shape} {ty ty' : StructId}
  {decl : StructDecl} {loc : Loc} {p : Predicate}

theorem nulls_proper (p : Predicate) (v : Value) : (⟨v, .nulls p⟩ : Hole).Proper p where
  scalar hmem := nomatch (mem_replicate.1 hmem).2
  arity := length_replicate
  sets := rfl

/-- The search meets goals for null at once. -/
theorem absorb_nulls (cfg : Setting) (st : Folding) (n : Nat) (params : Params) :
    st.absorb cfg (List.replicate n (.inst .null shape.pred ty params)) = .ok st := by
  induction n with
  | zero => rw [replicate_zero, absorb]
  | succ n ih =>
    have hv : st.visit cfg (.inst .null shape.pred ty params) = .ok (st, []) := by
      rcases shape with next | ⟨left, right, up⟩ <;> rfl
    rw [replicate_succ, absorb, hv]
    exact ih

theorem meetCell_blank (sets : SetStore) (loc : Loc)
    (hl : shape.pred.layout? structs ty = some shape.layout) (hat : decl.PointersAt ty shape.places) :
    ∃ n params, meetCell structs sets loc (decl.blank ty) shape.pred ty (.nulls shape.pred) =
      .ok (sets, List.replicate n (.inst .null shape.pred ty params)) := by
  have hfield {i : Nat} (hi : i ∈ shape.places) := StructDecl.blank_field hat hi
  have hty : (decl.blank ty).ty = ty := rfl
  rw [meetCell, if_neg (not_not_intro hty), hl]
  rcases shape with next | ⟨left, right, up⟩
  · refine ⟨1, .none, ?_⟩
    simp [Shape.layout, Shape.pred, checkBack, Predicate.step, cellGoals, Goal.ofField, bind,
      Except.bind, hfield (i := next) (by simp [Shape.places]), hty]
  · refine ⟨2, ⟨[.ptr loc], []⟩, ?_⟩
    simp [Shape.layout, Shape.pred, checkBack, Predicate.step, cellGoals, Goal.ofField, bind,
      Except.bind, hfield (i := left) (by simp [Shape.places]),
      hfield (i := right) (by simp [Shape.places]), hfield (i := up) (by simp [Shape.places]), hty,
      Params.nulls, Predicate.signature, List.replicate]

/-- A cell whose pointers are null is a whole structure. -/
theorem gather_blank (stops : List Loc) (hl : shape.pred.layout? structs ty = some shape.layout)
    (hat : decl.PointersAt ty shape.places) (hs : h.slot loc = .occupied (.cell (decl.blank ty))) :
    h.gather structs loc shape.pred (some (.nulls shape.pred)) stops =
      .ok (⟨shape.pred, ty, .nulls shape.pred, none⟩, h.write loc .vacant) := by
  have harity : checkArity shape.pred (some (.nulls shape.pred)) (some loc) = .ok () := by
    rw [checkArity, if_pos]
    refine ⟨length_replicate, ?_⟩
    rcases shape with _ | _ <;> rfl
  have hroot : h.rootStruct loc = .ok ty := by
    rw [rootStruct, hs]
    rfl
  obtain ⟨n, params, hmeet⟩ := meetCell_blank h.sets loc hl hat
  simp only [gather, bind, Except.bind, pure, Except.pure, harity, hroot, hl, chooseParams, enter,
    not_mem_nil, if_false, hs, hmeet, Except.map, absorb_nulls, Option.map_none]
  rfl

/-- A segment takes over a cell whose pointers are null. -/
theorem extend_blank {cuts : List Loc} {next : Loc} {s : Summary}
    (hl : shape.pred.layout? structs ty = some shape.layout)
    (hat : decl.PointersAt ty shape.places) (hs : h.summary? loc = some s) (hp : s.pred = shape.pred)
    (ho : s.hole = some ⟨.ptr next, .nulls shape.pred⟩) (hstop : ¬(next = loc ∨ next ∈ cuts))
    (hnext : h.slot next = .occupied (.cell (decl.blank ty))) :
    h.extend structs cuts loc = ((h.write next .vacant).setHole loc none).extend structs cuts loc := by
  rw [extend_of_takeRest hs ho hstop]
  simp only [takeRest, hnext, hp, gather_blank _ hl hat hnext]

theorem seam_slot_cases {c : Cell} {k : Loc} {f : Fact} (hk : (seam p ty c).slot k = .occupied f) :
    k = ⟨0⟩ ∧ f = .cell c ∨
      k = ⟨1⟩ ∧ f = .summary ⟨p, ty, .nulls p, some ⟨.ptr ⟨0⟩, .nulls p⟩⟩ := by
  rcases k with ⟨_ | _ | i⟩
  · cases hk
    exact .inl ⟨rfl, rfl⟩
  · cases hk
    exact .inr ⟨rfl, rfl⟩
  · cases hk

theorem seam_wellFormed (c : Cell) (hp : p = .list ∨ p = .tree) (hl : (p.layout? structs ty).isSome) :
    (seam p ty c).WellFormed structs := by
  intro k f hk
  rcases seam_slot_cases hk with ⟨-, rfl⟩ | ⟨-, rfl⟩
  · trivial
  · refine ⟨hp, hl, length_replicate, rfl, fun o ho => ?_⟩
    cases ho
    have hproper := nulls_proper p (.ptr ⟨0⟩)
    exact ⟨Value.noConfusion, hproper.scalar, hproper.arity, hproper.sets⟩

/-- Both locations of a seam can be the same record: the segment may be empty. -/
theorem seam_sat (decl : StructDecl) (ty' : StructId) (hp : p = .list ∨ p = .tree)
    (hl : (p.layout? structs ty).isSome) :
    (seam p ty (decl.blank ty')).Sat structs ok (fun _ => some 0) (.single (decl.zero ty')) := by
  obtain ⟨layout, hlayout⟩ := Option.isSome_iff_exists.1 hl
  obtain ⟨shape, rfl, rfl, -⟩ := Shape.exists_of_layout hp hlayout
  refine ⟨fun k => if k = ⟨0⟩ then {0} else ∅, fun k f hk => ?_, fun k k' f f' _ _ hne => ?_,
    fun k hk => ?_⟩
  · rcases seam_slot_cases hk with ⟨rfl, rfl⟩ | ⟨rfl, rfl⟩
    · exact ⟨0, _, rfl, Memory.lookup_single.2 ⟨rfl, rfl⟩, rfl, StructDecl.blank_holds _, if_pos rfl⟩
    · have hps : List.Forall₂ (Valuation.Holds fun _ => some 0) (Params.nulls shape.pred).ptrs
          (List.replicate shape.pred.signature.ptrArity .null) := by
        rcases shape with _ | _
        · exact .nil
        · exact .cons rfl .nil
      have hw : Fact.WellFormed structs (.summary _) :=
        seam_wellFormed (decl.blank ty') hp hl ⟨1⟩ _ hk
      show Summary.Holds structs ok (fun _ => some 0) (.single (decl.zero ty')) ⟨1⟩ _ _
      refine (Summary.holds_iff_piece hw rfl hlayout).2
        ⟨_, some (.addr 0, _), hps, .some ⟨rfl, hps⟩, ?_⟩
      exact .gap length_replicate
  · by_cases hk : k = ⟨0⟩
    · have hk' : k' ≠ ⟨0⟩ := fun hk' => hne (hk.trans hk'.symm)
      rw [if_neg hk']
      exact Finset.disjoint_empty_right _
    · rw [if_neg hk]
      exact Finset.disjoint_empty_left _
  · rcases k with ⟨_ | _ | i⟩ <;> cases hk

/-- The segment of a seam takes the cell over, whatever its structure is. -/
theorem seam_widen (ty : StructId) (hl : shape.pred.layout? structs ty' = some shape.layout)
    (hat : decl.PointersAt ty' shape.places) :
    ∃ h', (seam shape.pred ty (decl.blank ty')).widen structs [.ptr ⟨1⟩] = .ok h' ∧
      h'.slot ⟨1⟩ = .occupied (.summary ⟨shape.pred, ty, .nulls shape.pred, none⟩) := by
  let start := seam shape.pred ty (decl.blank ty')
  let segment : Summary := ⟨shape.pred, ty, .nulls shape.pred, some ⟨.ptr ⟨0⟩, .nulls shape.pred⟩⟩
  let merged : Heap :=
    ⟨.ofSlots [.vacant, .occupied (.summary ⟨shape.pred, ty, .nulls shape.pred, none⟩)], .empty⟩
  have hext : start.extend structs [⟨1⟩] ⟨1⟩ = .ok merged := by
    rw [extend_blank (s := segment) hl hat rfl rfl rfl (by decide) rfl]
    show merged.extend structs [⟨1⟩] ⟨1⟩ = .ok merged
    rw [extend]
    rfl
  have hstep : start.widenAt structs [⟨1⟩] ⟨1⟩ = .ok (merged, []) := by
    have hsegment : start.slot ⟨1⟩ = .occupied (.summary segment) := rfl
    simp only [widenAt, hsegment, hext, bind, Except.bind, pure, Except.pure]
  have hrun : widenAll structs [⟨1⟩] start start.locs [⟨1⟩] = .ok merged := by
    have hmem : (⟨1⟩ : Loc) ∈ start.locs := by
      show (⟨1⟩ : Loc) ∈ [⟨0⟩, ⟨1⟩]
      simp
    rw [widenAll, if_pos hmem, hstep]
    show widenAll structs [⟨1⟩] merged _ [] = _
    rw [widenAll]
  -- The merged summary mentions no location, so only its root is reached.
  have hreach : merged.reach [.ptr ⟨1⟩] = [⟨1⟩] := by
    have hlinks : merged.links = [] := by rcases shape with _ | _ <;> rfl
    rw [reach, hlinks, Reach.closure]
    simp [Reach.visit, Reach.next, Value.loc?]
  refine ⟨merged.collect [.ptr ⟨1⟩], ?_, ?_⟩
  · show (widenAll structs [⟨1⟩] start start.locs [⟨1⟩] >>= fun h => pure (h.collect [.ptr ⟨1⟩])) = _
    rw [hrun]
    rfl
  · rw [slot, collect, hreach, keep, Arena.slot_keep]
    rfl

/-- A seam of two structures is not widened soundly: the record is not of the structure that
    the segment claims for it afterwards. -/
theorem seam_not_widensSoundly (hp : p = .list ∨ p = .tree) (hok : ∀ r, r.Fits structs → ok r)
    (hne : ty ≠ ty') (hl : (p.layout? structs ty).isSome) (hl' : (p.layout? structs ty').isSome)
    (hdecl : structs.decl? ty' = some decl) :
    ¬ (seam p ty (decl.blank ty')).WidensSoundly structs ok [.ptr ⟨1⟩] := by
  intro hsound
  have hsat : (seam p ty (decl.blank ty')).Sat structs ok (fun _ => some 0) _ :=
    seam_sat decl ty' hp hl
  obtain ⟨layout, hl⟩ := Option.isSome_iff_exists.1 hl
  obtain ⟨layout', hl'⟩ := Option.isSome_iff_exists.1 hl'
  obtain ⟨shape, rfl, rfl, -⟩ := Shape.exists_of_layout hp hl
  obtain ⟨shape', hsame, rfl, decl', hdecl', hat⟩ := Shape.exists_of_layout hp hl'
  cases hdecl.symm.trans hdecl'
  have hrec : ∀ a r, (Memory.single (decl.zero ty')).lookup a = some r → ok r := by
    intro a r hr
    rw [(Memory.lookup_single.1 hr).2]
    exact hok _ (StructDecl.zero_fits hdecl)
  obtain ⟨h', hwiden, foot, hd⟩ := hsound _ _ hrec hsat
  obtain ⟨h'', hwiden', hslot⟩ := seam_widen ty (hsame ▸ hl') hat
  rw [← hsame] at hwiden' hslot
  cases hwiden.symm.trans hwiden'
  -- The segment is full now, so there has to be a record of its structure at its root.
  have hholds : Summary.Holds structs ok (fun _ => some 0) _ ⟨1⟩ (foot ⟨1⟩) _ := hd.facts ⟨1⟩ _ hslot
  have hw : Summary.WellFormed structs ⟨shape.pred, ty, .nulls shape.pred, none⟩ :=
    ⟨shape.kind, Option.isSome_of_eq_some hl, length_replicate, rfl, nofun⟩
  obtain ⟨ps, q, -, hq, hpiece⟩ := (Summary.holds_iff_piece hw rfl hl).1 hholds
  cases hq
  obtain ⟨r, hr, hty, -⟩ := hpiece.root
  rw [(Memory.lookup_single.1 hr).2] at hty
  exact hne hty.symm

/-- Widening never fails only if no two structures are laid out for one predicate. -/
theorem unmistakable_of_widensSoundly (hok : ∀ r, r.Fits structs → ok r)
    (hs : ∀ (h : Heap) roots, h.WellFormed structs → h.WidensSoundly structs ok roots) :
    structs.Unmistakable := by
  intro p hp ty ty' hl hl'
  by_contra hne
  obtain ⟨layout, hlayout⟩ := Option.isSome_iff_exists.1 hl'
  obtain ⟨-, -, -, decl, hdecl, -⟩ := Shape.exists_of_layout hp hlayout
  exact seam_not_widensSoundly hp hok hne hl hl' hdecl (hs _ _ (seam_wellFormed _ hp hl))

/-- Widening over-approximates, for memory whose records have all the fields of their
    structure: where no structure is laid out for a predicate with sets, the widened heap
    describes what the heap describes, if no segment of the heap can be mistaken for one of
    another structure. So for the tables in which no two structures are laid out for the same
    predicate it always does; and only for these. -/
theorem widen_overapproximates (hg : structs.Graphless) (hfit : ∀ r, r.Fits structs → ok r)
    (hok : ∀ r, ok r → r.Complete structs) :
    (∀ (h : Heap) roots, h.WellFormed structs → h.Matched structs roots →
      h.WidensSoundly structs ok roots) ∧
    ((∀ (h : Heap) roots, h.WellFormed structs → h.WidensSoundly structs ok roots) ↔
      structs.Unmistakable) := by
  refine ⟨fun h roots hw hm => hw.widensSoundly hg hok hm, unmistakable_of_widensSoundly hfit, ?_⟩
  exact fun hu h roots hw => hw.widensSoundly hg hok (hw.matched hu)

end Heap

/-! ### One list and two lists -/

/-- A record that fits its structure has all its fields. -/
theorem Record.Fits.complete {structs : Structs} {r : Record} (hr : r.Fits structs) :
    r.Complete structs := by
  obtain ⟨decl, hdecl, hfields⟩ := hr
  rintro decl' hdecl'
  cases hdecl.symm.trans hdecl'
  exact Nat.le_of_eq hfields.length_eq

namespace Sample

/-- A table with two structures, both for lists. -/
def twoLists : Structs := [⟨"a", [⟨"next", .ptr ⟨0⟩⟩]⟩, ⟨"b", [⟨"next", .ptr ⟨1⟩⟩]⟩]

theorem graphless_oneList : oneList.Graphless := by
  rintro ⟨_ | i⟩ <;> exact ⟨rfl, rfl⟩

theorem graphless_twoLists : twoLists.Graphless := by
  rintro ⟨_ | _ | i⟩ <;> exact ⟨rfl, rfl⟩

theorem unmistakable_oneList : oneList.Unmistakable := by
  intro p hp ty ty' hl hl'
  have hzero {k : StructId} (hk : (p.layout? oneList k).isSome) : k = ⟨0⟩ := by
    obtain ⟨layout, hlayout⟩ := Option.isSome_iff_exists.1 hk
    obtain ⟨-, -, -, decl, hdecl, -⟩ := Shape.exists_of_layout hp hlayout
    rcases k with ⟨_ | i⟩
    · rfl
    · cases hdecl
  rw [hzero hl, hzero hl']

end Sample

namespace Heap

open Sample

/-- A segment of a list takes over a node at its end, and goes on to describe it. -/
theorem widen_overapproximates_one_list :
    oneList.Graphless ∧ oneList.Unmistakable ∧
      ∃ h', (seam .list ⟨0⟩ ⟨⟨0⟩, [.null]⟩).widen oneList [.ptr ⟨1⟩] = .ok h' ∧
        h'.Sat oneList (Record.Fits oneList) (fun _ => some 0) (.single ⟨⟨0⟩, [.null]⟩) := by
  have hl : (Predicate.list.layout? oneList ⟨0⟩).isSome := rfl
  have hall := (widen_overapproximates graphless_oneList (fun _ hr => hr)
    (fun _ hr => hr.complete)).2.2 unmistakable_oneList
  have hrec : ∀ a r, (Memory.single ⟨⟨0⟩, [.null]⟩).lookup a = some r → r.Fits oneList := by
    intro a r hr
    rw [(Memory.lookup_single.1 hr).2]
    exact ⟨_, rfl, .cons ⟨none, rfl⟩ .nil⟩
  have hsat : (seam .list ⟨0⟩ ⟨⟨0⟩, [.null]⟩).Sat oneList (Record.Fits oneList) (fun _ => some 0)
      (.single ⟨⟨0⟩, [.null]⟩) :=
    seam_sat ⟨"a", [⟨"next", .ptr ⟨0⟩⟩]⟩ ⟨0⟩ (.inl rfl) hl
  exact ⟨graphless_oneList, unmistakable_oneList,
    hall _ _ (seam_wellFormed _ (.inl rfl) hl) _ _ hrec hsat⟩

/-- A segment of a list of one structure takes over a node of another structure, and does not
    describe it any more. -/
theorem widen_of_two_lists :
    twoLists.Graphless ∧ (seam .list ⟨0⟩ ⟨⟨1⟩, [.null]⟩).WellFormed twoLists ∧
      ¬ (seam .list ⟨0⟩ ⟨⟨1⟩, [.null]⟩).WidensSoundly twoLists (Record.Fits twoLists) [.ptr ⟨1⟩] := by
  refine ⟨graphless_twoLists, seam_wellFormed _ (.inl rfl) rfl, ?_⟩
  show ¬ (seam .list ⟨0⟩ (StructDecl.blank ⟨"b", [⟨"next", .ptr ⟨1⟩⟩]⟩ ⟨1⟩)).WidensSoundly ..
  exact seam_not_widensSoundly (.inl rfl) (fun _ hr => hr) (by decide) rfl rfl rfl

end Heap

end HeapShape
