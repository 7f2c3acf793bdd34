import HeapShape.Proofs.Clearing
import HeapShape.Proofs.Parts

/-!
# Folding what was unfolded

A summary that was unfolded into a cell folds back into itself. Unfolding puts a fact of its own
below each field of the cell, at a new location, and a search from the cell finds exactly these
facts: the smaller summaries with the parameters that it asks for, the hole below one of them, the
set that references lead into. A node that unfolding took out of a set of nodes is taken out along
the same split again, so that the constraints stay as they are.

* `Predicate.step_step`: the second step along the same root changes nothing;
* `Heap.Spots`: where the facts for the fields of a cell are;
* `Heap.Opened`, `Heap.Opened.clears`: a summary that was unfolded, and the search through it, which gets
  to its hole;
* `Heap.Restores`: a heap says of all locations of another one what that one says, up to
  representatives of set variables;
* `Heap.fold_unfold`: folding after unfolding restores the heap, for every predicate.
-/

namespace HeapShape

open List hiding set

/-! ### The same step again -/

theorem SetStore.takeOut_takeOut {s s' : SetStore} {whole rest : SetVar} {elem : Loc} (hv : s.Valid)
    (h : s.takeOut whole elem = (s', some rest)) :
    s'.takeOut whole elem = (s', some rest) ∧ s'.resolve = s.resolve := by
  have hself : s.fresh.2.resolve = s.resolve := funext (resolve_fresh s)
  rw [takeOut] at h
  cases hs : s.splitOf? whole elem with
  | some r =>
    rw [hs] at h
    cases h
    rw [takeOut, hs]
    exact ⟨rfl, rfl⟩
  | none =>
    simp only [hs] at h
    cases ha : s.fresh.2.addSplit? whole elem s.fresh.1 with
    | none =>
      rw [ha] at h
      cases h
    | some s₁ =>
      rw [ha] at h
      cases h
      have hsplit := splits_of_addSplit? ha
      have hresolve : s'.resolve = s.resolve := by
        rw [← hself]
        exact funext fun v => by rw [resolve, resolve, hsplit.reprs]
      refine ⟨?_, hresolve⟩
      -- The split that is found now is the new one, since none was found before.
      have hfound : (s'.splitOf? whole elem).isSome := by
        refine splitOf?_isSome.2 ⟨_, (hsplit.mem_splits _).2 (.inr rfl), rfl, ?_⟩
        rw [hresolve, hself, hv.reprs]
      obtain ⟨r, hr⟩ := Option.isSome_iff_exists.1 hfound
      obtain ⟨p, hp, hpe, hpw, hpr⟩ := splitOf?_eq_some hr
      rcases (hsplit.mem_splits p).1 hp with hp | rfl
      · have hsome : (s.splitOf? whole elem).isSome :=
          splitOf?_isSome.2 ⟨p, hp, hpe, by rwa [hresolve] at hpw⟩
        rw [hs] at hsome
        cases hsome
      · have hrest : r = s.fresh.1 := by
          rw [← hpr, hresolve, ← hself, resolve_new, resolve_new]
        rw [takeOut, hr, hrest]

namespace Predicate

/-- A step that was made once changes nothing the second time. -/
theorem step_step {p : Predicate} {root : Loc} {params : Params} {s s' : SetStore} {q : Step}
    (hv : s.Valid) (h : p.step root params s = (s', some q)) :
    p.step root params s' = (s', some q) ∧ s'.resolve = s.resolve := by
  obtain ⟨ptrs, sets⟩ := params
  cases p with
  | list =>
    cases h
    exact ⟨rfl, rfl⟩
  | tree =>
    cases h
    exact ⟨rfl, rfl⟩
  | edges =>
    rcases sets with _ | ⟨targets, _⟩
    · cases h
    · cases h
      exact ⟨rfl, rfl⟩
  | graph =>
    rcases sets with _ | ⟨nodes, _ | ⟨targets, sets⟩⟩
    · cases h
    · cases h
    · rcases ht : s.takeOut nodes root with ⟨s₁, _ | rest⟩
      · simp [step, ht] at h
      · simp only [step, ht, Option.map_some, Prod.mk.injEq, Option.some.injEq] at h
        obtain ⟨rfl, rfl⟩ := h
        obtain ⟨ht', hr⟩ := SetStore.takeOut_takeOut hv ht
        exact ⟨by simp only [step, ht', Option.map_some], hr⟩

/-- Only edges have references, and a step along them says which set they lead into. -/
theorem refs_of_step {p : Predicate} {structs : Structs} {ty : StructId} {layout : Layout} {root : Loc}
    {params : Params} {s s' : SetStore} {q : Step} (hl : p.layout? structs ty = some layout)
    (h : p.step root params s = (s', some q)) : layout.refs = [] ∨ ∃ set, q.refs = some set := by
  have hnone (hp : p.signature.refs = []) : layout.refs = [] := by
    obtain ⟨_, -, ha⟩ := layoutBy_eq_some hl
    exact forall₂_nil_left_iff.1 (hp ▸ ha.refs)
  cases p with
  | list | tree | graph => exact .inl (hnone rfl)
  | edges =>
    obtain ⟨ptrs, _ | ⟨targets, _⟩⟩ := params
    · cases h
    · cases h
      exact .inr ⟨targets, rfl⟩

end Predicate

/-! ### Where the new facts are -/

namespace Heap

/-- Where the facts for the fields of a cell are: at new locations that are all different. -/
structure Spots (h : Heap) (cs : List Content) (spot : Nat → Loc) : Prop where
  field : ∀ i (f : Fact), cs[i]? = some (.fact f) → (h.grow cs).1[i]? = some (Value.ptr (spot i))
  slot : ∀ i (f : Fact), cs[i]? = some (.fact f) → (h.grow cs).2.slot (spot i) = .occupied f
  new : ∀ i, h.size ≤ (spot i).index
  inj : ∀ i j (f g : Fact), cs[i]? = some (.fact f) → cs[j]? = some (.fact g) → spot i = spot j → i = j

theorem exists_spots (h : Heap) (cs : List Content) : ∃ spot, h.Spots cs spot := by
  induction cs generalizing h with
  | nil => exact ⟨fun _ => ⟨h.size⟩, by simp, by simp, fun _ => Nat.le_refl _, by simp⟩
  | cons c cs ih =>
    obtain ⟨spot, hs⟩ := ih (h.place c).2
    have hlt {f : Fact} (hc : c = .fact f) : h.size < (h.place c).2.size := by
      rw [hc, place, size_add]
      exact Nat.lt_succ_self _
    refine ⟨fun i => i.casesOn ⟨h.size⟩ spot, ?_, ?_, ?_, ?_⟩
    · rintro (_ | i) f hf
      · cases hf
        rfl
      · exact hs.field i f hf
    · rintro (_ | i) f hf
      · have hc : c = .fact f := Option.some.inj hf
        rw [grow_cons]
        refine (slot_grow_of_lt (hlt hc) cs).trans ?_
        subst hc
        exact (slot_add h f ⟨h.size⟩).trans (if_pos rfl)
      · exact hs.slot i f hf
    · rintro (_ | i)
      · exact Nat.le_refl _
      · exact (size_le_place h c).trans (hs.new i)
    · rintro (_ | i) (_ | j) f g hf hg he
      · rfl
      · have hn := hs.new j
        have hc := hlt (Option.some.inj hf)
        have hi : h.size = (spot j).index := congrArg Loc.index he
        omega
      · have hn := hs.new i
        have hc := hlt (Option.some.inj hg)
        have hi : (spot i).index = h.size := congrArg Loc.index he
        omega
      · exact congrArg _ (hs.inj i j f g hf hg he)

theorem field_of_value (h : Heap) {cs : List Content} {i : Nat} {v : Value}
    (hi : cs[i]? = some (.value v)) : (h.grow cs).1[i]? = some v := by
  induction cs generalizing h i with
  | nil => cases hi
  | cons c cs ih =>
    cases i with
    | zero =>
      cases hi
      rfl
    | succ i => exact ih _ hi

/-! ### The search through an unfolded summary -/

open Folding

variable {structs : Structs} {h : Heap} {loc : Loc} {s : Summary} {decl : StructDecl} {layout : Layout}
  {step : Step} {way : Option Nat} {sets : SetStore} {stops : List Loc} {cfg : Setting}

/-- A search goes through goals of one kind, if it goes through each of them without a stop. -/
theorem clears_map {α : Type} {goal : α → Goal} {locs : α → List Loc} {l : List α}
    (hc : ∀ a ∈ l, ∀ goals, Clears cfg h sets (goal a :: goals) (locs a) none sets goals)
    (goals : List Goal) : Clears cfg h sets (l.map goal ++ goals) (l.flatMap locs) none sets goals := by
  induction l with
  | nil => exact .nil
  | cons a l ih =>
    exact (hc a (.head _) _).trans (ih fun b hb => hc b (.tail _ hb)) (.inl rfl)

theorem content_of_place (hl : s.pred.layout? structs s.ty = some layout)
    (hdecl : structs.decl? s.ty = some decl) {i : Nat} (hi : i ∈ layout.places) :
    ∃ f, (decl.fields.mapIdx (s.content layout step way))[i]? = some (s.content layout step way i f) := by
  obtain ⟨decl', hdecl', hnamed⟩ := Predicate.named_of_layoutBy hl
  cases hdecl.symm.trans hdecl'
  obtain ⟨hlen, hget⟩ := forall₂_iff_get.1 hnamed
  obtain ⟨n, rfl⟩ := mem_iff_get.1 hi
  obtain ⟨f, hf, -⟩ := hget n (n.2.trans_eq hlen.symm) n.2
  exact ⟨f, by rw [getElem?_mapIdx, hf, Option.map_some]⟩

/-- A summary was unfolded into a cell, and below the fields of the cell are the facts that the
    inductive case of its predicate asks for, at new locations that are all different. -/
structure Opened (h h' : Heap) (loc : Loc) (s : Summary) (layout : Layout) (step : Step) (way : Option Nat)
    (c : Cell) (spot : Nat → Loc) : Prop where
  root : h'.slot loc = .occupied (.cell c)
  ty : c.ty = s.ty
  back : ∀ i, layout.back = some i → c.fields[i]? = some (s.params.ptrs.headD .null)
  succ : ∀ i ∈ layout.successors, c.fields[i]? = some (.ptr (spot i)) ∧
    h'.slot (spot i) = .occupied (.summary ⟨s.pred, s.ty, step.succ, if way = some i then s.hole else none⟩)
  nested : ∀ q ∈ layout.nested, c.fields[q.1]? = some (.ptr (spot q.1)) ∧
    h'.slot (spot q.1) = .occupied (.summary ⟨q.2.1, q.2.2, step.nested, none⟩)
  refs : ∀ q ∈ layout.refs, ∀ set, step.refs = some set → c.fields[q.1]? = some (.ptr (spot q.1)) ∧
    h'.slot (spot q.1) = .occupied (.member set q.2)
  new : ∀ i, h.size ≤ (spot i).index
  inj : ∀ i ∈ layout.successors ++ layout.nested.map Prod.fst,
    ∀ j ∈ layout.successors ++ layout.nested.map Prod.fst, spot i = spot j → i = j

/-- What unfolding puts below the fields. -/
theorem exists_opened (hloc : loc.index < h.size) (hl : s.pred.layout? structs s.ty = some layout)
    (hdecl : structs.decl? s.ty = some decl) (step : Step) (way : Option Nat) (sets : SetStore) :
    ∃ c spot, h.Opened (({ h with sets } : Heap).unfolded loc s.ty
      (decl.fields.mapIdx (s.content layout step way))) loc s layout step way c spot := by
  have hplaces := Predicate.nodup_places hl
  generalize hcs : decl.fields.mapIdx (s.content layout step way) = cs
  have hcontent {i : Nat} (hi : i ∈ layout.places) : ∃ f, cs[i]? = some (s.content layout step way i f) :=
    hcs ▸ content_of_place hl hdecl hi
  obtain ⟨spot, hspots⟩ := exists_spots { h with sets } cs
  have hfact {i : Nat} {f : Fact} (hi : cs[i]? = some (.fact f)) :
      (({ h with sets } : Heap).grow cs).1[i]? = some (.ptr (spot i)) ∧
      (({ h with sets } : Heap).unfolded loc s.ty cs).slot (spot i) = .occupied f := by
    have hne : spot i ≠ loc := by
      rintro rfl
      exact Nat.not_lt.2 (hspots.new i) hloc
    exact ⟨hspots.field i f hi, (slot_write_of_ne hne _).trans (hspots.slot i f hi)⟩
  have hsucc {i : Nat} (hi : i ∈ layout.successors) : cs[i]? = some (.fact (.summary
      ⟨s.pred, s.ty, step.succ, if way = some i then s.hole else none⟩)) := by
    obtain ⟨f, hf⟩ := hcontent (mem_append_left _ (mem_append_left _ (mem_append_left _ hi)))
    rw [hf, Summary.content, Layout.part_of_successor hi]
  have hnested {q : Nat × Predicate × StructId} (hq : q ∈ layout.nested) :
      cs[q.1]? = some (.fact (.summary ⟨q.2.1, q.2.2, step.nested, none⟩)) := by
    obtain ⟨f, hf⟩ := hcontent (mem_append_left _ (mem_append_right _ (mem_map_of_mem hq)))
    rw [hf, Summary.content, Layout.part_of_nested hplaces hq]
  have hsummary {i : Nat} (hi : i ∈ layout.successors ++ layout.nested.map Prod.fst) :
      ∃ f, cs[i]? = some (.fact f) := by
    rcases mem_append.1 hi with hi | hi
    · exact ⟨_, hsucc hi⟩
    · obtain ⟨q, hq, rfl⟩ := mem_map.1 hi
      exact ⟨_, hnested hq⟩
  refine ⟨_, spot, slot_unfolded_self hloc, rfl, fun i hi => ?_, fun i hi => hfact (hsucc hi),
    fun q hq => hfact (hnested hq), fun q hq set hset => hfact ?_, hspots.new, fun i hi j hj he => ?_⟩
  · have hmem : i ∈ layout.places := by simp [Layout.places, hi]
    obtain ⟨f, hf⟩ := hcontent hmem
    rw [Summary.content, Layout.part_of_back hplaces hi] at hf
    exact field_of_value _ hf
  · obtain ⟨f, hf⟩ := hcontent (mem_append_right _ (mem_map_of_mem hq))
    rw [hf, Summary.content, Layout.part_of_ref hplaces hq, hset]
  · obtain ⟨f, hf⟩ := hsummary hi
    obtain ⟨g, hg⟩ := hsummary hj
    exact hspots.inj i j f g hf hg he

namespace Opened

variable {h' : Heap} {c : Cell} {spot : Nat → Loc}

variable (ho : h.Opened h' loc s layout step way c spot) {stops : List Loc}
include ho

/-- The cell meets the goal that the summary met, and leaves goals for its fields. -/
theorem meet (hl : s.pred.layout? structs s.ty = some layout)
    (hstep : s.pred.step loc s.params sets = (sets, some step)) :
    meet structs sets loc (.cell c) s.pred s.ty s.params = .ok (sets, cellGoals c s.pred layout step) := by
  have hback : checkBack loc c layout s.params = .ok () := by
    rw [checkBack]
    cases hb : layout.back with
    | none => rfl
    | some i => simp only [ho.back i hb, if_true]
  rw [Folding.meet, meetCell, if_neg (not_not_intro ho.ty), hl]
  simp only [hback, hstep]
  rfl

/-- The goals for the fields are about the new locations. -/
theorem cellGoals_eq (hrefs : layout.refs = [] ∨ ∃ set, step.refs = some set) :
    cellGoals c s.pred layout step =
      layout.successors.map (fun i => .inst (.ptr (spot i)) s.pred s.ty step.succ) ++
        layout.nested.map (fun q => .inst (.ptr (spot q.1)) q.2.1 q.2.2 step.nested) ++
        layout.refs.map fun q => .ref (.ptr (spot q.1)) step.refs := by
  rw [cellGoals]
  refine congrArg₂ (· ++ ·) (congrArg₂ (· ++ ·) (map_congr_left fun i hi => ?_)
    (map_congr_left fun q hq => ?_)) (map_congr_left fun q hq => ?_)
  · rw [Goal.ofField, (ho.succ i hi).1, ho.ty]
  · simp only [Goal.ofField, (ho.nested q hq).1]
  · rcases hrefs with hnil | ⟨set, hset⟩
    · rw [hnil] at hq
      cases hq
    · simp only [Goal.ofField, (ho.refs q hq set hset).1]

variable (structs sets)

/-- A search finds the members below the references, and takes nothing. -/
theorem clears_refs (hrefs : layout.refs = [] ∨ ∃ set, step.refs = some set) (stops : List Loc) :
    Clears ⟨structs, stops, loc, s.pred⟩ h' sets
      (layout.refs.map (fun q => .ref (.ptr (spot q.1)) step.refs) ++ [])
      (layout.refs.flatMap fun _ => []) none sets [] := by
  refine clears_map (fun q hq goals => ?_) []
  rcases hrefs with hnil | ⟨set, hset⟩
  · rw [hnil] at hq
    cases hq
  · rw [hset]
    exact .member (ho.refs q hq set hset).2 (SetStore.isSubset_iff.2 (.inr (.refl _))) .nil

variable (hstops : ∀ k ∈ stops, k.index < h.size)
include hstops

/-- New locations are not among those that the search stops at. -/
theorem not_mem_stops (i : Nat) : spot i ∉ stops :=
  fun hk => Nat.not_lt.2 (ho.new i) (hstops _ hk)

/-- A search takes the summaries below the nested fields. -/
theorem clears_nested (goals : List Goal) : Clears ⟨structs, stops, loc, s.pred⟩ h' sets
      (layout.nested.map (fun q => .inst (.ptr (spot q.1)) q.2.1 q.2.2 step.nested) ++ goals)
      (layout.nested.flatMap fun q => [spot q.1]) none sets goals :=
  clears_map (fun q hq _ => clears_summary (ho.nested q hq).2
    (fun _ => ho.not_mem_stops hstops q.1) rfl rfl fun o he => (Option.not_mem_none o he).elim) goals

variable (hhole : ∀ o, s.hole = some o → ∃ k, o.value = .ptr k ∧ k ≠ loc ∧ k ∈ stops)
include hhole

/-- A search takes the summary below a successor. -/
theorem clears_one {i : Nat} (hi : i ∈ layout.successors) (goals : List Goal) :
    Clears ⟨structs, stops, loc, s.pred⟩ h' sets (.inst (.ptr (spot i)) s.pred s.ty step.succ :: goals)
      [spot i] (if way = some i then s.hole else none) sets goals := by
  refine clears_summary (ho.succ i hi).2 (fun _ => ho.not_mem_stops hstops i) rfl rfl
    fun o hq => ⟨rfl, hhole o ?_⟩
  rw [← hq]
  split at hq
  · rw [if_pos ‹_›]
  · cases hq

/-- A search for the successors goes through, and gets to the hole below the one that has it. -/
theorem clears_succ (hn : layout.successors.Nodup) (hway : way ∈ s.ways layout) (goals : List Goal) :
    Clears ⟨structs, stops, loc, s.pred⟩ h' sets
      (layout.successors.map (fun i => .inst (.ptr (spot i)) s.pred s.ty step.succ) ++ goals)
      (layout.successors.flatMap fun i => [spot i]) s.hole sets goals := by
  have hone {i : Nat} (hi : i ∈ layout.successors) := ho.clears_one structs sets hstops hhole hi
  have hnone {l : List Nat} (hl : ∀ i ∈ l, i ∈ layout.successors) (hw : ∀ i ∈ l, way ≠ some i)
      (goals : List Goal) : Clears ⟨structs, stops, loc, s.pred⟩ h' sets
        (l.map (fun i => .inst (.ptr (spot i)) s.pred s.ty step.succ) ++ goals)
        (l.flatMap fun i => [spot i]) none sets goals := by
    refine clears_map (fun i hi goals => ?_) goals
    have hfull := hone (hl i hi) goals
    rwa [if_neg (hw i hi)] at hfull
  rw [Summary.ways, Summary.isSegment] at hway
  cases hs : s.hole with
  | none =>
    rw [hs] at hway
    cases mem_singleton.1 hway
    exact hnone (fun _ hi => hi) (fun _ _ he => by cases he) goals
  | some o =>
    rw [hs] at hway
    obtain ⟨i, hi, rfl⟩ := mem_map.1 hway
    -- The successors before and after the one with the hole are full.
    obtain ⟨l, l', hsucc⟩ := append_of_mem hi
    rw [hsucc, nodup_middle] at hn
    have hmem {j : Nat} (hj : j ∈ l ++ l') : j ∈ layout.successors := by
      rw [hsucc]
      simp only [mem_append, mem_cons] at hj ⊢
      tauto
    have hne {j : Nat} (hj : j ∈ l ++ l') : some i ≠ some j := fun he =>
      (nodup_cons.1 hn).1 (Option.some.inj he ▸ hj)
    have hl := hnone (fun j hj => hmem (mem_append_left l' hj))
      (fun j hj => hne (mem_append_left l' hj))
    have hl' := hnone (fun j hj => hmem (mem_append_right l hj))
      (fun j hj => hne (mem_append_right l hj)) goals
    have hi' := hone hi (l'.map (fun i => .inst (.ptr (spot i)) s.pred s.ty step.succ) ++ goals)
    rw [if_pos rfl, hs] at hi'
    rw [hsucc, map_append, map_cons, append_assoc, flatMap_append, flatMap_cons]
    exact (hl _).trans (hi'.trans hl' (.inr rfl)) (.inl rfl)

/-- A search for the summary goes through what it was unfolded into, and gets to its hole. -/
theorem clears (hloc : loc.index < h.size) (hl : s.pred.layout? structs s.ty = some layout)
    (hway : way ∈ s.ways layout) (hstep : s.pred.step loc s.params sets = (sets, some step)) :
    ∃ locs, (loc :: locs).Nodup ∧ (∀ k ∈ locs, h.size ≤ k.index) ∧
      Clears ⟨structs, stops, loc, s.pred⟩ h' sets [.inst (.ptr loc) s.pred s.ty s.params]
        (loc :: locs) s.hole sets [] := by
  have hplaces := Predicate.nodup_places hl
  have hrefs := Predicate.refs_of_step hl hstep
  simp only [Layout.places, nodup_append] at hplaces
  have hsucc := ho.clears_succ structs sets hstops hhole hplaces.1.1.1 hway
  have hnested := ho.clears_nested structs sets hstops
  have hmembers := ho.clears_refs structs sets hrefs stops
  refine ⟨(layout.successors ++ layout.nested.map Prod.fst).map spot, nodup_cons.2 ⟨?_, ?_⟩, ?_, ?_⟩
  · intro hmem
    obtain ⟨i, -, rfl⟩ := mem_map.1 hmem
    exact Nat.not_lt.2 (ho.new i) hloc
  · refine List.Nodup.map_on ho.inj (nodup_append.2 ⟨hplaces.1.1.1, hplaces.1.2.1, ?_⟩)
    exact fun i hi j hj => hplaces.1.2.2 i (mem_append_left _ hi) j hj
  · intro k hk
    obtain ⟨i, -, rfl⟩ := mem_map.1 hk
    exact ho.new i
  · refine .fact ho.root (fun hne => absurd rfl hne) (ho.meet hl hstep) ?_
    rw [ho.cellGoals_eq hrefs, append_assoc, append_assoc]
    have hlocs : layout.successors.flatMap (fun i => [spot i]) ++
        (layout.nested.flatMap (fun q => [spot q.1]) ++ layout.refs.flatMap fun _ => []) =
          (layout.successors ++ layout.nested.map Prod.fst).map spot := by
      have hnil : layout.refs.flatMap (fun _ => ([] : List Loc)) = [] :=
        flatMap_eq_nil_iff.2 fun _ _ => rfl
      rw [hnil, append_nil, map_append, map_map, map_eq_flatMap, map_eq_flatMap]
      rfl
    rw [← hlocs]
    simpa only [append_nil, Option.or_none] using
      (hsucc _).trans ((hnested _).trans hmembers (.inl rfl)) (.inr rfl)

end Opened

/-! ### Restoring a heap -/

end Heap

/-- Change every set that a fact mentions. -/
def Fact.mapSets (f : SetVar → SetVar) : Fact → Fact
  | .cell c => .cell c
  | .summary s => .summary { s with
      params := { s.params with sets := s.params.sets.map f }
      hole := s.hole.map fun o => { o with params := { o.params with sets := o.params.sets.map f } } }
  | .member set ty => .member (f set) ty

/-- Representatives represent themselves. -/
theorem Fact.mapSets_resolve {sets : SetStore} (hv : sets.Valid) (s : Summary) :
    Fact.mapSets sets.resolve (.summary ⟨s.pred, s.ty, { s.params with sets := s.params.sets.map sets.resolve },
      s.hole.map fun o => { o with params := { o.params with sets := o.params.sets.map sets.resolve } }⟩) =
      Fact.mapSets sets.resolve (.summary s) := by
  have hidem (l : List SetVar) : (l.map sets.resolve).map sets.resolve = l.map sets.resolve := by
    rw [map_map]
    exact map_congr_left fun v _ => hv.reprs v
  obtain ⟨pred, ty, params, _ | o⟩ := s <;> simp only [mapSets, hidem, Option.map_none, Option.map_some]

namespace Heap

variable {structs : Structs} {h : Heap} {loc : Loc} {s : Summary}

/-- The state of a location, with the representatives of set variables. -/
def resolvedSlot (h : Heap) (loc : Loc) : Slot := (h.slot loc).map (Fact.mapSets h.sets.resolve)

/-- Set variables have the representatives that they had, and every location that was given out
    has the state that it had, up to representatives. -/
structure Restores (h h' : Heap) : Prop where
  resolve : h'.sets.resolve = h.sets.resolve
  slot : ∀ k, k.index < h.size → h'.resolvedSlot k = h.resolvedSlot k

/-- A summary that was unfolded folds back into itself, up to its hole. -/
theorem fold_unfolded {h' : Heap} {heaps : List Heap} {stops : List Loc} (hv : h.sets.Valid)
    (hs : h.slot loc = .occupied (.summary s))
    (ha : checkArity s.pred (some s.params) (some loc) = .ok ())
    (hu : h.unfold structs loc = .ok heaps) (hmem : h' ∈ heaps) (hstops : ∀ k ∈ stops, k.index < h.size)
    (hhole : ∀ o, s.hole = some o → ∃ k, o.value = .ptr k ∧ k ≠ loc ∧ k ∈ stops) :
    ∃ h'', h'.fold structs (.ptr loc) s.pred (some s.params) stops =
        .ok (h'', s.hole.map fun o => { o with params := h.resolveParams o.params }) ∧
      h.Restores h'' := by
  have hloc := lt_size_of_occupied hs
  obtain ⟨s', decl, layout, way, sets, step, hs', hdecl, hl, hway, hstep, rfl⟩ := unfold_cases hu hmem
  cases hs.symm.trans hs'
  obtain ⟨hstep', hresolve⟩ := Predicate.step_step hv hstep
  obtain ⟨c, spot, ho⟩ := exists_opened hloc hl hdecl step way sets
  obtain ⟨locs, hn, hnew, hclears⟩ := ho.clears structs sets hstops hhole hloc hl hway hstep'
  generalize hh : ({ h with sets } : Heap).unfolded loc s.ty
    (decl.fields.mapIdx (s.content layout step way)) = h' at ho hclears ⊢
  have hsets : h'.sets = sets := hh ▸ sets_grow { h with sets } _
  have hroot : h'.rootStruct loc = .ok s.ty := by rw [rootStruct, ho.root, ← ho.ty]
  have hparams : h'.chooseParams loc s.pred layout (some s.params) = .ok (s.params, sets) := by
    rw [← hsets]
    rfl
  obtain ⟨h'', hf, hsize, hsets', hslot⟩ := fold_of_clears ha hroot hl hparams hclears hn
  have hresolve' : h''.sets.resolve = h.sets.resolve := hsets' ▸ hresolve
  have hsame (p : Params) : h''.resolveParams p = h.resolveParams p := by
    rw [resolveParams, resolveParams, hresolve']
  simp only [hsame] at hf hslot
  refine ⟨h'', hf, hresolve', fun k hk => ?_⟩
  rw [resolvedSlot, resolvedSlot, hresolve', hslot]
  by_cases hkl : k = loc
  · subst hkl
    rw [if_pos rfl, hs]
    exact congrArg Arena.Slot.occupied (Fact.mapSets_resolve hv s)
  · have hold : h'.slot k = h.slot k := by
      rw [← hh]
      exact (slot_write_of_ne hkl _).trans (slot_grow_of_lt (h := { h with sets }) hk _)
    have hout : k ∉ loc :: locs := by
      rw [mem_cons, not_or]
      exact ⟨hkl, fun hmem => Nat.not_lt.2 (hnew k hmem) hk⟩
    rw [if_neg hkl, if_neg hout, hold]

theorem exists_unfold (hs : h.slot loc = .occupied (.summary s))
    (hl : (s.pred.layout? structs s.ty).isSome) : ∃ heaps, h.unfold structs loc = .ok heaps := by
  obtain ⟨layout, hl⟩ := Option.isSome_iff_exists.1 hl
  obtain ⟨decl, hdecl, -⟩ := Predicate.named_of_layoutBy hl
  rw [unfold, summary?_of_slot hs]
  simp only [hdecl, hl]
  exact ⟨_, rfl⟩

/-- Folding undoes unfolding. A summary of any predicate, with as many parameters as the predicate has
    and of a structure that is laid out for it, unfolds into heaps that each fold back: a full summary
    as a whole, and a segment up to its hole, if that is at another location. -/
theorem fold_unfold (hv : h.sets.Valid) (hc : h.Closed) (hs : h.slot loc = .occupied (.summary s))
    (hl : (s.pred.layout? structs s.ty).isSome)
    (ha : s.params.ptrs.length = s.pred.signature.ptrArity ∧
      s.params.sets.length = s.pred.signature.setArity) :
    ∃ heaps, h.unfold structs loc = .ok heaps ∧ ∀ h' ∈ heaps,
      (s.hole = none → ∃ h'', h'.check structs (.ptr loc) s.pred (some s.params) = .ok h'' ∧
        h.Restores h'') ∧
      ∀ o k, s.hole = some o → o.value = .ptr k → k ≠ loc →
        ∃ h'', h'.fold structs (.ptr loc) s.pred (some s.params) [k] =
          .ok (h'', some { o with params := h.resolveParams o.params }) ∧ h.Restores h'' := by
  have harity : checkArity s.pred (some s.params) (some loc) = .ok () := if_pos ha
  obtain ⟨heaps, hu⟩ := exists_unfold hs hl
  refine ⟨heaps, hu, fun h' hmem => ⟨fun hnone => ?_, fun o k ho hk hne => ?_⟩⟩
  · obtain ⟨h'', hf, hr⟩ := fold_unfolded hv hs harity hu hmem (forall_mem_nil _)
      fun o ho => by rw [hnone] at ho; cases ho
    rw [hnone] at hf
    exact ⟨h'', check_of_fold hf, hr⟩
  · have hlt : ∀ m ∈ [k], m.index < h.size := fun m hm =>
      mem_singleton.1 hm ▸ hc loc _ hs _ (Fact.mem_values_of_hole ho (.head _)) k hk
    obtain ⟨h'', hf, hr⟩ := fold_unfolded hv hs harity hu hmem hlt fun q hq => by
      rw [ho] at hq
      cases hq
      exact ⟨k, hk, hne, .head _⟩
    rw [ho] at hf
    exact ⟨h'', hf, hr⟩

end Heap

namespace Sample

/-- A segment of a graph, which ends at the second location. -/
def graphSegment : Summary := ⟨.graph, ⟨1⟩, ⟨[], [⟨0⟩, ⟨1⟩]⟩, some ⟨.ptr ⟨1⟩, ⟨[], [⟨2⟩, ⟨1⟩]⟩⟩⟩

/-- The segment with an opaque location at its end. -/
def passage : Heap :=
  ⟨.ofSlots [.occupied (.summary graphSegment), .vacant],
    ⟨⟨[("E", ⟨1⟩), ("F", ⟨0⟩)]⟩, [⟨0⟩, ⟨1⟩, ⟨2⟩], [(⟨0⟩, ⟨1⟩)], [], []⟩⟩

theorem passage_valid : passage.sets.Valid where
  names := (by decide : ["E", "F"].Nodup)
  reprs v := by obtain ⟨_ | _ | _ | i⟩ := v <;> rfl

theorem passage_closed : passage.Closed := by
  intro k f hf v hv
  obtain ⟨_ | _ | i⟩ := k
  · cases hf
    cases mem_singleton.1 hv
    exact Heap.knows_ptr.2 Nat.one_lt_two
  · cases hf
  · cases hf

end Sample

/-- The segment of a graph unfolds into one heap, where its first node is taken out of the set of
    nodes, and folds back up to its end. -/
theorem Heap.fold_unfold_passage :
    ∃ h', Sample.passage.unfold Sample.graphs ⟨0⟩ = .ok [h'] ∧
      ∃ h'', h'.fold Sample.graphs (.ptr ⟨0⟩) .graph (some ⟨[], [⟨0⟩, ⟨1⟩]⟩) [⟨1⟩] =
        .ok (h'', some ⟨.ptr ⟨1⟩, ⟨[], [⟨2⟩, ⟨1⟩]⟩⟩) ∧ Sample.passage.Restores h'' := by
  have hs : Sample.passage.slot ⟨0⟩ = .occupied (.summary Sample.graphSegment) := rfl
  have hl : (Predicate.graph.layout? Sample.graphs ⟨1⟩).isSome := rfl
  obtain ⟨heaps, hu, hall⟩ := fold_unfold Sample.passage_valid Sample.passage_closed hs hl ⟨rfl, rfl⟩
  have hone : ∃ h', Sample.passage.unfold Sample.graphs ⟨0⟩ = .ok [h'] := ⟨_, rfl⟩
  obtain ⟨h', hh'⟩ := hone
  cases hu.symm.trans hh'
  exact ⟨h', hu, (hall h' (.head _)).2 _ ⟨1⟩ rfl rfl (by decide)⟩

end HeapShape
