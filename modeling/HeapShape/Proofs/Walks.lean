import HeapShape.Proofs.Clearing
import HeapShape.Proofs.Folding

/-!
# Searches without sets

Where no fact mentions a set, the search for a list or a tree neither asks nor tells the constraints
anything. How it goes is then a matter of the heap alone: a *walk* over facts that each meet a goal,
with a hole for every cut that it comes to. A search refuses to take a fact twice, and to have two
holes. So it is not refused exactly if there is a walk whose locations are different and which has at
most one hole.

A walk does not say in which order facts are taken away. So it can be taken apart and put together
again, and it can be moved from one heap to another.

A field that a record lacks ends a walk too. Such a walk is not *whole*, and its search is misused.

* `Folding.Walks`: walks;
* `Folding.Walks.append`, `Folding.Walks.of_stops`: one walk after another, and what is left of a
  walk without the cuts at its start;
* `Folding.Walks.clears`, `Folding.exists_walks`: a search that follows a walk, and a walk that
  follows a search;
* `Heap.Walk.gather`, `Heap.exists_walk`: the same for a structure that is taken out.
-/

namespace HeapShape

open List

/-- A heap whose facts mention no sets. -/
def Heap.SetFree (h : Heap) : Prop := ∀ k f, h.slot k = .occupied f → f.sets = []

namespace Folding

variable {structs : Structs} {cuts : List Loc} {h : Heap} {pred : Predicate} {ty : StructId}
  {params : Params} {loc : Loc} {f : Fact} {goal : Goal} {goals new : List Goal} {locs : List Loc}
  {holes : List Hole} {whole : Bool}

/-! ### One goal -/

/-- A goal of the search for lists or trees of one structure. -/
def Goal.Plain (pred : Predicate) (ty : StructId) : Goal → Prop
  | .inst _ p t params => p = pred ∧ t = ty ∧ params.sets = []
  | .missing => True
  | .ref .. => False

/-- A fact meets a goal under all constraints, leaves these as they are, and leads to new goals. -/
def Offers (structs : Structs) (loc : Loc) (f : Fact) (pred : Predicate) (ty : StructId)
    (params : Params) (new : List Goal) : Prop :=
  ∀ s, meet structs s loc f pred ty params = .ok (s, new)

/-- A fact lacks a field that is asked for. -/
def Short (structs : Structs) (loc : Loc) (f : Fact) (pred : Predicate) (ty : StructId)
    (params : Params) : Prop :=
  ∀ s, ∃ m, meet structs s loc f pred ty params = .error (.misuse m)

theorem plain_ofField {c : Cell} {i : Nat} (hp : params.sets = []) :
    (Goal.ofField c i fun v => .inst v pred ty params).Plain pred ty := by
  rw [Goal.ofField]
  split
  · exact ⟨rfl, rfl, hp⟩
  · trivial

/-- A record is refused, or lacks a field, or leads to goals for its fields. -/
theorem meetCell_plain (c : Cell) (loc : Loc) (ty : StructId) (params : Params)
    (hp : pred = .list ∨ pred = .tree) :
    (∀ s, ∃ e, meet structs s loc (.cell c) pred ty params = .error (.mismatch e)) ∨
    Short structs loc (.cell c) pred ty params ∨
    ∃ new, Offers structs loc (.cell c) pred ty params new ∧ ∀ g ∈ new, g.Plain pred ty := by
  by_cases hty : c.ty = ty
  · subst hty
    rcases hl : pred.layout? structs c.ty with _ | layout
    · refine .inl fun s => ?_
      rw [meet, meetCell, if_neg (not_not_intro rfl), hl]
      exact ⟨_, rfl⟩
    · obtain ⟨shape, rfl, rfl, -⟩ := Shape.exists_of_layout hp hl
      rcases shape with next | ⟨left, right, up⟩
      · refine .inr (.inr ⟨_, fun s => meetCell_list hl, ?_⟩)
        exact forall_mem_singleton.2 (plain_ofField rfl)
      · let fields : List Goal := [.ofField c left fun v => .inst v .tree c.ty ⟨[.ptr loc], []⟩,
          .ofField c right fun v => .inst v .tree c.ty ⟨[.ptr loc], []⟩]
        have hm (s : SetStore) : meet structs s loc (.cell c) .tree c.ty params =
            (checkBack loc c (Shape.tree left right up).layout params).bind fun _ => .ok (s, fields) :=
          meetCell_tree hl
        -- only the back pointer can be wrong or missing here
        rcases hb : checkBack loc c (Shape.tree left right up).layout params with (e | m) | _
        · exact .inl fun s => ⟨e, by rw [Shape.pred, hm, hb]; rfl⟩
        · exact .inr (.inl fun s => ⟨m, by rw [Shape.pred, hm, hb]; rfl⟩)
        · refine .inr (.inr ⟨fields, fun s => by rw [Shape.pred, hm, hb]; rfl, ?_⟩)
          exact forall_mem_cons.2 ⟨plain_ofField rfl, forall_mem_singleton.2 (plain_ofField rfl)⟩
  · refine .inl fun s => ?_
    rw [meet, meetCell, if_pos hty]
    exact ⟨_, rfl⟩

/-- A summary without sets is refused, or leads to the goal for its hole. -/
theorem meetSummary_plain {s : Summary} (hs : (Fact.summary s).sets = []) (loc : Loc) (pred : Predicate)
    (ty : StructId) (params : Params) :
    (∀ st, ∃ e, meet structs st loc (.summary s) pred ty params = .error (.mismatch e)) ∨
    (Offers structs loc (.summary s) pred ty params (s.hole.toList.map (Hole.goal pred ty)) ∧
      ∀ g ∈ s.hole.toList.map (Hole.goal pred ty), g.Plain pred ty) := by
  obtain ⟨hsets, hhole⟩ := append_eq_nil_iff.1 hs
  by_cases hkind : s.pred ≠ pred ∨ s.ty ≠ ty
  · refine .inl fun st => ?_
    rw [meet, meetSummary, if_pos hkind]
    exact ⟨_, rfl⟩
  by_cases hptrs : s.params.ptrs = params.ptrs
  · by_cases hlen : s.params.sets.length = params.sets.length
    · refine .inr ⟨fun st => ?_, fun g hg => ?_⟩
      · rw [meet, meetSummary, if_neg hkind, matchParams, if_neg (not_not_intro hptrs),
          if_neg (not_not_intro hlen), hsets]
        rfl
      · obtain ⟨o, ho, rfl⟩ := mem_map.1 hg
        exact ⟨rfl, rfl, flatMap_eq_nil_iff.1 hhole o ho⟩
    · refine .inl fun st => ?_
      rw [meet, meetSummary, if_neg hkind, matchParams, if_neg (not_not_intro hptrs), if_pos hlen]
      exact ⟨_, rfl⟩
  · refine .inl fun st => ?_
    rw [meet, meetSummary, if_neg hkind, matchParams, if_pos hptrs]
    exact ⟨_, rfl⟩

/-- A fact without sets is refused, or lacks a field, or leads to new goals. -/
theorem meet_plain (hp : pred = .list ∨ pred = .tree) (hf : f.sets = []) (loc : Loc) (ty : StructId)
    (params : Params) :
    (∀ s, ∃ e, meet structs s loc f pred ty params = .error (.mismatch e)) ∨
    Short structs loc f pred ty params ∨
    ∃ new, Offers structs loc f pred ty params new ∧ ∀ g ∈ new, g.Plain pred ty := by
  cases f with
  | member => exact .inl fun s => ⟨_, rfl⟩
  | summary s =>
    rcases meetSummary_plain hf loc pred ty params with hm | ho
    · exact .inl hm
    · exact .inr (.inr ⟨_, ho⟩)
  | cell c => exact meetCell_plain c loc ty params hp

/-- Of the parameters, a record of a list or a tree asks for the pointers only. -/
theorem meetCell_congr {c : Cell} {q : Params} {s : SetStore} (hp : pred = .list ∨ pred = .tree)
    (hq : params.ptrs = q.ptrs) :
    meetCell structs s loc c pred ty params = meetCell structs s loc c pred ty q := by
  have hback (layout : Layout) : checkBack loc c layout params = checkBack loc c layout q := by
    rw [checkBack, checkBack, hq]
  have hstep : pred.step loc params s = pred.step loc q s := by
    rcases hp with rfl | rfl <;> rfl
  simp only [meetCell, hback, hstep]

/-! ### Walks -/

/-- A walk from some goals over the facts about some locations, with a hole for each cut that it
    comes to. It is whole if all goals are met; else it ends where a field is missing. -/
inductive Walks (structs : Structs) (cuts : List Loc) (h : Heap) (pred : Predicate) (ty : StructId) :
    List Goal → List Loc → List Hole → Bool → Prop
  | done : Walks structs cuts h pred ty [] [] [] true
  | missing {goals : List Goal} : Walks structs cuts h pred ty (.missing :: goals) [] [] false
  | null {goals : List Goal} {locs : List Loc} {holes : List Hole} {whole : Bool} {params : Params}
      (tail : Walks structs cuts h pred ty goals locs holes whole) :
      Walks structs cuts h pred ty (.inst .null pred ty params :: goals) locs holes whole
  | stop {goals : List Goal} {locs : List Loc} {holes : List Hole} {whole : Bool} {loc : Loc}
      {params : Params} (hcut : loc ∈ cuts) (hsets : params.sets = [])
      (tail : Walks structs cuts h pred ty goals locs holes whole) :
      Walks structs cuts h pred ty (.inst (.ptr loc) pred ty params :: goals) locs
        (⟨.ptr loc, params⟩ :: holes) whole
  | fact {goals new : List Goal} {locs : List Loc} {holes : List Hole} {whole : Bool} {loc : Loc}
      {params : Params} {f : Fact} (hcut : loc ∉ cuts) (hs : h.slot loc = .occupied f)
      (ho : Offers structs loc f pred ty params new)
      (tail : Walks structs cuts h pred ty (new ++ goals) locs holes whole) :
      Walks structs cuts h pred ty (.inst (.ptr loc) pred ty params :: goals) (loc :: locs) holes whole
  | short {goals : List Goal} {loc : Loc} {params : Params} {f : Fact} (hcut : loc ∉ cuts)
      (hs : h.slot loc = .occupied f) (hf : Short structs loc f pred ty params) :
      Walks structs cuts h pred ty (.inst (.ptr loc) pred ty params :: goals) [loc] [] false

namespace Walks

/-- One walk after another. -/
theorem append {goals' : List Goal} {locs' : List Loc} {holes' : List Hole}
    (hw : Walks structs cuts h pred ty goals locs holes true)
    (hw' : Walks structs cuts h pred ty goals' locs' holes' whole) :
    Walks structs cuts h pred ty (goals ++ goals') (locs ++ locs') (holes ++ holes') whole := by
  generalize hb : true = b at hw
  induction hw with
  | done => exact hw'
  | missing => cases hb
  | null tail ih => exact .null (ih hb)
  | stop hcut hsets tail ih => exact .stop hcut hsets (ih hb)
  | fact hcut hs ho tail ih =>
    exact .fact hcut hs ho (append_assoc .. ▸ ih hb)
  | short => cases hb

/-- The holes of a walk are at cuts. -/
theorem hole_at (hw : Walks structs cuts h pred ty goals locs holes whole) {o : Hole} (ho : o ∈ holes) :
    (∃ k ∈ cuts, o.value = .ptr k) ∧ o.params.sets = [] := by
  induction hw with
  | done => cases ho
  | missing => cases ho
  | null tail ih => exact ih ho
  | @stop goals locs holes whole loc params hcut hsets tail ih =>
    rcases mem_cons.1 ho with rfl | ho
    · exact ⟨⟨loc, hcut, rfl⟩, hsets⟩
    · exact ih ho
  | fact hcut hs hoff tail ih => exact ih ho
  | short => cases ho

/-- A walk whose first goals are for cuts has a hole for each of them. -/
theorem of_stops {os : List Hole} (hos : ∀ o ∈ os, ∃ k ∈ cuts, o.value = .ptr k)
    (hw : Walks structs cuts h pred ty (os.map (Hole.goal pred ty) ++ goals) locs holes whole) :
    ∃ holes', holes = os ++ holes' ∧ Walks structs cuts h pred ty goals locs holes' whole := by
  induction os generalizing holes with
  | nil => exact ⟨holes, rfl, hw⟩
  | cons o os ih =>
    obtain ⟨⟨k, hk, hv⟩, hos'⟩ := forall_mem_cons.1 hos
    obtain ⟨value, params⟩ := o
    obtain rfl : value = .ptr k := hv
    cases hw with
    | stop hcut hsets tail =>
      obtain ⟨holes', rfl, hw'⟩ := ih hos' tail
      exact ⟨holes', rfl, hw'⟩
    | fact hcut => exact absurd hk hcut
    | short hcut => exact absurd hk hcut

/-- The root of a walk is one of its locations, if it is no cut. -/
theorem root_mem (hw : Walks structs cuts h pred ty (.inst (.ptr loc) pred ty params :: goals) locs holes
    whole) (hcut : loc ∉ cuts) : loc ∈ locs := by
  cases hw with
  | stop hmem => exact absurd hmem hcut
  | fact => exact .head _
  | short => exact .head _

/-- There are facts about the locations of a walk. -/
theorem occupied (hw : Walks structs cuts h pred ty goals locs holes whole) {k : Loc} (hk : k ∈ locs) :
    ∃ f, h.slot k = .occupied f := by
  induction hw with
  | done => cases hk
  | missing => cases hk
  | null tail ih => exact ih hk
  | stop hcut hsets tail ih => exact ih hk
  | @fact goals new locs holes whole loc params f hcut hs ho tail ih =>
    rcases mem_cons.1 hk with rfl | hk
    · exact ⟨f, hs⟩
    · exact ih hk
  | @short goals loc params f hcut hs hf =>
    rw [mem_singleton.1 hk]
    exact ⟨f, hs⟩

/-- A walk in a heap that knows less is a walk in the heap. -/
theorem mono {h' : Heap} (hf : h.Forgets h')
    (hw : Walks structs cuts h' pred ty goals locs holes whole) :
    Walks structs cuts h pred ty goals locs holes whole := by
  induction hw with
  | done => exact .done
  | missing => exact .missing
  | null tail ih => exact .null ih
  | stop hcut hsets tail ih => exact .stop hcut hsets ih
  | fact hcut hs ho tail ih => exact .fact hcut (hf.occupied hs) ho ih
  | short hcut hs hshort => exact .short hcut (hf.occupied hs) hshort

end Walks

/-- The facts about some locations lead from a root to a hole: a walk from the hole is a walk from the
    root. -/
def Spans (structs : Structs) (cuts : List Loc) (h : Heap) (pred : Predicate) (ty : StructId) (loc : Loc)
    (params : Params) (locs : List Loc) (o : Option Hole) : Prop :=
  ∀ goals locs' holes whole,
    Walks structs cuts h pred ty (o.toList.map (Hole.goal pred ty) ++ goals) locs' holes whole →
    Walks structs cuts h pred ty (.inst (.ptr loc) pred ty params :: goals) (locs ++ locs') holes whole

namespace Spans

variable {o : Option Hole}

/-- A whole walk leads to its hole. -/
theorem of_walks (hw : Walks structs cuts h pred ty [.inst (.ptr loc) pred ty params] locs o.toList true) :
    Spans structs cuts h pred ty loc params locs o := by
  intro goals locs' holes whole hw'
  obtain ⟨holes', rfl, hrest⟩ := Walks.of_stops (fun o ho => (hw.hole_at ho).1) hw'
  exact hw.append hrest

/-- A summary leads to its hole. -/
theorem of_summary {s : Summary} (hcut : loc ∉ cuts) (hs : h.slot loc = .occupied (.summary s))
    (hsets : (Fact.summary s).sets = []) (hptrs : params.ptrs = s.params.ptrs) (hp : params.sets = []) :
    Spans structs cuts h s.pred s.ty loc params [loc] s.hole := by
  intro goals locs' holes whole hw
  refine .fact hcut hs (fun st => ?_) hw
  have hnil : s.params.sets = [] := (append_eq_nil_iff.1 hsets).1
  exact meetSummary_of_aliases st loc s.pred s.ty s.hole hptrs.symm (by rw [hnil, hp])

theorem trans {next : Loc} {q : Params} {locs' : List Loc}
    (hs : Spans structs cuts h pred ty loc params locs (some ⟨.ptr next, q⟩))
    (hs' : Spans structs cuts h pred ty next q locs' o) :
    Spans structs cuts h pred ty loc params (locs ++ locs') o := by
  intro goals locs'' holes whole hw
  rw [append_assoc]
  exact hs _ _ _ _ (hs' _ _ _ _ hw)

/-- Of the parameters at its root, a walk from a record asks for the pointers only. -/
theorem of_ptrs {c : Cell} {q : Params} (hpred : pred = .list ∨ pred = .tree) (hcut : loc ∉ cuts)
    (hs : h.slot loc = .occupied (.cell c)) (hq : q.ptrs = params.ptrs)
    (hw : Walks structs cuts h pred ty [.inst (.ptr loc) pred ty params] locs o.toList true) :
    Spans structs cuts h pred ty loc q locs o := by
  refine of_walks ?_
  generalize o.toList = holes at hw ⊢
  generalize hb : true = whole at hw
  cases hw with
  | stop hmem => exact absurd hmem hcut
  | fact _ hs' ho tail =>
    cases hs.symm.trans hs'
    exact .fact hcut hs (fun s => (meetCell_congr hpred hq).trans (ho s)) (hb ▸ tail)
  | short => cases hb

end Spans

/-! ### Searches and walks -/

variable {cfg : Setting} {st : Folding}

/-- How the search goes at a goal for a list or a tree. -/
inductive Visits (cfg : Setting) (h : Heap) (ty : StructId) (st : Folding) :
    Goal → Except Refusal (Folding × List Goal) → Prop
  | refused {goal : Goal} {e : Mismatch} : Visits cfg h ty st goal (.error (.mismatch e))
  | missing {m : Misuse} : Visits cfg h ty st .missing (.error (.misuse m))
  | null {params : Params} : Visits cfg h ty st (.inst .null cfg.pred ty params) (.ok (st, []))
  | stop {loc : Loc} {params : Params} (hcut : loc ∈ cfg.stops) (hsets : params.sets = [])
      (hhole : st.hole = none) :
      Visits cfg h ty st (.inst (.ptr loc) cfg.pred ty params)
        (.ok ({ st with hole := some ⟨.ptr loc, params⟩ }, []))
  | fact {loc : Loc} {params : Params} {f : Fact} {new : List Goal} (hcut : loc ∉ cfg.stops)
      (hnew : loc ∉ st.visited) (hs : h.slot loc = .occupied f)
      (ho : Offers cfg.structs loc f cfg.pred ty params new) (hplain : ∀ g ∈ new, g.Plain cfg.pred ty) :
      Visits cfg h ty st (.inst (.ptr loc) cfg.pred ty params) (.ok (st.takeWith loc st.heap.sets, new))
  | short {loc : Loc} {params : Params} {f : Fact} {m : Misuse} (hcut : loc ∉ cfg.stops)
      (hnew : loc ∉ st.visited) (hs : h.slot loc = .occupied f)
      (hf : Short cfg.structs loc f cfg.pred ty params) :
      Visits cfg h ty st (.inst (.ptr loc) cfg.pred ty params) (.error (.misuse m))

theorem baseCase_plain {s : SetStore} (hp : pred = .list ∨ pred = .tree) :
    pred.baseCase params s = some s := by
  rcases hp with rfl | rfl <;> rfl

theorem visit_fact (hcut : loc ∉ cfg.stops) (hnew : loc ∉ st.visited)
    (hs : st.heap.slot loc = .occupied f) (pred : Predicate) (ty : StructId) (params : Params) :
    st.visit cfg (.inst (.ptr loc) pred ty params) =
      (meet cfg.structs st.heap.sets loc f pred ty params).map fun r => (st.takeWith loc r.1, r.2) := by
  rw [visit_ptr fun _ => hcut, enter_eq_meet hnew hs]

theorem visits_of_plain (hp : cfg.pred = .list ∨ cfg.pred = .tree) (hroot : cfg.root ∉ cfg.stops)
    (hfree : h.SetFree) (hslot : ∀ k, k ∉ st.visited → st.heap.slot k = h.slot k)
    (hg : goal.Plain cfg.pred ty) : Visits cfg h ty st goal (st.visit cfg goal) := by
  rcases goal with ⟨value, p, t, params⟩ | _ | _
  · obtain ⟨rfl, rfl, hsets⟩ := hg
    rcases value with _ | loc | _
    · rw [visit, baseCase_plain hp]
      exact .null
    · by_cases hcut : loc ∈ cfg.stops
      · rw [visit, if_pos ⟨fun he => hroot (he ▸ hcut), hcut⟩]
        split
        · next hhole => exact .stop hcut hsets hhole.2
        · exact .refused
      · by_cases hnew : loc ∈ st.visited
        · rw [visit_ptr fun _ => hcut, enter, if_pos hnew]
          exact .refused
        · rcases hs : h.slot loc with _ | f | _
          · rw [visit_ptr fun _ => hcut, enter, if_neg hnew, hslot loc hnew, hs]
            exact .refused
          · rw [visit_fact hcut hnew ((hslot loc hnew).trans hs)]
            rcases meet_plain hp (hfree loc f hs) loc t params with hm | hf | ⟨new, ho, hplain⟩
            · obtain ⟨e, he⟩ := hm st.heap.sets
              rw [he]
              exact .refused
            · obtain ⟨m, hm⟩ := hf st.heap.sets
              rw [hm]
              exact .short hcut hnew hs hf
            · rw [ho st.heap.sets]
              exact .fact hcut hnew hs ho hplain
          · rw [visit_ptr fun _ => hcut, enter, if_neg hnew, hslot loc hnew, hs]
            exact .refused
    · exact .refused
  · exact hg.elim
  · exact .missing

/-- The goals that a walk leaves: none if it is whole, and else one that is not met for want of a field. -/
inductive Leftover (cfg : Setting) (h : Heap) (ty : StructId) : Bool → List Goal → List Loc → Prop
  | done : Leftover cfg h ty true [] []
  | missing {goals : List Goal} : Leftover cfg h ty false (.missing :: goals) []
  | short {goals : List Goal} {loc : Loc} {params : Params} {f : Fact} (hcut : loc ∉ cfg.stops)
      (hs : h.slot loc = .occupied f) (hf : Short cfg.structs loc f cfg.pred ty params) :
      Leftover cfg h ty false (.inst (.ptr loc) cfg.pred ty params :: goals) [loc]

/-- A walk with one hole at most is a part of a search, up to the goals that it leaves. -/
theorem Walks.clears (cfg : Setting)
    (hw : Walks cfg.structs cfg.stops h cfg.pred ty goals locs holes whole)
    (hp : cfg.pred = .list ∨ cfg.pred = .tree) (hroot : cfg.root ∉ cfg.stops) (s : SetStore)
    (hone : holes.length ≤ 1) :
    ∃ o taken left last, o.toList = holes ∧ locs = taken ++ last ∧
      Clears cfg h s goals taken o s left ∧ Leftover cfg h ty whole left last := by
  induction hw with
  | done => exact ⟨none, [], [], [], rfl, rfl, .nil, .done⟩
  | missing => exact ⟨none, [], _, [], rfl, rfl, .nil, .missing⟩
  | null tail ih =>
    obtain ⟨o, taken, left, last, ho, hlocs, hc, hleft⟩ := ih hone
    exact ⟨o, taken, left, last, ho, hlocs, .null (baseCase_plain hp) hc, hleft⟩
  | stop hcut hsets tail ih =>
    have hnil := eq_nil_of_length_eq_zero (Nat.le_zero.1 (Nat.le_of_succ_le_succ hone))
    obtain ⟨o, taken, left, last, ho, hlocs, hc, hleft⟩ := ih (by rw [hnil]; exact Nat.zero_le 1)
    obtain rfl := Option.toList_eq_nil_iff.1 (ho.trans hnil)
    exact ⟨_, taken, left, last, by rw [hnil]; rfl, hlocs,
      .stop (fun he => hroot (he ▸ hcut)) hcut hc, hleft⟩
  | fact hcut hs hoff tail ih =>
    obtain ⟨o, taken, left, last, ho, hlocs, hc, hleft⟩ := ih hone
    exact ⟨o, _ :: taken, left, last, ho, congrArg (cons _) hlocs,
      .fact hs (fun _ => hcut) (hoff s) hc, hleft⟩
  | short hcut hs hf => exact ⟨none, [], _, _, rfl, rfl, .nil, .short hcut hs hf⟩

/-- A search is refused where a walk leaves a goal. -/
theorem Leftover.absorb {left : List Goal} {last : List Loc}
    (hleft : Leftover cfg h ty false left last)
    (hslot : ∀ k ∈ last, k ∉ st.visited ∧ st.heap.slot k = h.slot k) :
    ∃ m, st.absorb cfg left = .error (.misuse m) := by
  cases hleft with
  | missing => exact ⟨_, absorb_refused rfl⟩
  | @short _ loc params f hcut hs hf =>
    obtain ⟨hnew, hloc⟩ := hslot loc (mem_singleton_self loc)
    obtain ⟨m, hm⟩ := hf st.heap.sets
    refine ⟨m, absorb_refused ?_⟩
    rw [visit_fact hcut hnew (hloc.trans hs), hm]
    rfl

/-- A search that is not refused goes along a walk. -/
theorem exists_walks (hp : cfg.pred = .list ∨ cfg.pred = .tree) (hroot : cfg.root ∉ cfg.stops)
    (hfree : h.SetFree) (hg : ∀ g ∈ goals, g.Plain cfg.pred ty)
    (hslot : ∀ k, k ∉ st.visited → st.heap.slot k = h.slot k)
    (hno : ∀ e, st.absorb cfg goals ≠ .error (.mismatch e)) :
    ∃ locs holes whole, Walks cfg.structs cfg.stops h cfg.pred ty goals locs holes whole ∧
      locs.Nodup ∧ (∀ k ∈ locs, k ∉ st.visited) ∧ holes.length + st.hole.toList.length ≤ 1 := by
  have hatMost (o : Option Hole) : 0 + o.toList.length ≤ 1 := by
    rcases o with _ | o <;> simp
  induction st, goals using absorb.induct cfg with
  | case1 st => exact ⟨[], [], true, .done, .nil, forall_mem_nil _, hatMost _⟩
  | case2 st goal goals e hv =>
    have hvis := visits_of_plain hp hroot hfree hslot (hg goal (.head _))
    rw [hv] at hvis
    cases hvis with
    | refused => exact absurd (absorb_refused hv) (hno _)
    | missing => exact ⟨[], [], false, .missing, .nil, forall_mem_nil _, hatMost _⟩
    | @short loc params f m hcut hnew hs hf =>
      exact ⟨[loc], [], false, .short hcut hs hf, nodup_singleton _,
        forall_mem_singleton.2 hnew, hatMost _⟩
  | case3 st goal goals st₁ new hv ih =>
    have hvis := visits_of_plain hp hroot hfree hslot (hg goal (.head _))
    rw [hv] at hvis
    have hrest := fun g hmem => hg g (.tail goal hmem)
    rw [absorb_cons hv] at hno
    cases hvis with
    | null =>
      obtain ⟨locs, holes, whole, hw, hconds⟩ := ih hrest hslot hno
      exact ⟨locs, holes, whole, .null hw, hconds⟩
    | @stop loc params hcut hsets hhole =>
      obtain ⟨locs, holes, whole, hw, hn, hnew, hone⟩ := ih hrest hslot hno
      refine ⟨locs, _, whole, .stop hcut hsets hw, hn, hnew, ?_⟩
      rw [hhole]
      exact hone
    | @fact loc params f _ hcut hnew hs ho hplain =>
      have ht := Takes.takeWith st loc st.heap.sets
      obtain ⟨locs, holes, whole, hw, hn, hnew', hone⟩ := ih
        (fun g hmem => (mem_append.1 hmem).elim (hplain g) (hrest g))
        (fun k => ht.slot_of_unvisited hslot) hno
      refine ⟨loc :: locs, holes, whole, .fact hcut hs ho hw, ?_, ?_, hone⟩
      · exact nodup_cons.2 ⟨fun hmem => hnew' loc hmem (.head _), hn⟩
      · exact forall_mem_cons.2 ⟨hnew, fun k hk hold => hnew' k hk (.tail _ hold)⟩

end Folding

namespace Heap

open Folding

variable {structs : Structs} {cuts : List Loc} {h : Heap} {pred : Predicate} {ty : StructId}
  {layout : Layout} {loc : Loc} {params : Option Params} {p : Params} {locs : List Loc}
  {holes : List Hole} {whole : Bool} {c : Cell}

/-- The parameters of a list or a tree at a record are those that are given, or else those that the
    record shows. The rest of the heap does not matter. -/
theorem chooseParams_cell (c : Cell) (layout : Layout) (hp : pred = .list ∨ pred = .tree)
    (ha : checkArity pred params (some loc) = .ok ()) :
    (∀ h : Heap, h.slot loc = .occupied (.cell c) →
      ∃ e, h.chooseParams loc pred layout params = .error (.mismatch e)) ∨
    ∃ p, p.sets = [] ∧ checkArity pred (some p) (some loc) = .ok () ∧
      ∀ h : Heap, h.slot loc = .occupied (.cell c) →
        h.chooseParams loc pred layout params = .ok (p, h.sets) := by
  rcases params with _ | p
  · rcases hp with rfl | rfl
    · refine .inr ⟨.none, rfl, rfl, fun h hs => ?_⟩
      rw [chooseParams, inferParams.eq_def, summary?_of_cell hs]
    · rcases hb : layout.back.bind fun i => c.fields[i]? with _ | back
      · refine .inl fun h hs => ⟨⟨some loc, .noBack⟩, ?_⟩
        simp only [chooseParams, inferParams.eq_def, summary?_of_cell hs, cell?_of_slot hs,
          Option.bind_some, hb]
        rfl
      · refine .inr ⟨⟨[back], []⟩, rfl, rfl, fun h hs => ?_⟩
        simp only [chooseParams, inferParams.eq_def, summary?_of_cell hs, cell?_of_slot hs,
          Option.bind_some, hb]
  · refine .inr ⟨p, ?_, ha, fun _ _ => rfl⟩
    have hzero : pred.signature.setArity = 0 := by rcases hp with rfl | rfl <;> rfl
    exact eq_nil_of_length_eq_zero ((checkArity_eq_ok ha).2.trans hzero)

/-- What is asked of the root of a structure, and a walk from there that a search can follow. -/
structure Walk (structs : Structs) (cuts : List Loc) (h : Heap) (loc : Loc) (pred : Predicate)
    (params : Option Params) (ty : StructId) (layout : Layout) (p : Params) (locs : List Loc)
    (holes : List Hole) (whole : Bool) : Prop where
  arity : checkArity pred params (some loc) = .ok ()
  struct : h.rootStruct loc = .ok ty
  laid : pred.layout? structs ty = some layout
  chosen : h.chooseParams loc pred layout params = .ok (p, h.sets)
  sets : p.sets = []
  walks : Walks structs cuts h pred ty [.inst (.ptr loc) pred ty p] locs holes whole
  nodup : locs.Nodup
  one : holes.length ≤ 1

/-- A structure is taken out along a walk from its root. -/
theorem Walk.gather (hw : h.Walk structs cuts loc pred params ty layout p locs holes whole)
    (hp : pred = .list ∨ pred = .tree) (hcut : loc ∉ cuts) :
    (whole = true → ∃ o h₁, h.gather structs loc pred params cuts = .ok (⟨pred, ty, p, o⟩, h₁) ∧
      o.toList = holes ∧ h₁.size = h.size ∧ h₁.sets = h.sets ∧
      ∀ k, h₁.slot k = if k ∈ locs then .vacant else h.slot k) ∧
    (whole = false → ∃ m, h.gather structs loc pred params cuts = .error (.misuse m)) := by
  obtain ⟨o, taken, left, last, rfl, rfl, hc, hleft⟩ :=
    hw.walks.clears ⟨structs, cuts, loc, pred⟩ hp hcut h.sets hw.one
  obtain ⟨hn, -, hapart⟩ := nodup_append.1 hw.nodup
  obtain ⟨st, hrun, ht, hstore, rfl⟩ := absorb_start hc hn
  rw [gather_eq_absorb hw.arity hw.struct hw.laid hw.chosen, hrun]
  refine ⟨?_, ?_⟩
  · rintro rfl
    cases hleft
    refine ⟨st.hole, st.heap, ?_, rfl, ht.size, hstore, (append_nil taken).symm ▸ ht.slot⟩
    -- there are no sets to resolve
    have hsame : st.hole.map (fun o => { o with params := st.heap.resolveParams o.params }) = st.hole := by
      rcases ho : st.hole with _ | o
      · rfl
      · rw [Option.map_some, resolveParams_of_sets (hw.walks.hole_at (Option.mem_toList.2 ho)).2]
    rw [Folding.absorb]
    show Except.ok (Summary.mk pred ty (st.heap.resolveParams p)
      (st.hole.map fun o => { o with params := st.heap.resolveParams o.params }), st.heap) = _
    rw [hsame, resolveParams_of_sets hw.sets]
  · rintro rfl
    obtain ⟨m, hm⟩ : ∃ m, st.absorb _ left = .error (.misuse m) := hleft.absorb fun k hk => by
      have hk : k ∉ taken := fun hmem => hapart k hmem k hk rfl
      exact ⟨fun hv => ((ht.visited k).1 hv).elim hk not_mem_nil, by rw [ht.slot, if_neg hk]⟩
    exact ⟨m, by rw [hm]; rfl⟩

theorem Walk.not_refused (hw : h.Walk structs cuts loc pred params ty layout p locs holes whole)
    (hp : pred = .list ∨ pred = .tree) (hcut : loc ∉ cuts) (e : Mismatch) :
    h.gather structs loc pred params cuts ≠ .error (.mismatch e) := by
  intro he
  cases whole with
  | true =>
    obtain ⟨o, h₁, hok, -⟩ := (hw.gather hp hcut).1 rfl
    cases he.symm.trans hok
  | false =>
    obtain ⟨m, hm⟩ := (hw.gather hp hcut).2 rfl
    cases he.symm.trans hm

/-- A structure that is not laid out for a predicate is refused. -/
theorem refused_of_unlaid (hs : h.slot loc = .occupied (.cell c))
    (hl : pred.layout? structs c.ty = none) (params : Option Params) (stops : List Loc) :
    ∃ e, h.gather structs loc pred params stops = .error (.mismatch e) := by
  rcases ha : checkArity pred params (some loc) with e | ⟨⟩
  · obtain ⟨e, rfl⟩ := checkArity_eq_error ha
    exact ⟨e, by rw [gather, ha]; rfl⟩
  · refine ⟨⟨some loc, .layout pred c.ty⟩, ?_⟩
    simp only [gather, ha, rootStruct, hs, hl, bind, Except.bind]
    rfl

/-- A structure at a record that is not refused is taken out along a walk, or ends where a field is
    missing. -/
theorem exists_walk (hs : h.slot loc = .occupied (.cell c)) (hp : pred = .list ∨ pred = .tree)
    (hfree : h.SetFree) (hcut : loc ∉ cuts)
    (hno : ∀ e, h.gather structs loc pred params cuts ≠ .error (.mismatch e)) :
    ∃ layout p locs holes whole, h.Walk structs cuts loc pred params c.ty layout p locs holes whole := by
  have hstruct : h.rootStruct loc = .ok c.ty := by rw [rootStruct, hs]
  rcases harity : checkArity pred params (some loc) with e | ⟨⟩
  · obtain ⟨e, rfl⟩ := checkArity_eq_error harity
    exact absurd (by rw [gather, harity]; rfl) (hno e)
  rcases hl : pred.layout? structs c.ty with _ | layout
  · obtain ⟨e, he⟩ := refused_of_unlaid hs hl params cuts
    exact absurd he (hno e)
  rcases chooseParams_cell c layout hp harity with hm | ⟨p, hsets, -, hchosen⟩
  · obtain ⟨e, he⟩ := hm h hs
    refine absurd ?_ (hno e)
    simp only [gather, harity, hstruct, hl, he, bind, Except.bind]
  rw [gather_eq_absorb harity hstruct hl (hchosen h hs)] at hno
  let cfg : Setting := ⟨structs, cuts, loc, pred⟩
  have hpred : cfg.pred = .list ∨ cfg.pred = .tree := hp
  have hplain : (Goal.inst (.ptr loc) pred c.ty p).Plain cfg.pred c.ty := ⟨rfl, rfl, hsets⟩
  have hrun (e : Mismatch) : absorb cfg ⟨h, none, []⟩ [.inst (.ptr loc) pred c.ty p] ≠ .error (.mismatch e) :=
    fun he => hno e (by rw [he]; rfl)
  obtain ⟨locs, holes, whole, hw, hn, -, hone⟩ := exists_walks hpred hcut hfree
    (forall_mem_singleton.2 hplain) (fun _ _ => rfl) hrun
  exact ⟨layout, p, locs, holes, whole, harity, hstruct, hl, hchosen h hs, hsets, hw, hn, hone⟩

/-- A structure that was taken out at a record was taken out along a walk. -/
theorem exists_walk_of_gather {s : Summary} {h₁ : Heap} (hs : h.slot loc = .occupied (.cell c))
    (hp : pred = .list ∨ pred = .tree) (hfree : h.SetFree) (hcut : loc ∉ cuts)
    (hg : h.gather structs loc pred params cuts = .ok (s, h₁)) :
    ∃ layout p o locs, h.Walk structs cuts loc pred params c.ty layout p locs o.toList true ∧
      s = ⟨pred, c.ty, p, o⟩ ∧ h₁.size = h.size ∧ h₁.sets = h.sets ∧
      ∀ k, h₁.slot k = if k ∈ locs then .vacant else h.slot k := by
  obtain ⟨layout, p, locs, holes, whole, hw⟩ := exists_walk hs hp hfree hcut fun e he => by
    cases hg.symm.trans he
  cases whole with
  | true =>
    obtain ⟨o, h₂, hok, rfl, hsame⟩ := (hw.gather hp hcut).1 rfl
    cases hg.symm.trans hok
    exact ⟨layout, p, o, locs, hw, rfl, hsame⟩
  | false =>
    obtain ⟨m, hm⟩ := (hw.gather hp hcut).2 rfl
    cases hg.symm.trans hm

/-- A walk from a record in one heap is one in another that has the same record at the root. -/
theorem Walk.transfer {h' : Heap} {locs' : List Loc}
    (hw : h.Walk structs cuts loc pred params c.ty layout p locs holes whole)
    (hp : pred = .list ∨ pred = .tree) (hs : h.slot loc = .occupied (.cell c))
    (hs' : h'.slot loc = .occupied (.cell c))
    (hwalks : Walks structs cuts h' pred c.ty [.inst (.ptr loc) pred c.ty p] locs' holes whole)
    (hn : locs'.Nodup) : h'.Walk structs cuts loc pred params c.ty layout p locs' holes whole where
  arity := hw.arity
  struct := by rw [rootStruct, hs']
  laid := hw.laid
  chosen := by
    rcases chooseParams_cell c layout hp hw.arity with hm | ⟨q, -, -, hchosen⟩
    · obtain ⟨e, he⟩ := hm h hs
      cases he.symm.trans hw.chosen
    · cases (hchosen h hs).symm.trans hw.chosen
      exact hchosen h' hs'
  sets := hw.sets
  walks := hwalks
  nodup := hn
  one := hw.one

/-- The parameters that a record shows may be given as well. -/
theorem Walk.given (hw : h.Walk structs cuts loc pred params c.ty layout p locs holes whole)
    (hp : pred = .list ∨ pred = .tree) (hs : h.slot loc = .occupied (.cell c)) :
    h.Walk structs cuts loc pred (some p) c.ty layout p locs holes whole := by
  refine { hw with arity := ?_, chosen := rfl }
  rcases chooseParams_cell c layout hp hw.arity with hm | ⟨q, -, harity, hchosen⟩
  · obtain ⟨e, he⟩ := hm h hs
    cases he.symm.trans hw.chosen
  · cases (hchosen h hs).symm.trans hw.chosen
    exact harity

end Heap

end HeapShape
