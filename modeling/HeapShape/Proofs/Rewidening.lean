import HeapShape.Exploration
import HeapShape.Proofs.Collecting
import HeapShape.Proofs.PointerFields
import HeapShape.Proofs.Resting

/-!
# Widening again

A heap without sets that was widened is widened to itself. So when a loop brings the state back as it
was at the head, the state is merged. This holds where a segment takes over only what is of its own
structure.

Where two structures are laid out for one predicate, it can fail. A segment of one structure ends at
a record of the other, and a record leads to the segment. The first time the record cannot be folded,
since the search through the segment finds the wrong structure. Below it, the segment takes over the
wrong record. The second time nothing is wrong any more, and the record is folded.

* `Heap.WidensOnce`, `Heap.Plain.widensOnce`: widening again changes no slot;
* `State.MergesAgain`, `State.mergesAgain_of_plain`: a path that comes back to a head as it left it is
  merged there;
* `Heap.brokenTrail_not_widensOnce`: a heap that is widened twice, for any two structures that are
  laid out for one predicate;
* `Heap.widen_idempotent`: so the tables for which widening is idempotent are those where no two
  structures are.
-/

namespace HeapShape

open List

/-- Widening again changes no slot, and nothing at all if there are no constraints. -/
def Heap.WidensOnce (structs : Structs) (roots : List Value) (h : Heap) : Prop :=
  ∀ h₁, h.widen structs roots = .ok h₁ →
    ∃ h₂, h₁.widen structs roots = .ok h₂ ∧ h₂.arena = h₁.arena ∧ (h.sets = .empty → h₂ = h₁)

/-- A path that waits at the head of a loop, and later comes to the head as it is, is merged there. -/
def State.MergesAgain (structs : Structs) (s : State) : Prop :=
  ∀ (task : Task) (e e₁ e₂ : Exploration) head recorded (f : Frame), task.structs = structs →
    task.graph.isLoopHead head = true → e.enter task recorded head s = .ok e₁ →
    e₁.waiting.toList = e.waiting.toList ++ [f] → e₁.seen ⊆ e₂.seen →
      e₂.enter task f.recorded head f.state = .ok e₂.merge

namespace Heap

open Folding

variable {structs : Structs} {roots : List Value} {h : Heap}

/-! ### What was widened -/

/-- Nothing is kept of no constraints. -/
theorem collect_sets (hfree : h.SetFree) (hs : h.sets = .empty) (roots : List Value) :
    (h.collect roots).sets = .empty := by
  have hvars : ((h.arena.keep fun i => (h.reach roots).contains ⟨i⟩).values.flatMap fun e => e.2.sets) = [] := by
    refine flatMap_eq_nil_iff.2 fun e he => ?_
    exact hfree.forget (forgets_collect h roots) ⟨e.1⟩ e.2 (Arena.slot_of_mem_values he)
  rw [collect, keep, hs]
  show SetStore.empty.retain _ _ = .empty
  rw [hvars]
  rfl

theorem Plain.widensOnce (hp : h.Plain structs (roots.filterMap Value.loc?)) (hg : structs.Graphless) :
    h.WidensOnce structs roots := by
  intro h₁ hw
  obtain ⟨g, hall, rfl⟩ := widen_eq_ok hw
  obtain ⟨seen, hcuts, he⟩ := hp.exists_explored hg hall
  have he' := he.forget hg (forgets_collect g roots)
  obtain ⟨hplain, hsets⟩ := plain_of_moves hg hp (moves_of_widenAll hall)
  refine ⟨(g.collect roots).collect roots, ?_, collect_collect g roots, fun hempty => ?_⟩
  · rw [widen]
    simp only [he'.widenAll _ hcuts, bind, Except.bind, pure, Except.pure]
  · have hnone : (g.collect roots).sets = .empty := collect_sets hplain.setFree (hsets.trans hempty) roots
    have hnone' : ((g.collect roots).collect roots).sets = .empty :=
      collect_sets he'.plain.setFree hnone roots
    rw [show (g.collect roots).collect roots =
      ⟨((g.collect roots).collect roots).arena, ((g.collect roots).collect roots).sets⟩ from rfl,
      collect_collect, hnone', ← hnone]

end Heap

/-- A path that still waits after it came to the head of a loop brought a new shape there. -/
theorem Exploration.arrive_waits {e : Exploration} {task : Task} {head : BlockId} {recorded : List BlockId}
    {s : State} {f : Frame}
    (h : (e.arrive task head recorded s).waiting.toList = e.waiting.toList ++ [f]) :
    f.state = s ∧ (head, s.shape) ∈ (e.arrive task head recorded s).seen := by
  have hends : e.waiting.toList ≠ e.waiting.toList ++ [f] :=
    fun he => cons_ne_nil f [] (self_eq_append_right.1 he)
  rw [arrive] at h ⊢
  split at h
  · exact absurd h hends
  · split at h
    · exact absurd h hends
    · rename_i hnew hmore
      rw [push, Queue.toList_push] at h
      obtain rfl := singleton_inj.1 (append_cancel_left h)
      rw [if_neg hnew, if_neg hmore]
      exact ⟨rfl, .head _⟩

/-- A loop whose body does nothing ends at its head. -/
theorem State.mergesAgain_of_plain {structs : Structs} {s : State} (hg : structs.Graphless)
    (hp : s.heap.Plain structs ((s.roots.map Prod.snd).filterMap Value.loc?))
    (hs : s.heap.sets = .empty) : s.MergesAgain structs := by
  rintro task e e₁ e₂ head recorded f rfl hhead henter hwaits hseen
  rw [Exploration.enter, if_pos hhead] at henter
  obtain ⟨heap, hw, henter⟩ := ok_of_bind henter
  obtain rfl := Except.ok.inj henter
  obtain ⟨hf, hnew⟩ := Exploration.arrive_waits hwaits
  obtain ⟨heap', hw', -, hsame⟩ := hp.widensOnce hg heap hw
  have hagain : heap.widen task.structs (State.roots { s with heap } |>.map Prod.snd) = .ok heap :=
    hsame hs ▸ hw'
  have hcontains : e₂.seen.contains (head, State.shape { s with heap }) = true :=
    contains_iff_mem.2 (hseen hnew)
  rw [hf]
  simp only [Exploration.enter, hhead, if_true, hagain, bind, Except.bind, pure, Except.pure,
    Exploration.arrive, hcontains]

/-! ### A heap that is widened twice -/

namespace Shape

variable {structs : Structs} {shape shape' : Shape} {ty : StructId}

/-- The first field that leads on. -/
def first : Shape → Nat
  | list next => next
  | tree left _ _ => left

/-- The parameters below a root. -/
def under : Shape → Loc → Params
  | list _, _ => .none
  | tree .., loc => ⟨[.ptr loc], []⟩

theorem first_mem (shape : Shape) : shape.first ∈ shape.places := by
  cases shape <;> exact .head _

theorem nodup_places (hl : shape.pred.layout? structs ty = some shape.layout) : shape.places.Nodup := by
  rcases shape with next | ⟨left, right, up⟩
  · exact nodup_singleton _
  · obtain ⟨_, _, _, _, -, he, hn, -⟩ := Predicate.layout?_tree hl
    cases he
    exact hn

theorem pred_eq_of_layout (hl : shape.pred.layout? structs ty = some shape.layout)
    (hl' : shape'.pred.layout? structs ty = some shape'.layout) : shape'.pred = shape.pred :=
  Predicate.eq_of_layout (Option.isSome_of_eq_some hl') (Option.isSome_of_eq_some hl)

end Shape

namespace StructDecl

variable {decl : StructDecl} {ty : StructId} {places : List Nat} {i j : Nat}

/-- A cell whose pointers are null but for one. -/
def leading (decl : StructDecl) (ty : StructId) (i : Nat) (loc : Loc) : Cell :=
  ⟨ty, (decl.blank ty).fields.set i (.ptr loc)⟩

theorem leading_field (hat : decl.PointersAt ty places) (hi : i ∈ places) (loc : Loc) :
    (decl.leading ty i loc).fields[i]? = some (.ptr loc) := by
  obtain ⟨hlt, -⟩ := List.getElem?_eq_some_iff.1 (blank_field hat hi)
  exact getElem?_set_self hlt

theorem leading_field_of_ne (hat : decl.PointersAt ty places) (hj : j ∈ places) (hne : j ≠ i)
    (loc : Loc) : (decl.leading ty i loc).fields[j]? = some .null := by
  rw [leading, getElem?_set_ne hne.symm, blank_field hat hj]

/-- Folding goes on below such a cell at one location. -/
theorem below_leading (hat : decl.PointersAt ty places) (hi : i ∈ places) {loc : Loc} {cuts : List Loc}
    (hcut : loc ∉ cuts) : Heap.below (decl.leading ty i loc) cuts = [loc] := by
  obtain ⟨hlt, -⟩ := List.getElem?_eq_some_iff.1 (blank_field hat hi)
  have hnone {l : List Value} (hl : ∀ v ∈ l, v ∈ (decl.blank ty).fields) : l.filterMap Value.loc? = [] := by
    refine filterMap_eq_nil_iff.2 fun v hv => ?_
    obtain ⟨f, -, rfl⟩ := mem_map.1 (hl v hv)
    cases f.ty <;> rfl
  have hfields : (decl.leading ty i loc).fields.filterMap Value.loc? = [loc] := by
    rw [leading, set_eq_take_append_cons_drop, if_pos hlt, filterMap_append,
      filterMap_cons, hnone fun v => mem_of_mem_take, hnone fun v => mem_of_mem_drop]
    rfl
  rw [Heap.below, hfields]
  simp [hcut]

end StructDecl

namespace Heap

open Folding

variable {structs : Structs} {shape shape' : Shape} {ty ty' : StructId} {decl decl' : StructDecl}
  {h : Heap} {loc : Loc}

/-- A cell that leads on meets a goal with null parameters, which it shows itself. -/
theorem exists_offers_leading (hl : shape.pred.layout? structs ty = some shape.layout)
    (hat : decl.PointersAt ty shape.places) (loc next : Loc) :
    ∃ n, Offers structs loc (.cell (decl.leading ty shape.first next)) shape.pred ty (.nulls shape.pred)
      (.inst (.ptr next) shape.pred ty (shape.under loc) ::
        List.replicate n (.inst .null shape.pred ty (shape.under loc))) := by
  have hnodup := Shape.nodup_places hl
  let c := decl.leading ty shape.first next
  have hfirst : c.fields[shape.first]? = some (.ptr next) := StructDecl.leading_field hat shape.first_mem next
  have hother {j : Nat} (hj : j ∈ shape.places) (hne : j ≠ shape.first) : c.fields[j]? = some .null :=
    StructDecl.leading_field_of_ne hat hj hne next
  rcases shape with n | ⟨left, right, up⟩
  · have hfirst : c.fields[n]? = some (.ptr next) := hfirst
    refine ⟨0, fun s => (meetCell_list (c := c) hl).trans ?_⟩
    rw [Goal.ofField, hfirst]
    rfl
  · obtain ⟨hleft, -⟩ := nodup_cons.1 hnodup
    have hfirst : c.fields[left]? = some (.ptr next) := hfirst
    have hright : c.fields[right]? = some .null :=
      hother (.tail _ (.head _)) fun he => hleft (he ▸ .head _)
    have hup : c.fields[up]? = some .null :=
      hother (.tail _ (.tail _ (.head _))) fun he => hleft (he ▸ .tail _ (.head _))
    have hback : checkBack loc c (Shape.tree left right up).layout (.nulls .tree) = .ok () := by
      simp only [checkBack, Shape.layout, hup]
      rfl
    refine ⟨1, fun s => (meetCell_tree (c := c) hl).trans ?_⟩
    rw [Shape.pred, hback, Goal.ofField, Goal.ofField, hfirst, hright]
    rfl

theorem chooseParams_leading (hl : shape.pred.layout? structs ty = some shape.layout)
    (hat : decl.PointersAt ty shape.places) {next : Loc}
    (hs : h.slot loc = .occupied (.cell (decl.leading ty shape.first next))) :
    h.chooseParams loc shape.pred shape.layout none = .ok (.nulls shape.pred, h.sets) := by
  have hnodup := Shape.nodup_places hl
  have hother {j : Nat} (hj : j ∈ shape.places) (hne : j ≠ shape.first) :=
    StructDecl.leading_field_of_ne hat hj hne next
  rw [chooseParams, inferParams.eq_def, summary?_of_cell hs]
  rcases shape with n | ⟨left, right, up⟩
  · rfl
  · obtain ⟨hleft, -⟩ := nodup_cons.1 hnodup
    have hup := hother (.tail _ (.tail _ (.head _))) fun he => hleft (he ▸ .tail _ (.head _))
    simp only [Shape.pred, Shape.layout, cell?_of_slot hs, Option.bind_some, hup]
    rfl

/-- Two cells that lead to a segment, one after the other. The segment may end at the first
    location. -/
def trail (shape : Shape) (ty : StructId) (decl : StructDecl) (last : Slot) (o : Option Hole) : Heap :=
  ⟨.ofSlots [last, .occupied (.summary ⟨shape.pred, ty, shape.under ⟨2⟩, o⟩),
    .occupied (.cell (decl.leading ty shape.first ⟨1⟩)),
    .occupied (.cell (decl.leading ty shape.first ⟨2⟩))], .empty⟩

/-- The trail where the segment ends at a cell of another structure. -/
def brokenTrail (shape : Shape) (ty ty' : StructId) (decl decl' : StructDecl) : Heap :=
  trail shape ty decl (.occupied (.cell (decl'.blank ty'))) (some ⟨.ptr ⟨0⟩, .nulls shape.pred⟩)

/-- The search from the first cell comes to the cell of the wrong structure. -/
theorem brokenTrail_refused (decl' : StructDecl) (hne : ty ≠ ty')
    (hl : shape.pred.layout? structs ty = some shape.layout) (hat : decl.PointersAt ty shape.places) :
    (brokenTrail shape ty ty' decl decl').gather structs ⟨2⟩ shape.pred none [⟨3⟩] =
      .error (.mismatch ⟨some ⟨0⟩, .otherStruct ty ty'⟩) := by
  let cfg : Setting := ⟨structs, [⟨3⟩], ⟨2⟩, shape.pred⟩
  let start := brokenTrail shape ty ty' decl decl'
  obtain ⟨n, ho⟩ := exists_offers_leading hl hat ⟨2⟩ ⟨1⟩
  -- The cell and the segment are taken.
  obtain ⟨left, hclears⟩ : ∃ left, Clears cfg start .empty
      [.inst (.ptr ⟨2⟩) shape.pred ty (.nulls shape.pred)] [⟨2⟩, ⟨1⟩] none .empty
      (.inst (.ptr ⟨0⟩) shape.pred ty (.nulls shape.pred) :: left) :=
    ⟨_, .fact rfl (fun hne => absurd rfl hne) (ho _) (.fact rfl (fun _ => (by decide : (⟨1⟩ : Loc) ∉ [⟨3⟩]))
      (meetSummary_of_aliases _ _ _ _ (some ⟨.ptr ⟨0⟩, .nulls shape.pred⟩) rfl rfl) .nil)⟩
  obtain ⟨st, hrun, ht, -⟩ := absorb_start hclears (by decide)
  have hlast : st.visit cfg (.inst (.ptr ⟨0⟩) shape.pred ty (.nulls shape.pred)) =
      .error (.mismatch ⟨some ⟨0⟩, .otherStruct ty ty'⟩) := by
    have hs : st.heap.slot ⟨0⟩ = .occupied (.cell (decl'.blank ty')) := ht.slot ⟨0⟩
    have hnew : (⟨0⟩ : Loc) ∉ st.visited := by
      rw [ht.visited]
      exact (by decide : ¬ ((⟨0⟩ : Loc) ∈ [⟨2⟩, ⟨1⟩] ∨ (⟨0⟩ : Loc) ∈ []))
    have hty : (decl'.blank ty').ty ≠ ty := hne.symm
    rw [visit_fact (by decide : (⟨0⟩ : Loc) ∉ [⟨3⟩]) hnew hs, meet, meetCell, if_pos hty]
    rfl
  have hstruct : start.rootStruct ⟨2⟩ = .ok ty := rfl
  rw [gather_eq_absorb rfl hstruct hl (chooseParams_leading hl hat rfl)]
  show (absorb cfg ⟨start, none, []⟩ _).map _ = _
  rw [show absorb cfg ⟨start, none, []⟩ _ = _ from hrun, absorb_refused hlast]
  rfl

/-- Where the segment is full, the first cell can be folded. -/
theorem lead_not_refused (hl : shape.pred.layout? structs ty = some shape.layout)
    (hat : decl.PointersAt ty shape.places)
    (hlead : h.slot ⟨2⟩ = .occupied (.cell (decl.leading ty shape.first ⟨1⟩)))
    (hsegment : h.slot ⟨1⟩ = .occupied (.summary ⟨shape.pred, ty, shape.under ⟨2⟩, none⟩)) (e : Mismatch) :
    h.gather structs ⟨2⟩ shape.pred none [⟨3⟩] ≠ .error (.mismatch e) := by
  obtain ⟨n, ho⟩ := exists_offers_leading hl hat ⟨2⟩ ⟨1⟩
  have hnulls (m : Nat) : Walks structs [⟨3⟩] h shape.pred ty
      (List.replicate m (.inst .null shape.pred ty (shape.under ⟨2⟩))) [] [] true := by
    induction m with
    | zero => exact .done
    | succ m ih => exact .null ih
  have hfull : Offers structs ⟨1⟩ (.summary ⟨shape.pred, ty, shape.under ⟨2⟩, none⟩) shape.pred ty
      (shape.under ⟨2⟩) [] := fun s => meetSummary_of_aliases s _ _ _ none rfl rfl
  have hwalks : Walks structs [⟨3⟩] h shape.pred ty [.inst (.ptr ⟨2⟩) shape.pred ty (.nulls shape.pred)]
      [⟨2⟩, ⟨1⟩] [] true :=
    .fact (by decide) hlead ho (.fact (by decide) hsegment hfull (by simpa using hnulls n))
  have hwalk : h.Walk structs [⟨3⟩] ⟨2⟩ shape.pred none ty shape.layout (.nulls shape.pred) [⟨2⟩, ⟨1⟩] []
      true :=
    ⟨rfl, by rw [rootStruct, hlead]; rfl, hl, chooseParams_leading hl hat hlead, rfl, hwalks, by decide,
      Nat.zero_le _⟩
  exact hwalk.not_refused shape.kind (by decide) e

/-- The segment takes over the cell of the wrong structure. -/
theorem brokenTrail_extend (decl : StructDecl) (hsame : shape'.pred = shape.pred)
    (hl' : shape'.pred.layout? structs ty' = some shape'.layout)
    (hat' : decl'.PointersAt ty' shape'.places) :
    (brokenTrail shape ty ty' decl decl').extend structs [⟨3⟩] ⟨1⟩ = .ok (trail shape ty decl .vacant none) := by
  let segment : Summary := ⟨shape.pred, ty, shape.under ⟨2⟩, some ⟨.ptr ⟨0⟩, .nulls shape.pred⟩⟩
  have ho : segment.hole = some ⟨.ptr ⟨0⟩, .nulls shape'.pred⟩ := by rw [hsame]
  rw [extend_blank hl' hat' rfl hsame.symm ho (by decide) rfl]
  show (trail shape ty decl .vacant none).extend structs [⟨3⟩] ⟨1⟩ = _
  rw [extend]
  rfl

theorem trail_setFree {last : Slot} {o : Option Hole} (hlast : ∀ f, last = .occupied f → f.sets = [])
    (ho : ∀ x ∈ o.toList, x.params.sets = []) : (trail shape ty decl last o).SetFree := by
  intro k f hk
  rcases k with ⟨_ | _ | _ | _ | i⟩
  · exact hlast f hk
  · cases hk
    refine append_eq_nil_iff.2 ⟨?_, flatMap_eq_nil_iff.2 ho⟩
    cases shape <;> rfl
  · cases hk
    rfl
  · cases hk
    rfl
  · cases hk

theorem brokenTrail_setFree : (brokenTrail shape ty ty' decl decl').SetFree := by
  refine trail_setFree (fun f hf => ?_) fun x hx => ?_
  · cases hf
    rfl
  · cases mem_singleton.1 hx
    rfl

section

variable (hg : structs.Graphless) (hne : ty ≠ ty') (hl : shape.pred.layout? structs ty = some shape.layout)
  (hat : decl.PointersAt ty shape.places)
include hg hne hl hat

/-- The cell before the segment is not folded. -/
theorem brokenTrail_foldFirst (decl' : StructDecl) :
    (brokenTrail shape ty ty' decl decl').foldFirst structs [⟨3⟩] ⟨2⟩ (Predicate.candidates structs ty) =
      .ok none := by
  refine foldFirst_eq_none.2 fun p hp => ?_
  obtain ⟨layout, hp⟩ := Option.isSome_iff_exists.1 (Predicate.mem_candidates.1 hp)
  obtain ⟨shape', rfl, rfl, -⟩ := Shape.exists_of_layout (hg.kind (Option.isSome_of_eq_some hp)) hp
  rw [Shape.pred_eq_of_layout hl hp]
  exact ⟨_, brokenTrail_refused decl' hne hl hat⟩

variable (hsame : shape'.pred = shape.pred) (hl' : shape'.pred.layout? structs ty' = some shape'.layout)
  (hat' : decl'.PointersAt ty' shape'.places)
include hsame hl' hat'

/-- The cell before the segment stays, and the segment is full. -/
theorem brokenTrail_widenAll :
    widenAll structs [⟨3⟩] (brokenTrail shape ty ty' decl decl') (brokenTrail shape ty ty' decl decl').locs
      [⟨3⟩] = .ok (trail shape ty decl .vacant none) := by
  let start := brokenTrail shape ty ty' decl decl'
  let merged := trail shape ty decl .vacant none
  have hroot : start.widenAt structs [⟨3⟩] ⟨3⟩ = .ok (start, [⟨2⟩]) := by
    have hs : start.slot ⟨3⟩ = .occupied (.cell (decl.leading ty shape.first ⟨2⟩)) := rfl
    simp only [widenAt, hs, mem_singleton, if_true, StructDecl.below_leading hat shape.first_mem
      (by decide : (⟨2⟩ : Loc) ∉ [⟨3⟩]), bind, Except.bind, pure, Except.pure]
  have hlead : start.widenAt structs [⟨3⟩] ⟨2⟩ = .ok (start, [⟨1⟩]) := by
    have hs : start.slot ⟨2⟩ = .occupied (.cell (decl.leading ty shape.first ⟨1⟩)) := rfl
    have hty : (decl.leading ty shape.first ⟨1⟩).ty = ty := rfl
    simp only [widenAt, hs, if_neg (by decide : (⟨2⟩ : Loc) ∉ [⟨3⟩]), hty, start,
      brokenTrail_foldFirst hg hne hl hat decl', StructDecl.below_leading hat shape.first_mem
      (by decide : (⟨1⟩ : Loc) ∉ [⟨3⟩]), bind, Except.bind, pure, Except.pure]
  have hsegment : start.widenAt structs [⟨3⟩] ⟨1⟩ = .ok (merged, []) := by
    have hs : start.slot ⟨1⟩ = .occupied (.summary ⟨shape.pred, ty, shape.under ⟨2⟩,
        some ⟨.ptr ⟨0⟩, .nulls shape.pred⟩⟩) := rfl
    have hext : start.extend structs [⟨3⟩] ⟨1⟩ = .ok merged := brokenTrail_extend decl hsame hl' hat'
    simp only [widenAt, hs, hext, bind, Except.bind, pure, Except.pure]
  have hlocs : start.locs = [⟨0⟩, ⟨1⟩, ⟨2⟩, ⟨3⟩] := rfl
  show widenAll structs [⟨3⟩] start start.locs [⟨3⟩] = .ok merged
  rw [hlocs, widenAll, if_pos (by decide), hroot]
  show widenAll structs [⟨3⟩] start [⟨0⟩, ⟨1⟩, ⟨2⟩] [⟨2⟩] = .ok merged
  rw [widenAll, if_pos (by decide), hlead]
  show widenAll structs [⟨3⟩] start [⟨0⟩, ⟨1⟩] [⟨1⟩] = .ok merged
  rw [widenAll, if_pos (by decide), hsegment]
  show widenAll structs [⟨3⟩] merged [⟨0⟩] [] = .ok merged
  rw [widenAll]

/-- A trail over two structures is not widened once: the second time, the first cell is folded. -/
theorem brokenTrail_not_widensOnce :
    ¬ (brokenTrail shape ty ty' decl decl').WidensOnce structs [.ptr ⟨3⟩] := by
  intro honce
  let merged := trail shape ty decl .vacant none
  have hwiden : (brokenTrail shape ty ty' decl decl').widen structs [.ptr ⟨3⟩] =
      .ok (merged.collect [.ptr ⟨3⟩]) := by
    show (widenAll structs [⟨3⟩] _ _ [⟨3⟩] >>= fun h => pure (h.collect [.ptr ⟨3⟩])) = _
    rw [brokenTrail_widenAll hg hne hl hat hsame hl' hat']
    rfl
  obtain ⟨h₂, hagain, harena, -⟩ := honce _ hwiden
  obtain ⟨g, hall, rfl⟩ := widen_eq_ok hagain
  -- after the second run the three facts would still be there
  have hroot : merged.slot ⟨3⟩ = .occupied (.cell (decl.leading ty shape.first ⟨2⟩)) := rfl
  have hlead : merged.slot ⟨2⟩ = .occupied (.cell (decl.leading ty shape.first ⟨1⟩)) := rfl
  have hreach₃ : merged.Reaches [.ptr ⟨3⟩] ⟨3⟩ := .root (.head _)
  have hreach₂ : merged.Reaches [.ptr ⟨3⟩] ⟨2⟩ :=
    hreach₃.next hroot (mem_of_getElem? (StructDecl.leading_field hat shape.first_mem ⟨2⟩))
  have hreach₁ : merged.Reaches [.ptr ⟨3⟩] ⟨1⟩ :=
    hreach₂.next hlead (mem_of_getElem? (StructDecl.leading_field hat shape.first_mem ⟨1⟩))
  have hkept {k : Loc} {f : Fact} (hr : merged.Reaches [.ptr ⟨3⟩] k) (hs : merged.slot k = .occupied f) :
      g.slot k = .occupied f := by
    refine (forgets_collect g [.ptr ⟨3⟩]).occupied ?_
    show (g.collect [.ptr ⟨3⟩]).arena.slot k.index = .occupied f
    rw [harena]
    show (merged.collect [.ptr ⟨3⟩]).slot k = .occupied f
    rw [slot_collect, if_pos (mem_reach.2 hr), hs]
  -- but then it would have left a cell that can be folded
  have hfull : merged.Plain structs [⟨3⟩] := by
    refine ⟨trail_setFree (fun f hf => ?_) (forall_mem_nil _), fun k s hs _ next params c ho => ?_⟩
    · cases hf
    · rcases k with ⟨_ | _ | _ | _ | i⟩ <;> cases hs
      cases ho
  obtain ⟨seen, hcuts, he⟩ := (hfull.forget (forgets_collect merged [.ptr ⟨3⟩])).exists_explored hg hall
  have hseen : ⟨2⟩ ∈ seen := by
    refine (he.closed ⟨3⟩ (hcuts ⟨3⟩ (.head _)) _ (hkept hreach₃ hroot) ⟨2⟩ ?_).resolve_right not_mem_nil
    rw [StructDecl.below_leading hat shape.first_mem (by decide)]
    exact .head _
  obtain ⟨e, hrefused⟩ := (he.atRest ⟨2⟩ hseen).cell _ (hkept hreach₂ hlead) (by decide) shape.pred
    (Predicate.mem_candidates.2 (Option.isSome_of_eq_some hl))
  exact lead_not_refused hl hat (hkept hreach₂ hlead) (hkept hreach₁ rfl) e hrefused

end

/-! ### Tables for which widening is idempotent -/

/-- In a table without mistakable structures no segment can be mistaken. -/
theorem SetFree.plain (hfree : h.SetFree) (hg : structs.Graphless) (hu : structs.Unmistakable)
    (cuts : List Loc) : h.Plain structs cuts := by
  refine ⟨hfree, fun k s _ hl next params c _ _ _ => ?_⟩
  rcases hc : s.pred.layout? structs c.ty with _ | layout
  · exact .inr rfl
  · exact .inl (hu s.pred (hg.kind hl) c.ty s.ty (Option.isSome_of_eq_some hc) hl)

/-- Widening is always idempotent only if no two structures are laid out for one predicate. -/
theorem unmistakable_of_widensOnce (hg : structs.Graphless)
    (honce : ∀ (h : Heap) roots, h.SetFree → h.WidensOnce structs roots) : structs.Unmistakable := by
  intro p hp ty ty' hl hl'
  by_contra hne
  obtain ⟨layout, hl⟩ := Option.isSome_iff_exists.1 hl
  obtain ⟨layout', hl'⟩ := Option.isSome_iff_exists.1 hl'
  obtain ⟨shape, rfl, rfl, decl, hdecl, hat⟩ := Shape.exists_of_layout hp hl
  obtain ⟨shape', hsame, rfl, decl', hdecl', hat'⟩ := Shape.exists_of_layout hp hl'
  exact brokenTrail_not_widensOnce hg hne hl hat hsame.symm (hsame ▸ hl') hat'
    (honce _ _ brokenTrail_setFree)

/-- Regular heaps whose segments cannot be mistaken are plain. -/
theorem Regular.plain {roots : List Value} (hr : h.Regular structs) (hm : h.Matched structs roots) :
    h.Plain structs (roots.filterMap Value.loc?) := by
  refine ⟨fun k f hs => ?_, fun k s hs _ => hm k s hs⟩
  have hw := hr.facts k f hs
  cases f with
  | cell => rfl
  | summary s =>
    have hw : s.WellFormed structs := hw
    refine append_eq_nil_iff.2 ⟨hw.sets, flatMap_eq_nil_iff.2 fun o ho => ?_⟩
    exact (hw.hole o (Option.mem_toList.1 ho)).2.2.2
  | member => exact hw.elim

/-- Where no structure is laid out for a predicate with sets, widening is idempotent on heaps without
    sets in which no segment can be mistaken for one of another structure: to widen again changes no
    slot. If moreover the facts are well-formed and the cells have all their fields, there is a
    widened heap. So for the tables in which no two structures are laid out for the same predicate,
    widening is always idempotent; and only for these. Where nothing is known about sets, a path that
    comes back to the head of a loop as it left it is merged. -/
theorem widen_idempotent (hg : structs.Graphless) :
    (∀ (h : Heap) roots, h.Plain structs (roots.filterMap Value.loc?) → h.WidensOnce structs roots) ∧
    (∀ (h : Heap) roots, h.Regular structs → h.Matched structs roots →
      h.WidensOnce structs roots ∧ ∃ h₁, h.widen structs roots = .ok h₁) ∧
    ((∀ (h : Heap) roots, h.SetFree → h.WidensOnce structs roots) ↔ structs.Unmistakable) ∧
    ∀ s : State, s.heap.Plain structs ((s.roots.map Prod.snd).filterMap Value.loc?) →
      s.heap.sets = .empty → s.MergesAgain structs := by
  refine ⟨fun h roots hp => hp.widensOnce hg, fun h roots hr hm => ⟨(hr.plain hm).widensOnce hg, ?_⟩,
    ⟨unmistakable_of_widensOnce hg, fun hu h roots hfree => (hfree.plain hg hu _).widensOnce hg⟩,
    fun s hp hs => State.mergesAgain_of_plain hg hp hs⟩
  obtain ⟨h₁, hw, -⟩ := widen_entails (fun _ => True) hg ⟨hr, hm⟩
  exact ⟨h₁, hw⟩

/-- A segment of a list takes over a node at its end, and has nothing left to take over. -/
theorem widen_idempotent_one_list :
    Sample.oneList.Graphless ∧ Sample.oneList.Unmistakable ∧
      ∃ h, (seam .list ⟨0⟩ ⟨⟨0⟩, [.null]⟩).widen Sample.oneList [.ptr ⟨1⟩] = .ok h ∧
        h.slot ⟨1⟩ = .occupied (.summary ⟨.list, ⟨0⟩, .nulls .list, none⟩) ∧
        h.widen Sample.oneList [.ptr ⟨1⟩] = .ok h := by
  have hl : (Shape.list 0).pred.layout? Sample.oneList ⟨0⟩ = some (Shape.list 0).layout := rfl
  obtain ⟨decl, hdecl, hat⟩ := Shape.pointersAt_of_layout hl
  cases hdecl
  have hfree : (seam .list ⟨0⟩ ⟨⟨0⟩, [.null]⟩).SetFree := by
    intro k f hk
    rcases seam_slot_cases hk with ⟨-, rfl⟩ | ⟨-, rfl⟩ <;> rfl
  obtain ⟨h, hw, hslot⟩ := seam_widen ⟨0⟩ hl hat
  obtain ⟨-, -, hall, -⟩ := widen_idempotent Sample.graphless_oneList
  obtain ⟨h₂, hagain, -, hsame⟩ := hall.2 Sample.unmistakable_oneList _ _ hfree h hw
  obtain rfl := hsame rfl
  exact ⟨Sample.graphless_oneList, Sample.unmistakable_oneList, _, hw, hslot, hagain⟩

end Heap

/-- A list of one structure that ends in a node of another, behind a segment. -/
def Sample.mixedList : Heap :=
  ⟨.ofSlots [.occupied (.cell ⟨⟨1⟩, [.null]⟩), .occupied (.summary ⟨.list, ⟨0⟩, .none, some ⟨.ptr ⟨0⟩, .none⟩⟩),
    .occupied (.cell ⟨⟨0⟩, [.ptr ⟨1⟩]⟩), .occupied (.cell ⟨⟨0⟩, [.ptr ⟨2⟩]⟩)], .empty⟩

/-- The first time, the segment takes over the last node and the node before it stays. The second time
    this node is folded. -/
theorem Heap.widen_mixedList_twice :
    Sample.twoLists.Graphless ∧ Sample.mixedList.SetFree ∧
      ¬ Sample.mixedList.WidensOnce Sample.twoLists [.ptr ⟨3⟩] := by
  have hl : (Shape.list 0).pred.layout? Sample.twoLists ⟨0⟩ = some (Shape.list 0).layout := rfl
  have hl' : (Shape.list 0).pred.layout? Sample.twoLists ⟨1⟩ = some (Shape.list 0).layout := rfl
  obtain ⟨decl, hdecl, hat⟩ := Shape.pointersAt_of_layout hl
  obtain ⟨decl', hdecl', hat'⟩ := Shape.pointersAt_of_layout hl'
  cases hdecl
  cases hdecl'
  have hne : (⟨0⟩ : StructId) ≠ ⟨1⟩ := by decide
  have htrail : Sample.mixedList = brokenTrail (.list 0) ⟨0⟩ ⟨1⟩ ⟨"a", [⟨"next", .ptr ⟨0⟩⟩]⟩
      ⟨"b", [⟨"next", .ptr ⟨1⟩⟩]⟩ := rfl
  rw [htrail]
  exact ⟨Sample.graphless_twoLists, brokenTrail_setFree,
    brokenTrail_not_widensOnce Sample.graphless_twoLists hne hl hat rfl hl' hat'⟩

end HeapShape
