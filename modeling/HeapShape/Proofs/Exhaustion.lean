import HeapShape.Proofs.BlockOrder
import HeapShape.Proofs.Requests
import Mathlib.Algebra.Order.BigOperators.Group.List
import Mathlib.Algebra.Order.Ring.Nat

/-!
# Explorations that end

Between two loop heads a path comes to later and later blocks, in the order that
`FlowGraph.exists_order` gives. To each head it may bring only so many new shapes. So the steps
that are left to a path are bounded, and with them the steps that are left to an exploration: a
path that forks uses up one of the numbers of paths.

* `FlowGraph.rest`: the steps from a block on, in an order of the blocks;
* `Frame.remaining`: a bound for the steps of a path. Each step makes it smaller
  (`Frame.remaining_next`);
* `Exploration.potential`: a bound for the steps of an exploration. Each step makes it smaller, or
  uses up the numbers of paths (`Exploration.potential_step`);
* `Program.exploration_ends`: every exploration ends.
-/

namespace HeapShape

open List

/-! ### Steps from a block on -/

namespace FlowGraph

variable {g : FlowGraph} {order : List BlockId} {a b id : BlockId}

/-- The steps that a path takes in a block. -/
def work (g : FlowGraph) (id : BlockId) : Nat := g.blocks[id]?.elim 0 fun b => b.instrs.length + 1

/-- The steps from a block on. -/
def rest (g : FlowGraph) (order : List BlockId) (id : BlockId) : Nat :=
  ((order.dropWhile (· ≠ id)).map g.work).sum

theorem rest_cons (g : FlowGraph) (order : List BlockId) (a id : BlockId) :
    g.rest (a :: order) id = if a = id then g.work a + (order.map g.work).sum else g.rest order id := by
  by_cases h : a = id
  · simp [rest, h]
  · simp [rest, h]

theorem rest_le (g : FlowGraph) (order : List BlockId) (id : BlockId) :
    g.rest order id ≤ (order.map g.work).sum := by
  induction order with
  | nil => exact Nat.le_refl 0
  | cons a order ih =>
    rw [rest_cons, map_cons, sum_cons]
    split
    · exact Nat.le_refl _
    · exact ih.trans (Nat.le_add_left _ _)

theorem work_le_rest (hid : id ∈ order) : g.work id ≤ g.rest order id := by
  induction order with
  | nil => exact (not_mem_nil hid).elim
  | cons a order ih =>
    rw [rest_cons]
    split
    · rename_i h
      exact h ▸ Nat.le_add_right _ _
    · rename_i h
      exact ih ((mem_cons.1 hid).resolve_left (Ne.symm h))

/-- A block that another one leads to is later in the order. -/
theorem work_add_rest_le (hf : order.Pairwise fun a b => ¬ g.Continues b a) (hi : ∀ a, ¬ g.Continues a a)
    (ha : a ∈ order) (hc : g.Continues a b) : g.work a + g.rest order b ≤ g.rest order a := by
  induction order with
  | nil => exact (not_mem_nil ha).elim
  | cons x order ih =>
    obtain ⟨hx, hf⟩ := pairwise_cons.1 hf
    rw [rest_cons, rest_cons]
    by_cases hxa : x = a
    · have hab : ¬ a = b := fun h => hi a (h ▸ hc)
      rw [hxa, if_pos rfl, if_neg hab]
      exact Nat.add_le_add_left (rest_le g order b) _
    · have ha' : a ∈ order := (mem_cons.1 ha).resolve_left (Ne.symm hxa)
      have hxb : ¬ x = b := fun h => hx a ha' (h ▸ hc)
      rw [if_neg hxa, if_neg hxb]
      exact ih hf ha'

theorem sum_work (blocks : List Block) (heads : List BlockId) :
    ((List.range blocks.length).map (work ⟨blocks, heads⟩)).sum =
      blocks.foldr (fun b n => b.instrs.length + 1 + n) 0 := by
  induction blocks with
  | nil => rfl
  | cons b blocks ih =>
    rw [length_cons, range_succ_eq_map, map_cons, sum_cons, map_map,
      foldr_cons, ← ih]
    rfl

namespace IsOrder

variable {task : Task} (h : task.graph.IsOrder order) {block : Block}
include h

theorem rest_le_size (id : BlockId) : task.graph.rest order id ≤ task.size := by
  refine (rest_le _ order id).trans (Nat.le_of_eq ?_)
  rw [(h.all.map _).sum_eq]
  exact sum_work task.graph.blocks task.graph.loopHeads

theorem mem_of_block (hb : task.graph.blocks[id]? = some block) : id ∈ order :=
  h.all.mem_iff.2 (mem_range.2 (List.getElem?_eq_some_iff.1 hb).1)

theorem length_lt_rest (hb : task.graph.blocks[id]? = some block) :
    block.instrs.length < task.graph.rest order id := by
  have hwork : task.graph.work id = block.instrs.length + 1 := by rw [work, hb]; rfl
  exact hwork.ge.trans (work_le_rest (h.mem_of_block hb))

theorem length_add_rest_lt (hb : task.graph.blocks[a]? = some block) (hc : task.graph.Continues a b) :
    block.instrs.length + task.graph.rest order b < task.graph.rest order a := by
  have hwork : task.graph.work a = block.instrs.length + 1 := by rw [work, hb]; rfl
  have hle := work_add_rest_le h.forward h.irrefl (h.mem_of_block hb) hc
  rw [hwork] at hle
  omega

/-- Every cycle passes a loop head. -/
theorem not_cyclic (id : BlockId) : ¬ Relation.TransGen task.graph.Continues id id := by
  have hstep {a b : BlockId} (hc : task.graph.Continues a b) :
      task.graph.rest order b < task.graph.rest order a := by
    obtain ⟨block, hb, -⟩ := hc.1
    exact (Nat.le_add_left _ _).trans_lt (h.length_add_rest_lt hb hc)
  have hlt {b : BlockId} (hpath : Relation.TransGen task.graph.Continues id b) :
      task.graph.rest order b < task.graph.rest order id := by
    induction hpath with
    | single hc => exact hstep hc
    | tail _ hc ih => exact (hstep hc).trans ih
  exact fun hcycle => Nat.lt_irrefl _ (hlt hcycle)

end IsOrder

end FlowGraph

/-! ### Steps that are left to a path -/

theorem sum_map_le {α : Type} {l : List α} {f : α → Nat} {n : Nat} (h : ∀ a ∈ l, f a ≤ n) :
    (l.map f).sum ≤ l.length * n := by
  have hsum := sum_le_card_nsmul (l.map f) n (by simpa using h)
  rwa [length_map, Nat.nsmul_eq_mul] at hsum

namespace Task

variable {task : Task}

/-- The new shapes that a path may still bring to loop heads. -/
def budget (task : Task) (recorded : List BlockId) : Nat :=
  (task.graph.loopHeads.map fun head => task.config.maxLoopShapes - recorded.count head).sum

/-- The steps that suffice for a path. -/
def pathBound (task : Task) : Nat :=
  (task.graph.loopHeads.length * task.config.maxLoopShapes + 1) * task.size

theorem budget_le (recorded : List BlockId) :
    task.budget recorded ≤ task.graph.loopHeads.length * task.config.maxLoopShapes :=
  sum_map_le fun _ _ => Nat.sub_le _ _

/-- A new shape uses up some of the budget. -/
theorem budget_cons_lt {head : BlockId} {recorded : List BlockId}
    (hh : task.graph.isLoopHead head = true) (hc : recorded.count head < task.config.maxLoopShapes) :
    task.budget (head :: recorded) < task.budget recorded := by
  refine sum_lt_sum _ _ (fun other _ => ?_) ⟨head, contains_iff_mem.1 hh, ?_⟩
  · exact Nat.sub_le_sub_left (count_le_count_cons ..) _
  · rw [count_cons_self]
    omega

end Task

namespace Frame

variable {task : Task} {order : List BlockId} {f f' : Frame}

/-- A path is not behind the end of its block. -/
def Within (task : Task) (f : Frame) : Prop :=
  ∃ b, task.graph.blocks[f.block]? = some b ∧ f.index ≤ b.instrs.length

/-- The steps that are left to a path, at most. -/
def remaining (task : Task) (order : List BlockId) (f : Frame) : Nat :=
  task.budget f.recorded * task.size + (task.graph.rest order f.block - f.index)

theorem remaining_pos (ho : task.graph.IsOrder order) (hf : f.Within task) :
    0 < f.remaining task order := by
  obtain ⟨b, hb, hindex⟩ := hf
  have hlt := ho.length_lt_rest hb
  exact Nat.add_pos_right _ (by omega)

theorem remaining_le (ho : task.graph.IsOrder order) (f : Frame) :
    f.remaining task order ≤ task.pathBound := by
  rw [remaining, Task.pathBound, Nat.add_mul, Nat.one_mul]
  exact Nat.add_le_add (Nat.mul_le_mul_right _ (Task.budget_le _))
    ((Nat.sub_le _ _).trans (ho.rest_le_size _))

theorem within_of_next (hg : task.graph.Closed) (h : f.Next task f') : f'.Within task := by
  cases h with
  | instr path hb hi h =>
    exact ⟨_, hb, (List.getElem?_eq_some_iff.1 hi).1⟩
  | @exit b s target _ path hb hi h he =>
    have htarget := hg.targets f.block b hb target h.mem_targets
    cases he with
    | block | head => exact ⟨_, getElem?_eq_getElem htarget, Nat.zero_le _⟩

/-- Fewer steps are left to the paths that a path goes on as. -/
theorem remaining_next (ho : task.graph.IsOrder order) (hf : f.Within task) (h : f.Next task f') :
    f'.remaining task order < f.remaining task order := by
  cases h with
  | instr path hb hi h =>
    have hlt := ho.length_lt_rest hb
    have hindex := (List.getElem?_eq_some_iff.1 hi).1
    exact Nat.add_lt_add_left (by dsimp only; omega) _
  | @exit b s target _ path hb hi h he =>
    obtain ⟨b', hb', hindex⟩ := hf
    cases hb.symm.trans hb'
    cases he with
    | block hblock =>
      have hlt := ho.length_add_rest_lt hb ⟨⟨b, hb, h.mem_targets⟩, hblock⟩
      exact Nat.add_lt_add_left (by dsimp only; omega) _
    | head hh _ hc =>
      have hbudget := Nat.mul_le_mul_right task.size (Task.budget_cons_lt hh hc)
      have hlt := ho.length_lt_rest hb
      have hsize := ho.rest_le_size target
      rw [Nat.succ_mul] at hbudget
      simp only [remaining]
      omega

end Frame

/-! ### Steps that are left to an exploration -/

namespace Exploration

variable {task : Task} {order : List BlockId} {e e' : Exploration}

/-- The steps that are left to an exploration, at most, as long as it does not run out of
    numbers of paths. -/
def potential (task : Task) (order : List BlockId) (e : Exploration) : Nat :=
  (task.config.maxPaths - e.nextPath) * task.pathBound +
    (e.waiting.toList.map (Frame.remaining task order)).sum

/-- A path with `r` steps left becomes `k` paths with fewer steps left, and all of them but one
    get new numbers. -/
theorem potential_lt {m p r k a t n n' : Nat} (hn : n ≤ n') (hk : n + k ≤ n' + 1) (hm : n' ≤ m)
    (hr : 0 < r) (hp : r ≤ p) (ht : t ≤ k * (r - 1)) :
    (m - n') * p + (a + t) < (m - n) * p + (r + a) := by
  obtain ⟨j, rfl⟩ := Nat.exists_eq_add_of_le hn
  have hforks : t ≤ j * p + (r - 1) := by
    calc
      t ≤ k * (r - 1) := ht
      _ ≤ (j + 1) * (r - 1) := Nat.mul_le_mul_right _ (by omega)
      _ = j * (r - 1) + (r - 1) := Nat.succ_mul ..
      _ ≤ j * p + (r - 1) := Nat.add_le_add_right (Nat.mul_le_mul_left j (by omega)) _
  have hnumbers : (m - n) * p = (m - (n + j)) * p + j * p := by
    rw [← Nat.add_mul]
    congr 1
    omega
  omega

/-- A step makes the potential smaller, or uses up the numbers of paths. -/
theorem potential_step (ho : task.graph.IsOrder order) (he : ∀ f ∈ e.waiting.toList, f.Within task)
    (h : e.step task = .ok (some e')) :
    task.config.maxPaths < e'.nextPath ∨ e'.potential task order < e.potential task order := by
  refine (Nat.lt_or_ge task.config.maxPaths e'.nextPath).imp_right fun hmax => ?_
  obtain ⟨f, waiting, next, hwait, -, hr⟩ := step_cases h
  have hf : f.Within task := he f (by rw [hwait]; exact mem_cons_self)
  have hsum : (next.map (Frame.remaining task order)).sum ≤ next.length * (f.remaining task order - 1) :=
    sum_map_le fun f' hf' => Nat.le_sub_one_of_lt (Frame.remaining_next ho hf (hr.goesOn f' hf'))
  rw [potential, potential, hr.waiting, hwait, map_append, sum_append, map_cons,
    sum_cons]
  exact potential_lt hr.le hr.length hmax (Frame.remaining_pos ho hf) (Frame.remaining_le ho f) hsum

/-! ### The end of an exploration -/

theorem step_eq_none (h : task.config.maxPaths < e.nextPath) : e.step task = .ok none := by
  rw [step]
  split
  · rfl
  · rw [if_pos h]

theorem waiting_of_step_eq_none (h : e.step task = .ok none) :
    e.waiting.toList = [] ∨ task.config.maxPaths < e.nextPath := by
  rw [step] at h
  split at h
  · exact .inl (Queue.pop?_eq_none.1 ‹_›)
  · split at h
    · exact .inr ‹_›
    · obtain ⟨_, -, heq⟩ := ok_of_map h
      cases heq

theorem run_of_step_eq_none (h : e.step task = .ok none) (n : Nat) : run task n e = .ok e := by
  cases n with
  | zero => rfl
  | succ n =>
    rw [run, h]
    rfl

/-- An exploration ends within the steps that are left to it. -/
theorem exists_end (hg : task.graph.Closed) (ho : task.graph.IsOrder order) {n : Nat}
    (hready : ∀ f ∈ e.waiting.toList, f.Ready task) (hin : ∀ f ∈ e.waiting.toList, f.Within task)
    (hn : e.potential task order < n) :
    ∃ e', (∀ m, n ≤ m → run task m e = .ok e') ∧ e'.step task = .ok none := by
  induction n generalizing e with
  | zero => exact (Nat.not_lt_zero _ hn).elim
  | succ n ih =>
    obtain ⟨next, hstep⟩ := exists_step hready
    cases next with
    | none => exact ⟨e, fun m _ => run_of_step_eq_none hstep m, hstep⟩
    | some e₁ =>
      have hrun (m : Nat) : run task (m + 1) e = run task m e₁ := by
        rw [run, hstep]
        rfl
      have hfirst : ∃ e', (∀ m, n ≤ m → run task m e₁ = .ok e') ∧ e'.step task = .ok none := by
        rcases potential_step ho hin hstep with hmax | hlt
        · have hend := step_eq_none hmax
          exact ⟨e₁, fun m _ => run_of_step_eq_none hend m, hend⟩
        · exact ih (waiting_step (fun _ _ => Frame.Ready.next hg) hready hstep)
            (waiting_step (fun _ _ _ => Frame.within_of_next hg) hin hstep) (by omega)
      obtain ⟨e', hruns, hend⟩ := hfirst
      refine ⟨e', fun m hm => ?_, hend⟩
      obtain ⟨m, rfl⟩ := Nat.exists_eq_add_of_le' (Nat.le_trans (Nat.le_add_left 1 n) hm)
      rw [hrun]
      exact hruns m (Nat.le_of_succ_le_succ hm)

theorem potential_start_lt (ho : task.graph.IsOrder order) (hmax : 0 < task.config.maxPaths) :
    start.potential task order < task.bound := by
  have hpath : start.potential task order =
      (task.config.maxPaths - 1) * task.pathBound +
        (Frame.remaining task order ⟨FlowGraph.entry, 0, State.initial 0, []⟩ + 0) := rfl
  have hfirst := Frame.remaining_le ho ⟨FlowGraph.entry, 0, State.initial 0, []⟩
  have hbound : task.bound = (task.config.maxPaths - 1) * task.pathBound + task.pathBound + 1 := by
    rw [← Nat.succ_mul, Nat.succ_eq_add_one, Nat.sub_add_cancel hmax]
    rfl
  omega

/-- A path that comes to the head of a loop ends there, or brings a new shape. -/
theorem enter_head {head : BlockId} {recorded : List BlockId} {s : State}
    (hh : task.graph.isLoopHead head = true) (h : e.enter task recorded head s = .ok e') :
    e' = e.merge ∨ (∃ t, e' = e.fail t (headSpan task head) (.loopBound task.config.maxLoopShapes)) ∨
      ∃ t, e'.waiting.toList = e.waiting.toList ++ [⟨head, 0, t, head :: recorded⟩] ∧
        recorded.count head < task.config.maxLoopShapes := by
  rw [enter, if_pos hh] at h
  obtain ⟨heap, -, h⟩ := ok_of_bind h
  obtain rfl := Except.ok.inj h
  rw [arrive]
  split
  · exact .inl rfl
  · split
    · exact .inr (.inl ⟨_, rfl⟩)
    · rename_i hc
      exact .inr (.inr ⟨_, Queue.toList_push .., Nat.lt_of_not_le hc⟩)

end Exploration

theorem Frame.count_of_next {task : Task} {f f' : Frame} {head : BlockId} (h : f.Next task f')
    (hf : f.recorded.count head ≤ task.config.maxLoopShapes) :
    f'.recorded.count head ≤ task.config.maxLoopShapes := by
  cases h with
  | instr => exact hf
  | exit _ _ _ _ he =>
    cases he with
    | block => exact hf
    | head _ _ hc =>
      rw [count_cons]
      split
      · rename_i heq
        exact eq_of_beq heq ▸ hc
      · exact hf

/-- Every exploration ends, with no path that waits or with more paths than allowed, and a bound
    for its steps can be read off the program. Every cycle of its flow graph passes a loop head.
    A path that comes to a head ends there, or brings a new shape, and it brings no more of them
    than allowed. A step replaces one path by as many as it gives out numbers for, and one more at
    most. -/
theorem Program.exploration_ends (p : Program) (config : Config) :
    let task : Task := ⟨p.structs, .ofProgram p, config⟩
    (∃ e, (∀ n, task.bound ≤ n → Exploration.run task n .start = .ok e) ∧ e.step task = .ok none ∧
      (e.waiting.toList = [] ∨ config.maxPaths < e.nextPath)) ∧
    (∀ id, ¬ Relation.TransGen task.graph.Continues id id) ∧
    (∀ (e e' : Exploration) recorded head s, task.graph.isLoopHead head = true →
      e.enter task recorded head s = .ok e' →
      e' = e.merge ∨
        (∃ t, e' = e.fail t (Exploration.headSpan task head) (.loopBound config.maxLoopShapes)) ∨
        ∃ t, e'.waiting.toList = e.waiting.toList ++ [⟨head, 0, t, head :: recorded⟩] ∧
          recorded.count head < config.maxLoopShapes) ∧
    (∀ n e f head, Exploration.run task n .start = .ok e → f ∈ e.waiting.toList →
      f.recorded.count head ≤ config.maxLoopShapes) ∧
    ∀ e e' : Exploration, e.step task = .ok (some e') → ∃ f rest next, e.waiting.toList = f :: rest ∧
      e'.waiting.toList = rest ++ next ∧ e.nextPath + next.length ≤ e'.nextPath + 1 := by
  intro task
  have hg : task.graph.Closed := FlowGraph.closed_ofProgram p
  obtain ⟨order, ho⟩ : ∃ order, task.graph.IsOrder order := FlowGraph.exists_order p
  refine ⟨?_, ho.not_cyclic, fun e e' recorded head s => Exploration.enter_head,
    fun n e f head hrun hf => ?_, fun e e' hstep => ?_⟩
  · have hend : ∃ e, (∀ n, task.bound ≤ n → Exploration.run task n .start = .ok e) ∧
        e.step task = .ok none := by
      rcases Nat.eq_zero_or_pos config.maxPaths with hzero | hpos
      · have hstart : Exploration.start.step task = .ok none :=
          Exploration.step_eq_none (hzero ▸ Nat.zero_lt_one)
        exact ⟨_, fun n _ => Exploration.run_of_step_eq_none hstart n, hstart⟩
      · exact Exploration.exists_end hg ho (Exploration.ready_start hg)
          (Exploration.waiting_start ⟨_, getElem?_eq_getElem hg.entry, Nat.zero_le _⟩)
          (Exploration.potential_start_lt ho hpos)
    obtain ⟨e, hruns, hlast⟩ := hend
    exact ⟨e, hruns, hlast, Exploration.waiting_of_step_eq_none hlast⟩
  · exact Exploration.waiting_run (P := fun f => f.recorded.count head ≤ config.maxLoopShapes)
      (fun _ _ hf hn => Frame.count_of_next hn hf) (Exploration.waiting_start (Nat.zero_le _)) hrun f hf
  · obtain ⟨f, waiting, next, hwait, -, hr⟩ := Exploration.step_cases hstep
    exact ⟨f, waiting.toList, next, hwait, hr.waiting, hr.length⟩

/-- A loop that does nothing for as long as a pointer is not null. -/
def Sample.idle : Program :=
  ⟨nodes, [.decl Span.none "x" (.ptr ⟨0⟩) none, .loop Span.none (.cmp false (.path ⟨"x", []⟩) .null) []]⟩

theorem Program.exploration_ends_idle :
    let task : Task := ⟨Sample.nodes, .ofProgram Sample.idle, .standard⟩
    (∃ e, Exploration.run task task.bound .start = .ok e ∧ e.step task = .ok none) ∧
      (∃ e, Exploration.start.enter task [] 1 (State.initial 0) = .ok e ∧
        (e = Exploration.start.merge ∨
          (∃ t, e = Exploration.start.fail t (Exploration.headSpan task 1) (.loopBound 256)) ∨
          ∃ t, e.waiting.toList = Exploration.start.waiting.toList ++ [⟨1, 0, t, [1]⟩] ∧
            ([] : List BlockId).count 1 < 256)) ∧
      (∀ f ∈ Exploration.start.waiting.toList, f.recorded.count 1 ≤ 256) ∧
      ∃ e f rest next, Exploration.start.step task = .ok (some e) ∧
        Exploration.start.waiting.toList = f :: rest ∧ e.waiting.toList = rest ++ next ∧
        1 + next.length ≤ e.nextPath + 1 := by
  intro task
  obtain ⟨⟨e, hruns, hend, -⟩, -, hhead, hcount, hstep⟩ := Program.exploration_ends Sample.idle .standard
  obtain ⟨e₁, henter⟩ : ∃ e₁, Exploration.start.enter task [] 1 (State.initial 0) = .ok e₁ :=
    Exploration.exists_enter (State.sound_initial 0) [] 1
  have hfirst : Exploration.start.step task = .ok (some _) := rfl
  obtain ⟨f, rest, next, hnext⟩ := hstep _ _ hfirst
  exact ⟨⟨e, hruns _ (Nat.le_refl _), hend⟩, ⟨e₁, henter, hhead _ _ _ _ _ rfl henter⟩,
    fun f hf => hcount 0 _ f 1 rfl hf, ⟨_, f, rest, next, hfirst, hnext⟩⟩

end HeapShape
