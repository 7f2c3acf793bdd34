import HeapShape.Proofs.Requests
import HeapShape.Proofs.TypedStates

/-!
# Execution preserves types

A check of a well typed program comes to typed states only, and no path ends because types do not
agree. A step leads from a path in a typed state, at a point from where all is well typed, to paths
of this kind.

* `State.judge_typed`: directives lead from typed states to typed states;
* `Exploration.perform_typed`, `Exploration.branch_typed`: so do instructions and branches;
* `Frame.Typed.work`: what this says about the work on a path;
* `Exploration.Typed.run`: the invariant of an exploration;
* `Program.execution_preserves_types`: what follows for every program that is well typed.
-/

namespace HeapShape

open List

/-! ### Directives -/

theorem Defect.IsIllTyped.isFault {d : Defect} (h : d.IsIllTyped) : d.IsFault := by
  cases d <;> first | exact h | exact h.elim

namespace State

variable {structs : Structs} {Γ : Context} {τ : Assignment} {s t : State} {T : StructId} {x : String}
  {j : Judgement}

theorem params_typed {P : Value → Prop} {block : ParamBlock} {p : Params} (h : s.params block = .ok p)
    (hP : ∀ name ∈ block.ptrs, ∀ v, s.pointerParam name = .ok v → P v) : ∀ v ∈ p.ptrs, P v := by
  obtain ⟨ptrs, hptrs, h⟩ := ok_of_bind h
  obtain ⟨sets, -, h⟩ := ok_of_bind h
  cases h
  have hmap : Yields (fun _ => False) (block.ptrs.mapM s.pointerParam) fun l => ∀ v ∈ l, P v := by
    refine Yields.mapM fun name hname => ?_
    rcases hv : s.pointerParam name with d | v
    · exact id
    · exact hP name hname v hv
  exact hmap.of_ok hptrs

/-- The location for an instance is vacant, and has the structure of its variable. -/
theorem opaqueLoc_typed {loc : Loc} (hs : s.TypedIn structs Γ τ) (hx : Γ.lookup x = some (.ptr T))
    (h : s.opaqueLoc x = .ok (loc, t)) : t.heap.slot loc = .vacant ∧
      ∃ τ' : Assignment, τ <+: τ' ∧ t.TypedIn structs Γ τ' ∧ τ'.struct? loc = some T := by
  rcases hb : s.env.get? x with _ | b
  · rw [opaqueLoc_undefined hb] at h
    cases h
  · have hty := hx.symm.trans (hs.declared x b hb)
    rcases opaqueLoc_cases hb with ⟨_, hv, hvacant, ho⟩ | ho
    · cases h.symm.trans ho
      have hptr := hs.vars x b hb
      rw [hv, ← Option.some.inj hty] at hptr
      exact ⟨of_decide_eq_true hvacant, τ, prefix_refl τ, hs, hptr.struct?⟩
    · -- A new location can have any structure, and gets that of the variable.
      cases h.symm.trans ho
      obtain ⟨hheap, hnew⟩ := hs.heap.fresh T
      have hτ : τ <+: τ ++ [T] := prefix_append _ _
      refine ⟨(Heap.slot_fresh _ _).trans (Heap.slot_of_size_le (Nat.le_refl s.heap.size)), τ ++ [T], hτ,
        hs.insert hτ hheap (hx.trans hty) (fun _ _ => rfl) ?_, hnew⟩
      rw [← Option.some.inj hty]
      exact .ptr hnew

theorem addInductive_typed {pred : Predicate} {block : ParamBlock} (hs : s.TypedIn structs Γ τ)
    (hd : Directive.WellTyped Γ (.addInductive x pred block))
    (h : s.addInductive structs x pred block = .ok (j, t)) :
    ∃ τ' : Assignment, τ <+: τ' ∧ t.TypedIn structs Γ τ' := by
  obtain ⟨T, hpointee, h⟩ := ok_of_bind h
  have hx : Γ.lookup x = some (.ptr T) := by
    rw [pointee] at hpointee
    split at hpointee <;> cases hpointee
    exact hs.declared x _ ‹_›
  split at h
  · cases h
    exact ⟨τ, prefix_refl τ, hs⟩
  · obtain ⟨params, hparams, h⟩ := ok_of_bind h
    obtain ⟨⟨loc, s₁⟩, ho, h⟩ := ok_of_bind h
    have hp : ∀ v ∈ params.ptrs, v.HasType τ (.ptr T) := by
      refine params_typed hparams fun name hname v hv => ?_
      rw [pointerParam] at hv
      split at hv
      · cases hv
        exact .null T
      · obtain ⟨ty, hty, hv⟩ := hs.lookup hv
        obtain ⟨hsame, -⟩ := (hd name hname).resolve_left ‹_›
        cases hty.symm.trans (hsame.trans hx)
        exact hv
    obtain ⟨hvacant, τ', hτ, hs₁, hT⟩ := opaqueLoc_typed hs hx ho
    have hlt : loc.index < s₁.heap.size := hs₁.heap.length ▸ (List.getElem?_eq_some_iff.1 hT).1
    have hsum : Fact.Typed structs τ' T (.summary ⟨pred, T, params, none⟩) :=
      ⟨rfl, Params.Typed.mono hτ hp, fun _ ho => (Option.not_mem_none _ ho).elim⟩
    simp only [put_of_vacant hlt hvacant] at h
    cases h
    exact ⟨τ', hτ, hs₁.withHeap (prefix_refl τ') (hs₁.heap.write hT hsum)⟩

/-- A directive leads from a typed state to a typed state. -/
theorem judge_typed {d : Directive} (hs : s.TypedIn structs Γ τ) (hd : d.WellTyped Γ)
    (h : s.judge structs d = .ok (j, t)) : ∃ τ' : Assignment, τ <+: τ' ∧ t.TypedIn structs Γ τ' := by
  rcases d with names | ⟨sub, sup⟩ | ⟨x, pred, block⟩ | ⟨x, pred, block⟩ | names
  · cases h
    exact ⟨τ, prefix_refl τ, hs.withSets _⟩
  · obtain ⟨a, -, h⟩ := ok_of_bind h
    obtain ⟨b, -, h⟩ := ok_of_bind h
    cases h
    exact ⟨τ, prefix_refl τ, hs.withSets _⟩
  · exact addInductive_typed hs hd h
  · -- Whatever parameters are asked for, those that are found are typed.
    obtain ⟨root, -, h⟩ := ok_of_bind h
    obtain ⟨params, -, h⟩ := ok_of_bind h
    rcases hc : s.heap.check structs root pred params with (m | m) | heap <;> rw [hc] at h <;> cases h
    · exact ⟨τ, prefix_refl τ, hs⟩
    · exact ⟨τ, prefix_refl τ, hs.withHeap (prefix_refl τ) (hs.heap.check hc)⟩
  · rw [judge] at h
    split at h <;> cases h
    exact ⟨τ, prefix_refl τ, hs⟩

end State

/-! ### Instructions and branches -/

namespace Exploration

open Outcomes (Anything)

variable {task : Task} {lost : Loc → Prop} {Γ : Context} {τ : Assignment} {s : State}

theorem direct_typed {d : Directive} (hsound : s.Sound task.structs lost)
    (hs : s.TypedIn task.structs Γ τ) (hd : d.WellTyped Γ) :
    Outcomes.Typed task.structs Γ τ Anything (direct task d s).2 := by
  have hjudge := State.judge_yields hsound d
  rw [direct]
  split
  · rename_i e he
    rw [he] at hjudge
    exact .defect hs fun hill => hjudge hill.isFault
  · -- If failed checks end their paths, the defect is what the fold was refused for.
    rename_i cause s' hok
    obtain ⟨τ', hτ, hs'⟩ := State.judge_typed hs hd hok
    refine Exec.All.single ⟨τ', hτ, hs', ?_⟩
    split
    · rename_i heq
      split at heq
      · cases heq
      · trivial
    · rename_i heq
      split at heq
      · cases heq
        exact (hjudge.of_ok hok).judgement cause rfl
      · cases heq
  · rename_i judgement s' _ hok
    obtain ⟨τ', hτ, hs'⟩ := State.judge_typed hs hd hok
    exact Exec.All.single ⟨τ', hτ, hs', trivial⟩

/-- An instruction leads to typed states, with the variables that are in scope behind it. -/
theorem perform_typed {i : Instr} (hsound : s.Sound task.structs lost)
    (hs : s.TypedIn task.structs Γ τ) (hi : i.WellTyped task.structs Γ) :
    Outcomes.Typed task.structs (i.scope Γ) τ Anything (perform task i s).2 := by
  cases i with
  | decl var ty =>
    obtain ⟨τ', hτ, hs'⟩ := hs.declare var ty
    exact Exec.All.single ⟨τ', hτ, hs', trivial⟩
  | assign lhs rhs => exact Exec.assign_typed hs hi
  | alloc lhs T => exact Exec.alloc_typed hs hi
  | free path => exact Exec.free_typed hs hi
  | assert cond => exact Exec.assert_typed hs hi
  | directive d => exact direct_typed hsound hs hi
  | kill vars => exact .single (hs.kill hi) trivial

theorem branch_typed {c : Cond} (hs : s.TypedIn task.structs Γ τ) (hc : c.WellTyped task.structs Γ)
    (thenTarget elseTarget : BlockId) :
    Outcomes.Typed task.structs Γ τ (fun _ _ target => target ∈ [thenTarget, elseTarget])
      (branch task.structs c thenTarget elseTarget s) := by
  refine .append ?_ ?_
  · exact (Exec.assume_typed hs hc true).bind fun s' τ' _ _ hs' _ => .single hs' (.head _)
  · exact (Exec.assume_typed hs hc false).bind fun s' τ' _ _ hs' _ => .single hs' (.tail _ (.head _))

end Exploration

/-! ### Paths -/

/-- From a point on all is well typed, if some variables are in scope there. -/
def Task.Accepts (task : Task) (p : FlowGraph.Point) (Γ : Context) : Prop :=
  ∀ n, task.graph.Accepts task.structs n p Γ

/-- A path is in a typed state, at a point from where all is well typed. -/
def Frame.Typed (task : Task) (f : Frame) : Prop :=
  ∃ Γ τ, task.Accepts ⟨f.block, f.index⟩ Γ ∧ f.state.TypedIn task.structs Γ τ

theorem Outcomes.Typed.mapResult {α β : Type} {structs : Structs} {Γ : Context} {τ : Assignment}
    {P : State → Assignment → α → Prop} {Q : State → Assignment → β → Prop} {g : α → β} {l : Outcomes α}
    (hl : l.Typed structs Γ τ P) (h : ∀ s τ' a, P s τ' a → Q s τ' (g a)) :
    (l.mapResult g).Typed structs Γ τ Q := by
  intro s r hr
  obtain ⟨⟨t, r'⟩, hmem, heq⟩ := mem_map.1 hr
  obtain ⟨rfl, rfl⟩ := Prod.mk.inj heq
  obtain ⟨τ', hτ, hs, hP⟩ := hl t r' hmem
  refine ⟨τ', hτ, hs, ?_⟩
  rcases r' with d | a
  · exact hP
  · exact h t τ' a hP

/-- The work on a typed path leads to typed states. -/
theorem Frame.Typed.work {task : Task} {f : Frame} {b : Block} (hr : f.Ready task) (hf : f.Typed task)
    (hb : task.graph.blocks[f.block]? = some b) :
    ∃ Γ τ, Outcomes.Typed task.structs Γ τ Outcomes.Anything (f.workIn task b).outcomes := by
  obtain ⟨Γ, τ, haccepts, hs⟩ := hf
  rw [Frame.workIn]
  split
  · rename_i span instr hi
    have hinstr := ((haccepts 1).1 span instr ⟨b, hb, hi⟩).1
    exact ⟨instr.scope Γ, τ, (Exploration.perform_typed hr.state hs hinstr).mapResult fun _ _ _ _ => trivial⟩
  · rename_i hi
    have hexit := (haccepts 1).2 b.exit ⟨b, hb, hi, rfl⟩
    refine ⟨Γ, τ, ?_⟩
    generalize b.exit = exit at hexit ⊢
    rcases exit with target | ⟨span, cond, thenTarget, elseTarget⟩ | _
    · exact .single hs trivial
    · exact (Exploration.branch_typed hs hexit.1 _ _).mapResult fun _ _ _ _ => trivial
    · exact .single hs trivial

theorem State.TypedIn.widen {structs : Structs} {Γ : Context} {τ : Assignment} {s : State} {heap : Heap}
    (hs : s.TypedIn structs Γ τ) (hw : s.heap.widen structs (s.roots.map Prod.snd) = .ok heap) :
    ({ s with heap } : State).TypedIn structs Γ τ :=
  hs.withHeap (prefix_refl τ) (hs.heap.widen hw)

/-- A typed path goes on as typed paths. -/
theorem Frame.Typed.next {task : Task} {f f' : Frame} (hr : f.Ready task) (hf : f.Typed task)
    (h : f.Next task f') : f'.Typed task := by
  obtain ⟨Γ, τ, haccepts, hs⟩ := hf
  cases h with
  | @instr b span i s path hb hi h =>
    -- What is met in so many steps behind this point is met from here in one more.
    have hinstr (n : Nat) := (haccepts (n + 1)).1 span i ⟨b, hb, hi⟩
    obtain ⟨τ', -, ht, -⟩ := Exploration.perform_typed hr.state hs (hinstr 0).1 _ _ h
    exact ⟨_, τ', fun n => (hinstr n).2, ht.withPath path⟩
  | @exit b s target _ path hb hi h he =>
    have hexit (n : Nat) := (haccepts (n + 1)).2 b.exit ⟨b, hb, hi, rfl⟩
    have htarget : task.Accepts (.first target) Γ := fun n => (hexit n).2 target h.mem_targets
    have ht : ∃ τ', s.TypedIn task.structs Γ τ' := by
      generalize b.exit = exit at h hexit
      cases h with
      | goto => exact ⟨τ, hs⟩
      | branch h =>
        obtain ⟨τ', -, ht, -⟩ := Exploration.branch_typed hs (hexit 0).1 _ _ _ _ h
        exact ⟨τ', ht⟩
    obtain ⟨τ', ht⟩ := ht
    cases he with
    | block => exact ⟨Γ, τ', htarget, ht.withPath path⟩
    | head _ hw => exact ⟨Γ, τ', htarget, (ht.withPath path).widen hw⟩

/-! ### Explorations -/

/-- All paths that wait are typed, and none ended because of types. -/
structure Exploration.Typed (task : Task) (e : Exploration) : Prop where
  waiting : ∀ f ∈ e.waiting.toList, f.Typed task
  violations : ∀ v ∈ e.report.violations, ¬ v.defect.IsIllTyped

namespace Exploration.Typed

variable {task : Task} {e e' : Exploration} {n : Nat}

theorem step (hg : task.graph.Closed) (he : e.Typed task ∧ ∀ f ∈ e.waiting.toList, f.Ready task)
    (h : e.step task = .ok (some e')) :
    e'.Typed task ∧ ∀ f ∈ e'.waiting.toList, f.Ready task := by
  obtain ⟨f, waiting, next, hwait, -, hr⟩ := step_cases h
  have hmem : f ∈ e.waiting.toList := hwait ▸ mem_cons_self
  have hwaiting := waiting_step (P := fun f => f.Ready task ∧ f.Typed task)
    (fun _ _ hf hn => ⟨hf.1.next hg hn, hf.2.next hf.1 hn⟩)
    (fun f hf => ⟨he.2 f hf, he.1.waiting f hf⟩) h
  refine ⟨⟨fun f hf => (hwaiting f hf).2, fun v hv => ?_⟩, fun f hf => (hwaiting f hf).1⟩
  rcases hr.violations v hv with hv | hends
  · exact he.1.violations v hv
  · rcases hends with ⟨hb, hs, -⟩ | hd
    · obtain ⟨Γ, τ, houtcomes⟩ := (he.1.waiting f hmem).work (he.2 f hmem) hb
      obtain ⟨_, _, _, hd⟩ := houtcomes _ _ (mem_of_getElem? hs)
      exact hd
    · rw [hd]
      exact id

theorem run (hg : task.graph.Closed) (he : e.Typed task ∧ ∀ f ∈ e.waiting.toList, f.Ready task)
    (h : Exploration.run task n e = .ok e') :
    e'.Typed task ∧ ∀ f ∈ e'.waiting.toList, f.Ready task :=
  run_keeps (step hg) he h

theorem start (h : task.Accepts (.first FlowGraph.entry) []) : Exploration.start.Typed task :=
  ⟨waiting_start ⟨[], [], h, .initial 0⟩, fun _ hv => (Array.not_mem_empty _ hv).elim⟩

end Exploration.Typed

/-- A state that a check comes to: one in which a path waits, an outcome of the work on such a path,
    and what any of them is widened to. -/
inductive Task.Reaches (task : Task) : State → Prop
  | waiting {n : Nat} {e : Exploration} {f : Frame} (hrun : Exploration.run task n .start = .ok e)
      (hf : f ∈ e.waiting.toList) : Reaches task f.state
  | outcome {n : Nat} {e : Exploration} {f : Frame} {work : Work} {s : State} {r : Except Defect Move}
      (hrun : Exploration.run task n .start = .ok e) (hf : f ∈ e.waiting.toList)
      (hw : f.work? task = some work) (hs : (s, r) ∈ work.outcomes) : Reaches task s
  | widened {s : State} {heap : Heap} (hs : Reaches task s)
      (hw : s.heap.widen task.structs (s.roots.map Prod.snd) = .ok heap) : Reaches task { s with heap }

/-- All states that are come to from a typed start are typed. -/
theorem Task.Reaches.typed {task : Task} {s : State} (hg : task.graph.Closed)
    (hstart : Exploration.start.Typed task) (h : task.Reaches s) :
    ∃ Γ τ, s.TypedIn task.structs Γ τ := by
  have hstart := And.intro hstart (Exploration.ready_start hg)
  induction h with
  | waiting hrun hf =>
    obtain ⟨Γ, τ, -, hs⟩ := (Exploration.Typed.run hg hstart hrun).1.waiting _ hf
    exact ⟨Γ, τ, hs⟩
  | outcome hrun hf hw hs =>
    obtain ⟨b, hb, rfl⟩ := Option.map_eq_some_iff.1 hw
    obtain ⟨htyped, hready⟩ := Exploration.Typed.run hg hstart hrun
    obtain ⟨Γ, τ, houtcomes⟩ := (htyped.waiting _ hf).work (hready _ hf) hb
    obtain ⟨τ', -, ht, -⟩ := houtcomes _ _ hs
    exact ⟨Γ, τ', ht⟩
  | widened _ hw ih =>
    obtain ⟨Γ, τ, hs⟩ := ih
    exact ⟨Γ, τ, hs.widen hw⟩

/-- Execution preserves types. For every state that the check of a well typed program comes to, there
    is an assignment of structures to locations such that variables, fields and all that is known
    about locations agree with it. And the check has a report, in which no path ends because a scalar
    is followed, tested or freed or because a field is missing. -/
theorem Program.execution_preserves_types (p : Program) (hp : p.WellTyped) (config : Config) :
    (∀ s, Task.Reaches ⟨p.structs, .ofProgram p, config⟩ s → ∃ τ, s.Typed p.structs τ) ∧
    ∃ report, p.check config = .ok report ∧ ∀ v ∈ report.violations, ¬ v.defect.IsIllTyped := by
  let task : Task := ⟨p.structs, .ofProgram p, config⟩
  have hg : task.graph.Closed := FlowGraph.closed_ofProgram p
  have hstart : Exploration.start.Typed task := .start (FlowGraph.accepts_ofProgram hp)
  have hready := Exploration.ready_start hg
  refine ⟨fun s hs => ?_, ?_⟩
  · obtain ⟨Γ, τ, ht⟩ := hs.typed hg hstart
    exact ⟨τ, ht.toTyped⟩
  · obtain ⟨e, hrun⟩ := Exploration.exists_run hg task.bound hready
    exact ⟨e.finish, Task.explore_of_run hrun, (Exploration.Typed.run hg ⟨hstart, hready⟩ hrun).1.violations⟩

namespace Sample

/-- Trees with a number in each node. -/
def trees : Structs :=
  [⟨"tree", [⟨"l", .ptr ⟨0⟩⟩, ⟨"r", .ptr ⟨0⟩⟩, ⟨"p", .ptr ⟨0⟩⟩, ⟨"number", .int⟩]⟩]

/-- A program that takes the root off a tree, or plants one if there is none. -/
def pruning : Program :=
  ⟨trees, [.decl Span.none "x" (.ptr ⟨0⟩) none, .decl Span.none "up" (.ptr ⟨0⟩) none,
    .decl Span.none "n" .int none,
    .directive Span.none (.addInductive "x" .tree ⟨["up"], [], []⟩),
    .ite Span.none (.cmp false (.path ⟨"x", []⟩) .null)
      [.assign Span.none ⟨"n", []⟩ (.scalar [⟨"x", [⟨"number", 3⟩]⟩]),
       .assign Span.none ⟨"up", []⟩ (.path ⟨"x", []⟩),
       .assign Span.none ⟨"x", []⟩ (.path ⟨"x", [⟨"l", 0⟩]⟩),
       .free Span.none ⟨"up", []⟩]
      [.alloc Span.none ⟨"x", []⟩ ⟨0⟩,
       .assign Span.none ⟨"x", [⟨"p", 2⟩]⟩ (.path ⟨"up", []⟩)]]⟩

/-- The state behind its directive. -/
def planted : State :=
  ⟨0, ⟨.ofSlots [.occupied (.summary ⟨.tree, ⟨0⟩, ⟨[.ptr ⟨1⟩], []⟩, none⟩), .vacant], .empty⟩,
    ⟨[("n", ⟨.int, .int⟩), ("up", ⟨.ptr ⟨0⟩, .ptr ⟨1⟩⟩), ("x", ⟨.ptr ⟨0⟩, .ptr ⟨0⟩⟩)]⟩⟩

end Sample

theorem Program.execution_preserves_types_pruning : Sample.pruning.WellTyped ∧
    (∃ τ, Sample.planted.Typed Sample.trees τ) ∧
    ∃ report, Sample.pruning.check .standard = .ok report ∧
      ∀ v ∈ report.violations, ¬ v.defect.IsIllTyped := by
  have hp : Sample.pruning.WellTyped := by decide
  obtain ⟨hstates, hreport⟩ := Program.execution_preserves_types Sample.pruning hp .standard
  have hrun : Exploration.run ⟨Sample.trees, .ofProgram Sample.pruning, .standard⟩ 4 .start = .ok _ := rfl
  exact ⟨hp, hstates _ (.waiting hrun (.head _)), hreport⟩

end HeapShape
