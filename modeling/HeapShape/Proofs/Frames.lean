import HeapShape.Proofs.Work

/-!
# Paths that go on

A step of an exploration takes the path that waits longest and lets the paths wait that it goes on
as. This module says once what they are, and what is told.

* `Frame.Next`: a path goes on as another one, behind an instruction or at the start of a block;
* `Frame.Ends`: a path ends with a violation;
* `Exploration.step_cases`: a step replaces the path that waits longest by those that it goes on
  as, and all of them but one have new numbers;
* `Exploration.waiting_run`: what holds of the paths at the start, and of the paths that a path
  goes on as if it holds of the path itself, holds of all paths that wait, at any time.
-/

namespace HeapShape

open List

/-- After a condition a path goes on at one of the two targets, with what its side assumes. -/
theorem Exploration.mem_branch {structs : Structs} {c : Cond} {thenTarget elseTarget target : BlockId}
    {s s' : State} (h : (s', .ok target) ∈ branch structs c thenTarget elseTarget s) :
    target ∈ [thenTarget, elseTarget] ∧ ∃ truth, (s', .ok ()) ∈ Exec.assume structs c truth s := by
  have hside {truth : Bool} {side : BlockId}
      (h : (s', .ok target) ∈ (Exec.assume structs c truth >>= fun _ => pure side) s) :
      target = side ∧ (s', .ok ()) ∈ Exec.assume structs c truth s := by
    rcases Exec.mem_bind.1 h with ⟨s₁, _, hs₁, hp⟩ | ⟨d, -, hd⟩
    · cases mem_singleton.1 hp
      exact ⟨rfl, hs₁⟩
    · cases hd
  rcases mem_append.1 h with h | h
  · exact ⟨(hside h).1 ▸ mem_cons_self, true, (hside h).2⟩
  · exact ⟨(hside h).1 ▸ mem_cons_of_mem _ (mem_singleton_self _), false, (hside h).2⟩

namespace Frame

/-- A path comes to a block: as it is, or widened if it brings a new shape to the head of a loop. -/
inductive Entry (task : Task) (recorded : List BlockId) (target : BlockId) (s : State) : Frame → Prop
  | block (hb : task.graph.isLoopHead target = false) :
      Entry task recorded target s ⟨target, 0, s, recorded⟩
  | head {heap : Heap} (hh : task.graph.isLoopHead target = true)
      (hw : s.heap.widen task.structs (s.roots.map Prod.snd) = .ok heap)
      (hc : recorded.count target < task.config.maxLoopShapes) :
      Entry task recorded target s ⟨target, 0, { s with heap }, target :: recorded⟩

/-- An exit leads a path to a block. -/
inductive Exits (task : Task) (f : Frame) : Exit → State → BlockId → Prop
  | goto {target : BlockId} : Exits task f (.goto target) f.state target
  | branch {span : Span} {c : Cond} {thenTarget elseTarget target : BlockId} {s : State}
      (h : (s, .ok target) ∈ Exploration.branch task.structs c thenTarget elseTarget f.state) :
      Exits task f (.branch span c thenTarget elseTarget) s target

/-- A path goes on as another one, which may have another number. -/
inductive Next (task : Task) (f : Frame) : Frame → Prop
  | instr {b : Block} {span : Span} {i : Instr} {s : State} (path : PathId)
      (hb : task.graph.blocks[f.block]? = some b) (hi : b.instrs[f.index]? = some (span, i))
      (h : (s, .ok ()) ∈ (Exploration.perform task i f.state).2) :
      Next task f { f with index := f.index + 1, state := { s with path } }
  | exit {b : Block} {s : State} {target : BlockId} {f' : Frame} (path : PathId)
      (hb : task.graph.blocks[f.block]? = some b) (hi : b.instrs[f.index]? = none)
      (h : f.Exits task b.exit s target) (he : Entry task f.recorded target { s with path } f') :
      Next task f f'

/-- A path ends with a violation: with a defect that the work on it comes to, where the first
    outcome keeps its number, or because it brings too many shapes to the head of a loop. -/
inductive Ends (task : Task) (f : Frame) : Violation → Prop
  | outcome {b : Block} {i : Nat} {s : State} {d : Defect} {path : PathId}
      (hb : task.graph.blocks[f.block]? = some b)
      (hs : (f.workIn task b).outcomes[i]? = some (s, .error d)) (hp : i = 0 → path = s.path) :
      Ends task f ⟨path, (f.workIn task b).span, d⟩
  | bound {v : Violation} {n : Nat} (h : v.defect = .loopBound n) : Ends task f v

theorem Exits.mem_targets {task : Task} {f : Frame} {exit : Exit} {s : State} {target : BlockId}
    (h : f.Exits task exit s target) : target ∈ exit.targets := by
  cases h with
  | goto => exact mem_singleton_self target
  | branch h => exact (Exploration.mem_branch h).1

end Frame

namespace Exploration

variable {task : Task} {e e' e'' : Exploration} {f : Frame} {s s' : State} {span : Span}
  {P : Frame → Prop} {V : Violation → Prop} {m n : Nat} {α : Type}

/-- A path keeps all but its number when it is numbered anew, and the first one keeps that too. -/
theorem mem_relabel {outcomes : Outcomes α} {r : Except Defect α} (h : (s', r) ∈ (e.relabel outcomes).1) :
    ∃ i s, outcomes[i]? = some (s, r) ∧ s' = { s with path := s'.path } ∧ (i = 0 → s' = s) := by
  obtain ⟨i, hi⟩ := mem_iff_getElem?.1 h
  rw [relabel, getElem?_mapIdx] at hi
  obtain ⟨⟨s, r'⟩, hget, heq⟩ := Option.map_eq_some_iff.1 hi
  obtain ⟨hs, rfl⟩ := Prod.mk.inj heq
  refine ⟨i, s, hget, ?_, fun hzero => ?_⟩
  · rw [← hs]
    split <;> rfl
  · rw [← hs, if_pos hzero]

theorem mem_of_mem_relabel {outcomes : Outcomes α} {r : Except Defect α}
    (h : (s, r) ∈ (e.relabel outcomes).1) :
    ∃ s', (s', r) ∈ outcomes ∧ s = { s' with path := s.path } := by
  obtain ⟨i, s', hget, hsame, -⟩ := mem_relabel h
  exact ⟨s', mem_of_getElem? hget, hsame⟩

theorem tell_keeps (e : Exploration) (v : Option Verdict) : (e.tell v).waiting = e.waiting ∧
    (e.tell v).nextPath = e.nextPath ∧ (e.tell v).report.violations = e.report.violations := by
  rcases v with _ | v <;> exact ⟨rfl, rfl, rfl⟩

theorem mem_verdicts_tell {v : Option Verdict} {w : Verdict} :
    w ∈ (e.tell v).report.verdicts ↔ w ∈ e.report.verdicts ∨ v = some w := by
  rcases v with _ | v
  · exact (or_iff_left nofun).symm
  · exact Array.mem_push.trans (or_congr_right (eq_comm.trans Option.some_inj.symm))

/-- Up to so many paths are added to those that wait, and some violations are told. -/
structure Adds (P : Frame → Prop) (V : Violation → Prop) (n : Nat) (e e' : Exploration) : Prop where
  waiting : ∃ fs, e'.waiting.toList = e.waiting.toList ++ fs ∧ fs.length ≤ n ∧ ∀ f ∈ fs, P f
  violations : ∀ v ∈ e'.report.violations, v ∈ e.report.violations ∨ V v
  verdicts : e'.report.verdicts = e.report.verdicts
  nextPath : e'.nextPath = e.nextPath

namespace Adds

/-- No path is added. -/
theorem none (hw : e'.waiting = e.waiting)
    (hv : ∀ v ∈ e'.report.violations, v ∈ e.report.violations ∨ V v)
    (hr : e'.report.verdicts = e.report.verdicts) (hn : e'.nextPath = e.nextPath) : Adds P V n e e' :=
  ⟨⟨[], by rw [hw, append_nil], Nat.zero_le n, fun _ hf => (not_mem_nil hf).elim⟩, hv, hr, hn⟩

theorem push (e : Exploration) (hf : P f) : Adds P V 1 e (e.push f) :=
  ⟨⟨[f], Queue.toList_push .., Nat.le_refl 1, fun _ hf' => mem_singleton.1 hf' ▸ hf⟩,
    fun _ => .inl, rfl, rfl⟩

theorem fail {d : Defect} (e : Exploration) (hv : V ⟨s.path, span, d⟩) :
    Adds P V n e (e.fail s span d) :=
  .none rfl (fun _ hw => (Array.mem_push.1 hw).imp_right fun he => by rw [he]; exact hv) rfl rfl

theorem trans (h : Adds P V m e e') (h' : Adds P V n e' e'') : Adds P V (m + n) e e'' := by
  obtain ⟨fs, hw, hlen, hP⟩ := h.waiting
  obtain ⟨fs', hw', hlen', hP'⟩ := h'.waiting
  refine ⟨⟨fs ++ fs', by rw [hw', hw, append_assoc], ?_, fun f hf => ?_⟩, fun v hv => ?_,
    h'.verdicts.trans h.verdicts, h'.nextPath.trans h.nextPath⟩
  · rw [length_append]
    exact Nat.add_le_add hlen hlen'
  · exact (mem_append.1 hf).elim (hP f) (hP' f)
  · exact (h'.violations v hv).elim (h.violations v) .inr

theorem mono {P' : Frame → Prop} {V' : Violation → Prop} (h : Adds P V n e e') (hP : ∀ f, P f → P' f)
    (hV : ∀ v, V v → V' v) : Adds P' V' n e e' := by
  obtain ⟨fs, hw, hlen, hfs⟩ := h.waiting
  exact ⟨⟨fs, hw, hlen, fun f hf => hP f (hfs f hf)⟩, fun v hv => (h.violations v hv).imp_right (hV v),
    h.verdicts, h.nextPath⟩

end Adds

theorem adds_settle {go : Exploration → State → α → Except Misuse Exploration} {outcomes : Outcomes α}
    (hgo : ∀ e s a e', (s, .ok a) ∈ outcomes → go e s a = .ok e' → Adds P V 1 e e')
    (hfail : ∀ s d, (s, .error d) ∈ outcomes → V ⟨s.path, span, d⟩)
    (h : settle span go e outcomes = .ok e') : Adds P V outcomes.length e e' := by
  induction outcomes generalizing e with
  | nil =>
    obtain rfl := Except.ok.inj h
    exact .none rfl (fun _ => .inl) rfl rfl
  | cons o rest ih =>
    have hrest {e : Exploration} (h : settle span go e rest = .ok e') : Adds P V rest.length e e' :=
      ih (fun e s a e' hmem => hgo e s a e' (mem_cons_of_mem _ hmem))
        (fun s d hmem => hfail s d (mem_cons_of_mem _ hmem)) h
    rw [length_cons, Nat.add_comm]
    obtain ⟨s, d | a⟩ := o
    · have hfailed : Adds P V 1 e (e.fail s span d) := .fail e (hfail s d mem_cons_self)
      cases d with
      | misuse m => cases h
      | _ => exact hfailed.trans (hrest h)
    · obtain ⟨e₁, hgo₁, h⟩ := ok_of_bind h
      exact (hgo e s a e₁ mem_cons_self hgo₁).trans (hrest h)

/-- A path that comes to a block waits there, or ends. -/
theorem adds_enter {recorded : List BlockId} {target : BlockId}
    (h : e.enter task recorded target s = .ok e') :
    Adds (Frame.Entry task recorded target s) (fun v => ∃ n, v.defect = .loopBound n) 1 e e' := by
  rw [enter] at h
  split at h
  · rename_i hhead
    obtain ⟨heap, hw, h⟩ := ok_of_bind h
    obtain rfl := Except.ok.inj h
    rw [arrive]
    split
    · exact .none rfl (fun _ => .inl) rfl rfl
    · split
      · exact .fail e ⟨_, rfl⟩
      · rename_i hc
        obtain ⟨hwaiting, hviolations, hverdicts, hnext⟩ := Adds.push
          ({ e with seen := (target, ({ s with heap } : State).shape) :: e.seen } : Exploration)
          (Frame.Entry.head hhead hw (Nat.lt_of_not_le hc))
        exact ⟨hwaiting, hviolations, hverdicts, hnext⟩
  · rename_i hblock
    obtain rfl := Except.ok.inj h
    exact .push e (.block (Bool.eq_false_iff.2 hblock))

/-- An outcome of the work on a path waits as what the path goes on as, or ends. -/
theorem adds_follow {b : Block} {move : Move} {path : PathId} (hb : task.graph.blocks[f.block]? = some b)
    (hs : (s, .ok move) ∈ (f.workIn task b).outcomes)
    (h : follow task f e { s with path } move = .ok e') : Adds (f.Next task) (f.Ends task) 1 e e' := by
  rw [Frame.workIn] at hs
  split at hs
  · obtain ⟨⟨⟩, hmem, rfl⟩ := Outcomes.exists_of_mem_mapResult hs
    obtain rfl := Except.ok.inj h
    exact .push e (.instr path hb ‹_› hmem)
  · rename_i hi
    have hjump {target : BlockId} (hx : f.Exits task b.exit s target) (hm : move = .jump target) :
        Adds (f.Next task) (f.Ends task) 1 e e' := by
      subst hm
      refine (adds_enter h).mono (fun _ => .exit path hb hi hx) fun _ hv => ?_
      obtain ⟨_, hd⟩ := hv
      exact .bound hd
    rcases hexit : b.exit with target | ⟨span, c, thenTarget, elseTarget⟩ | _ <;>
      rw [hexit] at hs hjump
    · cases mem_singleton.1 hs
      exact hjump .goto rfl
    · obtain ⟨target, hmem, rfl⟩ := Outcomes.exists_of_mem_mapResult hs
      exact hjump (.branch hmem) rfl
    · cases mem_singleton.1 hs
      obtain rfl := Except.ok.inj h
      exact .none rfl (fun _ => .inl) rfl rfl

/-- A path is replaced by those that it goes on as, and all of them but one have new numbers. It is
    told how it ends, and what the work on it finds. -/
structure Replaces (task : Task) (f : Frame) (next : List Frame) (e e' : Exploration) : Prop where
  waiting : e'.waiting.toList = e.waiting.toList ++ next
  goesOn : ∀ f' ∈ next, f.Next task f'
  le : e.nextPath ≤ e'.nextPath
  length : e.nextPath + next.length ≤ e'.nextPath + 1
  violations : ∀ v ∈ e'.report.violations, v ∈ e.report.violations ∨ f.Ends task v
  verdicts : ∃ b, task.graph.blocks[f.block]? = some b ∧ ∀ w, w ∈ e'.report.verdicts ↔
    w ∈ e.report.verdicts ∨ (f.workIn task b).verdict = some w

theorem replaces_resume (h : resume e task f = .ok e') : ∃ next, Replaces task f next e e' := by
  rcases hb : task.graph.blocks[f.block]? with _ | b
  · rw [resume, hb] at h
    cases h
  · rw [resume_eq hb] at h
    have hlength (e : Exploration) : (e.relabel (f.workIn task b).outcomes).1.length =
        (f.workIn task b).outcomes.length := length_mapIdx
    have hadds := adds_settle (P := f.Next task) (V := f.Ends task) (fun e₁ s move e₂ hmem hok => ?_)
      (fun s d hmem => ?_) h
    · obtain ⟨⟨next, hwait, hlen, hnext⟩, hviolations, hverdicts, hpath⟩ := hadds
      obtain ⟨hwaiting, hnumber, hreport⟩ := e.tell_keeps (f.workIn task b).verdict
      rw [hlength] at hlen
      have hpath : e'.nextPath = e.nextPath + ((f.workIn task b).outcomes.length - 1) := hnumber ▸ hpath
      refine ⟨next, hwaiting ▸ hwait, hnext, ?_, ?_, hreport ▸ hviolations, b, hb, fun w => ?_⟩
      · exact hpath ▸ Nat.le_add_right ..
      · rw [hpath, Nat.add_assoc]
        exact Nat.add_le_add_left (by omega) e.nextPath
      · rw [hverdicts]
        exact mem_verdicts_tell
    · obtain ⟨s', hs', heq⟩ := mem_of_mem_relabel hmem
      rw [heq] at hok
      exact adds_follow hb hs' hok
    · obtain ⟨i, s', hget, -, hfirst⟩ := mem_relabel hmem
      exact .outcome hb hget fun hzero => by rw [hfirst hzero]

/-- What a step does: it replaces the path that waits longest. -/
theorem step_cases (h : e.step task = .ok (some e')) :
    ∃ f waiting next, e.waiting.toList = f :: waiting.toList ∧ e.nextPath ≤ task.config.maxPaths ∧
      Replaces task f next { e with waiting } e' := by
  rw [step] at h
  split at h
  · cases h
  · rename_i f waiting hpop
    split at h
    · cases h
    · rename_i hmax
      obtain ⟨e₁, hresume, heq⟩ := ok_of_map h
      obtain rfl := Option.some.inj heq
      obtain ⟨next, hnext⟩ := replaces_resume hresume
      exact ⟨f, waiting, next, Queue.toList_of_pop? hpop, Nat.le_of_not_lt hmax, hnext⟩

theorem waiting_step (hnext : ∀ f f', P f → f.Next task f' → P f') (he : ∀ f ∈ e.waiting.toList, P f)
    (h : e.step task = .ok (some e')) : ∀ f ∈ e'.waiting.toList, P f := by
  obtain ⟨f, waiting, next, hwait, -, hr⟩ := step_cases h
  rw [hwait] at he
  rw [hr.waiting]
  intro f' hf'
  rcases mem_append.1 hf' with hf' | hf'
  · exact he f' (mem_cons_of_mem f hf')
  · exact hnext f f' (he f mem_cons_self) (hr.goesOn f' hf')

/-- What every step keeps, a whole run keeps. -/
theorem run_keeps {I : Exploration → Prop} (hstep : ∀ {e e'}, I e → e.step task = .ok (some e') → I e')
    (h : I e) (hrun : run task n e = .ok e') : I e' := by
  induction n generalizing e with
  | zero =>
    obtain rfl := Except.ok.inj hrun
    exact h
  | succ n ih =>
    obtain ⟨next, hnext, hrun⟩ := ok_of_bind hrun
    rcases next with _ | e₁
    · obtain rfl := Except.ok.inj hrun
      exact h
    · exact ih (hstep h hnext) hrun

/-- What paths keep holds of all paths that wait. -/
theorem waiting_run (hnext : ∀ f f', P f → f.Next task f' → P f') (he : ∀ f ∈ e.waiting.toList, P f)
    (h : run task n e = .ok e') : ∀ f ∈ e'.waiting.toList, P f :=
  run_keeps (I := fun e => ∀ f ∈ e.waiting.toList, P f) (waiting_step hnext) he h

/-- At the start there is one path, at the entry. -/
theorem waiting_start (h : P ⟨FlowGraph.entry, 0, State.initial 0, []⟩) :
    ∀ f ∈ Exploration.start.waiting.toList, P f :=
  forall_mem_singleton.2 h

end Exploration

end HeapShape
