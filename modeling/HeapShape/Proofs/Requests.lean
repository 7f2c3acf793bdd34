import HeapShape.Proofs.Retention
import HeapShape.Proofs.Scoping

/-!
# Requests that are granted

A check looks up slots of a heap, structures, fields of cells, blocks and set variables by their
numbers, and it fills slots that have to be vacant. No check ever asks for what is not there.

* `Heap.Orderly`: where an operation writes to a heap without a request, the request that the
  write stands for would be granted, with the same result;
* `Frame.Ready`: a path waits at a block that exists, in a sound state. The locations that
  expressions evaluate to there were given out (`Frame.Ready.entry`). What a path goes on as is
  ready, too (`Frame.Ready.next`), and a step on a path that is ready finds all it asks for
  (`Exploration.exists_step`);
* `Program.check_never_misuses`: every check of every program has a report.
-/

namespace HeapShape

/-! ### Writes that stand for requests -/

namespace Heap

variable {structs : Structs} {h h' : Heap} {loc : Loc} {f : Fact} {pred : Predicate}
  {params : Option Params} {stops : List Loc} {s : Summary}

variable (hk : h.slot loc = .occupied f)
include hk

theorem entry_of_occupied : h.arena.entry loc.index = .ok (.occupied f) :=
  (if_pos (lt_size_of_occupied hk)).trans (congrArg _ hk)

theorem take_of_occupied : h.take loc = .ok (some f, h.write loc .vacant) := by
  rw [take, Arena.take, entry_of_occupied hk]
  rfl

theorem release_of_occupied : h.release loc = .ok (some f, h.write loc .tombstone) := by
  rw [release, Arena.release, entry_of_occupied hk]
  rfl

omit hk in
/-- The location of a new cell can be filled when the locations of its fields are given out. -/
theorem put_allocCell (h : Heap) (ty : StructId) (decl : StructDecl) :
    (h.fresh.2.grow (decl.fields.map unknownField)).2.put h.fresh.1
      (.cell ⟨ty, (h.fresh.2.grow (decl.fields.map unknownField)).1⟩) = .ok (h.allocCell ty decl).2 := by
  have hlt : h.fresh.1.index < h.fresh.2.size := by
    rw [size_fresh]
    exact Nat.lt_succ_self h.size
  refine State.put_of_vacant (hlt.trans_le (size_le_grow _ _)) ?_ _
  rw [slot_grow_of_lt hlt, slot_fresh]
  exact slot_of_size_le (Nat.le_refl h.size)

/-- The fields of the cell that a summary becomes do not depend on the summary. -/
theorem grow_vacated (sets : SetStore) (cs : List Content) : { h.write loc .vacant with sets }.grow cs =
      (({ h with sets }.grow cs).1, ({ h with sets }.grow cs).2.write loc .vacant) :=
  grow_write (h := { h with sets }) (lt_size_of_occupied hk) .vacant cs

/-- The location of a summary that was taken can be filled with a cell when the locations of its
    fields are given out. -/
theorem put_unfolded (sets : SetStore) (cs : List Content) (c : Cell) :
    ({ h.write loc .vacant with sets }.grow cs).2.put loc (.cell c) =
      .ok (({ h with sets }.grow cs).2.write loc (.occupied (.cell c))) := by
  have hlt : loc.index < ({ h with sets } : Heap).size := lt_size_of_occupied hk
  rw [grow_vacated hk, State.put_of_vacant, write_write]
  · rw [size_write]
    exact hlt.trans_le (size_le_grow _ _)
  · rw [slot_write_vacant, if_pos rfl]

end Heap

/-- Slots are emptied only. -/
structure Heap.Empties (h h' : Heap) : Prop where
  size : h'.size = h.size
  vacant : ∀ k, h.slot k = .vacant → h'.slot k = .vacant

theorem Heap.Empties.refl (h : Heap) : h.Empties h := ⟨rfl, fun _ hk => hk⟩

theorem Heap.Empties.trans {h h' h'' : Heap} (hh : h.Empties h') (hh' : h'.Empties h'') :
    h.Empties h'' :=
  ⟨hh'.size.trans hh.size, fun k hk => hh'.vacant k (hh.vacant k hk)⟩

namespace Folding

variable {cfg : Setting} {st st' : Folding} {new goals : List Goal}

theorem empties_enter {loc : Loc} {pred : Predicate} {ty : StructId} {params : Params}
    (h : st.enter cfg loc pred ty params = .ok (st', new)) :
    st.heap.Empties st'.heap ∧ st'.heap.slot loc = .vacant := by
  obtain ⟨f, sets, -, -, -, hst⟩ := enter_eq_ok h
  have hslot (k : Loc) : st'.heap.slot k = if k = loc then .vacant else st.heap.slot k := by
    rw [hst]
    exact Heap.slot_write_vacant ..
  refine ⟨⟨?_, fun k hk => ?_⟩, ?_⟩
  · rw [hst]
    exact Heap.size_write _
  · rw [hslot, hk, ite_self]
  · rw [hslot, if_pos rfl]

theorem empties_visit {goal : Goal} (h : st.visit cfg goal = .ok (st', new)) :
    st.heap.Empties st'.heap := by
  cases steps_of_visit h with
  | ref => exact ⟨rfl, fun _ hk => hk⟩
  | null => exact ⟨rfl, fun _ hk => hk⟩
  | stop => exact .refl _
  | enter he => exact (empties_enter he).1

theorem empties_absorb (h : st.absorb cfg goals = .ok st') : st.heap.Empties st'.heap :=
  absorb_keeps (I := fun s => st.heap.Empties s.heap) (G := fun _ => True)
    (fun hs _ hv => ⟨hs.trans (empties_visit hv), fun _ _ => trivial⟩) (.refl _) (fun _ _ => trivial) h

end Folding

namespace Heap

variable {structs : Structs} {h h' : Heap} {loc : Loc} {pred : Predicate}
  {params : Option Params} {stops : List Loc} {s : Summary}

/-- The root of a structure that was taken can be filled with its summary. -/
theorem put_gathered (hg : h.gather structs loc pred params stops = .ok (s, h')) :
    h'.put loc (.summary s) = .ok (h'.write loc (.occupied (.summary s))) := by
  obtain ⟨ty, layout, p, sets, st₁, goals, st, -, -, -, -, he, ha, rfl, -⟩ := gather_steps hg
  obtain ⟨f, _, -, hroot, -⟩ := Folding.enter_eq_ok he
  obtain ⟨hentered, hvacant⟩ := Folding.empties_enter he
  have habsorbed := Folding.empties_absorb ha
  refine State.put_of_vacant ?_ (habsorbed.vacant loc hvacant) _
  rw [habsorbed.size, hentered.size]
  exact lt_size_of_occupied hroot

/-- Where an operation writes to a heap, the request that the write stands for is granted with
    the same result. Where it looks up the structure and the fields of a layout, they exist. -/
structure Orderly (structs : Structs) : Prop where
  take : ∀ (h : Heap) (loc : Loc) (f : Fact), h.slot loc = .occupied f →
    h.take loc = .ok (some f, h.write loc .vacant)
  release : ∀ (h : Heap) (loc : Loc) (f : Fact), h.slot loc = .occupied f →
    h.release loc = .ok (some f, h.write loc .tombstone)
  alloc : ∀ (h : Heap) (ty : StructId) (decl : StructDecl),
    let grown := h.fresh.2.grow (decl.fields.map unknownField)
    grown.2.put h.fresh.1 (.cell ⟨ty, grown.1⟩) = .ok (h.allocCell ty decl).2
  unfold : ∀ (h : Heap) (loc : Loc) (s : Summary) (decl : StructDecl) (layout : Layout)
    (way : Option Nat) (sets : SetStore) (step : Step), h.slot loc = .occupied (.summary s) →
    s.pred.step loc s.params h.sets = (sets, some step) →
    let grown := { h.write loc .vacant with sets }.grow (decl.fields.mapIdx (s.content layout step way))
    ∃ unfolded, h.unfoldCase loc s decl layout way = some unfolded ∧
      grown.2.put loc (.cell ⟨s.ty, grown.1⟩) = .ok unfolded
  fold : ∀ (h h' : Heap) (loc : Loc) (pred : Predicate) (params : Option Params) (stops : List Loc)
    (s : Summary), h.gather structs loc pred params stops = .ok (s, h') →
    h'.put loc (.summary s) = .ok (h'.write loc (.occupied (.summary s)))
  layout : ∀ (pred : Predicate) (ty : StructId) (layout : Layout),
    pred.layout? structs ty = some layout → ∃ decl, structs.decl? ty = some decl ∧ layout.Fits decl ty

theorem orderly (structs : Structs) : Orderly structs where
  take _ _ _ := take_of_occupied
  release _ _ _ := release_of_occupied
  alloc := put_allocCell
  unfold h loc s decl layout way sets step hk hstep := by
    refine ⟨_, ?_, put_unfolded hk sets _ _⟩
    rw [unfoldCase, hstep, grow_vacated hk]
    rfl
  fold _ _ _ _ _ _ _ := put_gathered
  layout pred ty layout hl := Predicate.fits_of_layout hl

end Heap

/-! ### Flow graphs -/

/-- There is an entry, and every exit leads to a block. -/
structure FlowGraph.Closed (g : FlowGraph) : Prop where
  entry : entry < g.blocks.length
  targets : ∀ (id : BlockId) b, g.blocks[id]? = some b →
    ∀ target ∈ b.exit.targets, target < g.blocks.length

theorem FlowGraph.closed_ofProgram (p : Program) : (ofProgram p).Closed := by
  obtain ⟨start, hfits⟩ := fits_ofProgram p
  refine ⟨?_, fun id b hb target ht => ((hfits.blocks id b hb).targets target ht).1⟩
  have hsize : (ofProgram p).blocks.length = (Draft.empty.body p.body).size := List.length_modify ..
  rw [hsize]
  exact (Draft.extends_body Draft.empty p.body).size

/-! ### Paths -/

/-- A path waits at a block that exists, in a sound state. -/
structure Frame.Ready (task : Task) (f : Frame) : Prop where
  block : f.block < task.graph.blocks.length
  state : f.state.Sound task.structs fun _ => False

section

variable {task : Task} {f f' : Frame} {s : State}

/-- A location that an expression evaluates to was given out. -/
theorem Frame.Ready.entry {x : Expr} {loc : Loc} (hf : f.Ready task)
    (h : (s, .ok (.ptr loc)) ∈ Exec.eval task.structs x f.state) :
    s.heap.arena.entry loc.index = .ok (s.heap.slot loc) := by
  have husable := (Exec.eval_gives (w := .none) hf.state x _ _ h).2
  exact if_pos (Heap.usable_ptr.1 husable).1

theorem Frame.Exits.sound {exit : Exit} {target : BlockId} (h : f.Exits task exit s target)
    (hs : f.state.Sound task.structs fun _ => False) : s.Sound task.structs fun _ => False := by
  cases h with
  | goto => exact hs
  | branch h => exact (Exploration.branch_ensures hs _ _ _ _ _ h).sound

theorem Frame.Ready.next (hg : task.graph.Closed) (hf : f.Ready task) (h : f.Next task f') :
    f'.Ready task := by
  cases h with
  | instr path hb hi h =>
    have hs := (Exploration.perform_each hf.state _ _ _ h).1
    exact ⟨hf.block, hs.heap, hs.vars⟩
  | @exit b s target _ path hb hi h he =>
    have htarget := hg.targets f.block b hb target h.mem_targets
    have hs : ({ s with path } : State).Sound task.structs fun _ => False :=
      ⟨(h.sound hf.state).heap, (h.sound hf.state).vars⟩
    cases he with
    | block => exact ⟨htarget, hs⟩
    | head _ hw _ =>
      obtain ⟨heap, hok, hsound⟩ := hs.widen
      cases hw.symm.trans hok
      exact ⟨htarget, hsound⟩

end

namespace Exploration

variable {task : Task} {e : Exploration} {f : Frame} {s : State} {span : Span}

theorem exists_settle {α : Type} {go : Exploration → State → α → Except Misuse Exploration}
    {outcomes : Outcomes α} {P : State → α → Prop} (ho : Exec.Each P outcomes)
    (hgo : ∀ e s a, P s a → ∃ e', go e s a = .ok e') : ∃ e', settle span go e outcomes = .ok e' := by
  induction outcomes generalizing e with
  | nil => exact ⟨e, rfl⟩
  | cons o rest ih =>
    have hrest (e : Exploration) : ∃ e', settle span go e rest = .ok e' :=
      ih fun s r hr => ho s r (List.mem_cons_of_mem _ hr)
    obtain ⟨s, d | a⟩ := o
    · have hd := ho s _ List.mem_cons_self
      cases d with
      | misuse m => exact (hd m rfl).elim
      | _ => exact hrest (e.fail s span _)
    · obtain ⟨e₁, hok⟩ := hgo e s a (ho s _ List.mem_cons_self)
      obtain ⟨e', hsettle⟩ := hrest e₁
      refine ⟨e', ?_⟩
      rw [settle, hok]
      exact hsettle

theorem each_relabel {α : Type} {outcomes : Outcomes α}
    (ho : Exec.Each (fun s _ => s.Sound task.structs fun _ => False) outcomes) :
    Exec.Each (fun s _ => s.Sound task.structs fun _ => False) (e.relabel outcomes).1 := by
  intro s r hr
  obtain ⟨s', hs', heq⟩ := mem_of_mem_relabel hr
  have h := ho s' r hs'
  cases r with
  | ok a =>
    rw [heq]
    exact ⟨h.heap, h.vars⟩
  | error d => exact h

theorem exists_advance (hs : f.state.Sound task.structs fun _ => False) (i : Instr) :
    ∃ e', e.advance task f span i = .ok e' := by
  have hperform : Exec.Each (fun s _ => s.Sound task.structs fun _ => False) (perform task i f.state).2 :=
    (perform_each hs i).mono fun _ _ h => h.1
  exact exists_settle (each_relabel hperform) fun _ _ _ _ => ⟨_, rfl⟩

theorem exists_enter (hs : s.Sound task.structs fun _ => False) (recorded : List BlockId)
    (target : BlockId) : ∃ e', e.enter task recorded target s = .ok e' := by
  rw [enter]
  split
  · obtain ⟨heap, hok, -⟩ := hs.widen
    exact ⟨_, by rw [hok]; rfl⟩
  · exact ⟨_, rfl⟩

theorem exists_leave (hs : f.state.Sound task.structs fun _ => False) (exit : Exit) :
    ∃ e', e.leave task f exit = .ok e' := by
  rcases exit with target | ⟨span, c, thenTarget, elseTarget⟩ | _
  · exact exists_enter hs _ _
  · have hbranch := branch_ensures hs c thenTarget elseTarget
    exact exists_settle (each_relabel fun s r hr => hbranch.mono (fun _ _ h => h.sound) s r hr)
      fun e s target hs => exists_enter hs _ _
  · exact ⟨_, rfl⟩

/-- A step on paths that are ready finds all it asks for. -/
theorem exists_step (he : ∀ f ∈ e.waiting.toList, f.Ready task) : ∃ next, e.step task = .ok next := by
  rw [step]
  split
  · exact ⟨none, rfl⟩
  · rename_i f waiting hpop
    have hf : f.Ready task := by
      refine he f ?_
      rw [Queue.toList_of_pop? hpop]
      exact List.mem_cons_self
    split
    · exact ⟨none, rfl⟩
    · have hresume : ∃ e', resume { e with waiting } task f = .ok e' := by
        rw [resume, List.getElem?_eq_getElem hf.block]
        dsimp only
        split
        · exact exists_advance hf.state _
        · exact exists_leave hf.state _
      obtain ⟨e', hok⟩ := hresume
      exact ⟨some e', by rw [hok]; rfl⟩

theorem exists_run (hg : task.graph.Closed) (n : Nat) (he : ∀ f ∈ e.waiting.toList, f.Ready task) :
    ∃ e', run task n e = .ok e' := by
  induction n generalizing e with
  | zero => exact ⟨e, rfl⟩
  | succ n ih =>
    obtain ⟨next, hstep⟩ := exists_step he
    rw [run, hstep]
    cases next with
    | none => exact ⟨e, rfl⟩
    | some e₁ => exact ih (waiting_step (fun _ _ => Frame.Ready.next hg) he hstep)

theorem ready_start (hg : task.graph.Closed) : ∀ f ∈ Exploration.start.waiting.toList, f.Ready task :=
  waiting_start ⟨hg.entry, State.sound_initial 0⟩

theorem waiting_of_not_truncated (h : e.finish.stats.truncated = false) : e.waiting.toList = [] :=
  Queue.pop?_eq_none.1 (Option.isNone_iff_eq_none.1 (Option.isSome_eq_false_iff.1 h))

end Exploration

theorem Task.explore_of_run {task : Task} {e : Exploration}
    (h : Exploration.run task task.bound .start = .ok e) : task.explore = .ok e.finish := by
  rw [explore, h]
  rfl

/-- No check misuses a table. Every check has a report, however many paths and shapes it allows.
    At any time its paths wait at blocks that exist, in sound states, and what an expression
    evaluates to there was given out. And what an operation writes to a heap without a request
    would be granted to a request. -/
theorem Program.check_never_misuses (p : Program) (config : Config) :
    (∃ report, p.check config = .ok report) ∧
    (∀ n, ∃ e, Exploration.run ⟨p.structs, .ofProgram p, config⟩ n .start = .ok e ∧
      ∀ f ∈ e.waiting.toList, f.Ready ⟨p.structs, .ofProgram p, config⟩ ∧
        ∀ x s loc, (s, .ok (.ptr loc)) ∈ Exec.eval p.structs x f.state →
          s.heap.arena.entry loc.index = .ok (s.heap.slot loc)) ∧
    Heap.Orderly p.structs := by
  have hg := FlowGraph.closed_ofProgram p
  have hstart : ∀ f ∈ Exploration.start.waiting.toList, f.Ready ⟨p.structs, .ofProgram p, config⟩ :=
    Exploration.ready_start hg
  refine ⟨?_, fun n => ?_, Heap.orderly p.structs⟩
  · obtain ⟨e, hrun⟩ := Exploration.exists_run hg (Task.bound ⟨p.structs, .ofProgram p, config⟩) hstart
    exact ⟨e.finish, Task.explore_of_run hrun⟩
  · obtain ⟨e, hrun⟩ := Exploration.exists_run hg n hstart
    have hready := Exploration.waiting_run (fun _ _ => Frame.Ready.next hg) hstart hrun
    exact ⟨e, hrun, fun f hf => ⟨hready f hf, fun x s loc => (hready f hf).entry⟩⟩

namespace Sample

/-- A program that allocates a structure that it does not declare. -/
def undeclared : Program :=
  ⟨nodes, [.decl Span.none "x" (.ptr ⟨7⟩) none, .alloc Span.none ⟨"x", []⟩ ⟨7⟩]⟩

/-- The state behind its first statement. -/
def declared : State := ⟨0, ⟨.ofSlots [.vacant], .empty⟩, ⟨[("x", ⟨.ptr ⟨7⟩, .ptr ⟨0⟩⟩)]⟩⟩

end Sample

theorem Program.check_never_misuses_undeclared :
    let task : Task := ⟨Sample.nodes, .ofProgram Sample.undeclared, .standard⟩
    (∃ report, Sample.undeclared.check .standard = .ok report) ∧
      Frame.Ready task ⟨FlowGraph.entry, 1, Sample.declared, []⟩ ∧
      Sample.declared.heap.arena.entry 0 = .ok .vacant ∧
      Sample.state.heap.take ⟨0⟩ =
        .ok (some (.cell ⟨⟨0⟩, [.null]⟩), Sample.state.heap.write ⟨0⟩ .vacant) := by
  intro task
  obtain ⟨hreport, hruns, horderly⟩ := Program.check_never_misuses Sample.undeclared .standard
  obtain ⟨e, hrun, hpaths⟩ := hruns 1
  have hfirst : Exploration.run task 1 .start = .ok _ := rfl
  cases hrun.symm.trans hfirst
  obtain ⟨hready, hentry⟩ := hpaths ⟨FlowGraph.entry, 1, Sample.declared, []⟩ (.head _)
  exact ⟨hreport, hready, hentry (.path ⟨"x", []⟩) Sample.declared ⟨0⟩ (.head _),
    horderly.take Sample.state.heap ⟨0⟩ _ rfl⟩

end HeapShape
