import HeapShape.Proofs.Frames
import HeapShape.Proofs.Merging
import HeapShape.Proofs.Retention

/-!
# Freed memory stays freed

A path goes on by instructions, by what its conditions assume, and by widening at the head of
a loop. A location that is freed stays freed on the way, for as long as a variable leads to it. If
a widening finds that none does, it forgets the location, which then is *lost*: nothing comes to
mention it again, no fact is recorded for it, and it is not given out anew.

* `State.Moves`, `State.Leads`: one step of a path, and a row of steps;
* `State.Arises`: the states that come up on paths. Those of an exploration are among them
  (`Exploration.arises_of_run`);
* `State.Gone`: a location is freed or lost. Every step keeps it (`State.Moves.gone`);
* `State.freed_stays_freed`: what follows for a freed location.
-/

namespace HeapShape

open List

namespace State

variable {task : Task} {structs : Structs} {lost : Loc → Prop} {w : Writes} {s s' s'' : State} {l : Loc}
  {vars : List String}

/-! ### Steps of a path -/

/-- A step of a path, with what it writes to. -/
inductive Moves (task : Task) : Writes → State → State → Prop
  | instr {i : Instr} {s s' : State} (h : (s', .ok ()) ∈ (Exploration.perform task i s).2) :
      Moves task i.writes s s'
  | assume {c : Cond} {truth : Bool} {s s' : State}
      (h : (s', .ok ()) ∈ Exec.assume task.structs c truth s) : Moves task .none s s'
  | widen {s : State} {heap : Heap} (h : s.heap.widen task.structs (s.roots.map Prod.snd) = .ok heap) :
      Moves task .none s { s with heap }
  | renumber {s : State} (path : PathId) : Moves task .none s { s with path }

/-- Steps of a path, with the variables that they write to. -/
inductive Leads (task : Task) : List String → State → State → Prop
  | refl (s : State) : Leads task [] s s
  | step {vars : List String} {w : Writes} {s s' s'' : State} (h : Leads task vars s s')
      (hm : s'.Moves task w s'') : Leads task (w.vars ++ vars) s s''

/-- The states that come up on paths. -/
inductive Arises (task : Task) : State → Prop
  | initial (path : PathId) : Arises task (initial path)
  | step {w : Writes} {s s' : State} (h : Arises task s) (hm : s.Moves task w s') : Arises task s'

theorem Moves.sound (h : s.Moves task w s') (hs : s.Sound task.structs lost) :
    s'.Sound task.structs lost := by
  cases h with
  | instr h => exact (Exploration.perform_each hs _ _ _ h).1
  | assume h => exact (Exec.assume_proceeds (w := .none) hs _ _ _ _ h).sound
  | widen h =>
    obtain ⟨heap, hok, hsound⟩ := hs.widen
    cases h.symm.trans hok
    exact hsound
  | renumber path => exact ⟨hs.heap, hs.vars⟩

theorem Arises.sound (h : s.Arises task) : s.Sound task.structs fun _ => False := by
  induction h with
  | initial path => exact sound_initial path
  | step _ hm ih => exact hm.sound ih

/-! ### Locations that nothing leads to -/

theorem mem_roots {e : String × Binding} (he : e ∈ s.env.entries) : e.2.value ∈ s.roots.map Prod.snd :=
  mem_map.2 ⟨_, mem_map_of_mem he, rfl⟩

theorem reaches_of_lookup {x : String} (hx : s.lookup x = .ok (.ptr l)) :
    s.heap.Reaches (s.roots.map Prod.snd) l := by
  rw [lookup] at hx
  split at hx
  · rename_i b hb
    exact .root (Except.ok.inj hx ▸ mem_roots (NameMap.mem_of_get? hb))
  · cases hx

/-- What the variables of a sound state lead to is not lost. -/
theorem Sound.usable_of_reaches (hs : s.Sound structs lost)
    (hr : s.heap.Reaches (s.roots.map Prod.snd) l) : s.heap.Usable lost (.ptr l) := by
  cases hr with
  | root hv =>
    obtain ⟨r, hr, hrv⟩ := mem_map.1 hv
    obtain ⟨e, he, rfl⟩ := mem_map.1 hr
    exact hrv ▸ hs.vars e he
  | step _ hv =>
    rw [Arena.Slot.values_node] at hv
    cases hk : s.heap.slot _ with
    | occupied f =>
      rw [hk] at hv
      obtain ⟨f', hf, hv⟩ := mem_flatMap.1 hv
      cases mem_singleton.1 hf
      exact (hs.heap.facts _ f hk).values _ hv
    | vacant | tombstone =>
      rw [hk] at hv
      exact (not_mem_nil hv).elim

/-- A location that is given out, and that no variable leads to, is lost when the heap is
    collected. -/
theorem Sound.lose (hs : s.Sound structs fun _ => False) (hl : l.index < s.heap.size)
    (hr : ¬ s.heap.Reaches (s.roots.map Prod.snd) l) :
    ({ s with heap := s.heap.collect (s.roots.map Prod.snd) } : State).Sound structs (· = l) := by
  let roots := s.roots.map Prod.snd
  have hsize : (s.heap.collect roots).size = s.heap.size := (Heap.forgets_collect _ roots).size
  have hsound := hs.heap.collect roots
  have hkept {k : Loc} {f : Fact} (hk : (s.heap.collect roots).slot k = .occupied f) :
      s.heap.Reaches roots k ∧ s.heap.slot k = .occupied f := by
    rw [Heap.slot_collect] at hk
    split at hk
    · exact ⟨Heap.mem_reach.1 ‹_›, hk⟩
    · cases hk
  have husable {v : Value} (hreach : ∀ m, v = .ptr m → s.heap.Reaches roots m) :
      (s.heap.collect roots).Usable (· = l) v := by
    rintro m rfl
    have hm := hreach m rfl
    refine ⟨hsize ▸ (Heap.usable_ptr.1 (hs.usable_of_reaches hm)).1, ?_⟩
    rintro rfl
    exact hr hm
  refine ⟨⟨fun k f hk => ?_, fun m hm => ?_, hsound.sets⟩, fun e he => husable fun m hm => ?_⟩
  · obtain ⟨hreach, hslot⟩ := hkept hk
    refine ⟨fun v hv => husable fun m hm => .step hreach ?_, (hsound.facts k f hk).sets,
      (hsound.facts k f hk).cell⟩
    rw [hslot, Arena.Slot.values_node]
    exact mem_flatMap.2 ⟨f, mem_singleton_self f, hm ▸ hv⟩
  · rw [hm]
    exact ⟨hsize ▸ hl, fun f hk => hr (hkept hk).1⟩
  · exact .root (hm ▸ mem_roots he)

/-! ### What a step does to freed locations -/

/-- A location is freed, or lost. -/
def Gone (structs : Structs) (l : Loc) (s : State) : Prop :=
  (s.Sound structs (fun _ => False) ∧ s.heap.slot l = .tombstone) ∨ s.Sound structs (· = l)

namespace Gone

/-- A location that is gone, and that can be mentioned, is freed. -/
theorem tombstone (hg : s.Gone structs l) (hr : s.heap.Reaches (s.roots.map Prod.snd) l) :
    s.heap.slot l = .tombstone := by
  rcases hg with ⟨-, hl⟩ | hs
  · exact hl
  · exact ((Heap.usable_ptr.1 (hs.usable_of_reaches hr)).2 rfl).elim

theorem not_occupied (hg : s.Gone structs l) (f : Fact) : s.heap.slot l ≠ .occupied f := by
  rcases hg with ⟨-, hl⟩ | hs
  · rw [hl]
    exact nofun
  · exact (hs.heap.lost l rfl).2 f

/-- It is not given out anew. -/
theorem ne_fresh (hg : s.Gone structs l) : s.heap.fresh.1 ≠ l := by
  have hlt : l.index < s.heap.size := by
    rcases hg with ⟨-, hl⟩ | hs
    · exact Heap.lt_size_of_slot_ne (by rw [hl]; exact nofun)
    · exact (hs.heap.lost l rfl).1
  rintro rfl
  exact Nat.lt_irrefl _ hlt

end Gone

theorem Moves.gone (h : s.Moves task w s') (hg : s.Gone task.structs l) : s'.Gone task.structs l := by
  rcases hg with ⟨hs, hl⟩ | hs
  · have hs' := h.sound hs
    cases h with
    | instr h => exact .inl ⟨hs', (Exploration.perform_each hs _ _ _ h).2.freed l hl⟩
    | assume h =>
      exact .inl ⟨hs', (Exec.assume_proceeds (w := .none) hs _ _ _ _ h).retains.heap.freed l hl⟩
    | widen h =>
      obtain ⟨heap, hok, hc, hsound⟩ := hs.heap.widen (s.roots.map Prod.snd)
      cases h.symm.trans hok
      have hfolded : ({ s with heap } : State).Sound task.structs fun _ => False :=
        ⟨hsound, fun e he => (hs.vars e he).mono hc.size.ge⟩
      have hl' := hc.tombstone hl
      by_cases hr : l ∈ heap.reach (s.roots.map Prod.snd)
      · refine .inl ⟨hs', ?_⟩
        rw [Heap.slot_collect, if_pos hr]
        exact hl'
      · refine .inr (hfolded.lose (Heap.lt_size_of_slot_ne ?_) fun hreach =>
          hr (Heap.mem_reach.2 hreach))
        rw [hl']
        exact nofun
    | renumber path => exact .inl ⟨hs', hl⟩
  · exact .inr (h.sound hs)

/-- The pointers to a location stay, in the variables and fields that are not written to. -/
structure KeepsPointers (w : Writes) (l : Loc) (s s' : State) : Prop where
  vars : ∀ x ∉ w.vars, s.lookup x = .ok (.ptr l) → s'.lookup x = .ok (.ptr l)
  cells : ∀ k c c' i, s.heap.slot k = .occupied (.cell c) → s'.heap.slot k = .occupied (.cell c') →
    i ∉ w.fields → c.fields[i]? = some (.ptr l) → c'.fields[i]? = some (.ptr l)

theorem Passes.keepsPointers (h : s.Passes w s') (hl : s.heap.slot l = .tombstone) :
    s.KeepsPointers w l s' :=
  ⟨fun x hx => h.vars l x hl hx, fun k c c' i hk hk' => h.cells l k c c' i hl hk hk'⟩

/-- No step puts another value in the place of a pointer to a freed location. -/
theorem Moves.keepsPointers (h : s.Moves task w s') (hs : s.Sound task.structs fun _ => False)
    (hl : s.heap.slot l = .tombstone) : s.KeepsPointers w l s' := by
  cases h with
  | instr h => exact (Exploration.perform_each hs _ _ _ h).2.keepsPointers hl
  | assume h => exact (Exec.assume_proceeds hs _ _ _ _ h).retains.passes.keepsPointers hl
  | widen h =>
    obtain ⟨heap, hok, hc, -⟩ := hs.heap.widen (s.roots.map Prod.snd)
    cases h.symm.trans hok
    have hfolded := (passes_of_condenses (w := .none) hc).keepsPointers hl
    refine ⟨hfolded.vars, fun k c c' i hk hk' => hfolded.cells k c c' i hk ?_⟩
    rw [Heap.slot_collect] at hk'
    split at hk'
    · exact hk'
    · cases hk'
  | renumber path =>
    refine ⟨fun _ _ hx => hx, fun k c c' i hk hk' _ hv => ?_⟩
    cases hk.symm.trans hk'
    exact hv

/-! ### What a run does to freed locations -/

theorem Leads.gone (h : s.Leads task vars s') (hg : s.Gone task.structs l) : s'.Gone task.structs l := by
  induction h with
  | refl s => exact hg
  | step _ hm ih => exact hm.gone (ih hg)

theorem Leads.sound (h : s.Leads task vars s') (hs : s.Sound task.structs lost) :
    s'.Sound task.structs lost := by
  induction h with
  | refl s => exact hs
  | step _ hm ih => exact hm.sound (ih hs)

/-- A variable that no step writes to goes on to point to a freed location. -/
theorem Leads.lookup {x : String} (h : s.Leads task vars s') (hs : s.Sound task.structs fun _ => False)
    (hl : s.heap.slot l = .tombstone) (hv : x ∉ vars) (hx : s.lookup x = .ok (.ptr l)) :
    s'.lookup x = .ok (.ptr l) := by
  induction h with
  | refl s => exact hx
  | step h hm ih =>
    rw [mem_append, not_or] at hv
    have hx' := ih hs hl hv.2 hx
    have hl' := (h.gone (.inl ⟨hs, hl⟩)).tombstone (reaches_of_lookup hx')
    exact (hm.keepsPointers (h.sound hs) hl').vars x hv.1 hx'

/-- Every access to a location is refused. -/
structure Refuses (structs : Structs) (l : Loc) (s : State) : Prop where
  load : ∀ i, Exec.loadField structs (.ptr l) i s = [(s, .error (.useAfterFree l))]
  store : ∀ i v, Exec.storeField structs (.ptr l) i v s = [(s, .error (.useAfterFree l))]
  free : Exec.freeValue (.ptr l) s = [(s, .error (.doubleFree l))]

theorem refuses_of_tombstone (hl : s.heap.slot l = .tombstone) : s.Refuses structs l := by
  have hmaterialize : Exec.materialize structs (.ptr l) s = [(s, .error (.useAfterFree l))] :=
    materialize_tombstone hl
  refine ⟨fun i => ?_, fun i v => ?_, ?_⟩
  · simp only [Exec.loadField, Value.loc?, Option.map_some, hl, Exec.bind_apply, hmaterialize]
    rfl
  · simp only [Exec.storeField, Exec.bind_apply, hmaterialize]
    rfl
  · simp only [Exec.freeValue, Exec.update, hl]

/-- A location that is gone cannot be accessed through any path. -/
theorem Gone.refuses (hg : s.Gone structs l) {p : Path} (h : (s', .ok (.ptr l)) ∈ Exec.read structs p s) :
    s'.Refuses structs l := by
  rcases hg with ⟨hs, hl⟩ | hs
  · exact refuses_of_tombstone ((Exec.eval_gives (w := .none) hs (.path p) _ _ h).1.retains.heap.freed l hl)
  · exact ((Heap.usable_ptr.1 (Exec.eval_gives (w := .none) hs (.path p) _ _ h).2).2 rfl).elim

end State

/-! ### Explorations -/

namespace Exploration

variable {task : Task} {f f' : Frame}

theorem arises_of_next (hf : f.state.Arises task) (h : f.Next task f') : f'.state.Arises task := by
  cases h with
  | instr path _ _ h => exact (hf.step (.instr h)).step (.renumber path)
  | @exit b s target _ path _ _ h he =>
    have hs : ({ s with path } : State).Arises task := by
      refine .step ?_ (.renumber path)
      generalize b.exit = exit at h
      cases h with
      | goto => exact hf
      | branch h =>
        obtain ⟨-, truth, h⟩ := mem_branch h
        exact hf.step (.assume h)
    cases he with
    | block => exact hs
    | head _ hw _ => exact hs.step (.widen hw)

/-- The states of an exploration come up on paths. -/
theorem arises_of_run {n : Nat} {e : Exploration} (h : run task n .start = .ok e) :
    ∀ f ∈ e.waiting.toList, f.state.Arises task :=
  waiting_run (fun _ _ => arises_of_next) (waiting_start (.initial 0)) h

end Exploration

/-- Freed memory stays freed. In a state that arises from one where a location is freed, the
    location is freed, if a variable leads to it, and every access through a path that leads to it
    is refused. It is not filled with a fact and not given out anew, and no pointer to it gives way
    to another value. -/
theorem State.freed_stays_freed (task : Task) :
    (∀ n e, Exploration.run task n .start = .ok e → ∀ f ∈ e.waiting.toList, f.state.Arises task) ∧
    ∀ (s s' : State) (vars : List String) (l : Loc),
      s.Arises task → s.heap.slot l = .tombstone → s.Leads task vars s' →
      (l ∈ s'.heap.reach (s'.roots.map Prod.snd) → s'.heap.slot l = .tombstone) ∧
      (∀ p t, (t, .ok (.ptr l)) ∈ Exec.read task.structs p s' → t.Refuses task.structs l) ∧
      (∀ f, s'.heap.slot l ≠ .occupied f) ∧ s'.heap.fresh.1 ≠ l ∧
      (∀ x ∉ vars, s.lookup x = .ok (.ptr l) → s'.lookup x = .ok (.ptr l)) ∧
      ∀ w s'', s'.Moves task w s'' → s'.heap.slot l = .tombstone → s'.KeepsPointers w l s'' := by
  refine ⟨fun n e => Exploration.arises_of_run, fun s s' vars l hs hl h => ?_⟩
  have hgone : s'.Gone task.structs l := h.gone (.inl ⟨hs.sound, hl⟩)
  refine ⟨fun hr => hgone.tombstone (Heap.mem_reach.1 hr), fun p t => hgone.refuses, hgone.not_occupied,
    hgone.ne_fresh, fun x hx => h.lookup hs.sound hl hx, fun w s'' hm hl' => ?_⟩
  exact hm.keepsPointers (h.sound hs.sound) hl'

namespace Sample

/-- Lists, and no program. -/
def lists : Task := ⟨nodes, default, .standard⟩

/-- A cell of a list was allocated for `x`, and freed. -/
def freed : State :=
  ⟨0, ⟨.ofSlots [.vacant, .tombstone, .vacant], .empty⟩, ⟨[("x", ⟨.ptr ⟨0⟩, .ptr ⟨1⟩⟩)]⟩⟩

/-- Then `y` came to point to it, too, before the head of a loop. -/
def shared : State :=
  ⟨0, ⟨.ofSlots [.vacant, .tombstone, .vacant, .vacant], .empty⟩,
    ⟨[("x", ⟨.ptr ⟨0⟩, .ptr ⟨1⟩⟩), ("y", ⟨.ptr ⟨0⟩, .ptr ⟨1⟩⟩)]⟩⟩

theorem freed_arises : freed.Arises lists :=
  (((State.Arises.initial 0).step (.instr (i := .decl "x" (.ptr ⟨0⟩)) (.head _))).step
    (.instr (i := .alloc ⟨"x", []⟩ ⟨0⟩) (.head _))).step (.instr (i := .free ⟨"x", []⟩) (.head _))

theorem widen_shared : shared.heap.widen nodes [.ptr ⟨1⟩, .ptr ⟨1⟩] = .ok shared.heap := by
  have hat : shared.heap.widenAt nodes [⟨1⟩, ⟨1⟩] ⟨1⟩ = .ok (shared.heap, []) := by decide +kernel
  have hall :
      Heap.widenAll nodes [⟨1⟩, ⟨1⟩] shared.heap shared.heap.locs [⟨1⟩, ⟨1⟩] = .ok shared.heap := by
    rw [Heap.widenAll, if_pos (by decide), hat]
    dsimp only
    rw [nil_append, Heap.widenAll, if_neg (by decide), Heap.widenAll]
  have hcuts : [Value.ptr ⟨1⟩, .ptr ⟨1⟩].filterMap Value.loc? = [⟨1⟩, ⟨1⟩] := rfl
  rw [Heap.widen, hcuts, hall]
  decide +kernel

theorem freed_leads : freed.Leads lists ["y", "y"] shared := by
  have hcopied : freed.Leads lists ["y", "y"] shared :=
    ((State.Leads.refl freed).step (.instr (i := .decl "y" (.ptr ⟨0⟩)) (.head _))).step
      (.instr (i := .assign ⟨"y", []⟩ (.path ⟨"x", []⟩)) (.head _))
  have hwidened : shared.Moves lists .none shared := .widen widen_shared
  exact hcopied.step hwidened

end Sample

theorem State.freed_stays_freed_shared :
    (∀ f ∈ Exploration.start.waiting.toList, f.state.Arises Sample.lists) ∧
      Sample.freed.Arises Sample.lists ∧ Sample.freed.Leads Sample.lists ["y", "y"] Sample.shared ∧
      Sample.shared.heap.slot ⟨1⟩ = .tombstone ∧ Sample.shared.lookup "x" = .ok (.ptr ⟨1⟩) ∧
      Sample.shared.Refuses Sample.nodes ⟨1⟩ := by
  obtain ⟨hstart, hfreed⟩ := State.freed_stays_freed Sample.lists
  obtain ⟨hstays, hrefuses, -, -, hvars, -⟩ :=
    hfreed Sample.freed Sample.shared ["y", "y"] ⟨1⟩ Sample.freed_arises rfl Sample.freed_leads
  exact ⟨hstart 0 .start rfl, Sample.freed_arises, Sample.freed_leads, hstays (by decide +kernel),
    hvars "x" (by decide) rfl, hrefuses ⟨"y", []⟩ Sample.shared (.head _)⟩

end HeapShape
