import HeapShape.Proofs.FoldFrame
import HeapShape.Proofs.Judging
import HeapShape.Proofs.SetMeaning

/-!
# Directives that fail

A directive is judged in several steps, and some of them change the state: names are declared one
after the other, a variable gets a new location before a fact is attached to it, and a structure is
folded before it is known to be whole. `State.judge` tells a state only if there is no defect. Here
the steps are taken on one state, as operations that keep what was changed before a defect, and it
turns out that there is nothing to keep: no step can fail any more when the state was changed.

The one exception is a directive that declares sets. It does not stop at a name that is taken. It
declares the other names, and fails because of the ones that were taken.

* `Exec.judge`: a directive judged step by step;
* `Exec.judge_eq`: this is `State.judge`, and a defect leaves the state as it is;
* `SetStore.Declares`, `State.declares_declareSets`: all that a declaration changes.
-/

namespace HeapShape

namespace Exec

/-! ### Directives step by step -/

section

variable {α : Type} (structs : Structs)

/-- A result in a new state, or a defect that leaves the state as it is. -/
def atomically (f : State → Except Defect (α × State)) : Exec α := fun s =>
  match f s with
  | .ok (a, s') => [(s', .ok a)]
  | .error d => [(s, .error d)]

/-- Declare a set, unless the name is taken. -/
def declareSet (name : String) : Exec Bool := fun s =>
  match s.heap.sets.declare? name with
  | some (_, sets) => [({ s with heap := { s.heap with sets } }, .ok true)]
  | none => [(s, .ok false)]

/-- Declare sets one after the other. The names that are taken are told. -/
def declareEach : List String → Exec (List String)
  | [] => pure []
  | name :: names => do
    let isNew ← declareSet name
    let taken ← declareEach names
    return if isNew then taken else name :: taken

/-- Give out a location. -/
def newLoc : Exec Loc := fun s => [({ s with heap := s.heap.fresh.2 }, .ok s.heap.fresh.1)]

/-- Give out a location, and make a variable point to it. -/
def pointToNew (var : String) : Exec Loc := do
  let loc ← newLoc
  update fun s => s.set var (.ptr loc)
  return loc

/-- A location for a variable of which nothing is known: the one that it points to, or else a new
    one. -/
def vacantLoc (var : String) : Exec Loc := do
  match ← ask (·.lookup var) with
  | .ptr loc => if ← ask fun s => .ok (s.heap.isOpaque loc) then return loc else pointToNew var
  | _ => pointToNew var

/-- Attach a fact to a location. -/
def attach (loc : Loc) (f : Fact) : Exec Unit :=
  update fun s =>
    match s.heap.put loc f with
    | .ok heap => .ok { s with heap }
    | .error m => .error (.misuse m)

/-- Fold a structure, and then judge whether it is whole. -/
def foldWhole (root : Value) (pred : Predicate) (params : Option Params) : Exec Judgement := fun s =>
  match s.heap.fold structs root pred params [] with
  | .ok (heap, none) => [({ s with heap }, .ok .pass)]
  | .ok (heap, some _) => [({ s with heap }, .ok (.fail (.mismatch .endsAtShared)))]
  | .error (.mismatch m) => [(s, .ok (.fail (.mismatch m.cause)))]
  | .error (.misuse m) => [(s, .error (.misuse m))]

/-- Demand one name after the other. -/
def demandEach : List String → Exec Unit
  | [] => pure ()
  | name :: names => do
    ask fun s => if s.isKnown name then .ok () else .error (.undefined name)
    demandEach names

/-- The judgement of a directive, step by step. -/
def judge : Directive → Exec Judgement
  | .declareSets names => do
    let taken ← declareEach names
    return if taken.isEmpty then .pass else .fail (.redeclared taken)
  | .assumeSubset sub sup => do
    let sub ← ask (·.setVar sub)
    let sup ← ask (·.setVar sup)
    update fun s => .ok { s with heap := { s.heap with sets := s.heap.sets.assumeSubset sub sup } }
    return .pass
  | .addInductive var pred block => do
    let ty ← ask (·.pointee var)
    if (pred.layout? structs ty).isNone then return .fail (.undescribed pred ty)
    let params ← ask (·.params block)
    let loc ← vacantLoc var
    attach loc (.summary ⟨pred, ty, params, none⟩)
    return .pass
  | .checkInductive var pred block => do
    let root ← ask (·.lookup var)
    let params ← ask fun s => block.mapM s.params
    foldWhole structs root pred params
  | .forceLive names => do
    demandEach names
    return .pass

end

end Exec

/-- Without stops no segment is found. -/
theorem Heap.hole_of_fold {structs : Structs} {h h' : Heap} {root : Value} {pred : Predicate}
    {params : Option Params} {o : Option Hole} (hf : h.fold structs root pred params [] = .ok (h', o)) :
    o = none := by
  rcases fold_eq_ok hf with ⟨loc, s, h₁, rfl, -⟩ | ⟨-, rfl, -⟩
  · obtain ⟨ty, layout, p, sets, st, hs, rfl, -⟩ := fold_ptr_eq_ok hf
    refine Option.map_eq_none_iff.2 (Option.eq_none_iff_forall_ne_some.2 fun o ho => ?_)
    obtain ⟨k, hk, -⟩ := hs.within.hole o ho
    cases hk
  · rfl

namespace Exec

/-! ### The steps together -/

variable {α β : Type} {structs : Structs} {s : State}

theorem ask_bind (f : State → Except Defect α) (g : α → Exec β) (s : State) :
    (ask f >>= g) s = match f s with
      | .ok a => g a s
      | .error d => [(s, .error d)] := by
  cases h : f s with
  | ok a => exact bind_of_single (by rw [ask, h])
  | error d => exact bind_of_error (by rw [ask, h])

/-- What the state is only asked for before an operation does not change it. -/
theorem atomically_ask {f : State → Except Defect α} {x : α → Exec β}
    {g : α → State → Except Defect (β × State)} (h : ∀ a, f s = .ok a → x a s = atomically (g a) s) :
    (ask f >>= x) s = atomically (fun s => f s >>= fun a => g a s) s := by
  rw [ask_bind, atomically]
  cases hf : f s with
  | ok a => exact h a hf
  | error d => rfl

theorem declareEach_apply (names : List String) (s : State) : declareEach names s =
    [({ s with heap := { s.heap with sets := (State.declareSets s.heap.sets names).2 } },
      .ok (State.declareSets s.heap.sets names).1)] := by
  induction names generalizing s with
  | nil => rfl
  | cons name names ih =>
    rw [declareEach, State.declareSets]
    cases hd : s.heap.sets.declare? name with
    | none =>
      rw [bind_of_single (show declareSet name s = [(s, .ok false)] by rw [declareSet, hd]),
        bind_of_single (ih s)]
      rfl
    | some r =>
      obtain ⟨v, sets⟩ := r
      rw [bind_of_single (show declareSet name s =
        [({ s with heap := { s.heap with sets } }, .ok true)] by rw [declareSet, hd]),
        bind_of_single (ih _)]
      rfl

/-- A variable that is known gets its location without a defect. If this changed the state, then the
    location is new, so a fact can be attached to it. -/
theorem vacantLoc_apply {var : String} {b : Binding} (hb : s.env.get? var = some b) :
    ∃ loc t, s.opaqueLoc var = .ok (loc, t) ∧ vacantLoc var s = [(t, .ok loc)] ∧
      (t = s ∨ ∀ f, ∃ heap, t.heap.put loc f = .ok heap) := by
  have hnew : ∃ loc t, State.opaqueLoc.fresh s var = .ok (loc, t) ∧ pointToNew var s = [(t, .ok loc)] ∧
      (t = s ∨ ∀ f, ∃ heap, t.heap.put loc f = .ok heap) := by
    simp only [State.opaqueLoc.fresh, pointToNew, State.set, hb]
    refine ⟨s.heap.fresh.1, _, rfl, ?_, .inr fun f => ⟨_, State.put_of_vacant ?_ ?_ f⟩⟩
    · rw [bind_of_single (x := newLoc) rfl, bind_of_single (a := ())]
      · rfl
      · simp only [update, hb]
    · exact (Heap.size_fresh _).symm ▸ Nat.lt_succ_self _
    · exact (Heap.slot_fresh _ _).trans (Arena.slot_of_size_le le_rfl)
  obtain ⟨ty, v⟩ := b
  rw [vacantLoc, ask_bind, State.opaqueLoc, State.lookup, hb]
  rcases v with _ | loc | _
  · exact hnew
  · show ∃ l t, (if s.heap.isOpaque loc then _ else _) = _ ∧ (ask _ >>= _) s = _ ∧ _
    rw [ask_bind]
    dsimp only
    split
    · exact ⟨loc, s, rfl, rfl, .inl rfl⟩
    · exact hnew
  · exact hnew

theorem demandEach_apply (names : List String) (s : State) : demandEach names s =
    [(s, match names.find? fun name => !s.isKnown name with
      | some name => .error (.undefined name)
      | none => .ok ())] := by
  induction names with
  | nil => rfl
  | cons name names ih =>
    rw [demandEach, ask_bind]
    cases hk : s.isKnown name with
    | true => simp [hk, ih]
    | false => simp [hk]

/-- A structure that is folded without stops is whole, so nothing is left to fail. -/
theorem foldWhole_apply (root : Value) (pred : Predicate) (params : Option Params) (s : State) :
    foldWhole structs root pred params s =
      match s.heap.check structs root pred params with
      | .ok heap => [({ s with heap }, .ok .pass)]
      | .error (.mismatch m) => [(s, .ok (.fail (.mismatch m.cause)))]
      | .error (.misuse m) => [(s, .error (.misuse m))] := by
  rw [foldWhole, Heap.check]
  rcases hf : s.heap.fold structs root pred params [] with (m | m) | ⟨heap, o⟩
  · rfl
  · rfl
  · obtain rfl := Heap.hole_of_fold hf
    rfl

theorem judge_addInductive (var : String) (pred : Predicate) (block : ParamBlock) (s : State) :
    judge structs (.addInductive var pred block) s =
      atomically (·.addInductive structs var pred block) s := by
  refine atomically_ask fun ty hty => ?_
  obtain ⟨b, hb⟩ : ∃ b, s.env.get? var = some b := by
    rw [State.pointee] at hty
    split at hty
    · exact ⟨_, ‹_›⟩
    · cases hty
    · cases hty
  cases (pred.layout? structs ty).isNone with
  | true => rfl
  | false =>
    refine atomically_ask fun params _ => ?_
    obtain ⟨loc, t, hloc, hvacant, hput⟩ := vacantLoc_apply hb
    rw [bind_of_single hvacant, atomically, hloc]
    rcases hp : t.heap.put loc (.summary ⟨pred, ty, params, none⟩) with m | heap
    · -- Only a location that the variable had before can be out of bounds.
      obtain rfl : t = s := hput.resolve_right fun hput => by
        obtain ⟨heap, hok⟩ := hput (.summary ⟨pred, ty, params, none⟩)
        cases hok.symm.trans hp
      have hattach : attach loc (.summary ⟨pred, ty, params, none⟩) t = [(t, .error (.misuse m))] := by
        simp only [attach, update, hp]
      rw [bind_of_error hattach]
      simp only [bind, Except.bind, hp]
    · have hattach : attach loc (.summary ⟨pred, ty, params, none⟩) t =
          [({ t with heap }, .ok ())] := by
        simp only [attach, update, hp]
      rw [bind_of_single hattach]
      simp only [bind, Except.bind, hp]
      rfl

/-- Step by step, a directive has the judgement and the state that it has as a whole. A defect comes
    before anything is changed. -/
theorem judge_eq (structs : Structs) (d : Directive) : judge structs d = atomically (·.judge structs d) := by
  funext s
  rcases d with names | ⟨sub, sup⟩ | ⟨var, pred, block⟩ | ⟨var, pred, block⟩ | names
  · rw [judge, bind_of_single (declareEach_apply names s)]
    rfl
  · exact atomically_ask fun sub _ => atomically_ask fun sup _ => rfl
  · exact judge_addInductive var pred block s
  · refine atomically_ask fun root _ => atomically_ask fun params _ => ?_
    rw [foldWhole_apply, atomically]
    rcases s.heap.check structs root pred params with (m | m) | heap <;> rfl
  · rw [judge, bind_apply, demandEach_apply, atomically, State.judge]
    cases names.find? fun name => !s.isKnown name <;> rfl

end Exec

/-! ### Declarations -/

/-- The names that were not declared are, for variables that were not given out before. Nothing else
    that is known about sets changes. -/
structure SetStore.Declares (s : SetStore) (names : List String) (s' : SetStore) : Prop where
  subsets : s'.subsets = s.subsets
  splits : s'.splits = s.splits
  empties : s'.empties = s.empties
  resolve : ∀ v, s'.resolve v = s.resolve v
  length : s.reprs.length ≤ s'.reprs.length
  kept : ∀ name v, s.names.get? name = some v → s'.names.get? name = some v
  declared : ∀ name, (s'.names.get? name).isSome ↔ (s.names.get? name).isSome ∨ name ∈ names
  fresh : ∀ name v, s.names.get? name = none → s'.names.get? name = some v → s.reprs.length ≤ v.id

theorem SetStore.declare?_eq_none {s : SetStore} {name : String} :
    s.declare? name = none ↔ (s.names.get? name).isSome := by
  rw [SetStore.declare?]
  cases s.names.get? name <;> simp

namespace SetStore.Declares

variable {s s' s'' : SetStore} {names names' : List String} {name : String} {v : SetVar}

/-- Nothing is declared if all names were. -/
theorem refl (h : ∀ name ∈ names, (s.names.get? name).isSome) : s.Declares names s where
  subsets := rfl
  splits := rfl
  empties := rfl
  resolve _ := rfl
  length := Nat.le_refl _
  kept _ _ := id
  declared name := ⟨.inl, fun hd => hd.elim id (h name)⟩
  fresh name v hn hv := by
    rw [hn] at hv
    cases hv

theorem declare? (hd : s.declare? name = some (v, s')) : s.Declares [name] s' := by
  rw [SetStore.declare?] at hd
  split at hd
  · cases hd
  · rename_i hn
    cases hd
    have hget (other : String) : NameMap.get? (s.names.insert name ⟨s.reprs.length⟩) other =
        if other = name then some ⟨s.reprs.length⟩ else s.names.get? other := NameMap.get?_insert ..
    refine ⟨rfl, rfl, rfl, resolve_fresh s, by simp, fun other w hw => ?_, fun other => ?_,
      fun other w ho hw => ?_⟩
    · rw [hget, if_neg, hw]
      rintro rfl
      cases hw.symm.trans hn
    · rw [hget, List.mem_singleton]
      split
      · simp [*]
      · simp [*]
    · rw [hget] at hw
      split at hw
      · cases hw
        exact Nat.le_refl _
      · cases hw.symm.trans ho

theorem trans (h : s.Declares names s') (h' : s'.Declares names' s'') :
    s.Declares (names ++ names') s'' where
  subsets := h'.subsets.trans h.subsets
  splits := h'.splits.trans h.splits
  empties := h'.empties.trans h.empties
  resolve v := (h'.resolve v).trans (h.resolve v)
  length := h.length.trans h'.length
  kept name v hv := h'.kept name v (h.kept name v hv)
  declared name := by rw [h'.declared, h.declared, List.mem_append, or_assoc]
  fresh name v hn hv := by
    cases hn' : s'.names.get? name with
    | none => exact h.length.trans (h'.fresh name v hn' hv)
    | some w =>
      cases (h'.kept name w hn').symm.trans hv
      exact h.fresh name v hn hn'

end SetStore.Declares

namespace State

variable {s : State} {sets : SetStore} {names : List String}

theorem declares_declareSets (sets : SetStore) (names : List String) :
    sets.Declares names (declareSets sets names).2 := by
  induction names generalizing sets with
  | nil => exact .refl (List.forall_mem_nil _)
  | cons name names ih =>
    rw [declareSets]
    split
    · rename_i hd
      exact (SetStore.Declares.declare? hd).trans (ih _)
    · rename_i hd
      have hname : (sets.names.get? name).isSome := SetStore.declare?_eq_none.1 hd
      exact (SetStore.Declares.refl (List.forall_mem_singleton.2 hname)).trans (ih sets)

/-- If all names are taken, nothing is declared. -/
theorem declareSets_of_declared (h : ∀ name ∈ names, (sets.names.get? name).isSome) :
    (declareSets sets names).2 = sets := by
  induction names with
  | nil => rfl
  | cons name names ih =>
    obtain ⟨hname, hnames⟩ := List.forall_mem_cons.1 h
    rw [declareSets, SetStore.declare?_eq_none.2 hname]
    exact ih hnames

/-- Sets are declared, and nothing else changes in a state. -/
structure Declares (s : State) (names : List String) (s' : State) : Prop where
  path : s'.path = s.path
  env : s'.env = s.env
  arena : s'.heap.arena = s.heap.arena
  sets : s.heap.sets.Declares names s'.heap.sets

/-- A declaration leaves a state as it was only if all names were declared before. -/
theorem withSets_eq_iff (s : State) (names : List String) :
    { s with heap := { s.heap with sets := (declareSets s.heap.sets names).2 } } = s ↔
      ∀ name ∈ names, (s.heap.sets.lookup? name).isSome := by
  simp only [SetStore.lookup?, Option.isSome_map]
  constructor
  · intro heq name hname
    have hsets : (declareSets s.heap.sets names).2 = s.heap.sets := congrArg (·.heap.sets) heq
    exact hsets ▸ ((declares_declareSets s.heap.sets names).declared name).2 (.inr hname)
  · intro h
    rw [declareSets_of_declared h]

/-! ### Judgements -/

/-- A directive that does not declare sets, and is judged to fail, tells the state that it had. -/
theorem eq_of_judge_fail {structs : Structs} {d : Directive} {f : Failure} {t : State}
    (hd : ∀ names, d ≠ .declareSets names) (h : s.judge structs d = .ok (.fail f, t)) : t = s := by
  rcases d with names | ⟨sub, sup⟩ | ⟨var, pred, block⟩ | ⟨var, pred, block⟩ | names
  · exact absurd rfl (hd names)
  · obtain ⟨sub, -, h⟩ := ok_of_bind h
    obtain ⟨sup, -, h⟩ := ok_of_bind h
    cases h
  · obtain ⟨ty, -, h⟩ := ok_of_bind h
    split at h
    · cases h
      rfl
    · obtain ⟨params, -, h⟩ := ok_of_bind h
      obtain ⟨⟨loc, s₁⟩, -, h⟩ := ok_of_bind h
      dsimp only at h
      split at h
      · cases h
      · cases h
  · obtain ⟨root, -, h⟩ := ok_of_bind h
    obtain ⟨params, -, h⟩ := ok_of_bind h
    split at h
    · cases h
    · cases h
      rfl
    · cases h
  · rw [judge] at h
    split at h
    · cases h
    · cases h

end State

namespace Exec

/-- A directive that fails, or has a defect, leaves the state as it was, step by step and as a whole.
    A directive that declares sets has no defect. If it fails because of names that are taken, it
    declares the other names; it leaves the state as it was if and only if all names were declared
    before. -/
theorem failed_directive_intact (structs : Structs) (d : Directive) (s : State) :
    ∃ s' r, judge structs d s = [(s', r)] ∧ s.judge structs d = r.map (·, s') ∧
      (r ≠ .ok .pass →
        ((∀ names, d ≠ .declareSets names) → s' = s) ∧
        ∀ names, d = .declareSets names → (∃ taken, r = .ok (.fail (.redeclared taken))) ∧
          s.Declares names s' ∧ (s' = s ↔ ∀ name ∈ names, (s.heap.sets.lookup? name).isSome)) := by
  rw [judge_eq, atomically]
  rcases hj : s.judge structs d with e | ⟨j, s'⟩
  · refine ⟨s, .error e, rfl, rfl, fun _ => ⟨fun _ => rfl, ?_⟩⟩
    rintro names rfl
    cases hj
  · refine ⟨s', .ok j, rfl, rfl, fun hfail => ⟨fun hd => ?_, ?_⟩⟩
    · cases j with
      | pass => exact absurd rfl hfail
      | fail f => exact State.eq_of_judge_fail hd hj
    · rintro names rfl
      cases hj
      refine ⟨?_, ⟨rfl, rfl, rfl, State.declares_declareSets ..⟩, State.withSets_eq_iff s names⟩
      split at hfail
      · exact absurd rfl hfail
      · rename_i htaken
        exact ⟨_, congrArg Except.ok (if_neg htaken)⟩

end Exec

/-- A variable that leads through a cell to a location of which nothing is known. -/
def Sample.openEnded : State :=
  ⟨0, ⟨.ofSlots [.occupied (.cell ⟨⟨0⟩, [.ptr ⟨1⟩]⟩), .vacant], .empty⟩, ⟨[("x", ⟨.ptr ⟨0⟩, .ptr ⟨0⟩⟩)]⟩⟩

theorem Sample.check_openEnded : openEnded.heap.check oneList (.ptr ⟨0⟩) .list none =
    .error (.mismatch ⟨some ⟨1⟩, .insideUnknown⟩) := by
  cbv

/-- The cell is taken before it turns out that the list does not end, and it is still there
    afterwards. -/
theorem Exec.failed_directive_intact_openEnded :
    judge Sample.oneList (.checkInductive "x" .list none) Sample.openEnded =
      [(Sample.openEnded, .ok (.fail (.mismatch .insideUnknown)))] := by
  have hfail : Sample.openEnded.judge Sample.oneList (.checkInductive "x" .list none) =
      .ok (.fail (.mismatch .insideUnknown), Sample.openEnded) := by
    have hroot : Sample.openEnded.lookup "x" = .ok (.ptr ⟨0⟩) := rfl
    have hparams : (none : Option ParamBlock).mapM Sample.openEnded.params = .ok none := rfl
    simp only [State.judge, State.checkInductive, bind, Except.bind, hroot, hparams,
      Sample.check_openEnded]
    rfl
  obtain ⟨s', r, hrun, hjudge, hintact⟩ :=
    failed_directive_intact Sample.oneList (.checkInductive "x" .list none) Sample.openEnded
  obtain rfl : r = .ok (.fail (.mismatch .insideUnknown)) := by
    rw [hfail] at hjudge
    cases r <;> cases hjudge
    rfl
  rw [hrun, (hintact (by simp)).1 (by simp)]

/-- A state where `E` is declared. -/
def Sample.titled : State := ⟨0, ⟨.empty, ⟨⟨[("E", ⟨0⟩)]⟩, [⟨0⟩], [], [], []⟩⟩, .empty⟩

/-- The declaration of `E` and `F` fails if there is an `E`, and then there is an `F`. -/
theorem State.failing_declaration_declares :
    (State.initial 0).judge [] (.declareSets ["E"]) = .ok (.pass, Sample.titled) ∧
      Sample.titled.heap.sets.lookup? "F" = none ∧
      ∃ s', Sample.titled.judge [] (.declareSets ["E", "F"]) = .ok (.fail (.redeclared ["E"]), s') ∧
        s'.heap.sets.lookup? "F" = some ⟨1⟩ :=
  ⟨rfl, rfl, _, rfl, rfl⟩

end HeapShape
