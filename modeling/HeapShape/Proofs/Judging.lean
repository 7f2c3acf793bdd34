import HeapShape.Proofs.Parallel
import HeapShape.State.Judgement

/-!
# Directives on states that correspond

Two states *correspond* if their heaps do, if they have the same variables, with the same types and
with related values, and if the same names are declared, for related sets. A directive reads a state
through its variables, the names of its sets and the search for a structure. None of them tells
states that correspond apart, so a directive passes on one of them exactly when it passes on the
other, fails exactly when it fails on the other, and does not apply for the same kind of reason.

* `State.Matches`: the states that correspond;
* `State.agree_judge`: they are judged alike.
-/

namespace HeapShape

/-- Two computations on states both return, or both end with defects of one class. -/
abbrev Defect.Agree {α β : Type} (R : α → β → Prop) : Except Defect α → Except Defect β → Prop :=
  Alike Defect.label R

namespace Alike

variable {ε κ α β γ : Type} {kind : ε → κ} {R : α → β → Prop}

theorem listMapM {f : γ → Except ε α} {g : γ → Except ε β} (h : ∀ c, Alike kind R (f c) (g c))
    (l : List γ) : Alike kind (List.Forall₂ R) (l.mapM f) (l.mapM g) := by
  induction l with
  | nil => exact .ok .nil
  | cons c l ih =>
    rw [List.mapM_cons, List.mapM_cons]
    exact (h c).bind fun a b hab => ih.bind fun as bs habs => .ok (.cons hab habs)

theorem optionMapM {f : γ → Except ε α} {g : γ → Except ε β} (h : ∀ c, Alike kind R (f c) (g c))
    (o : Option γ) : Alike kind (Option.Rel R) (o.mapM f) (o.mapM g) := by
  rcases o with _ | c
  · exact .ok .none
  · exact (h c).map fun a b hab => .some hab

end Alike

/-- Variables with one type and related values. -/
structure Binding.Rel (ρ : Loc → Loc → Prop) (a b : Binding) : Prop where
  ty : a.ty = b.ty
  value : Value.Rel ρ a.value b.value

namespace State

open Defect

/-- Two states know the same of the same variables and the same declared sets. -/
structure Matches (ρ : Loc → Loc → Prop) (τ : SetVar → SetVar → Prop) (s t : State) : Prop where
  heap : Heap.Matches ρ τ s.heap t.heap
  once : t.heap.sets.SplitsOnce
  vars : ∀ var, Option.Rel (Binding.Rel ρ) (s.env.get? var) (t.env.get? var)
  sets : ∀ name, Option.Rel τ (s.heap.sets.lookup? name) (t.heap.sets.lookup? name)
  /-- The locations of variables were given out. -/
  known : ∀ var b, s.env.get? var = some b → s.heap.Knows b.value
  known' : ∀ var b, t.env.get? var = some b → t.heap.Knows b.value

variable {ρ : Loc → Loc → Prop} {τ : SetVar → SetVar → Prop} {s t : State}

theorem isSome_of_rel {α β : Type} {R : α → β → Prop} {o : Option α} {o' : Option β}
    (h : Option.Rel R o o') : o.isSome = o'.isSome := by
  rcases h with _ | _ <;> rfl

/-! ### Names -/

variable (hm : Matches ρ τ s t)
include hm

theorem agree_lookup (var : String) : Agree (Value.Rel ρ) (s.lookup var) (t.lookup var) := by
  have hvar := hm.vars var
  rw [lookup, lookup]
  generalize s.env.get? var = o at hvar
  generalize t.env.get? var = o' at hvar
  rcases hvar with hb | _
  · exact .ok hb.value
  · exact .error rfl

theorem agree_setVar (name : String) : Agree τ (s.setVar name) (t.setVar name) := by
  have hset := hm.sets name
  rw [setVar, setVar]
  generalize s.heap.sets.lookup? name = o at hset
  generalize t.heap.sets.lookup? name = o' at hset
  rcases hset with hv | _
  · exact .ok hv
  · exact .error rfl

theorem pointee_eq (var : String) : s.pointee var = t.pointee var := by
  have hvar := hm.vars var
  rw [pointee, pointee]
  generalize s.env.get? var = o at hvar
  generalize t.env.get? var = o' at hvar
  rcases hvar with hb | _
  · rename_i a b
    obtain ⟨ty, v⟩ := a
    obtain ⟨ty', w⟩ := b
    obtain rfl : ty = ty' := hb.ty
    rcases ty with _ | _ <;> rfl
  · rfl

theorem agree_params (block : ParamBlock) :
    Agree (Params.Rel ρ τ) (s.params block) (t.params block) := by
  have hptr (name : String) : Agree (Value.Rel ρ) (s.pointerParam name) (t.pointerParam name) := by
    rw [pointerParam, pointerParam]
    split
    · exact .ok .null
    · exact agree_lookup hm name
  refine (Alike.listMapM hptr block.ptrs).bind fun ptrs ptrs' hptrs => ?_
  refine (Alike.listMapM (agree_setVar hm) block.sets).bind fun sets sets' hsets => ?_
  exact .ok ⟨hptrs, hsets⟩

theorem isKnown_eq : s.isKnown = t.isKnown := by
  funext name
  rw [isKnown, isKnown, isSome_of_rel (hm.vars name), isSome_of_rel (hm.sets name)]

/-! ### Directives -/

omit hm in
/-- Which names are taken depends on the declared names only. -/
theorem taken_eq {a b : SetStore} (names : List String)
    (h : ∀ name, (a.names.get? name).isSome = (b.names.get? name).isSome) :
    (declareSets a names).1 = (declareSets b names).1 := by
  induction names generalizing a b with
  | nil => rfl
  | cons name names ih =>
    have hname := h name
    rw [declareSets, declareSets, SetStore.declare?, SetStore.declare?]
    rcases ha : a.names.get? name with _ | v <;> rcases hb : b.names.get? name with _ | w <;>
      rw [ha, hb] at hname
    · refine ih fun other => ?_
      show ((a.names.insert name _).get? other).isSome = ((b.names.insert name _).get? other).isSome
      rw [NameMap.get?_insert, NameMap.get?_insert]
      split
      · rfl
      · exact h other
    · cases hname
    · cases hname
    · exact congrArg (name :: ·) (ih h)

omit hm in
theorem put_of_vacant {h : Heap} {loc : Loc} (hlt : loc.index < h.size) (hs : h.slot loc = .vacant)
    (f : Fact) : h.put loc f = .ok (h.write loc (.occupied f)) := by
  have hentry : h.arena.entry loc.index = .ok .vacant := by
    rw [Arena.entry]
    exact (if_pos hlt).trans (congrArg _ hs)
  rw [Heap.put, Arena.put, hentry]
  rfl

omit hm in
/-- A fact can be recorded of the location that is chosen for a variable. -/
theorem exists_put {var : String} {b : Binding} (hb : s.env.get? var = some b)
    (hk : s.heap.Knows b.value) : ∃ loc s', s.opaqueLoc var = .ok (loc, s') ∧
      ∀ f, ∃ heap, s'.heap.put loc f = .ok heap := by
  rcases opaqueLoc_cases hb with ⟨loc, hv, hvacant, ho⟩ | ho
  · exact ⟨loc, s, ho, fun f => ⟨_, put_of_vacant (hk loc hv) (of_decide_eq_true hvacant) f⟩⟩
  · refine ⟨_, _, ho, fun f => ⟨_, put_of_vacant ?_ ?_ f⟩⟩
    · exact (Heap.size_fresh _).symm ▸ Nat.lt_succ_self _
    · exact (Heap.slot_fresh _ _).trans (Arena.slot_of_size_le le_rfl)

theorem agree_addInductive (structs : Structs) (var : String) (pred : Predicate) (block : ParamBlock) :
    Agree (fun r r' => r.1.isPass = r'.1.isPass) (s.addInductive structs var pred block)
      (t.addInductive structs var pred block) := by
  rw [addInductive, addInductive, pointee_eq hm]
  rcases hty : t.pointee var with d | ty
  · exact .error rfl
  · show Agree _ (if (pred.layout? structs ty).isNone then _ else _)
      (if (pred.layout? structs ty).isNone then _ else _)
    split
    · exact .ok rfl
    · refine (agree_params hm block).bind fun p p' _ => ?_
      -- The variable exists, so in both states there is a location that can be filled.
      have hvar := hm.vars var
      rcases hs : s.env.get? var with _ | b <;> rcases ht : t.env.get? var with _ | b' <;>
        rw [hs, ht] at hvar
      · rw [pointee, ht] at hty
        cases hty
      · cases hvar
      · cases hvar
      · obtain ⟨l, s', hl, hput⟩ := exists_put hs (hm.known var b hs)
        obtain ⟨l', t', hl', hput'⟩ := exists_put ht (hm.known' var b' ht)
        obtain ⟨h, hh⟩ := hput (.summary ⟨pred, ty, p, none⟩)
        obtain ⟨k, hk⟩ := hput' (.summary ⟨pred, ty, p', none⟩)
        rw [hl, hl']
        simp only [bind, Except.bind, hh, hk]
        exact .ok rfl

theorem agree_checkInductive (structs : Structs) (var : String) (pred : Predicate)
    (block : Option ParamBlock) :
    Agree (fun r r' => r.1.isPass = r'.1.isPass) (s.checkInductive structs var pred block)
      (t.checkInductive structs var pred block) := by
  refine (agree_lookup hm var).bind fun v v' hv => ?_
  refine (Alike.optionMapM (agree_params hm) block).bind fun p p' hp => ?_
  have hcheck := Heap.agree_check hm.heap hm.once structs hv pred hp
  generalize s.heap.check structs v pred p = x at hcheck
  generalize t.heap.check structs v' pred p' = y at hcheck
  rcases hcheck with _ | he
  · exact .ok rfl
  · rename_i e e'
    rcases e with m | m <;> rcases e' with m' | m'
    · exact .ok rfl
    · exact absurd (show "ShapeMismatchError" = "Misuse" from he) (by decide)
    · exact absurd (show "Misuse" = "ShapeMismatchError" from he) (by decide)
    · exact .error rfl

/-- Directives are judged alike on states that correspond. -/
theorem agree_judge (structs : Structs) (d : Directive) :
    Agree (fun r r' => r.1.isPass = r'.1.isPass) (s.judge structs d) (t.judge structs d) := by
  rcases d with names | ⟨sub, sup⟩ | ⟨var, pred, block⟩ | ⟨var, pred, block⟩ | names
  · refine .ok ?_
    have htaken := taken_eq (a := s.heap.sets) (b := t.heap.sets) names fun name => by
      have h := isSome_of_rel (hm.sets name)
      rwa [SetStore.lookup?, SetStore.lookup?, Option.isSome_map, Option.isSome_map] at h
    dsimp only
    rw [htaken]
  · refine (agree_setVar hm sub).bind fun v v' _ => ?_
    exact (agree_setVar hm sup).bind fun w w' _ => .ok rfl
  · exact agree_addInductive hm structs var pred block
  · exact agree_checkInductive hm structs var pred block
  · rw [judge, judge, isKnown_eq hm]
    split
    · exact .error rfl
    · exact .ok rfl

end State

end HeapShape
