import HeapShape.Proofs.Aliasing
import Mathlib.Data.List.Find

/-!
# What becoming aliases changes

When two variables become aliases, the representative of one of them, about which nothing is
recorded, gives way to the representative of the other. Constraints are read through
representatives, so that each answer of a store could change at this moment. But no constraint
mentions a variable of the class that gives way. So a variable of this class is from now on as if it
were the other representative, and questions about other variables have the answers that they had.

* `SetStore.standIn`: the variable that a question is about after a representative gave way;
* `SetStore.AnswersAs`: one store answers questions as another one does about other variables;
* `SetStore.Redirects.answersAs`: what one representative that gives way does to all answers;
* `SetStore.unify_answers`: the answers after two variables became aliases.
-/

namespace HeapShape

open List

namespace SetStore

variable {s s' : SetStore} {a b c d v : SetVar}

/-- The variable that a question about `v` is about after `c` gave way to `d`. -/
def standIn (s : SetStore) (c d v : SetVar) : SetVar := if s.resolve v = c then d else v

/-- A store answers each question about variables as `s` answers it about the variables that `f`
    gives for them. -/
structure AnswersAs (s' s : SetStore) (f : SetVar → SetVar) : Prop where
  isSubset : ∀ v w, s'.isSubset v w = s.isSubset (f v) (f w)
  isKnownEmpty : ∀ v, s'.isKnownEmpty v = s.isKnownEmpty (f v)
  contains : ∀ v loc, s'.contains v loc = s.contains (f v) loc
  splitOf? : ∀ v loc, s'.splitOf? v loc = s.splitOf? (f v) loc
  isDeclared : ∀ v, s'.isDeclared v = s.isDeclared (f v)

theorem standIn_of_ne (hv : s.resolve v ≠ c) : s.standIn c d v = v := if_neg hv

namespace Redirects

section

variable (h : s.Redirects c d s') (hd : s.resolve d = d)

include h hd

theorem resolve_standIn (v : SetVar) : s'.resolve v = s.resolve (s.standIn c d v) := by
  rw [h.resolve, standIn]
  split
  · exact hd.symm
  · rfl

variable (hu : s.isUnconstrained c = true) (hc : s.resolve c = c)

include hu hc

theorem isKnownEmpty_eq (v : SetVar) : s'.isKnownEmpty v = s.isKnownEmpty (s.standIn c d v) := by
  rw [Bool.eq_iff_iff, h.isKnownEmpty_iff hu hc, h.resolve_standIn hd, SetStore.isKnownEmpty_iff]

theorem isSubset_eq (v w : SetVar) :
    s'.isSubset v w = s.isSubset (s.standIn c d v) (s.standIn c d w) := by
  rw [Bool.eq_iff_iff, isSubset_iff, isSubset_iff, h.isKnownEmpty_eq hd hu hc, h.edges hu hc,
    h.resolve_standIn hd, h.resolve_standIn hd]

theorem contains_eq (v : SetVar) (loc : Loc) :
    s'.contains v loc = s.contains (s.standIn c d v) loc := by
  rw [Bool.eq_iff_iff, SetStore.contains, SetStore.contains, h.splits, any_eq_true, any_eq_true]
  refine exists_congr fun p => and_congr_right fun hp => ?_
  have hne : s.resolve p.whole ≠ c := hc ▸ ((isUnconstrained_iff.1 hu).2.2.2 p hp).1
  rw [h.isSubset_eq hd hu hc, standIn_of_ne hne]

theorem splitOf?_eq (v : SetVar) (loc : Loc) :
    s'.splitOf? v loc = s.splitOf? (s.standIn c d v) loc := by
  rw [SetStore.splitOf?, SetStore.splitOf?, h.splits, h.resolve_standIn hd]
  have hfind : (s.splits.find? fun p => p.elem = loc && s'.resolve p.whole = s.resolve (s.standIn c d v)) =
      s.splits.find? fun p => p.elem = loc && s.resolve p.whole = s.resolve (s.standIn c d v) := by
    refine find?_congr fun p hp => ?_
    rw [(h.resolve_split hu hc hp).1]
  rw [hfind]
  refine Option.map_congr fun p hp => ?_
  rw [(h.resolve_split hu hc (mem_of_find?_eq_some hp)).2]

theorem isDeclared_eq (v : SetVar) : s'.isDeclared v = s.isDeclared (s.standIn c d v) := by
  rw [Bool.eq_iff_iff, isDeclared_iff, isDeclared_iff, h.names, h.resolve_standIn hd]
  refine exists_congr fun e => and_congr_right fun he => ?_
  -- What gives way is no alias of a declared variable.
  have hne : s.resolve e.2 ≠ c := by
    intro heq
    have hdecl := isDeclared_iff.2 ⟨e, he, heq.trans hc.symm⟩
    rw [(isUnconstrained_iff.1 hu).1] at hdecl
    cases hdecl
  rw [h.resolve, if_neg hne]

/-- After a representative that no constraint mentions gave way, the variables of its class are as
    the other representative, and all others are as before. -/
theorem answersAs : s'.AnswersAs s (s.standIn c d) where
  isSubset := h.isSubset_eq hd hu hc
  isKnownEmpty := h.isKnownEmpty_eq hd hu hc
  contains := h.contains_eq hd hu hc
  splitOf? := h.splitOf?_eq hd hu hc
  isDeclared := h.isDeclared_eq hd hu hc

end

end Redirects

/-- After any row of operations, two variables that are not aliases yet become aliases as one of their
    representatives gives way to the other. Then each question about variables of other classes is
    answered as before, and each question about variables of the class that gave way is answered as it
    was for the other representative. -/
theorem unify_answers (ops : List Operation) (h : (empty.run ops).unify a b = .ok (some s')) :
    let s := empty.run ops
    s.resolve a = s.resolve b ∧ s' = s ∨
      ∃ c d, (c = s.resolve a ∧ d = s.resolve b ∨ c = s.resolve b ∧ d = s.resolve a) ∧ c ≠ d ∧
        s.isUnconstrained c = true ∧ (∀ v, s'.resolve v = if s.resolve v = c then d else s.resolve v) ∧
        s'.AnswersAs s (s.standIn c d) := by
  intro s
  have hs : s.Valid := (linked_empty.run ops).valid
  rcases unify_cases h with hsame | ⟨c, d, hcd, hu, hne, hr⟩
  · exact .inl hsame
  · refine .inr ⟨c, d, hcd, hne, hu, hr.resolve, ?_⟩
    rcases hcd with ⟨rfl, rfl⟩ | ⟨rfl, rfl⟩
    · exact hr.answersAs (hs.reprs b) hu (hs.reprs a)
    · exact hr.answersAs (hs.reprs a) hu (hs.reprs b)

/-- A declared set that is split and included in another one, and a variable that is not bound yet. -/
def Sample.unbound : List Operation :=
  [.declare "E", .declare "F", .fresh, .fresh, .assumeSubset ⟨1⟩ ⟨0⟩, .addSplit ⟨1⟩ ⟨7⟩ ⟨2⟩]

theorem unify_answers_unbound :
    let s := empty.run Sample.unbound
    let s' := s.perform (.unify ⟨3⟩ ⟨1⟩)
    s.unify ⟨3⟩ ⟨1⟩ = .ok (some s') ∧ s.isSubset ⟨3⟩ ⟨0⟩ = false ∧ s.isSubset ⟨1⟩ ⟨0⟩ = true ∧
      s'.isSubset ⟨3⟩ ⟨0⟩ = s.isSubset ⟨1⟩ ⟨0⟩ ∧ s'.contains ⟨3⟩ ⟨7⟩ = s.contains ⟨1⟩ ⟨7⟩ ∧
      s'.splitOf? ⟨3⟩ ⟨7⟩ = s.splitOf? ⟨1⟩ ⟨7⟩ ∧ s'.isSubset ⟨2⟩ ⟨1⟩ = s.isSubset ⟨2⟩ ⟨1⟩ := by
  intro s s'
  have h : s.unify ⟨3⟩ ⟨1⟩ = .ok (some s') := rfl
  refine ⟨h, by decide +kernel, by decide +kernel, ?_⟩
  obtain ⟨hsame, -⟩ | ⟨c, d, hcd, -, hu, -, hans⟩ := unify_answers Sample.unbound h
  · exact absurd hsame (by decide +kernel)
  · obtain ⟨rfl, rfl⟩ | ⟨rfl, rfl⟩ := hcd
    · exact ⟨hans.isSubset ⟨3⟩ ⟨0⟩, hans.contains ⟨3⟩ ⟨7⟩, hans.splitOf? ⟨3⟩ ⟨7⟩, hans.isSubset ⟨2⟩ ⟨1⟩⟩
    · exact absurd hu (by decide +kernel)

end SetStore

end HeapShape
