import HeapShape.Proofs.SetMeaning
import Mathlib.Data.Nat.Find
import Mathlib.Logic.Function.Iterate

/-!
# Aliases form a forest

A store keeps the representative of each variable. Here it is accompanied by *links*: each variable
has a parent, itself when it is given out, and when two representatives become aliases, the one that
gives way gets the other as its parent. Nothing else ever changes a link.

* `SetStore.Operation`, `SetStore.run`: everything that is done to a store, in any order;
* `Links.follow`: the links after a row of operations;
* `Links.Step`: what one operation can do to a store and its links. All invariants follow from it;
* `Links.Forest`: parents lead from each variable to its representative;
* `SetStore.Distinguishes`: declared variables represent themselves, and no two names share one;
* `SetStore.aliases_form_forest`: both hold after every row of operations, and aliases stay aliases.
-/

namespace HeapShape

open List

theorem NameMap.get?_of_mem {α : Type} {m : NameMap α} {e : String × α}
    (h : (m.entries.map Prod.fst).Nodup) (he : e ∈ m.entries) : m.get? e.1 = some e.2 := by
  obtain ⟨l⟩ := m
  simp only [get?] at h he ⊢
  induction l with
  | nil => cases he
  | cons e' l ih => grind [find]

/-- Up to the first time that a value is reached, the iterates of a function are different. -/
theorem exists_iterate_injOn {α : Type} {f : α → α} {a b : α} {n : Nat} (h : f^[n] a = b) :
    ∃ m, f^[m] a = b ∧ ∀ i ≤ m, ∀ j ≤ m, f^[i] a = f^[j] a → i = j := by
  classical
  have hex : ∃ m, f^[m] a = b := ⟨n, h⟩
  have hb := Nat.find_spec hex
  -- If two iterates were the same, the value would be reached earlier by what is between them.
  have hne {i j : Nat} (hij : i < j) (hj : j ≤ Nat.find hex) : f^[i] a ≠ f^[j] a := by
    intro heq
    have hshort : f^[Nat.find hex - j + i] a = b := by
      rw [Function.iterate_add_apply, heq, ← Function.iterate_add_apply, Nat.sub_add_cancel hj, hb]
    exact Nat.find_min hex (by omega) hshort
  refine ⟨Nat.find hex, hb, fun i hi j hj heq => ?_⟩
  rcases Nat.lt_trichotomy i j with hlt | heq' | hlt
  · exact absurd heq (hne hlt hj)
  · exact heq'
  · exact absurd heq.symm (hne hlt hi)

/-! ### Operations -/

namespace SetStore

/-- What can be done to a store. -/
inductive Operation where
  /-- Give out a variable. -/
  | fresh
  /-- Give out a variable under a name. -/
  | declare (name : String)
  /-- Record an inclusion. -/
  | assumeSubset (sub sup : SetVar)
  /-- Record a split. -/
  | addSplit (whole : SetVar) (elem : Loc) (rest : SetVar)
  /-- Record that a set is empty. -/
  | setEmpty (v : SetVar)
  /-- Make two variables aliases. -/
  | unify (a b : SetVar)
  /-- Assume that two sets are equal. -/
  | equate (a b : SetVar)
  /-- Put a value in the place of a location. -/
  | substLoc (loc : Loc) (w : Value)
  /-- Forget what is not live. -/
  | retain (vars : List SetVar) (locs : List Loc)

/-- What an operation makes of a store. One that is refused leaves it as it is. -/
def perform (s : SetStore) : Operation → SetStore
  | .fresh => s.fresh.2
  | .declare name => ((s.declare? name).map Prod.snd).getD s
  | .assumeSubset sub sup => s.assumeSubset sub sup
  | .addSplit whole elem rest => (s.addSplit? whole elem rest).getD s
  | .setEmpty v => (s.setEmpty? v).getD s
  | .unify a b => (s.unify a b).toOption.join.getD s
  | .equate a b => (s.equate a b).toOption.getD s
  | .substLoc loc w => s.substLoc loc w
  | .retain vars locs => s.retain vars locs

/-- What a row of operations makes of a store. -/
def run (s : SetStore) (ops : List Operation) : SetStore := ops.foldl perform s

theorem declare?_of_none {s : SetStore} {name : String} (hn : s.names.get? name = none) :
    s.declare? name = some (s.fresh.1, { s.fresh.2 with names := s.names.insert name s.fresh.1 }) := by
  rw [declare?, hn]
  rfl

theorem keeps_assumeSubset (s : SetStore) (a b : SetVar) :
    (s.assumeSubset a b).names = s.names ∧ (s.assumeSubset a b).reprs = s.reprs := by
  rw [assumeSubset]
  split
  · exact ⟨rfl, rfl⟩
  · exact ⟨rfl, rfl⟩

end SetStore

/-! ### Links -/

/-- The parent of each variable that was given out, at the place that its number says. -/
structure Links where
  parents : List SetVar
  deriving DecidableEq

namespace Links

open SetStore (Operation)

/-- The parent of a variable. One that was never given out is its own. -/
def parent (l : Links) (v : SetVar) : SetVar := l.parents.getD v.id v

/-- A variable is its own parent, or was never given out. -/
def IsRoot (l : Links) (v : SetVar) : Prop := l.parents[v.id]? = some v ∨ l.parents.length ≤ v.id

instance (l : Links) (v : SetVar) : Decidable (l.IsRoot v) := inferInstanceAs (Decidable (_ ∨ _))

/-- A new variable is its own parent. -/
def push (l : Links) : Links := ⟨l.parents ++ [⟨l.parents.length⟩]⟩

/-- Give `d` as the parent to `c`. -/
def link (l : Links) (c d : SetVar) : Links := ⟨l.parents.set c.id d⟩

/-- Link the representative that gives way when two variables of a store become aliases. -/
def unify (l : Links) (s : SetStore) (a b : SetVar) : Links :=
  if s.resolve a = s.resolve b then l
  else if s.isUnconstrained (s.resolve a) then l.link (s.resolve a) (s.resolve b)
  else if s.isUnconstrained (s.resolve b) then l.link (s.resolve b) (s.resolve a)
  else l

/-- What an operation on a store makes of the links. -/
def perform (l : Links) (s : SetStore) : Operation → Links
  | .fresh => l.push
  | .declare name => if (s.names.get? name).isSome then l else l.push
  | .unify a b | .equate a b => l.unify s a b
  | _ => l

/-- What a row of operations on a store makes of the links. -/
def follow (l : Links) (s : SetStore) : List Operation → Links
  | [] => l
  | op :: ops => (l.perform s op).follow (s.perform op) ops

variable {l l' : Links} {s s' : SetStore} {a b c d v : SetVar}

theorem isRoot_iff : l.IsRoot v ↔ l.parent v = v := by
  rw [IsRoot, parent, getD_eq_getElem?_getD]
  cases hv : l.parents[v.id]? with
  | none => simp [List.getElem?_eq_none_iff.1 hv]
  | some w =>
    obtain ⟨hlt, -⟩ := List.getElem?_eq_some_iff.1 hv
    simp [Nat.not_le.2 hlt]

theorem parent_push (l : Links) (v : SetVar) : l.push.parent v = l.parent v :=
  SetStore.resolve_fresh { SetStore.empty with reprs := l.parents } v

theorem parent_link (hc : c.id < l.parents.length) (d v : SetVar) :
    (l.link c d).parent v = if v = c then d else l.parent v := by
  rw [parent, parent, link, getD_eq_getElem?_getD, getD_eq_getElem?_getD, getElem?_set]
  by_cases hv : v = c
  · subst hv
    rw [if_pos rfl, if_pos hc, if_pos rfl, Option.getD_some]
  · have hid : c.id ≠ v.id := fun h => hv (congrArg SetVar.mk h.symm)
    rw [if_neg hid, if_neg hv]

/-! ### Steps -/

/-- What one operation can do to a store and its links. -/
inductive Step (l : Links) (s : SetStore) : Links → SetStore → Prop where
  /-- Names and representatives stay. -/
  | keep {s' : SetStore} (hnames : s'.names = s.names) (hreprs : s'.reprs = s.reprs) : Step l s l s'
  /-- A variable is given out. -/
  | fresh : Step l s l.push s.fresh.2
  /-- A variable is given out under a name. -/
  | declare {name : String} (hn : s.names.get? name = none) :
      Step l s l.push { s.fresh.2 with names := s.names.insert name s.fresh.1 }
  /-- A representative about which nothing is recorded gives way to another one. -/
  | link {c d : SetVar} {s' : SetStore} (hu : s.isUnconstrained c = true) (hc : s.resolve c = c)
      (hd : s.resolve d = d) (hne : c ≠ d) (hlt : c.id < s.reprs.length) (hr : s.Redirects c d s') :
      Step l s (l.link c d) s'

section

variable (hs : s.Valid) (hl : l.parents.length = s.reprs.length)

include hl in
theorem step_redirect (hu : s.isUnconstrained c = true) (hc : s.resolve c = c) (hd : s.resolve d = d)
    (hne : c ≠ d) : l.Step s (l.link c d) ((s.redirect c d).toOption.getD s) := by
  by_cases hlt : c.id < s.reprs.length
  · have hr : s.redirect c d = .ok _ := if_pos hlt
    rw [hr]
    exact .link hu hc hd hne hlt (SetStore.redirects_of_redirect hr)
  · have hr : s.redirect c d = .error .outOfBounds := if_neg hlt
    have hlink : l.link c d = l :=
      congrArg Links.mk (set_eq_of_length_le (hl ▸ Nat.not_lt.1 hlt))
    rw [hr, hlink]
    exact .keep rfl rfl

include hs hl

theorem step_unify (a b : SetVar) : l.Step s (l.unify s a b) (s.perform (.unify a b)) := by
  have hmap (r : Except Misuse SetStore) : (r.map some).toOption.join = r.toOption := by
    cases r <;> rfl
  simp only [SetStore.perform, unify, SetStore.unify]
  split
  · exact .keep rfl rfl
  · rename_i hne
    split
    · rename_i hu
      rw [hmap]
      exact step_redirect hl hu (hs.reprs a) (hs.reprs b) hne
    · split
      · rename_i hu
        rw [hmap]
        exact step_redirect hl hu (hs.reprs b) (hs.reprs a) (Ne.symm hne)
      · exact .keep rfl rfl

omit hs hl in
/-- Variables that stay apart are not linked. -/
theorem unify_of_none (h : s.unify a b = .ok none) : l.unify s a b = l := by
  have hmap (r : Except Misuse SetStore) : r.map some ≠ .ok none := by
    rintro h
    cases r <;> cases h
  simp only [SetStore.unify] at h
  rw [unify]
  split at h
  · cases h
  · split at h
    · exact absurd h (hmap _)
    · split at h
      · exact absurd h (hmap _)
      · rename_i hne ha hb
        rw [if_neg hne, if_neg ha, if_neg hb]

theorem step_equate (a b : SetVar) : l.Step s (l.unify s a b) (s.perform (.equate a b)) := by
  have hstep := step_unify hs hl a b
  simp only [SetStore.perform, SetStore.equate] at hstep ⊢
  cases hu : s.unify a b with
  | error m => rwa [hu] at hstep
  | ok r =>
    cases r with
    | some s' => rwa [hu] at hstep
    | none =>
      rw [unify_of_none hu]
      have hab := s.keeps_assumeSubset a b
      have hba := (s.assumeSubset a b).keeps_assumeSubset b a
      exact .keep (hba.1.trans hab.1) (hba.2.trans hab.2)

theorem step_perform (op : Operation) : l.Step s (l.perform s op) (s.perform op) := by
  cases op with
  | fresh => exact .fresh
  | declare name =>
    cases hn : s.names.get? name with
    | some v =>
      have hd : s.declare? name = none := by rw [SetStore.declare?, hn]
      simp only [perform, SetStore.perform, hn, hd]
      exact .keep rfl rfl
    | none =>
      simp only [perform, SetStore.perform, hn, SetStore.declare?_of_none hn]
      exact .declare hn
  | assumeSubset sub sup =>
    have h := s.keeps_assumeSubset sub sup
    exact .keep h.1 h.2
  | addSplit whole elem rest =>
    simp only [perform, SetStore.perform]
    cases h : s.addSplit? whole elem rest with
    | none => exact .keep rfl rfl
    | some s' =>
      obtain ⟨-, rfl | rfl⟩ := SetStore.addSplit?_eq_some h
      · exact .keep rfl rfl
      · exact .keep rfl rfl
  | setEmpty v =>
    simp only [perform, SetStore.perform]
    cases h : s.setEmpty? v with
    | none => exact .keep rfl rfl
    | some s' =>
      obtain ⟨-, rfl⟩ := SetStore.setEmpty?_eq_some h
      exact .keep rfl rfl
  | unify a b => exact step_unify hs hl a b
  | equate a b => exact step_equate hs hl a b
  | substLoc loc w => exact .keep rfl rfl
  | retain vars locs => exact .keep rfl rfl

end

/-! ### What steps keep -/

namespace Step

theorem valid (h : l.Step s l' s') (hs : s.Valid) : s'.Valid := by
  cases h with
  | keep hnames hreprs =>
    refine ⟨hnames ▸ hs.names, fun v => ?_⟩
    simp only [SetStore.resolve, hreprs]
    exact hs.reprs v
  | fresh => exact SetStore.Change.valid .fresh hs
  | declare hn => exact hs.declare? (SetStore.declare?_of_none hn)
  | link _ _ hd hne _ hr => exact hr.valid hs hne hd

theorem length (h : l.Step s l' s') (hl : l.parents.length = s.reprs.length) :
    l'.parents.length = s'.reprs.length := by
  have hpush : l.push.parents.length = s.fresh.2.reprs.length := by
    show (l.parents ++ [_]).length = (s.reprs ++ [_]).length
    rw [length_append, length_append, hl]
  cases h with
  | keep _ hreprs => rw [hl, hreprs]
  | fresh => exact hpush
  | declare _ => exact hpush
  | link _ _ _ _ _ hr => rw [Links.link, length_set, hl, hr.length]

/-- Aliases stay aliases. -/
theorem resolve_congr (h : l.Step s l' s') (hab : s.resolve a = s.resolve b) :
    s'.resolve a = s'.resolve b := by
  have hfresh : s.fresh.2.resolve a = s.fresh.2.resolve b := by
    rw [SetStore.resolve_fresh, SetStore.resolve_fresh, hab]
  cases h with
  | keep _ hreprs =>
    simp only [SetStore.resolve, hreprs]
    exact hab
  | fresh => exact hfresh
  | declare _ => exact hfresh
  | link _ _ _ _ _ hr => exact hr.resolve_congr hab

end Step

/-- Parents lead from each variable to its representative. -/
structure Forest (l : Links) (s : SetStore) : Prop where
  length : l.parents.length = s.reprs.length
  root : ∀ v, l.parent (s.resolve v) = s.resolve v
  leads : ∀ v, ∃ n, l.parent^[n] v = s.resolve v

theorem forest_empty : Forest ⟨[]⟩ .empty := ⟨rfl, fun _ => rfl, fun _ => ⟨0, rfl⟩⟩

/-- Where neither parents nor representatives change, nothing does. -/
theorem Forest.congr (h : l.Forest s) (hlength : l'.parents.length = s'.reprs.length)
    (hparent : ∀ v, l'.parent v = l.parent v) (hresolve : ∀ v, s'.resolve v = s.resolve v) :
    l'.Forest s' := by
  have hparent : l'.parent = l.parent := funext hparent
  refine ⟨hlength, fun v => ?_, fun v => ?_⟩
  · rw [hparent, hresolve]
    exact h.root v
  · rw [hparent, hresolve]
    exact h.leads v

/-- A link from one root to another extends the ways that ended at the first one. -/
theorem Forest.link (h : l.Forest s) (hc : s.resolve c = c) (hd : s.resolve d = d) (hne : c ≠ d)
    (hlt : c.id < s.reprs.length) (hr : s.Redirects c d s') : (l.link c d).Forest s' := by
  have hparent := parent_link (l := l) (h.length ▸ hlt) d
  have hrest {v : SetVar} (hv : v ≠ c) : (l.link c d).parent v = l.parent v := by
    rw [hparent, if_neg hv]
  have hself {v : SetVar} (hv : s.resolve v = v) : l.parent v = v := by
    rw [← hv, h.root]
  -- Up to the first time that it meets `c`, a way is the same as before.
  have hway {v : SetVar} {n : Nat} (hn : ∀ i < n, l.parent^[i] v ≠ c) :
      (l.link c d).parent^[n] v = l.parent^[n] v := by
    induction n with
    | zero => rfl
    | succ n ih =>
      rw [Function.iterate_succ_apply', Function.iterate_succ_apply',
        ih fun i hi => hn i (Nat.lt_succ_of_lt hi), hrest (hn n (Nat.lt_succ_self n))]
  refine ⟨?_, fun v => ?_, fun v => ?_⟩
  · rw [Links.link, length_set, h.length, hr.length]
  · rw [hr.resolve]
    split
    · rw [hrest (Ne.symm hne), hself hd]
    · rename_i hv
      rw [hrest hv, h.root]
  · obtain ⟨n, hn⟩ := h.leads v
    obtain ⟨m, hm, hinj⟩ := exists_iterate_injOn hn
    -- A way that met `c` would stay there, and so it can only be the end of it.
    have hbefore : ∀ i < m, l.parent^[i] v ≠ c := by
      intro i hi hmeet
      have hstay : l.parent^[i + 1] v = l.parent^[i] v := by
        rw [Function.iterate_succ_apply', hmeet, hself hc]
      exact absurd (hinj (i + 1) hi i (Nat.le_of_lt hi) hstay) (Nat.succ_ne_self i)
    have hm' := (hway hbefore).trans hm
    rw [hr.resolve]
    split
    · rename_i hv
      exact ⟨m + 1, by rw [Function.iterate_succ_apply', hm', hparent, if_pos hv]⟩
    · exact ⟨m, hm'⟩

theorem Forest.step (h : l.Forest s) (hstep : l.Step s l' s') : l'.Forest s' := by
  have hlength := hstep.length h.length
  cases hstep with
  | keep _ hreprs => exact h.congr hlength (fun _ => rfl) fun v => by rw [SetStore.resolve, hreprs]; rfl
  | fresh => exact h.congr hlength l.parent_push s.resolve_fresh
  | declare _ => exact h.congr hlength l.parent_push s.resolve_fresh
  | link _ hc hd hne hlt hr => exact h.link hc hd hne hlt hr

end Links

/-! ### Declared names -/

namespace SetStore

variable {l l' : Links} {s s' : SetStore} {v w : SetVar} {name name' : String}

/-- Declared variables were given out and represent themselves, and no two names share one. -/
structure Distinguishes (s : SetStore) : Prop where
  issued : ∀ name v, s.names.get? name = some v → v.id < s.reprs.length
  own : ∀ name v, s.names.get? name = some v → s.resolve v = v
  apart : ∀ name name' v, s.names.get? name = some v → s.names.get? name' = some v → name = name'

theorem distinguishes_empty : empty.Distinguishes := ⟨nofun, nofun, nofun⟩

/-- Names stay distinguished where their variables keep their representatives. -/
theorem Distinguishes.congr (h : s.Distinguishes) (hnames : s'.names = s.names)
    (hlength : s.reprs.length ≤ s'.reprs.length)
    (hresolve : ∀ name v, s.names.get? name = some v → s'.resolve v = s.resolve v) : s'.Distinguishes := by
  constructor
  · rw [hnames]
    exact fun name v hv => Nat.lt_of_lt_of_le (h.issued name v hv) hlength
  · rw [hnames]
    exact fun name v hv => (hresolve name v hv).trans (h.own name v hv)
  · rw [hnames]
    exact h.apart

theorem length_fresh (s : SetStore) : s.fresh.2.reprs.length = s.reprs.length + 1 := by
  show (s.reprs ++ [_]).length = _
  rw [length_append]
  rfl

/-- A new variable represents itself, and is none of those that were declared. -/
theorem Distinguishes.declare (h : s.Distinguishes) (name : String) :
    Distinguishes { s.fresh.2 with names := s.names.insert name s.fresh.1 } := by
  have hget {other : String} {v : SetVar} (hv : (s.names.insert name s.fresh.1).get? other = some v) :
      other = name ∧ v = s.fresh.1 ∨ s.names.get? other = some v := by
    rw [NameMap.get?_insert] at hv
    split at hv
    · exact .inl ⟨‹_›, (Option.some.inj hv).symm⟩
    · exact .inr hv
  have hold {other : String} : s.names.get? other ≠ some s.fresh.1 :=
    fun hv => Nat.lt_irrefl _ (h.issued _ _ hv)
  refine ⟨fun other v hv => ?_, fun other v hv => ?_, fun other other' v hv hv' => ?_⟩
  · rw [length_fresh]
    rcases hget hv with ⟨-, rfl⟩ | hv
    · exact Nat.lt_succ_self _
    · exact Nat.lt_succ_of_lt (h.issued other v hv)
  · show s.fresh.2.resolve v = v
    rw [resolve_fresh]
    rcases hget hv with ⟨-, rfl⟩ | hv
    · have hnew : s.reprs[s.fresh.1.id]? = none := getElem?_eq_none (Nat.le_refl _)
      rw [resolve, getD_eq_getElem?_getD, hnew, Option.getD_none]
    · exact h.own other v hv
  · rcases hget hv with ⟨rfl, rfl⟩ | hv
    · rcases hget hv' with ⟨rfl, -⟩ | hv'
      · rfl
      · exact absurd hv' hold
    · rcases hget hv' with ⟨-, rfl⟩ | hv'
      · exact absurd hv hold
      · exact h.apart other other' v hv hv'

theorem Distinguishes.step (h : s.Distinguishes) (hstep : l.Step s l' s') : s'.Distinguishes := by
  cases hstep with
  | keep hnames hreprs =>
    refine h.congr hnames (by rw [hreprs]) fun _ v _ => ?_
    rw [resolve, resolve, hreprs]
  | fresh => exact h.congr rfl (by rw [length_fresh]; exact Nat.le_succ _) fun _ v _ => s.resolve_fresh v
  | declare _ => exact h.declare _
  | @link c _ _ hu hc _ _ _ hr =>
    refine h.congr hr.names (Nat.le_of_eq hr.length.symm) fun name v hv => ?_
    -- What gives way is no alias of a declared variable.
    have hne : s.resolve v ≠ c := by
      intro hv'
      have hdeclared : s.isDeclared c = true :=
        isDeclared_iff.2 ⟨(name, v), NameMap.mem_of_get? hv, hv'.trans hc.symm⟩
      rw [(isUnconstrained_iff.1 hu).1] at hdeclared
      cases hdeclared
    rw [hr.resolve, if_neg hne]

/-- A declared variable is found under its name, and its name is found for it. -/
theorem Distinguishes.nameOf? (h : s.Distinguishes) (hs : s.Valid) (hv : s.names.get? name = some v) :
    s.lookup? name = some v ∧ s.nameOf? v = some name := by
  constructor
  · rw [lookup?, hv, Option.map_some, h.own name v hv]
  · have hmem := NameMap.mem_of_get? hv
    have hsome : (s.names.entries.find? fun e => s.resolve e.2 = s.resolve v).isSome :=
      find?_isSome.2 ⟨(name, v), hmem, decide_eq_true rfl⟩
    obtain ⟨e, he⟩ := Option.isSome_iff_exists.1 hsome
    have hfound := find?_some he
    have heq := of_decide_eq_true hfound
    have he' := NameMap.get?_of_mem hs.names (mem_of_find?_eq_some he)
    rw [h.own _ _ he', h.own _ _ hv] at heq
    rw [heq] at he'
    show Option.map Prod.fst _ = _
    rw [he, Option.map_some, h.apart _ _ v he' hv]

/-! ### Rows of operations -/

/-- All that holds of a store and its links, one operation after the other. -/
structure Linked (s : SetStore) (l : Links) : Prop where
  valid : s.Valid
  forest : l.Forest s
  distinguishes : s.Distinguishes

theorem linked_empty : empty.Linked ⟨[]⟩ := ⟨valid_empty, Links.forest_empty, distinguishes_empty⟩

theorem Linked.run (h : s.Linked l) (ops : List Operation) : (s.run ops).Linked (l.follow s ops) := by
  induction ops generalizing s l with
  | nil => exact h
  | cons op ops ih =>
    have hstep := Links.step_perform h.valid h.forest.length op
    exact ih ⟨hstep.valid h.valid, h.forest.step hstep, h.distinguishes.step hstep⟩

/-- Aliases stay aliases, whatever is done. -/
theorem resolve_run {a b : SetVar} (hs : s.Valid) (hab : s.resolve a = s.resolve b) (ops : List Operation) :
    (s.run ops).resolve a = (s.run ops).resolve b := by
  induction ops generalizing s with
  | nil => exact hab
  | cons op ops ih =>
    have hstep := Links.step_perform (l := ⟨s.reprs⟩) hs rfl op
    exact ih (hstep.valid hs) (hstep.resolve_congr hab)

theorem resolve_of_unify {a b : SetVar} (h : s.unify a b = .ok (some s')) :
    s'.resolve a = s'.resolve b := by
  obtain ⟨hab, rfl⟩ | ⟨c, d, ⟨rfl, rfl⟩ | ⟨rfl, rfl⟩, -, hne, hr⟩ := unify_cases h
  · exact hab
  · rw [hr.resolve, hr.resolve, if_pos rfl, if_neg (Ne.symm hne)]
  · rw [hr.resolve, hr.resolve, if_pos rfl, if_neg (Ne.symm hne)]

/-- After any row of operations, parents lead from each variable to its representative, without
    meeting a variable twice. Representatives represent themselves. Variables that become aliases stay
    aliases, whatever follows. Declared variables represent themselves, so that names are never
    aliases of each other, and each name is found again for its variable. -/
theorem aliases_form_forest (ops : List Operation) :
    let s := empty.run ops
    let l := Links.follow ⟨[]⟩ .empty ops
    l.parents.length = s.reprs.length ∧
    (∀ v, ∃ n, (∀ i ≤ n, ∀ j ≤ n, l.parent^[i] v = l.parent^[j] v → i = j) ∧
      l.IsRoot (l.parent^[n] v) ∧ l.parent^[n] v = s.resolve v) ∧
    (∀ v, s.resolve (s.resolve v) = s.resolve v) ∧
    (∀ a b s', s.unify a b = .ok (some s') →
      ∀ more, (s'.run more).resolve a = (s'.run more).resolve b) ∧
    (∀ name v, s.names.get? name = some v →
      s.resolve v = v ∧ s.lookup? name = some v ∧ s.nameOf? v = some name) ∧
    ∀ name name' v w, s.names.get? name = some v → s.names.get? name' = some w → name ≠ name' →
      s.resolve v ≠ s.resolve w := by
  intro s l
  have h : s.Linked l := linked_empty.run ops
  refine ⟨h.forest.length, fun v => ?_, h.valid.reprs, fun a b s' hu more => ?_, fun name v hv => ?_,
    fun name name' v w hv hw hne heq => hne ?_⟩
  · obtain ⟨n, hn⟩ := h.forest.leads v
    obtain ⟨m, hm, hinj⟩ := exists_iterate_injOn hn
    refine ⟨m, hinj, Links.isRoot_iff.2 ?_, hm⟩
    rw [hm, h.forest.root]
  · exact resolve_run (Change.valid (.unify hu) h.valid) (resolve_of_unify hu) more
  · exact ⟨h.distinguishes.own name v hv, h.distinguishes.nameOf? h.valid hv⟩
  · rw [h.distinguishes.own _ _ hv, h.distinguishes.own _ _ hw] at heq
    exact h.distinguishes.apart _ _ w (heq ▸ hv) hw

/-- Two variables, each of which becomes an alias of the next one, up to a declared one. -/
def Sample.aliasChain : List Operation :=
  [.fresh, .fresh, .declare "E", .unify ⟨0⟩ ⟨1⟩, .declare "F", .equate ⟨1⟩ ⟨2⟩, .equate ⟨0⟩ ⟨3⟩]

theorem aliases_form_forest_aliasChain :
    let s := empty.run Sample.aliasChain
    let l := Links.follow ⟨[]⟩ .empty Sample.aliasChain
    l.parents = [⟨1⟩, ⟨2⟩, ⟨2⟩, ⟨3⟩] ∧ s.reprs = [⟨2⟩, ⟨2⟩, ⟨2⟩, ⟨3⟩] ∧
      s.subsets.length = 2 ∧ s.names.get? "E" = some ⟨2⟩ ∧ s.names.get? "F" = some ⟨3⟩ ∧
      s.nameOf? ⟨2⟩ = some "E" ∧ s.resolve ⟨2⟩ ≠ s.resolve ⟨3⟩ := by
  intro s l
  have hE : s.names.get? "E" = some ⟨2⟩ := by decide
  have hF : s.names.get? "F" = some ⟨3⟩ := by decide
  obtain ⟨-, -, -, -, hnames, hapart⟩ := aliases_form_forest Sample.aliasChain
  exact ⟨by decide, by decide, by decide, hE, hF, (hnames "E" ⟨2⟩ hE).2.2,
    hapart "E" "F" ⟨2⟩ ⟨3⟩ hE hF (by decide)⟩

end SetStore

end HeapShape
