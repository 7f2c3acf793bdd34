import HeapShape.Predicate
import Mathlib.Data.List.Forall2
import Mathlib.Data.List.Nodup
import Mathlib.Data.List.Perm.Subperm

/-!
# The fields of lists and trees

A structure that is laid out for a predicate has no pointer fields but those that the
predicate speaks of. For the two predicates without sets this leaves little freedom: one
field of a list is a pointer, `next`, and three fields of a tree are, `l`, `r` and `p`. All
of them point to the structure itself, and every other field is a scalar.

* `Predicate.layoutBy_eq_some`: what a layout says about the declaration, for every predicate;
* `Predicate.layout?_list`, `Predicate.layout?_tree`: the layouts of lists and trees;
* `Layout.part_list`, `Layout.part_tree`: the part of each field.
-/

namespace HeapShape

open List

/-- Different places where a property holds are at most as many as it counts. -/
theorem length_le_countP {α : Type} {p : α → Bool} {l : List α} {places : List Nat}
    (hn : places.Nodup) (hp : ∀ i ∈ places, ∃ a, l[i]? = some a ∧ p a = true) :
    places.length ≤ l.countP p := by
  let found := (l.zipIdx.filter fun q => p q.1).map Prod.snd
  have hsub : places ⊆ found := by
    intro i hi
    obtain ⟨a, ha, hpa⟩ := hp i hi
    refine mem_map.2 ⟨(a, i), mem_filter.2 ⟨?_, hpa⟩, rfl⟩
    exact mk_mem_zipIdx_iff_getElem?.2 ha
  calc places.length ≤ found.length := (subperm_of_subset hn hsub).length_le
    _ = l.zipIdx.countP fun q => p q.1 := by
      rw [length_map, countP_eq_length_filter]
    _ = l.countP p := by
      conv => rhs; rw [← zipIdx_map_fst 0 l, countP_map]
      rfl

/-- If as many places with a property are known as it counts, there are no others. -/
theorem mem_of_countP_le {α : Type} {p : α → Bool} {l : List α} {places : List Nat}
    (hn : places.Nodup) (hp : ∀ i ∈ places, ∃ a, l[i]? = some a ∧ p a = true)
    (hc : l.countP p ≤ places.length) {i : Nat} {a : α} (hi : l[i]? = some a) (ha : p a = true) :
    i ∈ places := by
  by_contra hni
  have := length_le_countP (nodup_cons.2 ⟨hni, hn⟩)
    (forall_mem_cons.2 ⟨⟨a, hi, ha⟩, hp⟩)
  rw [length_cons] at this
  omega

namespace StructDecl

/-- The pointer fields of a structure are those at some places, and all of them point to
    the structure `ty`. -/
structure PointersAt (decl : StructDecl) (ty : StructId) (places : List Nat) : Prop where
  target : ∀ i ∈ places, ∃ f, decl.fields[i]? = some f ∧ f.ty = .ptr ty
  others : ∀ i f, decl.fields[i]? = some f → i ∉ places → f.ty = .int

variable {decl : StructDecl} {i : Nat}

theorem pointer?_eq_some {name : String} {target : StructId}
    (h : decl.pointer? name = some (i, target)) :
    ∃ f, decl.fields[i]? = some f ∧ f.name = name ∧ f.ty = .ptr target := by
  simp only [pointer?, fieldIndex?, Option.bind_eq_bind, Option.bind_eq_some_iff,
    Option.pure_def, Option.some.injEq, Prod.mk.injEq] at h
  obtain ⟨j, hj, f, hf, t, ht, rfl, rfl⟩ := h
  obtain ⟨hlt, hname, _⟩ := findIdx?_eq_some_iff_getElem.1 hj
  rw [getElem?_eq_getElem hlt] at hf
  cases hf
  refine ⟨_, getElem?_eq_getElem hlt, of_decide_eq_true hname, ?_⟩
  cases hty : decl.fields[j].ty with
  | int => rw [hty] at ht; cases ht
  | ptr target => rw [hty] at ht; cases ht; rfl

theorem selfField?_eq_some {ty : StructId} {name : String}
    (h : Predicate.selfField? decl ty name = some i) :
    ∃ f, decl.fields[i]? = some f ∧ f.name = name ∧ f.ty = .ptr ty := by
  simp only [Predicate.selfField?, Option.bind_eq_bind, Option.bind_eq_some_iff] at h
  obtain ⟨⟨j, target⟩, hp, hi⟩ := h
  split at hi
  · rename_i htarget
    cases hi
    exact htarget ▸ pointer?_eq_some hp
  · cases hi

/-- The fields at two places with different names are different. -/
theorem ne_of_names {j : Nat} {f g : FieldDecl} (hf : decl.fields[i]? = some f)
    (hg : decl.fields[j]? = some g) (h : f.name ≠ g.name) : i ≠ j := by
  rintro rfl
  rw [hf] at hg
  exact h (congrArg FieldDecl.name (Option.some.inj hg))

/-- The places of known pointer fields are all, if the number of pointer fields says so. -/
theorem pointersAt_of_count {ty : StructId} {places : List Nat} (hn : places.Nodup)
    (ht : ∀ i ∈ places, ∃ f, decl.fields[i]? = some f ∧ f.ty = .ptr ty)
    (hc : decl.pointerCount = places.length) : decl.PointersAt ty places := by
  refine ⟨ht, fun i f hf hi => ?_⟩
  cases hty : f.ty with
  | int => rfl
  | ptr target =>
    have isPtr : ∀ i ∈ places, ∃ f, decl.fields[i]? = some f ∧ f.ty.isPtr = true := by
      intro i hi
      obtain ⟨f, hf, hty⟩ := ht i hi
      exact ⟨f, hf, by rw [hty]; rfl⟩
    exact absurd (mem_of_countP_le hn isPtr (Nat.le_of_eq hc) hf (by rw [hty]; rfl)) hi

end StructDecl

theorem forall₂_of_mapM {α β : Type} {f : α → Option β} {l : List α} {l' : List β}
    (h : l.mapM f = some l') : List.Forall₂ (fun a b => f a = some b) l l' := by
  induction l generalizing l' with
  | nil =>
    cases h
    exact .nil
  | cons a l ih =>
    simp only [mapM_cons, Option.pure_def, Option.bind_eq_bind, Option.bind_eq_some_iff] at h
    obtain ⟨b, hb, k, hk, he⟩ := h
    cases he
    exact .cons hb (ih hk)

theorem exists_mem_of_forall₂ {α β : Type} {R : α → β → Prop} {as : List α} {bs : List β}
    (h : List.Forall₂ R as bs) {a : α} (ha : a ∈ as) : ∃ b ∈ bs, R a b := by
  induction h with
  | nil => cases ha
  | cons hab _ ih =>
    rcases mem_cons.1 ha with rfl | ha
    · exact ⟨_, .head _, hab⟩
    · obtain ⟨b, hb, hR⟩ := ih ha
      exact ⟨b, .tail _ hb, hR⟩

/-- A layout gives a part to the first field with each name that a predicate speaks of. Successor and
    back fields point to the structure itself, and nested fields to one that `fits`. The structure has
    as many pointer fields as there are names. -/
structure Layout.Assigns (layout : Layout) (fits : Predicate → StructId → Bool) (p : Predicate)
    (decl : StructDecl) (ty : StructId) : Prop where
  successors : List.Forall₂ (fun name i => Predicate.selfField? decl ty name = some i)
    p.signature.successors layout.successors
  back : List.Forall₂ (fun name i => Predicate.selfField? decl ty name = some i)
    p.signature.back.toList layout.back.toList
  nested : List.Forall₂ (fun n r => decl.pointer? n.1 = some (r.1, r.2.2) ∧ r.2.1 = n.2 ∧
    fits r.2.1 r.2.2 = true) p.signature.nested layout.nested
  refs : List.Forall₂ (fun name r => decl.pointer? name = some r) p.signature.refs layout.refs
  count : decl.pointerCount = p.fieldCount

namespace Predicate

variable {structs : Structs} {p : Predicate} {ty : StructId} {layout : Layout}

/-- What a layout that is found says about the declaration. -/
theorem layoutBy_eq_some {fits : Predicate → StructId → Bool}
    (h : layoutBy fits structs p ty = some layout) :
    ∃ decl, structs.decl? ty = some decl ∧ layout.Assigns fits p decl ty := by
  simp only [layoutBy, Option.bind_eq_bind, Option.bind_eq_some_iff] at h
  obtain ⟨decl, hdecl, successors, hsucc, back, hback, nested, hnested, refs, hrefs, h⟩ := h
  split at h
  · rename_i hcount
    cases h
    refine ⟨decl, hdecl, forall₂_of_mapM hsucc, ?_, ?_, forall₂_of_mapM hrefs, hcount⟩
    · cases hb : p.signature.back with
      | none =>
        rw [hb] at hback
        cases hback
        exact .nil
      | some name =>
        rw [hb, Option.mapM_some, Option.map_eq_map, Option.map_eq_some_iff] at hback
        obtain ⟨i, hi, rfl⟩ := hback
        exact .cons hi .nil
    · refine (forall₂_of_mapM hnested).imp fun n r hr => ?_
      simp only [Option.bind_eq_some_iff] at hr
      obtain ⟨⟨i, target⟩, hi, hr⟩ := hr
      split at hr
      · cases hr
        exact ⟨hi, rfl, ‹_›⟩
      · cases hr
  · cases h

/-- The layout of a list. -/
theorem layout?_list (h : list.layout? structs ty = some layout) :
    ∃ decl next, structs.decl? ty = some decl ∧ layout = ⟨[next], none, [], []⟩ ∧
      decl.PointersAt ty [next] := by
  obtain ⟨decl, hd, ha⟩ := layoutBy_eq_some h
  obtain ⟨_, _ | _, _, _⟩ := layout
  · obtain ⟨_ | ⟨hnext, _ | _⟩, -, _ | _, _ | _, hc⟩ := ha
    rename_i next
    obtain ⟨f, hf, -, hty⟩ := StructDecl.selfField?_eq_some hnext
    refine ⟨decl, next, hd, rfl, StructDecl.pointersAt_of_count (nodup_singleton _) ?_ hc⟩
    intro i hi
    rw [mem_singleton.1 hi]
    exact ⟨f, hf, hty⟩
  · cases ha.back

/-- The layout of a tree. -/
theorem layout?_tree (h : tree.layout? structs ty = some layout) :
    ∃ decl left right up, structs.decl? ty = some decl ∧
      layout = ⟨[left, right], some up, [], []⟩ ∧ [left, right, up].Nodup ∧
      decl.PointersAt ty [left, right, up] := by
  obtain ⟨decl, hd, ha⟩ := layoutBy_eq_some h
  obtain ⟨_, _ | up, _, _⟩ := layout
  · cases ha.back
  · obtain ⟨_ | ⟨hl, _ | ⟨hr, _ | _⟩⟩, _ | ⟨hu, -⟩, _ | _, _ | _, hc⟩ := ha
    rename_i left right
    obtain ⟨f, hf, hfn, hft⟩ := StructDecl.selfField?_eq_some hl
    obtain ⟨g, hg, hgn, hgt⟩ := StructDecl.selfField?_eq_some hr
    obtain ⟨e, he, hen, het⟩ := StructDecl.selfField?_eq_some hu
    have hlr : left ≠ right := StructDecl.ne_of_names hf hg (by rw [hfn, hgn]; decide)
    have hlu : left ≠ up := StructDecl.ne_of_names hf he (by rw [hfn, hen]; decide)
    have hru : right ≠ up := StructDecl.ne_of_names hg he (by rw [hgn, hen]; decide)
    have hn : [left, right, up].Nodup := by simp [hlr, hlu, hru]
    refine ⟨decl, left, right, up, hd, rfl, hn, StructDecl.pointersAt_of_count hn ?_ hc⟩
    simp only [mem_cons, not_mem_nil, or_false]
    rintro i (rfl | rfl | rfl)
    · exact ⟨f, hf, hft⟩
    · exact ⟨g, hg, hgt⟩
    · exact ⟨e, he, het⟩

end Predicate

namespace Layout

/-- The part of a field of a list. -/
theorem part_list (next i : Nat) :
    (⟨[next], none, [], []⟩ : Layout).part i = if i = next then .successor else .plain := by
  simp only [part, contains_cons, contains_nil, Bool.or_false, beq_iff_eq,
    find?_nil, reduceCtorEq, ↓reduceIte]

/-- The part of a field of a tree. -/
theorem part_tree (left right up i : Nat) :
    (⟨[left, right], some up, [], []⟩ : Layout).part i =
      if i = left ∨ i = right then .successor else if up = i then .back else .plain := by
  simp only [part, contains_cons, contains_nil, Bool.or_false, Bool.or_eq_true,
    beq_iff_eq, find?_nil, Option.some.injEq]

end Layout

end HeapShape
