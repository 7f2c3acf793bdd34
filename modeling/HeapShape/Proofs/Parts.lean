import HeapShape.Proofs.Condensing

/-!
# The parts of fields

A predicate names the fields that it speaks of, each by a name of its own. So the fields that a
layout gives parts to are different fields, and each of them plays exactly the part that the layout
says.

* `Layout.places`: the fields that a layout speaks of;
* `Predicate.nodup_places`: they are different;
* `Layout.part_of_successor`, `Layout.part_of_back`, `Layout.part_of_nested`, `Layout.part_of_ref`: the
  part of each of them.
-/

namespace HeapShape

open List

/-- The names of the fields that a predicate speaks of, part by part. -/
def Signature.names (sig : Signature) : List String :=
  sig.successors ++ sig.back.toList ++ sig.nested.map Prod.fst ++ sig.refs

/-- The places of the fields that a layout speaks of, part by part. -/
def Layout.places (layout : Layout) : List Nat :=
  layout.successors ++ layout.back.toList ++ layout.nested.map Prod.fst ++ layout.refs.map Prod.fst

variable {α β : Type} {l : List α}

/-- Things are different if they are related to different things. -/
theorem nodup_of_forall₂ {R : α → β → Prop} {l' : List β} (h : List.Forall₂ R l l')
    (hR : ∀ {a a' b}, R a b → R a' b → a = a') (hn : l.Nodup) : l'.Nodup := by
  obtain ⟨hlen, hget⟩ := forall₂_iff_get.1 h
  refine nodup_iff_injective_get.2 fun i j hij => ?_
  have hi := hget i (i.2.trans_eq hlen.symm) i.2
  have hj := hget j (j.2.trans_eq hlen.symm) j.2
  have he := nodup_iff_injective_get.1 hn (hR hi (hij ▸ hj))
  exact Fin.ext (Fin.mk.inj he)

namespace StructDecl

/-- The field at a place has a name. -/
def NamedAt (decl : StructDecl) (name : String) (i : Nat) : Prop :=
  ∃ f, decl.fields[i]? = some f ∧ f.name = name

theorem NamedAt.unique {decl : StructDecl} {name name' : String} {i : Nat}
    (h : decl.NamedAt name i) (h' : decl.NamedAt name' i) : name = name' := by
  obtain ⟨f, hf, rfl⟩ := h
  obtain ⟨g, hg, rfl⟩ := h'
  cases hf.symm.trans hg
  rfl

end StructDecl

namespace Predicate

variable {structs : Structs} {p : Predicate} {ty : StructId} {layout : Layout}

theorem nodup_names (p : Predicate) : p.signature.names.Nodup := by
  cases p <;> decide

/-- The fields that a layout speaks of have the names that the predicate gives them. -/
theorem named_of_layoutBy {fits : Predicate → StructId → Bool}
    (h : layoutBy fits structs p ty = some layout) : ∃ decl, structs.decl? ty = some decl ∧
      List.Forall₂ decl.NamedAt p.signature.names layout.places := by
  obtain ⟨decl, hdecl, ha⟩ := layoutBy_eq_some h
  have hself {name : String} {i : Nat} (hi : selfField? decl ty name = some i) :
      decl.NamedAt name i := by
    obtain ⟨f, hf, hname, -⟩ := StructDecl.selfField?_eq_some hi
    exact ⟨f, hf, hname⟩
  have hptr {name : String} {i : Nat} {target : StructId}
      (hi : decl.pointer? name = some (i, target)) : decl.NamedAt name i := by
    obtain ⟨f, hf, hname, -⟩ := StructDecl.pointer?_eq_some hi
    exact ⟨f, hf, hname⟩
  refine ⟨decl, hdecl, rel_append (rel_append (rel_append ?_ ?_) ?_) ?_⟩
  · exact ha.successors.imp fun _ _ => hself
  · exact ha.back.imp fun _ _ => hself
  · exact forall₂_map_left_iff.2 (forall₂_map_right_iff.2 (ha.nested.imp fun _ _ hr => hptr hr.1))
  · exact forall₂_map_right_iff.2 (ha.refs.imp fun _ _ => hptr)

/-- The fields that a layout speaks of are different. -/
theorem nodup_places (h : p.layout? structs ty = some layout) : layout.places.Nodup := by
  obtain ⟨decl, -, hnamed⟩ := named_of_layoutBy h
  exact nodup_of_forall₂ hnamed StructDecl.NamedAt.unique p.nodup_names

end Predicate

/-! ### The part of each field -/

theorem find?_of_nodup [DecidableEq β] {f : α → β} (hn : (l.map f).Nodup) {a : α} (ha : a ∈ l) :
    l.find? (fun b => f b = f a) = some a := by
  induction l with
  | nil => cases ha
  | cons b l ih =>
    obtain ⟨hb, hn⟩ := nodup_cons.1 hn
    rcases mem_cons.1 ha with rfl | ha
    · simp
    · rw [find?_cons_of_neg, ih hn ha]
      rw [decide_eq_true_eq]
      exact fun he => hb (he ▸ mem_map_of_mem ha)

namespace Layout

variable {layout : Layout}

theorem part_of_successor {i : Nat} (hi : i ∈ layout.successors) : layout.part i = .successor := by
  rw [part, if_pos (contains_iff_mem.2 hi)]

theorem part_of_back (hn : layout.places.Nodup) {i : Nat} (hi : layout.back = some i) :
    layout.part i = .back := by
  simp only [places, hi, nodup_append, mem_append, Option.toList_some, mem_singleton] at hn
  have hsucc : ¬ layout.successors.contains i = true := fun hc =>
    hn.1.1.2.2 i (contains_iff_mem.1 hc) i rfl rfl
  rw [part, if_neg hsucc, if_pos hi]

theorem part_of_nested (hn : layout.places.Nodup) {q : Nat × Predicate × StructId}
    (hq : q ∈ layout.nested) : layout.part q.1 = .nested q.2.1 q.2.2 := by
  simp only [places, nodup_append, mem_append, Option.mem_toList] at hn
  have hmem : q.1 ∈ layout.nested.map Prod.fst := mem_map_of_mem hq
  have hsucc : ¬ layout.successors.contains q.1 = true := fun hc =>
    hn.1.2.2 q.1 (.inl (contains_iff_mem.1 hc)) q.1 hmem rfl
  have hback : layout.back ≠ some q.1 := fun hb => hn.1.2.2 q.1 (.inr hb) q.1 hmem rfl
  rw [part, if_neg hsucc, if_neg hback, find?_of_nodup hn.1.2.1 hq]

theorem part_of_ref (hn : layout.places.Nodup) {q : Nat × StructId} (hq : q ∈ layout.refs) :
    layout.part q.1 = .ref q.2 := by
  simp only [places, nodup_append, mem_append, Option.mem_toList] at hn
  have hmem : q.1 ∈ layout.refs.map Prod.fst := mem_map_of_mem hq
  have hsucc : ¬ layout.successors.contains q.1 = true := fun hc =>
    hn.2.2 q.1 (.inl (.inl (contains_iff_mem.1 hc))) q.1 hmem rfl
  have hback : layout.back ≠ some q.1 := fun hb => hn.2.2 q.1 (.inl (.inr hb)) q.1 hmem rfl
  have hnested : layout.nested.find? (·.1 = q.1) = none := by
    refine find?_eq_none.2 fun r hr he => ?_
    exact hn.2.2 r.1 (.inr (mem_map_of_mem hr)) q.1 hmem (of_decide_eq_true he)
  rw [part, if_neg hsucc, if_neg hback, hnested, find?_of_nodup hn.2.1 hq]

end Layout

end HeapShape
