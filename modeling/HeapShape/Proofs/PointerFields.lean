import HeapShape.Proofs.CutPoints
import HeapShape.Proofs.HeapTypes
import HeapShape.Proofs.Parts

/-!
# Each pointer field plays one part

A layout looks up the names that its predicate speaks of, and compares how many they are with the
number of pointer fields. Names may be repeated in a declaration, and a lookup finds the first field
only. But different names are found at different places, and so the places that are found are all
the pointer fields there are. The names of the pointer fields then tell which predicate it is.

* `Predicate.mem_places_iff`: the places of a layout are those of the pointer fields;
* `Predicate.layout?_eq_layoutBy`: nested fields point to structures with a layout of their own;
* `Predicate.eq_of_layout`: a structure is laid out for one predicate at most;
* `Heap.foldFirst_candidates_iff`: so widening has no choice of a predicate;
* `Predicate.layout_exact`: all of this in one statement.
-/

namespace HeapShape

open List

/-- The fields that a layout speaks of are pointers. -/
theorem Layout.Fits.isPtr {layout : Layout} {decl : StructDecl} {ty : StructId} {i : Nat}
    (h : layout.Fits decl ty) (hi : i ∈ layout.places) :
    ∃ f, decl.fields[i]? = some f ∧ f.ty.isPtr = true := by
  have hptr {i : Nat} {target : StructId} (hf : ∃ f, decl.fields[i]? = some f ∧ f.ty = .ptr target) :
      ∃ f, decl.fields[i]? = some f ∧ f.ty.isPtr = true := by
    obtain ⟨f, hf, hty⟩ := hf
    exact ⟨f, hf, by rw [hty]; rfl⟩
  simp only [places, mem_append, mem_map, Option.mem_toList] at hi
  obtain ((hi | hi) | ⟨q, hq, rfl⟩) | ⟨q, hq, rfl⟩ := hi
  · exact hptr (h.successors i hi)
  · exact hptr (h.back i hi)
  · exact hptr (h.nested q hq)
  · exact hptr (h.refs q hq)

namespace Predicate

variable {structs : Structs} {p q : Predicate} {ty : StructId} {layout layout' : Layout}
  {decl : StructDecl}

theorem length_names (p : Predicate) : p.signature.names.length = p.fieldCount := by
  cases p <;> rfl

/-- The places that a layout speaks of are those of the pointer fields. -/
theorem mem_places_iff (h : p.layout? structs ty = some layout) (hdecl : structs.decl? ty = some decl)
    {i : Nat} : i ∈ layout.places ↔ ∃ f, decl.fields[i]? = some f ∧ f.ty.isPtr = true := by
  obtain ⟨_, hdecl₁, hfits⟩ := fits_of_layout h
  obtain ⟨_, hdecl₂, hnamed⟩ := named_of_layoutBy h
  obtain ⟨_, hdecl₃, hassigns⟩ := layoutBy_eq_some h
  cases hdecl.symm.trans hdecl₁
  cases hdecl.symm.trans hdecl₂
  cases hdecl.symm.trans hdecl₃
  constructor
  · exact hfits.isPtr
  · rintro ⟨f, hf, hptr⟩
    -- There are as many places as names, and as many names as pointer fields.
    have hcount : decl.fields.countP (·.ty.isPtr) ≤ layout.places.length := by
      rw [← hnamed.length_eq, length_names]
      exact Nat.le_of_eq hassigns.count
    exact mem_of_countP_le (nodup_places h) (fun _ => hfits.isPtr) hcount hf hptr

/-! ### Nested fields -/

/-- A layout depends only on the structures that nested fields may point to. -/
theorem layoutBy_congr {fits fits' : Predicate → StructId → Bool}
    (h : ∀ n ∈ p.signature.nested, fits n.2 = fits' n.2) :
    layoutBy fits structs p ty = layoutBy fits' structs p ty := by
  cases p with
  | graph => simp only [layoutBy, signature, mapM_cons, mapM_nil, h _ (.head _)]
  | list | tree | edges => rfl

/-- A nested field points to a structure that has a layout for its own predicate. -/
theorem layout?_eq_layoutBy (p : Predicate) (structs : Structs) (ty : StructId) : p.layout? structs ty =
    layoutBy (fun q target => (q.layout? structs target).isSome) structs p ty := by
  refine layoutBy_congr fun n hn => funext fun target => congrArg Option.isSome (layoutBy_congr ?_)
  rw [(signature_of_nested (mem_map_of_mem hn)).2]
  exact fun _ hn => absurd hn not_mem_nil

theorem isSome_of_nested (h : p.layout? structs ty = some layout) {r : Nat × Predicate × StructId}
    (hr : r ∈ layout.nested) : (r.2.1.layout? structs r.2.2).isSome := by
  rw [layout?_eq_layoutBy] at h
  obtain ⟨_, -, hassigns⟩ := layoutBy_eq_some h
  obtain ⟨_, -, -, -, hfits⟩ := exists_mem_of_forall₂ hassigns.nested.flip hr
  exact hfits

/-! ### One predicate at most -/

/-- Predicates that a structure is laid out for speak of the same names. -/
theorem names_subset (h : p.layout? structs ty = some layout) (h' : q.layout? structs ty = some layout') :
    p.signature.names ⊆ q.signature.names := by
  obtain ⟨decl, hdecl, hnamed⟩ := named_of_layoutBy h
  obtain ⟨_, hdecl', hnamed'⟩ := named_of_layoutBy h'
  cases hdecl.symm.trans hdecl'
  intro name hname
  obtain ⟨i, hi, hat⟩ := exists_mem_of_forall₂ hnamed hname
  have hi' : i ∈ layout'.places := (mem_places_iff h' hdecl).2 ((mem_places_iff h hdecl).1 hi)
  obtain ⟨name', hname', hat'⟩ := exists_mem_of_forall₂ hnamed'.flip hi'
  rwa [hat.unique hat']

/-- Different predicates speak of different names. -/
theorem eq_of_names (h : p.signature.names ⊆ q.signature.names)
    (h' : q.signature.names ⊆ p.signature.names) : p = q := by
  revert h h'
  cases p <;> cases q <;> decide

theorem eq_of_layout (h : (p.layout? structs ty).isSome) (h' : (q.layout? structs ty).isSome) : p = q := by
  obtain ⟨layout, h⟩ := Option.isSome_iff_exists.1 h
  obtain ⟨layout', h'⟩ := Option.isSome_iff_exists.1 h'
  exact eq_of_names (names_subset h h') (names_subset h' h)

theorem candidates_eq_singleton (h : (p.layout? structs ty).isSome) : candidates structs ty = [p] := by
  have hn : (candidates structs ty).Nodup := Nodup.filter _ (by decide)
  refine perm_singleton.1 ((perm_ext_iff_of_nodup hn (nodup_singleton p)).2 fun q => ?_)
  rw [mem_singleton]
  constructor
  · exact fun hq => eq_of_layout (mem_candidates.1 hq) h
  · rintro rfl
    exact mem_candidates.2 h

theorem length_candidates_le (structs : Structs) (ty : StructId) : (candidates structs ty).length ≤ 1 := by
  cases hc : candidates structs ty with
  | nil => exact Nat.zero_le 1
  | cons p ps =>
    have hp : p ∈ candidates structs ty := hc ▸ mem_cons_self
    rw [← hc, candidates_eq_singleton (mem_candidates.1 hp)]
    exact Nat.le_refl 1

end Predicate

/-! ### Widening -/

namespace Heap

variable {structs : Structs} {ty : StructId} {h h' : Heap} {loc : Loc} {p : Predicate}

theorem layout_of_fold {params : Option Params} {cuts : List Loc} {r : Heap × Option Hole}
    (hty : h.rootStruct loc = .ok ty) (hf : h.fold structs (.ptr loc) p params cuts = .ok r) :
    (p.layout? structs ty).isSome := by
  obtain ⟨ty', layout, _, _, _, hs, -⟩ := fold_ptr_eq_ok hf
  cases hty.symm.trans hs.struct
  exact Option.isSome_of_eq_some hs.laid

/-- Widening folds a root into a predicate if and only if there is a predicate that the root can be
    folded into, and there is no other one. -/
theorem foldFirst_candidates_iff (hty : h.rootStruct loc = .ok ty) (cuts : List Loc) :
    h.foldFirst structs cuts loc (Predicate.candidates structs ty) = .ok (some h') ↔
      ∃ p o, h.fold structs (.ptr loc) p none cuts = .ok (h', o) := by
  constructor
  · intro hf
    have hy : Yields (fun _ => False)
        (h.foldFirst structs cuts loc (Predicate.candidates structs ty))
        fun r => ∀ h', r = some h' → ∃ p o, h.fold structs (.ptr loc) p none cuts = .ok (h', o) :=
      foldFirst_yields fun p _ => .of_forall not_badRefusal fun r hr => ⟨p, r.2, hr⟩
    exact hy.of_ok hf h' rfl
  · rintro ⟨p, o, hf⟩
    rw [Predicate.candidates_eq_singleton (layout_of_fold hty hf), foldFirst, hf]

end Heap

namespace Predicate

/-- A layout gives one part to each pointer field of a structure and to no other field. Successor and
    back fields point to the structure itself, and nested fields to structures with a layout for their
    own predicates. A structure has a layout for one predicate at most, and is a candidate for one at
    most. So whatever predicate a root can be folded into is the one that widening folds it into. -/
theorem layout_exact (structs : Structs) (ty : StructId) :
    (∀ (p : Predicate) layout, p.layout? structs ty = some layout → ∃ decl, structs.decl? ty = some decl ∧
      layout.places.Nodup ∧
      (∀ i, i ∈ layout.places ↔ ∃ f, decl.fields[i]? = some f ∧ f.ty.isPtr = true) ∧
      (∀ i, i ∈ layout.successors ∨ layout.back = some i →
        ∃ f, decl.fields[i]? = some f ∧ f.ty = .ptr ty) ∧
      ∀ r ∈ layout.nested, (∃ f, decl.fields[r.1]? = some f ∧ f.ty = .ptr r.2.2) ∧
        (r.2.1.layout? structs r.2.2).isSome) ∧
    (∀ p q : Predicate, (p.layout? structs ty).isSome → (q.layout? structs ty).isSome → p = q) ∧
    (candidates structs ty).length ≤ 1 ∧
    ∀ (h h' : Heap) (loc : Loc) (cuts : List Loc), h.rootStruct loc = .ok ty →
      (h.foldFirst structs cuts loc (candidates structs ty) = .ok (some h') ↔
        ∃ p o, h.fold structs (.ptr loc) p none cuts = .ok (h', o)) := by
  refine ⟨fun p layout hl => ?_, fun _ _ => eq_of_layout, length_candidates_le structs ty,
    fun _ _ _ cuts hty => Heap.foldFirst_candidates_iff hty cuts⟩
  obtain ⟨decl, hdecl, hfits⟩ := fits_of_layout hl
  refine ⟨decl, hdecl, nodup_places hl, fun _ => mem_places_iff hl hdecl, ?_, fun r hr => ?_⟩
  · rintro i (hi | hi)
    · exact hfits.successors i hi
    · exact hfits.back i hi
  · exact ⟨hfits.nested r hr, isSome_of_nested hl hr⟩

/-- The structures of graphs, where nodes have a second field with the name of the first one. -/
def Sample.repeated : Structs :=
  [⟨"edge", [⟨"next", .ptr ⟨0⟩⟩, ⟨"dest", .ptr ⟨1⟩⟩]⟩,
    ⟨"node", [⟨"next", .ptr ⟨1⟩⟩, ⟨"edges", .ptr ⟨0⟩⟩, ⟨"next", .int⟩]⟩]

/-- A node without edges before another one, which is a cut. -/
def Sample.unfolded : Heap :=
  ⟨.ofSlots [.occupied (.cell ⟨⟨1⟩, [.ptr ⟨1⟩, .null, .int]⟩), .vacant], .empty⟩

/-- The segment that the node is folded into, over sets without names. -/
def Sample.folded : Heap :=
  ⟨.ofSlots [.occupied (.summary ⟨.graph, ⟨1⟩, ⟨[], [⟨0⟩, ⟨1⟩]⟩, some ⟨.ptr ⟨1⟩, ⟨[], [⟨2⟩, ⟨1⟩]⟩⟩⟩), .vacant],
    ⟨.empty, [⟨0⟩, ⟨1⟩, ⟨2⟩], [], [⟨⟨0⟩, ⟨0⟩, ⟨2⟩⟩], []⟩⟩

theorem layout_exact_repeated :
    graph.layout? Sample.repeated ⟨1⟩ = some ⟨[0], none, [(1, .edges, ⟨0⟩)], []⟩ ∧
      (edges.layout? Sample.repeated ⟨0⟩).isSome ∧ edges.layout? Sample.repeated ⟨1⟩ = none ∧
      Sample.unfolded.foldFirst Sample.repeated [⟨1⟩] ⟨0⟩ (candidates Sample.repeated ⟨1⟩) =
        .ok (some Sample.folded) := by
  have hl : graph.layout? Sample.repeated ⟨1⟩ = some ⟨[0], none, [(1, .edges, ⟨0⟩)], []⟩ := by decide
  obtain ⟨hlayout, hone, -, hfold⟩ := layout_exact Sample.repeated ⟨1⟩
  obtain ⟨_, -, -, -, -, hnested⟩ := hlayout graph _ hl
  refine ⟨hl, (hnested _ (.head _)).2, Option.not_isSome_iff_eq_none.1 fun he => ?_, ?_⟩
  · cases hone graph edges (Option.isSome_of_eq_some hl) he
  · exact (hfold Sample.unfolded Sample.folded ⟨0⟩ [⟨1⟩] rfl).2
      ⟨graph, some ⟨.ptr ⟨1⟩, ⟨[], [⟨2⟩, ⟨1⟩]⟩⟩, by cbv⟩

end Predicate

end HeapShape
