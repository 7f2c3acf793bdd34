import HeapShape.Proofs.Condensing

/-!
# Types of heaps

A heap is typed by an assignment of a structure to each location that was given out. A cell has
the fields of the structure that is assigned to its location, each with a value of its type. All
that a summary mentions, its parameters, its hole and the parameters of the hole, is null or has
the structure of its root. Of an opaque location nothing is known but the structure.

Operations only add to an assignment: new locations get structures, and a location that gives way
to a value gives way to one of its own structure.

* `Value.HasType`, `Fact.Typed`, `Heap.Typed`: the typing;
* `Heap.Typed.subst`, `.write`, `.fresh`, `.grow`: the small steps that keep it;
* `Heap.Typed.unfold`: unfolding keeps it;
* `Heap.Typed.gather`: a structure that is taken out has a typed summary, whatever parameters it
  was asked for with: its root shows them;
* `Heap.Typed.widen`: widening keeps it.
-/

namespace HeapShape

open List

/-- A structure for each location that was given out, in order. -/
abbrev Assignment := List StructId

namespace Assignment

variable {τ τ' : Assignment} {loc : Loc} {T : StructId}

/-- The structure of a location. -/
def struct? (τ : Assignment) (loc : Loc) : Option StructId := τ[loc.index]?

theorem struct?_mono (hτ : τ <+: τ') (h : τ.struct? loc = some T) : τ'.struct? loc = some T := by
  obtain ⟨new, rfl⟩ := hτ
  exact (getElem?_append_left (List.getElem?_eq_some_iff.1 h).1).trans h

theorem struct?_new (τ : Assignment) (T : StructId) : struct? (τ ++ [T]) ⟨τ.length⟩ = some T :=
  getElem?_concat_length

end Assignment

/-! ### Values and facts -/

/-- A value has a type: a pointer is null or points to a location of the structure. -/
inductive Value.HasType (τ : Assignment) : Value → Ty → Prop
  | null (T : StructId) : HasType τ .null (.ptr T)
  | ptr {loc : Loc} {T : StructId} (h : τ.struct? loc = some T) : HasType τ (.ptr loc) (.ptr T)
  | int : HasType τ .int .int

/-- Pointer parameters are null or have a structure. -/
def Params.Typed (τ : Assignment) (T : StructId) (p : Params) : Prop :=
  ∀ v ∈ p.ptrs, v.HasType τ (.ptr T)

/-- The end of a segment is null or has a structure, and so do its parameters. -/
structure Hole.Typed (τ : Assignment) (T : StructId) (o : Hole) : Prop where
  value : o.value.HasType τ (.ptr T)
  params : o.params.Typed τ T

/-- A summary is of a structure, with its parameters and its hole. -/
structure Summary.Typed (τ : Assignment) (T : StructId) (s : Summary) : Prop where
  ty : s.ty = T
  params : s.params.Typed τ T
  hole : ∀ o, s.hole = some o → o.Typed τ T

/-- The values of fields have the types of the fields. -/
def FieldsTyped (τ : Assignment) (vs : List Value) (fields : List FieldDecl) : Prop :=
  List.Forall₂ (fun v f => v.HasType τ f.ty) vs fields

/-- A cell is of a structure that is declared, and has its fields. -/
structure Cell.Typed (structs : Structs) (τ : Assignment) (T : StructId) (c : Cell) : Prop where
  ty : c.ty = T
  fields : ∃ decl, structs.decl? T = some decl ∧ FieldsTyped τ c.fields decl.fields

/-- A fact speaks of a location of a structure. -/
def Fact.Typed (structs : Structs) (τ : Assignment) (T : StructId) : Fact → Prop
  | .cell c => c.Typed structs τ T
  | .summary s => s.Typed τ T
  | .member _ ty => ty = T

/-- An assignment has a structure for each location, which the facts agree with. -/
structure Heap.Typed (structs : Structs) (τ : Assignment) (h : Heap) : Prop where
  length : τ.length = h.size
  facts : ∀ k f, h.slot k = .occupied f → ∃ T, τ.struct? k = some T ∧ f.Typed structs τ T

section

variable {structs : Structs} {τ τ' : Assignment} {T : StructId} {v w : Value} {ty : Ty} {loc : Loc}
  {g : Value → Value} {p : Params} {vs : List Value} {fields : List FieldDecl}

namespace Value.HasType

theorem mono (hτ : τ <+: τ') (h : v.HasType τ ty) : v.HasType τ' ty := by
  rcases h with T | h | _
  · exact .null T
  · exact .ptr (Assignment.struct?_mono hτ h)
  · exact .int

/-- A location may give way to a value of its structure. -/
theorem subst (hw : ∀ T, τ.struct? loc = some T → w.HasType τ (.ptr T)) (h : v.HasType τ ty) :
    (v.subst loc w).HasType τ ty := by
  rw [Value.subst]
  split
  · rename_i heq
    rcases h with _ | h | _
    · cases heq
    · cases heq
      exact hw _ h
    · cases heq
  · exact h

theorem struct? (h : (Value.ptr loc).HasType τ (.ptr T)) : τ.struct? loc = some T := by
  rcases h with _ | h
  exact h

end Value.HasType

theorem Params.Typed.mono (hτ : τ <+: τ') (h : p.Typed τ T) : p.Typed τ' T :=
  fun v hv => (h v hv).mono hτ

theorem Params.Typed.headD (h : p.Typed τ T) : (p.ptrs.headD .null).HasType τ (.ptr T) := by
  rcases hp : p.ptrs with _ | ⟨v, vs⟩
  · exact .null T
  · exact h v (hp ▸ .head _)

theorem Params.Typed.map (hg : ∀ v ty, v.HasType τ ty → (g v).HasType τ' ty) (h : p.Typed τ T) :
    Params.Typed τ' T { p with ptrs := p.ptrs.map g } := by
  intro v hv
  obtain ⟨u, hu, rfl⟩ := mem_map.1 hv
  exact hg u _ (h u hu)

theorem FieldsTyped.mono (hτ : τ <+: τ') (h : FieldsTyped τ vs fields) : FieldsTyped τ' vs fields :=
  List.Forall₂.imp (fun _ _ hv => hv.mono hτ) h

theorem FieldsTyped.map (hg : ∀ v ty, v.HasType τ ty → (g v).HasType τ' ty)
    (h : FieldsTyped τ vs fields) : FieldsTyped τ' (vs.map g) fields :=
  forall₂_map_left_iff.2 (List.Forall₂.imp (fun v (f : FieldDecl) => hg v f.ty) h)

/-- A field that is declared has a value of its type. -/
theorem FieldsTyped.get {i : Nat} {f : FieldDecl} (h : FieldsTyped τ vs fields)
    (hf : fields[i]? = some f) : ∃ v, vs[i]? = some v ∧ v.HasType τ f.ty := by
  obtain ⟨hi, rfl⟩ := List.getElem?_eq_some_iff.1 hf
  have hlt : i < vs.length := (List.Forall₂.length_eq h).symm ▸ hi
  exact ⟨vs[i], getElem?_eq_getElem hlt, List.Forall₂.get h hlt hi⟩

theorem FieldsTyped.set {i : Nat} {f : FieldDecl} (h : FieldsTyped τ vs fields)
    (hf : fields[i]? = some f) (hv : v.HasType τ f.ty) : FieldsTyped τ (vs.set i v) fields := by
  induction h generalizing i with
  | nil => exact .nil
  | cons hu _ ih =>
    rcases i with _ | i
    · cases hf
      exact .cons hv ‹_›
    · exact .cons hu (ih hf)

namespace Fact.Typed

variable {f : Fact}

/-- Every value that a fact mentions may give way to one of the same type. -/
theorem map (hg : ∀ v ty, v.HasType τ ty → (g v).HasType τ' ty) (h : f.Typed structs τ T) :
    (f.mapValues g).Typed structs τ' T := by
  rcases f with c | s | ⟨set, target⟩
  · obtain ⟨hty, decl, hd, hfields⟩ := h
    exact ⟨hty, decl, hd, hfields.map hg⟩
  · refine ⟨h.ty, h.params.map hg, fun o ho => ?_⟩
    obtain ⟨o', ho', rfl⟩ := Option.map_eq_some_iff.1 ho
    exact ⟨hg _ _ (h.hole o' ho').value, (h.hole o' ho').params.map hg⟩
  · exact h

theorem mono (hτ : τ <+: τ') (h : f.Typed structs τ T) : f.Typed structs τ' T := by
  rcases f with c | s | ⟨set, target⟩
  · obtain ⟨hty, decl, hd, hfields⟩ := h
    exact ⟨hty, decl, hd, hfields.mono hτ⟩
  · exact ⟨h.ty, h.params.mono hτ, fun o ho => ⟨(h.hole o ho).value.mono hτ, (h.hole o ho).params.mono hτ⟩⟩
  · exact h

end Fact.Typed

end

/-! ### Small steps -/

namespace Heap

variable {structs : Structs} {τ : Assignment} {T : StructId} {h h' : Heap} {loc k : Loc} {w : Value}
  {f : Fact}

theorem typed_empty : empty.Typed structs [] := by
  refine ⟨rfl, fun k f hk => ?_⟩
  cases (slot_of_size_le (Nat.zero_le _) : empty.slot k = .vacant).symm.trans hk

namespace Typed

variable (ht : h.Typed structs τ)
include ht

/-- A location with a fact has the structure of the fact. -/
theorem fact (hk : h.slot k = .occupied f) (hT : τ.struct? k = some T) : f.Typed structs τ T := by
  obtain ⟨T', hT', hf⟩ := ht.facts k f hk
  cases hT.symm.trans hT'
  exact hf

theorem forget (hf : h.Forgets h') : h'.Typed structs τ :=
  ⟨ht.length.trans hf.size.symm, fun k f hk => ht.facts k f (hf.occupied hk)⟩

theorem vacate (loc : Loc) : (h.write loc .vacant).Typed structs τ :=
  ht.forget (forgets_vacate h loc)

theorem withSets (sets : SetStore) : ({ h with sets } : Heap).Typed structs τ :=
  ⟨ht.length, ht.facts⟩

/-- A location may give way to a value of its structure, everywhere. -/
theorem subst (hw : ∀ T, τ.struct? loc = some T → w.HasType τ (.ptr T)) :
    (h.subst loc w).Typed structs τ := by
  refine ⟨ht.length.trans (size_subst w).symm, fun k f hk => ?_⟩
  obtain ⟨g, hg, rfl⟩ := slot_subst_eq_occupied.1 hk
  obtain ⟨T, hT, hf⟩ := ht.facts k g hg
  exact ⟨T, hT, hf.map fun v ty => .subst hw⟩

theorem release (loc : Loc) : (h.write loc .tombstone).Typed structs τ :=
  ⟨ht.length.trans (size_write _).symm, fun k f hk => ht.facts k f (of_occupied_write rfl hk).2⟩

/-- A fact may be recorded of a location of its structure. -/
theorem write (hT : τ.struct? loc = some T) (hf : f.Typed structs τ T) :
    (h.write loc (.occupied f)).Typed structs τ := by
  refine ⟨ht.length.trans (size_write _).symm, fun k g hk => ?_⟩
  obtain ⟨rfl, he⟩ | ⟨-, hk⟩ := occupied_write_cases hk
  · cases he
    exact ⟨T, hT, hf⟩
  · exact ht.facts k g hk

/-- A new location may have any structure. -/
theorem fresh (T : StructId) :
    h.fresh.2.Typed structs (τ ++ [T]) ∧ Assignment.struct? (τ ++ [T]) h.fresh.1 = some T := by
  have hnew : h.fresh.1 = ⟨τ.length⟩ := Loc.eq_of_index ht.length.symm
  refine ⟨⟨?_, fun k f hk => ?_⟩, hnew ▸ Assignment.struct?_new τ T⟩
  · rw [length_append, size_fresh, ht.length]
    rfl
  · obtain ⟨T', hT', hf⟩ := ht.facts k f (slot_fresh h k ▸ hk)
    exact ⟨T', Assignment.struct?_mono (prefix_append _ _) hT', hf.mono (prefix_append _ _)⟩

theorem add (hf : f.Typed structs τ T) :
    (h.add f).2.Typed structs (τ ++ [T]) ∧ Assignment.struct? (τ ++ [T]) (h.add f).1 = some T := by
  obtain ⟨hfresh, hnew⟩ := ht.fresh T
  rw [add_eq_write]
  exact ⟨hfresh.write hnew (hf.mono (prefix_append _ _)), hnew⟩

end Typed

/-! ### New cells -/

end Heap

/-- What a field of a new cell holds has a type. A location of which nothing is known has any
    pointer type. -/
def Content.Typed (structs : Structs) (τ : Assignment) (ty : Ty) : Content → Prop
  | .value v => v.HasType τ ty
  | .unknown => ∃ T, ty = .ptr T
  | .fact f => ∃ T, ty = .ptr T ∧ f.Typed structs τ T

theorem Content.Typed.mono {structs : Structs} {τ τ' : Assignment} {ty : Ty} {c : Content}
    (hτ : τ <+: τ') (hc : c.Typed structs τ ty) : c.Typed structs τ' ty := by
  rcases c with v | _ | f
  · exact Value.HasType.mono hτ hc
  · exact hc
  · obtain ⟨T, hT, hf⟩ := hc
    exact ⟨T, hT, hf.mono hτ⟩

namespace Heap

variable {structs : Structs} {τ : Assignment} {T : StructId} {h h' : Heap} {loc : Loc}

theorem unknownField_typed (f : FieldDecl) : (unknownField f).Typed structs τ f.ty := by
  obtain ⟨name, _ | T⟩ := f
  · exact .int
  · exact ⟨T, rfl⟩

theorem Typed.place {c : Content} {ty : Ty} (ht : h.Typed structs τ) (hc : c.Typed structs τ ty) :
    ∃ τ' : Assignment, τ <+: τ' ∧ (h.place c).2.Typed structs τ' ∧ (h.place c).1.HasType τ' ty := by
  rcases c with v | _ | f
  · exact ⟨τ, prefix_refl τ, ht, hc⟩
  · obtain ⟨T, rfl⟩ := hc
    exact ⟨τ ++ [T], prefix_append _ _, (ht.fresh T).1, .ptr (ht.fresh T).2⟩
  · obtain ⟨T, rfl, hf⟩ := hc
    exact ⟨τ ++ [T], prefix_append _ _, (ht.add hf).1, .ptr (ht.add hf).2⟩

/-- The new locations for the fields of a cell get the structures that the fields point to. -/
theorem Typed.grow {cs : List Content} {fields : List FieldDecl} (ht : h.Typed structs τ)
    (hcs : List.Forall₂ (fun c f => c.Typed structs τ f.ty) cs fields) :
    ∃ τ' : Assignment, τ <+: τ' ∧ (h.grow cs).2.Typed structs τ' ∧ FieldsTyped τ' (h.grow cs).1 fields := by
  induction cs generalizing h τ fields with
  | nil =>
    cases hcs
    exact ⟨τ, prefix_refl τ, ht, .nil⟩
  | cons c cs ih =>
    obtain _ | ⟨hc, hcs⟩ := hcs
    obtain ⟨τ₁, h₁, ht₁, hv⟩ := ht.place hc
    obtain ⟨τ₂, h₂, ht₂, hvs⟩ := ih ht₁ (hcs.imp fun _ _ => .mono h₁)
    rw [grow_cons]
    exact ⟨τ₂, h₁.trans h₂, ht₂, .cons (hv.mono h₂) hvs⟩

/-- A cell with new fields may be recorded of a location of its structure. -/
theorem Typed.unfolded {cs : List Content} {decl : StructDecl} (ht : h.Typed structs τ)
    (hT : τ.struct? loc = some T) (hd : structs.decl? T = some decl)
    (hcs : List.Forall₂ (fun c f => c.Typed structs τ f.ty) cs decl.fields) :
    ∃ τ' : Assignment, τ <+: τ' ∧ (h.unfolded loc T cs).Typed structs τ' := by
  obtain ⟨τ', hτ, ht', hfields⟩ := ht.grow hcs
  exact ⟨τ', hτ, ht'.write (Assignment.struct?_mono hτ hT) ⟨rfl, decl, hd, hfields⟩⟩

theorem Typed.allocCell {decl : StructDecl} (ht : h.Typed structs τ)
    (hd : structs.decl? T = some decl) :
    ∃ τ' : Assignment, τ <+: τ' ∧ (h.allocCell T decl).2.Typed structs τ' ∧
      τ'.struct? (h.allocCell T decl).1 = some T := by
  obtain ⟨hfresh, hnew⟩ := ht.fresh T
  have hcs : List.Forall₂ (fun c f => c.Typed structs (τ ++ [T]) f.ty) (decl.fields.map unknownField)
      decl.fields :=
    forall₂_map_left_iff.2 (forall₂_same.2 fun f _ => unknownField_typed f)
  obtain ⟨τ', hτ, ht'⟩ := hfresh.unfolded hnew hd hcs
  exact ⟨τ', (prefix_append _ _).trans hτ, ht', Assignment.struct?_mono hτ hnew⟩

/-! ### Unfolding -/

end Heap

/-- The type of a field that plays a part for a predicate on a structure. -/
def Layout.Part.Allows (T : StructId) (ty : Ty) : Layout.Part → Prop
  | .successor | .back => ty = .ptr T
  | .nested _ target | .ref target => ty = .ptr target
  | .plain => True

theorem Layout.Fits.part {layout : Layout} {decl : StructDecl} {T : StructId} {i : Nat}
    {field : FieldDecl} (hl : layout.Fits decl T) (hi : decl.fields[i]? = some field) :
    (layout.part i).Allows T field.ty := by
  have hfield {j : Nat} {target : StructId} (hj : j = i)
      (h : ∃ f, decl.fields[j]? = some f ∧ f.ty = .ptr target) : field.ty = .ptr target := by
    subst hj
    obtain ⟨f, hf, hty⟩ := h
    cases hi.symm.trans hf
    exact hty
  rw [Layout.part]
  split
  · exact hfield rfl (hl.successors i (contains_iff_mem.1 ‹_›))
  · split
    · exact hfield rfl (hl.back i ‹_›)
    · split
      · rename_i hfind
        exact hfield (by simpa using find?_some hfind) (hl.nested _ (mem_of_find?_eq_some hfind))
      · split
        · rename_i hfind
          exact hfield (by simpa using find?_some hfind) (hl.refs _ (mem_of_find?_eq_some hfind))
        · trivial

namespace Heap

variable {structs : Structs} {τ : Assignment} {T : StructId} {h h' : Heap} {loc : Loc}

/-- What a predicate says about a field of its root has the type of the field. -/
theorem content_typed {s : Summary} {layout : Layout} {decl : StructDecl} {step : Step}
    {way : Option Nat} {i : Nat} {field : FieldDecl} (hs : s.Typed τ T) (hT : τ.struct? loc = some T)
    (hl : layout.Fits decl T) (hsucc : ∀ v ∈ step.succ.ptrs, v = .ptr loc)
    (hnested : step.nested.ptrs = []) (hi : decl.fields[i]? = some field) :
    (s.content layout step way i field).Typed structs τ field.ty := by
  have hpart := hl.part hi
  rw [Summary.content]
  generalize layout.part i = part at hpart
  rcases part with _ | _ | ⟨pred, target⟩ | target | _
  · refine ⟨T, hpart, hs.ty, fun v hv => ?_, fun o ho => ?_⟩
    · rw [hsucc v hv]
      exact .ptr hT
    · -- the hole stays below the successor that was chosen
      dsimp only at ho
      split at ho
      · exact hs.hole o ho
      · cases ho
  · rw [show field.ty = .ptr T from hpart]
    exact hs.params.headD
  · refine ⟨target, hpart, rfl, fun v hv => ?_, fun _ ho => (Option.not_mem_none _ ho).elim⟩
    rw [show (_ : Params).ptrs = [] from hnested] at hv
    cases hv
  · dsimp only
    split
    · exact ⟨target, hpart, rfl⟩
    · exact ⟨target, hpart⟩
  · exact unknownField_typed field

/-- The heaps that a summary unfolds into are typed. -/
theorem Typed.unfold {heaps : List Heap} (ht : h.Typed structs τ)
    (hu : h.unfold structs loc = .ok heaps) (hmem : h' ∈ heaps) :
    ∃ τ' : Assignment, τ <+: τ' ∧ h'.Typed structs τ' := by
  obtain ⟨s, decl, layout, way, sets, step, hk, hdecl, hlay, -, hstep, rfl⟩ := unfold_cases hu hmem
  obtain ⟨T, hT, hs⟩ := ht.facts loc _ hk
  obtain rfl : s.ty = T := hs.ty
  obtain ⟨decl', hdecl', hl⟩ := Predicate.fits_of_layout hlay
  cases hdecl.symm.trans hdecl'
  obtain ⟨hsucc, hnested⟩ := Predicate.step_ptrs (congrArg Prod.snd hstep)
  refine (ht.withSets sets).unfolded hT hdecl (forall₂_iff_get.2 ⟨length_mapIdx, fun i _ hi => ?_⟩)
  have hfield : decl.fields[i]? = some decl.fields[i] := getElem?_eq_getElem hi
  simpa using content_typed hs hT hl hsucc hnested hfield

end Heap

/-! ### Goals -/

namespace Predicate

variable {structs : Structs} {p q : Predicate} {ty : StructId} {layout : Layout}

/-- The nested fields of a layout hold instances of the predicates that the signature names. -/
theorem nested_of_layoutBy {fits : Predicate → StructId → Bool}
    (h : layoutBy fits structs p ty = some layout) {part : Nat × Predicate × StructId}
    (hpart : part ∈ layout.nested) : part.2.1 ∈ p.signature.nested.map Prod.snd := by
  obtain ⟨decl, -, ha⟩ := layoutBy_eq_some h
  obtain ⟨n, hn, -, heq, -⟩ := exists_mem_of_forall₂ ha.nested.flip hpart
  exact heq ▸ mem_map_of_mem hn

/-- There is a back field for each pointer parameter. -/
theorem length_back_of_layout (h : p.layout? structs ty = some layout) :
    layout.back.toList.length = p.signature.ptrArity := by
  obtain ⟨decl, -, ha⟩ := layoutBy_eq_some h
  have hsig : p.signature.back.toList.length = p.signature.ptrArity := by cases p <;> rfl
  rw [← ha.back.length_eq, hsig]

/-- A nested predicate is another one, without nested predicates. -/
theorem signature_of_nested (h : q ∈ p.signature.nested.map Prod.snd) :
    q ≠ p ∧ q.signature.nested = [] := by
  cases p with
  | graph =>
    obtain rfl := mem_singleton.1 h
    exact ⟨nofun, rfl⟩
  | list | tree | edges => cases h

end Predicate

namespace Folding

variable {τ : Assignment} {T : StructId} {cfg : Setting} {st st' : Folding} {loc : Loc}
  {pred : Predicate} {ty : StructId} {params : Params} {new : List Goal}

/-- An instance that is met in a search: of the predicate that is folded and the structure of the
    root, or of a nested predicate. -/
def Below (cfg : Setting) (T : StructId) (pred : Predicate) (ty : StructId) : Prop :=
  (pred = cfg.pred ∧ ty = T) ∨ (pred ≠ cfg.pred ∧ pred.signature.nested = [])

/-- A goal for an instance is about values of its structure. -/
def Goal.Typed (τ : Assignment) (cfg : Setting) (T : StructId) : Goal → Prop
  | .inst v pred ty params => v.HasType τ (.ptr ty) ∧ params.Typed τ ty ∧ Below cfg T pred ty
  | .ref .. | .missing => True

/-- The heap is typed, and the hole has the structure of the root. -/
structure Typed (τ : Assignment) (cfg : Setting) (T : StructId) (st : Folding) : Prop where
  heap : st.heap.Typed cfg.structs τ
  hole : ∀ o, st.hole = some o → o.Typed τ T

/-- The goals for the fields of a cell are about values of the types of the fields. -/
theorem cellGoals_typed {c : Cell} {layout : Layout} {step : Step} (hc : c.Typed cfg.structs τ ty)
    (hT : τ.struct? loc = some ty) (hlay : pred.layout? cfg.structs ty = some layout)
    (hsucc : ∀ v ∈ step.succ.ptrs, v = .ptr loc) (hnested : step.nested.ptrs = [])
    (hb : Below cfg T pred ty) : ∀ g ∈ cellGoals c pred layout step, g.Typed τ cfg T := by
  obtain ⟨rfl, decl, hd, hfields⟩ := hc
  obtain ⟨decl', hd', hl⟩ := Predicate.fits_of_layout hlay
  cases hd.symm.trans hd'
  have hfield {i : Nat} {target : StructId} {goal : Value → Goal}
      (hi : ∃ f, decl.fields[i]? = some f ∧ f.ty = .ptr target)
      (hgoal : ∀ v, v.HasType τ (.ptr target) → (goal v).Typed τ cfg T) :
      (Goal.ofField c i goal).Typed τ cfg T := by
    obtain ⟨f, hf, hty⟩ := hi
    obtain ⟨v, hv, htyped⟩ := hfields.get hf
    rw [Goal.ofField, hv]
    exact hgoal v (hty ▸ htyped)
  intro g hg
  rw [cellGoals, mem_append, mem_append] at hg
  rcases hg with (hg | hg) | hg
  · obtain ⟨i, hi, rfl⟩ := mem_map.1 hg
    refine hfield (hl.successors i hi) fun v hv => ⟨hv, fun u hu => ?_, hb⟩
    rw [hsucc u hu]
    exact .ptr hT
  · obtain ⟨q, hq, rfl⟩ := mem_map.1 hg
    have hq' := Predicate.nested_of_layoutBy hlay hq
    refine hfield (hl.nested q hq) fun v hv => ⟨hv, fun u hu => ?_, .inr ?_⟩
    · rw [hnested] at hu
      cases hu
    · -- only the predicate that is folded has nested ones
      rcases hb with ⟨rfl, -⟩ | ⟨-, hnone⟩
      · exact Predicate.signature_of_nested hq'
      · rw [hnone] at hq'
        cases hq'
  · obtain ⟨q, hq, rfl⟩ := mem_map.1 hg
    exact hfield (hl.refs q hq) fun _ _ => trivial

/-- The goals that a typed fact leaves are typed. -/
theorem enter_typed (hst : st.Typed τ cfg T) (hb : Below cfg T pred ty)
    (he : st.enter cfg loc pred ty params = .ok (st', new)) :
    st'.Typed τ cfg T ∧ ∀ g ∈ new, g.Typed τ cfg T := by
  obtain ⟨f, sets, -, hk, hm, rfl⟩ := enter_eq_ok he
  obtain ⟨T', hT, hf⟩ := hst.heap.facts loc _ hk
  refine ⟨⟨(hst.heap.vacate loc).withSets _, hst.hole⟩, ?_⟩
  cases f with
  | cell c =>
    obtain ⟨rfl, layout, step, hlay, -, hstep, hnew⟩ := meetCell_eq_ok hm
    obtain rfl : c.ty = T' := hf.ty
    obtain ⟨hsucc, hnested⟩ := Predicate.step_ptrs (congrArg Prod.snd hstep)
    obtain rfl : new = cellGoals c pred layout step := hnew
    exact cellGoals_typed hf hT hlay hsucc hnested hb
  | summary sum =>
    obtain ⟨-, rfl, -, -, -, hnew⟩ := meetSummary_eq_ok hm
    obtain rfl : sum.ty = T' := hf.ty
    intro g hg
    obtain rfl : new = sum.hole.toList.map _ := hnew
    obtain ⟨o, ho, rfl⟩ := mem_map.1 hg
    have ho' := hf.hole o (Option.mem_toList.1 ho)
    exact ⟨ho'.value, ho'.params, hb⟩
  | member => cases hm

theorem visit_typed {goal : Goal} (hst : st.Typed τ cfg T) (hg : goal.Typed τ cfg T)
    (hv : st.visit cfg goal = .ok (st', new)) : st'.Typed τ cfg T ∧ ∀ g ∈ new, g.Typed τ cfg T := by
  have hsets (sets : SetStore) :
      ({ st with heap := { st.heap with sets } } : Folding).Typed τ cfg T ∧
        ∀ g ∈ ([] : List Goal), g.Typed τ cfg T :=
    ⟨⟨hst.heap.withSets sets, hst.hole⟩, forall_mem_nil _⟩
  cases steps_of_visit hv with
  | ref => exact hsets _
  | null => exact hsets _
  | stop =>
    refine ⟨⟨hst.heap, fun o ho => ?_⟩, forall_mem_nil _⟩
    cases ho
    -- a stop becomes the hole as an instance of the predicate that is folded
    rcases hg.2.2 with ⟨-, rfl⟩ | ⟨hne, -⟩
    · exact ⟨hg.1, hg.2.1⟩
    · exact (hne rfl).elim
  | enter he => exact enter_typed hst hg.2.2 he

theorem absorb_typed {goals : List Goal} (hst : st.Typed τ cfg T) (hg : ∀ g ∈ goals, g.Typed τ cfg T)
    (ha : st.absorb cfg goals = .ok st') : st'.Typed τ cfg T :=
  absorb_keeps visit_typed hst hg ha

/-- A cell shows the parameters that it is met with, if there are as many as there should be. -/
theorem params_of_checkBack {structs : Structs} {c : Cell} {layout : Layout}
    (hc : c.Typed structs τ ty) (hlay : pred.layout? structs ty = some layout)
    (hback : checkBack loc c layout params = .ok ())
    (hlen : params.ptrs.length = pred.signature.ptrArity) : params.Typed τ ty := by
  obtain ⟨rfl, decl, hd, hfields⟩ := hc
  obtain ⟨decl', hd', hl⟩ := Predicate.fits_of_layout hlay
  cases hd.symm.trans hd'
  rw [← Predicate.length_back_of_layout hlay] at hlen
  intro v hv
  rcases hb : layout.back with _ | i
  · rw [hb] at hlen
    rw [eq_nil_of_length_eq_zero hlen] at hv
    cases hv
  · obtain ⟨f, hf, hty⟩ := hl.back i hb
    obtain ⟨u, hu, htyped⟩ := hfields.get hf
    rw [hb] at hlen
    obtain ⟨w, hw⟩ := length_eq_one_iff.1 hlen
    rw [checkBack, hb] at hback
    simp only [hu, hw, headD_cons] at hback
    split at hback
    · rename_i heq
      rw [hw, mem_singleton] at hv
      rw [hv, ← heq, ← hty]
      exact htyped
    · cases hback

end Folding

/-! ### Folding -/

namespace Heap

open Folding

variable {structs : Structs} {τ : Assignment} {T : StructId} {h h' : Heap} {loc : Loc}
  {pred : Predicate} {params : Option Params} {stops cuts : List Loc} {s : Summary}

/-- The parameters for a cell are as many as there should be. -/
theorem length_of_chooseParams {layout : Layout} {p : Params} {sets : SetStore}
    (ha : checkArity pred params (some loc) = .ok ()) (hs : h.summary? loc = none)
    (hc : h.chooseParams loc pred layout params = .ok (p, sets)) :
    p.ptrs.length = pred.signature.ptrArity := by
  rcases params with _ | q
  · rw [chooseParams, inferParams.eq_def, hs] at hc
    dsimp only at hc
    split at hc
    · cases hc
      rfl
    · split at hc
      · cases hc
        rfl
      · cases hc
    · cases hc
      rfl
    · cases hc
      rfl
  · cases hc
    exact (checkArity_eq_ok ha).1

variable (ht : h.Typed structs τ)
include ht

/-- A structure is taken out of a typed heap as a typed summary, whatever parameters are given: its
    root shows them. -/
theorem Typed.gather (hg : h.gather structs loc pred params stops = .ok (s, h')) :
    h'.Typed structs τ ∧ ∃ T, τ.struct? loc = some T ∧ s.Typed τ T := by
  obtain ⟨ty, layout, p, sets, st₁, goals, st₂, harity, hroot, hlay, hchoose, henter, habsorb, rfl, rfl⟩ :=
    gather_steps hg
  have hstart : Folding.Typed τ ⟨structs, stops, loc, pred⟩ ty ⟨{ h with sets }, none, []⟩ :=
    ⟨ht.withSets sets, fun _ ho => (Option.not_mem_none _ ho).elim⟩
  obtain ⟨hst₁, hgoals⟩ := enter_typed hstart (.inl ⟨rfl, rfl⟩) henter
  have hst₂ := absorb_typed hst₁ hgoals habsorb
  obtain ⟨f, _, -, hk, hm, -⟩ := enter_eq_ok henter
  have hk : h.slot loc = .occupied f := hk
  obtain ⟨T, hT, hf⟩ := ht.facts loc f hk
  have hroot : ty = T ∧ p.Typed τ T := by
    rw [rootStruct, hk] at hroot
    cases f with
    | cell c =>
      cases hroot
      obtain rfl : c.ty = T := hf.ty
      obtain ⟨-, layout', step, hlay', hback, -⟩ := meetCell_eq_ok hm
      cases hlay.symm.trans hlay'
      have hnone : h.summary? loc = none := by
        rw [summary?, fact?, hk]
        rfl
      exact ⟨rfl, params_of_checkBack hf hlay hback (length_of_chooseParams harity hnone hchoose)⟩
    | summary sum =>
      cases hroot
      obtain ⟨-, -, hptrs, -⟩ := meetSummary_eq_ok hm
      exact ⟨hf.ty, fun v hv => hf.params v (hptrs ▸ hv)⟩
    | member => cases hm
  obtain ⟨rfl, hp⟩ := hroot
  refine ⟨hst₂.heap, ty, hT, rfl, hp, fun o ho => ?_⟩
  obtain ⟨o', ho', rfl⟩ := Option.map_eq_some_iff.1 ho
  exact ⟨(hst₂.hole o' ho').value, (hst₂.hole o' ho').params⟩

/-- A fold keeps a heap typed. -/
theorem Typed.fold {root : Value} {r : Heap × Option Hole}
    (hf : h.fold structs root pred params stops = .ok r) : r.1.Typed structs τ := by
  obtain ⟨h', o⟩ := r
  rcases fold_eq_ok hf with ⟨loc, s, h₁, -, hg, rfl, -⟩ | ⟨-, -, -, ⟨-, rfl⟩ | ⟨p, sets, -, -, rfl⟩⟩
  · obtain ⟨ht', T, hT, hs⟩ := ht.gather hg
    exact ht'.write hT hs
  · exact ht
  · exact ht.withSets _

theorem Typed.check {root : Value} (hc : h.check structs root pred params = .ok h') :
    h'.Typed structs τ := by
  obtain ⟨⟨h₁, o⟩, hf, hc⟩ := ok_of_bind hc
  rcases o with _ | o
  · cases hc
    exact ht.fold hf
  · cases hc

/-! ### Widening -/

theorem Typed.takeRest {rest : Summary} {next : Loc} {p : Params} (hT : τ.struct? next = some T)
    (hr : h.takeRest structs cuts s next p = .ok (some (rest, h'))) :
    h'.Typed structs τ ∧ rest.Typed τ T := by
  rw [Heap.takeRest.eq_def] at hr
  split at hr
  · split at hr
    · rename_i r hg
      cases hr
      obtain ⟨ht', T', hT', hrest⟩ := ht.gather hg
      cases hT.symm.trans hT'
      exact ⟨ht', hrest⟩
    · cases hr
    · cases hr
  · rename_i sum hk
    split at hr
    · cases hr
      exact ⟨ht.vacate next, ht.fact hk hT⟩
    · cases hr
  · cases hr

theorem Typed.setHole {hole : Option Hole} (hT : τ.struct? loc = some T)
    (ho : ∀ o, hole = some o → o.Typed τ T) : (h.setHole loc hole).Typed structs τ := by
  rw [Heap.setHole]
  split
  · rename_i s hs
    have hsum : s.Typed τ T := ht.fact (slot_of_summary? hs) hT
    exact ht.write hT ⟨hsum.ty, hsum.params, ho⟩
  · exact ht

omit ht in
/-- A cell is folded in its place, and the hole of a segment moves forward to locations of the same
    structure. -/
theorem typed_widening : WideningKeeps structs cuts (fun _ => False) fun h => h.Typed structs τ where
  fold ht _ _ _ := .of_forall not_badRefusal fun _ hr => ht.fold hr
  extend loc h s next p ht hk ho _ _ := .of_forall (fun _ => id) fun r hr rest h₁ he => by
    subst he
    obtain ⟨T, hT, hs⟩ := ht.facts loc _ hk
    obtain ⟨ht₁, hrest⟩ := ht.takeRest (hs.hole _ ho).value.struct? hr
    exact ht₁.setHole hT hrest.hole

/-- Widening keeps a heap typed. -/
theorem Typed.widen {roots : List Value} (hw : h.widen structs roots = .ok h') : h'.Typed structs τ := by
  obtain ⟨h₁, hall, hw⟩ := ok_of_bind hw
  cases hw
  exact ((typed_widening.widenAll ht _ _).of_ok hall).forget (forgets_collect h₁ roots)

end Heap

end HeapShape
