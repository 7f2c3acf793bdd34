import HeapShape.Proofs.Reading

/-!
# Declarations that grow

While a program is read its declarations grow. Structures are only added, and those that are defined
stay as they are (`Scope.Grows`). Each structure that is mentioned has a number (`Scope.Closed`), and
once all are defined the table has each of them at its place (`Scope.Within`).

* `Parser.baseType?_learns`, `Parser.typeDefinition_learns`: the readers of types let the declarations
  grow, and what they return has a number;
* `Scope.within_of_table`, `Scope.below_of_table`: the table that is made in the end.
-/

namespace HeapShape

open List

/-! ### Types that mention a structure -/

/-- The structure of a type is among the first `n`. -/
def Ty.Below (n : Nat) (ty : Ty) : Prop := ∀ T ∈ ty.pointee?, T.index < n

theorem Ty.Below.mono {m n : Nat} {ty : Ty} (h : ty.Below m) (hle : m ≤ n) : ty.Below n :=
  fun T hT => Nat.lt_of_lt_of_le (h T hT) hle

/-- The structure that a base type mentions. -/
def BaseType.structure? : BaseType → Option StructId
  | .void | .int => none
  | .struct id | .ptr id => some id

/-- The structure of a base type is among the first `n`. -/
def BaseType.Below (n : Nat) (base : BaseType) : Prop := ∀ T ∈ base.structure?, T.index < n

namespace BaseType.Below

variable {m n stars : Nat} {base : BaseType} {span : Span}

theorem mono (h : base.Below m) (hle : m ≤ n) : base.Below n :=
  fun T hT => Nat.lt_of_lt_of_le (h T hT) hle

theorem withStars (h : base.Below n) {ty : Ty} (hty : base.withStars stars span = .ok ty) :
    ty.Below n := by
  rw [BaseType.withStars.eq_def] at hty
  split at hty
  · obtain rfl := Except.ok.inj hty
    exact fun T hT => by cases hT
  · obtain rfl := Except.ok.inj hty
    exact h
  · obtain rfl := Except.ok.inj hty
    exact h
  all_goals cases hty

theorem aliased (h : base.Below n) {base' : BaseType} (hb : base.aliased stars span = .ok base') :
    base'.Below n := by
  rw [BaseType.aliased.eq_def] at hb
  split at hb
  · obtain rfl := Except.ok.inj hb
    exact h
  · obtain rfl := Except.ok.inj hb
    exact h
  · cases hb

end BaseType.Below

/-- The structures of the types of some fields are among the first `n`. -/
def FieldDecl.AllBelow (n : Nat) (fields : List FieldDecl) : Prop := ∀ f ∈ fields, f.ty.Below n

theorem FieldDecl.AllBelow.mono {m n : Nat} {fields : List FieldDecl} (h : AllBelow m fields)
    (hle : m ≤ n) : AllBelow n fields :=
  fun f hf => (h f hf).mono hle

/-- The structure that a mention declares, if it is defined. -/
def Mention.decl? (m : Mention) : Option StructDecl := m.fields.map (StructDecl.mk m.tag)

namespace Scope

variable {s s' s'' : Scope} {structs : Structs} {T : StructId} {fields : List FieldDecl}

theorem decl?_eq_bind (s : Scope) (T : StructId) :
    s.decl? T = s.structs[T.index]?.bind Mention.decl? := by
  rw [decl?]
  refine congrArg (Option.bind _) (funext fun m => ?_)
  rw [Mention.decl?, Option.map_eq_bind]
  rfl

/-- Only structures are mentioned that have a number. -/
structure Closed (s : Scope) : Prop where
  fields : ∀ m ∈ s.structs, ∀ fields ∈ m.fields, FieldDecl.AllBelow s.structs.length fields
  aliases : ∀ a ∈ s.aliases, a.2.Below s.structs.length

/-- More is declared. The structures that were defined are as they were. -/
structure Grows (s s' : Scope) : Prop where
  closed : s'.Closed
  length_le : s.structs.length ≤ s'.structs.length
  decl? : ∀ T decl, s.decl? T = some decl → s'.decl? T = some decl

/-- Types may be declared, and the variables are as they were. -/
structure Learns (s s' : Scope) : Prop extends s.Grows s' where
  vars : s'.vars = s.vars

/-- A table has a place for each structure that is mentioned, and those that are defined as they
    are. -/
structure Within (s : Scope) (structs : Structs) : Prop where
  length_le : s.structs.length ≤ structs.length
  decl? : ∀ T decl, s.decl? T = some decl → structs.decl? T = some decl

theorem Grows.refl (hs : s.Closed) : s.Grows s := ⟨hs, Nat.le_refl _, fun _ _ => id⟩

theorem Grows.trans (h : s.Grows s') (h' : s'.Grows s'') : s.Grows s'' :=
  ⟨h'.closed, Nat.le_trans h.length_le h'.length_le,
    fun T decl hd => h'.decl? T decl (h.decl? T decl hd)⟩

theorem Learns.refl (hs : s.Closed) : s.Learns s := ⟨.refl hs, rfl⟩

theorem Learns.trans (h : s.Learns s') (h' : s'.Learns s'') : s.Learns s'' :=
  ⟨h.toGrows.trans h'.toGrows, h'.vars.trans h.vars⟩

theorem Grows.within (h : s.Grows s') (hw : s'.Within structs) : s.Within structs :=
  ⟨Nat.le_trans h.length_le hw.length_le, fun T decl hd => hw.decl? T decl (h.decl? T decl hd)⟩

theorem closed_empty : empty.Closed :=
  ⟨forall_mem_nil _, forall_mem_nil _⟩

theorem Closed.alias? (hs : s.Closed) {name : String} {base : BaseType}
    (h : s.alias? name = some base) : base.Below s.structs.length := by
  obtain ⟨before, after, hsplit, -⟩ := lookup_eq_some_iff.1 h
  exact hs.aliases (name, base) (by rw [hsplit]; simp)

/-- A structure is mentioned. -/
theorem learns_mention (hs : s.Closed) (tag : String) (span : Span) :
    s.Learns (s.mention tag span).2 ∧
      (s.mention tag span).1.index < (s.mention tag span).2.structs.length := by
  rw [mention]
  split
  · rename_i index hindex
    exact ⟨.refl hs, (findIdx?_eq_some_iff_getElem.1 hindex).1⟩
  · have hlength : (s.structs ++ [(⟨tag, span, none⟩ : Mention)]).length = s.structs.length + 1 :=
      length_append
    refine ⟨⟨⟨⟨?_, ?_⟩, ?_, ?_⟩, rfl⟩, ?_⟩
    · intro m hm fields hfields
      rw [hlength]
      rcases mem_append.1 hm with hm | hm
      · exact (hs.fields m hm fields hfields).mono (Nat.le_succ _)
      · -- The new structure has no fields yet.
        obtain rfl := mem_singleton.1 hm
        cases hfields
    · intro a ha
      rw [hlength]
      exact (hs.aliases a ha).mono (Nat.le_succ _)
    · rw [hlength]
      exact Nat.le_succ _
    · intro T decl hdecl
      rw [decl?_eq_bind] at hdecl ⊢
      obtain ⟨m, hm, hdecl⟩ := Option.bind_eq_some_iff.1 hdecl
      exact Option.bind_eq_some_iff.2 ⟨m, getElem?_append_left
        (List.getElem?_eq_some_iff.1 hm).1 ▸ hm, hdecl⟩
    · rw [hlength]
      exact Nat.lt_succ_self _

/-- A structure that was not defined gets its fields. -/
theorem learns_define (hs : s.Closed) (hT : s.decl? T = none)
    (hfields : FieldDecl.AllBelow s.structs.length fields) : s.Learns (s.define T fields) := by
  have hlength : (s.define T fields).structs.length = s.structs.length := length_modify ..
  refine ⟨⟨⟨?_, ?_⟩, Nat.le_of_eq hlength.symm, ?_⟩, rfl⟩
  · intro m hm fs hfs
    rw [hlength]
    obtain ⟨i, hi⟩ := mem_iff_getElem?.1 hm
    rw [define, getElem?_modify] at hi
    obtain ⟨m', hm', rfl⟩ := Option.map_eq_some_iff.1 hi
    split at hfs
    · obtain rfl := Option.some.inj hfs
      exact hfields
    · exact hs.fields m' (mem_of_getElem? hm') fs hfs
  · rw [hlength]
    exact hs.aliases
  · intro T' decl hdecl
    -- What was defined has another number.
    have hne : T.index ≠ T'.index := by
      intro heq
      obtain rfl : T = T' := by
        cases T
        cases T'
        exact congrArg StructId.mk heq
      rw [hT] at hdecl
      cases hdecl
    rw [decl?_eq_bind] at hdecl ⊢
    exact (congrArg (Option.bind · Mention.decl?) (getElem?_modify_ne _ _ hne)).trans hdecl

/-- A type gets a name. -/
theorem learns_alias (hs : s.Closed) {base : BaseType} (hb : base.Below s.structs.length)
    (name : String) : s.Learns { s with aliases := (name, base) :: s.aliases } :=
  ⟨⟨⟨hs.fields, forall_mem_cons.2 ⟨hb, hs.aliases⟩⟩, Nat.le_refl _, fun _ _ => id⟩, rfl⟩

/-- Variables may be declared or not. -/
theorem Grows.of_vars (h : s.Grows s') (vars vars' : List (List (String × Ty))) :
    { s with vars := vars }.Grows { s' with vars := vars' } :=
  ⟨⟨h.closed.fields, h.closed.aliases⟩, h.length_le, h.decl?⟩

/-! ### The table -/

theorem map_some_of_table (h : s.table = .ok structs) :
    structs.map some = s.structs.map Mention.decl? := by
  rw [table] at h
  generalize s.structs = mentions at h ⊢
  induction mentions generalizing structs with
  | nil =>
    obtain rfl := Except.ok.inj h
    rfl
  | cons m rest ih =>
    rw [mapM_cons] at h
    obtain ⟨decl, hdecl, h⟩ := ok_of_bind h
    obtain ⟨structs', hrest, h⟩ := ok_of_bind h
    obtain rfl := Except.ok.inj h
    split at hdecl
    · rename_i fields hfields
      obtain rfl := Except.ok.inj hdecl
      rw [map_cons, map_cons, ih hrest, Mention.decl?, hfields]
      rfl
    · cases hdecl

theorem decl?_of_table (h : s.table = .ok structs) (T : StructId) : structs.decl? T = s.decl? T := by
  have hget := congrArg (·[T.index]?) (map_some_of_table h)
  simp only [getElem?_map] at hget
  rw [decl?_eq_bind, Structs.decl?]
  rcases hm : s.structs[T.index]? with _ | m
  · simpa [hm] using hget
  · rw [hm] at hget
    obtain ⟨decl, hdecl, hsome⟩ := Option.map_eq_some_iff.1 hget
    rw [hdecl]
    exact hsome

theorem within_of_table (h : s.table = .ok structs) : s.Within structs where
  length_le := by
    have hlength := congrArg List.length (map_some_of_table h)
    rw [length_map, length_map] at hlength
    exact Nat.le_of_eq hlength.symm
  decl? := fun T decl hd => (decl?_of_table h T).trans hd

theorem below_of_table (hs : s.Closed) (h : s.table = .ok structs) {decl : StructDecl}
    (hdecl : decl ∈ structs) : FieldDecl.AllBelow structs.length decl.fields := by
  have hmem : some decl ∈ structs.map some := mem_map_of_mem hdecl
  rw [map_some_of_table h] at hmem
  obtain ⟨m, hm, hmdecl⟩ := mem_map.1 hmem
  obtain ⟨fields, hfields, rfl⟩ := Option.map_eq_some_iff.1 hmdecl
  exact (hs.fields m hm fields hfields).mono (within_of_table h).length_le

/-! ### Variables -/

theorem var?_eq_lookup (s : Scope) (x : String) : s.var? x = s.vars.flatten.lookup x := by
  rw [var?]
  induction s.vars with
  | nil => rfl
  | cons inner outer ih =>
    rw [findSome?_cons, flatten_cons, lookup_append, ← ih]
    cases inner.lookup x <;> rfl

end Scope

/-! ### Types that are read -/

namespace Parser

open Reader Formula Scope

variable {scope : Scope} {base : BaseType} {fields : List FieldDecl}

theorem atType_keeps : atType.Ensures scope fun s _ => s = scope := by
  refine .skip _ fun token => ?_
  split
  · exact .getting (.pure rfl)
  · exact .pure rfl

theorem atCast_keeps : atCast.Ensures scope fun s _ => s = scope := by
  refine .skip _ fun b => ?_
  split
  · refine .skip _ fun kind => ?_
    split
    · exact .getting (.pure rfl)
    · exact .pure rfl
  · exact .pure rfl

variable (hs : scope.Closed)
include hs

theorem mention_learns (tag : String) (span : Span) :
    (modifyGet (·.mention tag span) : Parser StructId).Ensures scope fun s id =>
      scope.Learns s ∧ id.index < s.structs.length :=
  Reader.Returns.pure (learns_mention hs tag span)

theorem baseType?_learns : baseType?.Ensures scope fun s base =>
    scope.Learns s ∧ base.elim True (BaseType.Below s.structs.length) := by
  have hfree {T : StructId} (hT : T ∈ (none : Option StructId)) : T.index < scope.structs.length := by
    cases hT
  refine .skip _ fun _ => .skip _ fun token => ?_
  split
  · split
    · exact .skip _ fun _ => .pure ⟨.refl hs, fun _ => hfree⟩
    · split
      · exact .skip _ fun _ => .pure ⟨.refl hs, fun _ => hfree⟩
      · split
        · refine .skip _ fun _ => .skip _ fun _ => (mention_learns hs _ _).bind fun s id h => ?_
          refine .pure ⟨h.1, ?_⟩
          rintro _ ⟨⟩
          exact h.2
        · refine .getting ?_
          split
          · rename_i base hbase
            exact .skip _ fun _ => .pure ⟨.refl hs, hs.alias? hbase⟩
          · exact .pure ⟨.refl hs, trivial⟩
  · exact .pure ⟨.refl hs, trivial⟩

omit hs in
theorem fieldNames_below {n : Nat} (hb : base.Below n) (hf : FieldDecl.AllBelow n fields) :
    (fieldNames base fields).Returns (FieldDecl.AllBelow n) := by
  refine (Reader.Returns.fix
    (P := fun fields fields' => FieldDecl.AllBelow n fields → FieldDecl.AllBelow n fields')
    (fun more hmore fields => ?_) fields).mono fun _ h => h hf
  refine .after _ fun k => .after _ fun r => ?_
  obtain ⟨name, nameSpan⟩ := r
  refine .after _ fun b => ?_
  split
  · exact .unsupported _ _
  · refine (Returns.lift fun ty hty => hb.withStars hty).bind fun ty hty => ?_
    split
    · exact .malformed _ _
    · have hadd (hf : FieldDecl.AllBelow n fields) : FieldDecl.AllBelow n (fields ++ [⟨name, ty⟩]) :=
        forall_mem_append.2 ⟨hf, forall_mem_singleton.2 hty⟩
      refine .after _ fun b => ?_
      split
      · exact (hmore _).mono fun _ h hf => h (hadd hf)
      · exact .pure hadd

theorem structFields_learns : structFields.Ensures scope fun s fields =>
    scope.Learns s ∧ FieldDecl.AllBelow s.structs.length fields := by
  refine .skip _ fun _ => ?_
  refine (Ensures.fix (P := fun (fields : List FieldDecl) s s' fields' => s.Closed →
    FieldDecl.AllBelow s.structs.length fields →
      s.Learns s' ∧ FieldDecl.AllBelow s'.structs.length fields')
    (fun more hmore fields s => .of_imp fun hs => .of_imp fun hf => ?_) [] scope).mono
    fun s fields h => h hs (forall_mem_nil _)
  refine .skip _ fun b => ?_
  split
  · exact .pure ⟨.refl hs, hf⟩
  · refine .skip _ fun here => (baseType?_learns hs).bind fun s₁ base h => ?_
    obtain ⟨hlearns, hbase⟩ := h
    split
    · exact .skip _ fun _ => .malformed _ _
    · refine .reading (fieldNames_below hbase (hf.mono hlearns.length_le)) fun fields' hf' => ?_
      refine .skip _ fun _ => (hmore fields' s₁).mono fun s₂ _ h => ?_
      obtain ⟨hlearns', hfields⟩ := h hlearns.closed hf'
      exact ⟨hlearns.trans hlearns', hfields⟩

theorem defineStruct_learns (hf : FieldDecl.AllBelow scope.structs.length fields) (tag : String)
    (span : Span) : (defineStruct tag fields span).Ensures scope fun s id =>
      scope.Learns s ∧ id.index < s.structs.length := by
  refine (mention_learns hs tag span).bind fun s id h => .getting ?_
  obtain ⟨hlearns, hid⟩ := h
  split
  · exact .malformed _ _
  · rename_i hnew
    have hdefine := learns_define hlearns.closed (Option.not_isSome_iff_eq_none.1 hnew)
      (hf.mono hlearns.length_le)
    exact .modifying (.pure ⟨hlearns.trans hdefine, Nat.lt_of_lt_of_le hid hdefine.length_le⟩)

theorem nameType_learns (hb : base.Below scope.structs.length) (stars : Nat) (name : String)
    (span : Span) : (nameType base stars name span).Ensures scope fun s _ => scope.Learns s :=
  .lifting fun _ haliased => .skip _ fun _ =>
    Reader.Returns.pure (learns_alias hs (hb.aliased haliased) name)

theorem typeDefinition_learns : typeDefinition.Ensures scope fun s _ => scope.Learns s := by
  -- A structure that is defined in place gets a name.
  have hname {s s' : Scope} {T : StructId} (h : scope.Learns s)
      (h' : s.Learns s' ∧ T.index < s'.structs.length) (n : Nat) (name : String) (span : Span) :
      (nameType (.struct T) n name span).Ensures s' fun s _ => scope.Learns s := by
    refine (nameType_learns h'.1.closed ?_ n name span).mono fun _ _ h'' => (h.trans h'.1).trans h''
    rintro _ ⟨⟩
    exact h'.2
  refine .skip _ fun here => .skip _ fun b => .skip _ fun b' => .skip _ fun b'' => ?_
  split
  · refine .skip _ fun _ => .skip _ fun token => ?_
    split
    · refine .skip _ fun r => (structFields_learns hs).bind fun s fields h => ?_
      refine (defineStruct_learns h.1.closed h.2 _ _).bind fun s' T h' => ?_
      exact .skip _ fun n => .skip _ fun r => hname h.1 h' _ _ _
    · refine (structFields_learns hs).bind fun s fields h => .skip _ fun n => .skip _ fun r => ?_
      exact (defineStruct_learns h.1.closed h.2 _ _).bind fun s' T h' => hname h.1 h' _ _ _
  · refine (baseType?_learns hs).bind fun s base h => ?_
    split
    · exact .malformed _ _
    · exact .skip _ fun n => .skip _ fun r => (nameType_learns h.1.closed h.2 _ _ _).mono
        fun _ _ h' => h.1.trans h'

theorem allocation_learns : allocation.Ensures scope fun s T =>
    scope.Learns s ∧ T.index < s.structs.length := by
  refine .skip _ fun r => .skip _ fun _ => ?_
  extract_lets sized rest
  have hrest (u : Unit) : (rest u).Ensures scope fun s T =>
      scope.Learns s ∧ T.index < s.structs.length := by
    refine .skip _ fun here => (baseType?_learns hs).bind fun s base h => ?_
    split
    · exact .malformed _ _
    · rename_i T
      refine .skip _ fun b => ?_
      split
      · refine .skip _ fun _ => ?_
        extract_lets
        split
        · exact .skip _ fun _ => .pure ⟨h.1, h.2 T rfl⟩
        · exact .pure ⟨h.1, h.2 T rfl⟩
      · exact .unsupported _ _
    · exact .unsupported _ _
  split
  · refine .skip _ fun b => ?_
    split
    · exact .skip _ hrest
    · exact .skip _ fun _ => .skip _ hrest
  · exact hrest ()

theorem cast_learns (ty : Ty) : (cast ty).Ensures scope fun s _ => scope.Learns s := by
  refine .skip _ fun here => atCast_keeps.bind fun s b h => ?_
  obtain rfl := h
  split
  · refine .skip _ fun _ => (baseType?_learns hs).bind fun s' base h => ?_
    split
    · exact .malformed _ _
    · refine .skip _ fun n => .skip _ fun _ => .lifting fun ty' _ => ?_
      split
      · exact .pure h.1
      · exact .malformed _ _
  · exact .pure (.refl hs)

end Parser

end HeapShape
