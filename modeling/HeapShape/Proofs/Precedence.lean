import HeapShape.Proofs.Consuming
import HeapShape.Proofs.Reading
import Mathlib.Data.Nat.Init

/-!
# Expressions are read by precedence

An expression can be written with parentheses where the precedence of its operators asks for them,
and with more of them anywhere. However it is written, the same tree is read back.

* `BinaryOp.level`: how tightly an operator binds, by its place in the table;
* `Formula.render`: an expression with parentheses only where they are needed;
* `Formula.Written`: an expression with at least these parentheses;
* `Formula.takes_written`: what is read on each level, followed by more on this level;
* `Formula.readExpr_written`: what is written is read back.
-/

namespace HeapShape

open List

/-! ### Written expressions -/

/-- How tightly an operator binds: the place of its level in the table. -/
def BinaryOp.level (op : BinaryOp) : Nat := levels.findIdx (·.contains op)

/-- A path can be read: its variable is declared, and each step names a field of the structure that
    the path in front of it points to, by the place of the first field with this name. -/
inductive Scope.Resolves (scope : Scope) : Path → Ty → Prop where
  | var {x : String} {ty : Ty} (hx : scope.var? x = some ty) : Resolves scope (.ofVar x) ty
  | field {p : Path} {id : StructId} {decl : StructDecl} {index : Nat} {f : FieldDecl}
      (hp : Resolves scope p (.ptr id)) (hdecl : scope.decl? id = some decl)
      (hindex : decl.fieldIndex? f.name = some index) (hf : decl.fields[index]? = some f) :
      Resolves scope (p.field ⟨f.name, index⟩) f.ty

/-- A path as tokens: its variable, and each field behind an arrow. -/
def Path.kinds (p : Path) : List Token.Kind :=
  .ident p.var :: p.fields.flatMap fun f => [.punct "->", .ident f.name]

namespace Formula

open Reader

/-- The words for the null pointer. -/
def nullWords : List String := ["null", "NULL"]

/-- Tokens in parentheses. -/
def parens (kinds : List Token.Kind) : List Token.Kind := .punct "(" :: kinds ++ [.punct ")"]

/-- An expression as tokens, where operators that bind looser than a level are in parentheses. The
    left operand of an operator may have the same level, and the right one may not. -/
def render : Formula → Nat → List Token.Kind
  | .number value, _ => [.number value]
  | .null, _ => [.ident "null"]
  | .path p _, _ => p.kinds
  | .unary op e, _ => .punct op.mark :: e.render BinaryOp.levels.length
  | .binary op lhs rhs, level =>
    let kinds := lhs.render op.level ++ .punct op.mark :: rhs.render (op.level + 1)
    if op.level < level then parens kinds else kinds

/-- Tokens are an expression of at least some level, written with all the parentheses that it needs
    and any number of others. -/
inductive Written : Nat → Formula → List Token.Kind → Prop where
  | number (level value : Nat) : Written level (.number value) [.number value]
  | null (level : Nat) {word : String} (h : word ∈ nullWords) : Written level .null [.ident word]
  | path (level : Nat) (p : Path) (ty : Ty) : Written level (.path p ty) p.kinds
  | unary (level : Nat) (op : UnaryOp) {e : Formula} {kinds : List Token.Kind}
      (he : Written BinaryOp.levels.length e kinds) :
      Written level (.unary op e) (.punct op.mark :: kinds)
  | binary {level : Nat} {op : BinaryOp} {lhs rhs : Formula} {left right : List Token.Kind}
      (hlevel : level ≤ op.level) (hl : Written op.level lhs left)
      (hr : Written (op.level + 1) rhs right) :
      Written level (.binary op lhs rhs) (left ++ .punct op.mark :: right)
  | parens (level : Nat) {e : Formula} {kinds : List Token.Kind} (he : Written 0 e kinds) :
      Written level e (parens kinds)

/-- The parentheses that are needed are enough. -/
theorem written_render (e : Formula) (level : Nat) : Written level e (e.render level) := by
  induction e generalizing level with
  | number value => exact .number level value
  | null => exact .null level mem_cons_self
  | path p ty => exact .path level p ty
  | unary op e ih => exact .unary level op (ih _)
  | binary op lhs rhs ihl ihr =>
    rw [render]
    split
    · exact .parens level (.binary (Nat.zero_le _) (ihl _) (ihr _))
    · rename_i h
      exact .binary (Nat.le_of_not_lt h) (ihl _) (ihr _)

end Formula

/-! ### Operators -/

namespace BinaryOp

theorem mark_injective : Function.Injective mark := by
  intro op op' h
  cases op <;> cases op' <;> first | rfl | exact absurd h (by decide)

theorem level_lt (op : BinaryOp) : op.level < levels.length := by cases op <;> decide

/-- Each operator stands at its level of the table. -/
theorem drop_level (op : BinaryOp) :
    ∃ ops, levels.drop op.level = ops :: levels.drop (op.level + 1) ∧ op ∈ ops := by
  cases op <;> exact ⟨_, rfl, by decide⟩

theorem level_of_mem {level : Nat} {ops : List BinaryOp} {tighter : List (List BinaryOp)}
    (h : levels.drop level = ops :: tighter) {op : BinaryOp} (hop : op ∈ ops) : op.level = level := by
  have htable : ∀ row ∈ levels.zipIdx, ∀ op ∈ row.1, op.level = row.2 := by decide
  have hget : levels[level]? = some ops := by rw [← head?_drop, h, head?_cons]
  exact htable (ops, level) (mem_zipIdx_iff_getElem?.2 hget) op hop

end BinaryOp

/-- The marks that may stand behind an expression. -/
def Cursor.closers : List String := [")", ";", ","]

namespace Token.Kind

/-- No operator of some level or of a tighter one comes next. -/
def Stops (ks : List Kind) (level : Nat) : Prop :=
  ∀ op : BinaryOp, level ≤ op.level → ks.head? ≠ some (.punct op.mark)

/-- Nothing comes next that would continue a path or turn its variable into a call. -/
def EndsPath (ks : List Kind) : Prop := ∀ mark ∈ ["->", "[", ".", "("], ks.head? ≠ some (.punct mark)

variable {ks : List Kind} {mark : String} {level level' : Nat}

theorem Stops.mono (h : Stops ks level) (hle : level ≤ level') : Stops ks level' :=
  fun op hop => h op (Nat.le_trans hle hop)

theorem stops_length (ks : List Kind) : Stops ks BinaryOp.levels.length :=
  fun op hop => absurd op.level_lt (Nat.not_lt.2 hop)

/-- An operator stops tighter levels than its own. -/
theorem stops_of_op (op : BinaryOp) : Stops (.punct op.mark :: ks) (op.level + 1) := by
  intro op' hle h
  obtain rfl := BinaryOp.mark_injective (punct.inj (Option.some.inj h))
  exact Nat.lt_irrefl _ hle

theorem endsPath_of_op (op : BinaryOp) : EndsPath (.punct op.mark :: ks) := by
  have hapart : op.mark ∉ ["->", "[", ".", "("] := by cases op <;> decide
  exact fun mark hmark => Reader.Takes.head?_punct_ne (ne_of_mem_of_not_mem hmark hapart).symm

theorem stops_of_closer (hmark : mark ∈ Cursor.closers) (level : Nat) :
    Stops (.punct mark :: ks) level := by
  have hapart (op : BinaryOp) : op.mark ∉ Cursor.closers := by cases op <;> decide
  exact fun op _ => Reader.Takes.head?_punct_ne (ne_of_mem_of_not_mem hmark (hapart op))

theorem endsPath_of_closer (hmark : mark ∈ Cursor.closers) : EndsPath (.punct mark :: ks) := by
  have hapart : ∀ mark ∈ Cursor.closers, mark ∉ ["->", "[", ".", "("] := by decide
  exact fun mark' hmark' =>
    Reader.Takes.head?_punct_ne (ne_of_mem_of_not_mem hmark' (hapart mark hmark)).symm

end Token.Kind

namespace Formula

open Reader Reader.Takes Token.Kind

variable {Op : Type} {markOf : Op → String} {ops : List Op} {op : Op} {ks ks₁ ks' : List Token.Kind}

theorem takes_eatOp? (hinj : Function.Injective markOf) (hop : op ∈ ops) :
    (eatOp? markOf ops).Takes (.punct (markOf op) :: ks) (· = some op) ks := by
  induction ops with
  | nil => cases hop
  | cons op' ops ih =>
    by_cases heq : op' = op
    · subst heq
      exact .eat (.pure rfl)
    · exact .not_eatPunct (head?_punct_ne fun h => heq (hinj h.symm))
        (ih ((mem_cons.1 hop).resolve_left (Ne.symm heq)))

theorem takes_eatOp?_none (h : ∀ op ∈ ops, ks.head? ≠ some (.punct (markOf op))) :
    (eatOp? markOf ops).Takes ks (· = none) ks := by
  induction ops with
  | nil => exact .pure rfl
  | cons op ops ih =>
    obtain ⟨hop, hops⟩ := forall_mem_cons.1 h
    exact .not_eatPunct hop (ih hops)

/-! ### Paths -/

theorem find?_zipIdx_of_fieldIndex? {decl : StructDecl} {name : String} {index : Nat} {f : FieldDecl}
    (hindex : decl.fieldIndex? name = some index) (hf : decl.fields[index]? = some f) :
    decl.fields.zipIdx.find? (·.1.name = name) = some (f, index) := by
  obtain ⟨hlt, hname, hfirst⟩ := findIdx?_eq_some_iff_getElem.1 hindex
  obtain ⟨-, rfl⟩ := List.getElem?_eq_some_iff.1 hf
  refine find?_eq_some_iff_getElem.2 ⟨hname, index, by rwa [length_zipIdx], ?_, ?_⟩
  · rw [getElem_zipIdx, Nat.zero_add]
  · intro j hj
    rw [getElem_zipIdx, Bool.not_eq_true', ← Bool.not_eq_true]
    exact hfirst j hj

section

variable {scope : Scope} {p : Path} {ty : Ty}

theorem takes_readFields_of_endsPath (hend : EndsPath ks) :
    (readFields scope (p, ty)).Takes ks (· = (p, ty)) ks := by
  refine .fix fun _ _ => .span fun _ => .not_isPunct (hend "[" (by decide)) ?_
  exact .not_isPunct (hend "." (by decide)) (.not_eatPunct (hend "->" (by decide)) (.pure rfl))

/-- The fields of a path are read one after the other. -/
theorem takes_readFields (hp : scope.Resolves p ty) : ∃ ty₀, scope.var? p.var = some ty₀ ∧
    ∀ ks ks' r, (readFields scope (p, ty)).Takes ks (· = r) ks' →
      (readFields scope (.ofVar p.var, ty₀)).Takes
        (p.fields.flatMap (fun f => [.punct "->", .ident f.name]) ++ ks) (· = r) ks' := by
  induction hp with
  | var hx => exact ⟨_, hx, fun _ _ _ => id⟩
  | @field p id decl index f hp hdecl hindex hf ih =>
    obtain ⟨ty₀, hty₀, ih⟩ := ih
    refine ⟨ty₀, hty₀, fun ks ks' r h => ?_⟩
    rw [Path.field, flatMap_append, append_assoc]
    refine ih _ _ _ (.fix fun more hmore => .span fun _ => .not_isPunct (head?_punct_ne (by decide)) ?_)
    refine .not_isPunct (head?_punct_ne (by decide)) (.eat (.expectIdent fun _ => ?_))
    simp only [hdecl, find?_zipIdx_of_fieldIndex? hindex hf]
    exact hmore _ _ _ _ (Nat.lt_succ_of_lt (Nat.lt_succ_self _)) h

theorem takes_readPath (hp : scope.Resolves p ty) (hend : EndsPath ks) :
    (readPath scope).Takes (p.kinds ++ ks) (· = (p, ty)) ks := by
  obtain ⟨ty₀, hty₀, hfields⟩ := takes_readFields hp
  refine .expectIdent fun _ => ?_
  simp only [hty₀]
  exact hfields _ _ _ (takes_readFields_of_endsPath hend)

end

/-! ### Operands -/

section

variable {scope : Scope} {expr : Reader Formula} {e : Formula}

theorem takes_readUnary_of_primary (hne : ∀ op ∈ UnaryOp.all, ks.head? ≠ some (.punct op.mark))
    (h : (readPrimary scope expr).Takes ks (· = e) ks') : (readUnary scope expr).Takes ks (· = e) ks' := by
  refine .fix fun _ _ => (takes_eatOp?_none hne).bind ?_
  rintro _ rfl
  exact h

theorem takes_readUnary_op (op : UnaryOp) (h : (readUnary scope expr).Takes ks (· = e) ks') :
    (readUnary scope expr).Takes (.punct op.mark :: ks) (· = .unary op e) ks' := by
  have hinj : Function.Injective UnaryOp.mark := by
    intro op op' h
    cases op <;> cases op' <;> first | rfl | exact absurd h (by decide)
  refine .fix fun more hmore => (takes_eatOp? hinj (by cases op <;> decide)).bind ?_
  rintro _ rfl
  exact (hmore _ _ _ _ (Nat.lt_succ_self _) h).bind fun _ he => .pure (congrArg _ he)

/-- In front of a number or an identifier no punctuation is found. -/
theorem takes_of_not_punct {m₁ m₂ m₃ m₄ : Reader Formula} (hne : ∀ mark, ks.head? ≠ some (.punct mark))
    (h : m₄.Takes ks (· = e) ks') :
    (do if ← isPunct "&" then m₁ else if ← isPunct "*" then m₂ else if ← eatPunct "(" then m₃ else m₄ :
      Reader Formula).Takes ks (· = e) ks' :=
  .not_isPunct (hne _) (.not_isPunct (hne _) (.not_eatPunct (hne _) h))

theorem takes_readUnary_number (value : Nat) :
    (readUnary scope expr).Takes (.number value :: ks) (· = .number value) ks := by
  have hne (mark : String) : (Token.Kind.number value :: ks).head? ≠ some (.punct mark) := by rintro ⟨⟩
  refine takes_readUnary_of_primary (fun _ _ => hne _) (.span fun _ => takes_of_not_punct hne ?_)
  refine .peek fun t ht => ?_
  simp only [ht]
  exact .next fun _ _ => .pure rfl

theorem takes_readUnary_null {word : String} (hword : word ∈ nullWords) :
    (readUnary scope expr).Takes (.ident word :: ks) (· = .null) ks := by
  refine takes_readUnary_of_primary (fun _ _ => head?_ident_ne) (.span fun _ => ?_)
  refine takes_of_not_punct (fun _ => head?_ident_ne) (.peek fun t ht => ?_)
  simp only [ht]
  rw [if_pos (by simpa [nullWords] using hword)]
  exact .next fun _ _ => .pure rfl

theorem takes_readUnary_path {p : Path} {ty : Ty} (hp : scope.Resolves p ty) (hvar : p.var ∉ nullWords)
    (hend : EndsPath ks) : (readUnary scope expr).Takes (p.kinds ++ ks) (· = .path p ty) ks := by
  -- The variable is not taken for the name of a function that is called.
  have hcall : ¬(p.kinds ++ ks)[1]?.getD .eof = .punct "(" := by
    rw [Path.kinds]
    cases p.fields with
    | nil =>
      intro h
      refine hend "(" (by decide) ?_
      cases ks with
      | nil => cases h
      | cons k ks => exact congrArg some h
    | cons f fs => exact fun h => absurd (punct.inj h) (by decide)
  have hread := takes_readPath hp hend
  obtain ⟨tail, htail⟩ : ∃ tail, p.kinds ++ ks = .ident p.var :: tail := ⟨_, rfl⟩
  rw [htail] at hcall hread ⊢
  refine takes_readUnary_of_primary (fun _ _ => head?_ident_ne) (.span fun _ => ?_)
  refine takes_of_not_punct (fun _ => head?_ident_ne) (.peek fun t ht => ?_)
  simp only [ht]
  rw [if_neg (by simpa [nullWords] using hvar)]
  refine .peekAt ?_
  rw [if_neg hcall]
  refine hread.bind ?_
  rintro _ rfl
  exact .pure rfl

theorem takes_readUnary_parens (h : expr.Takes ks (· = e) (.punct ")" :: ks')) :
    (readUnary scope expr).Takes (.punct "(" :: ks) (· = e) ks' := by
  have hne (mark : String) (hmark : "(" ≠ mark) :
      (Token.Kind.punct "(" :: ks).head? ≠ some (.punct mark) := head?_punct_ne hmark
  refine takes_readUnary_of_primary (fun op _ => hne _ (by cases op <;> decide)) (.span fun _ => ?_)
  refine .not_isPunct (hne _ (by decide)) (.not_isPunct (hne _ (by decide)) (.eat ?_))
  exact h.bind fun _ he => .expectPunct (.pure he)

end

/-! ### Levels -/

/-- Read what follows an operand on the loosest of some levels. -/
def readMore (operand : Reader Formula) : List (List BinaryOp) → Formula → Reader Formula
  | [], lhs => return lhs
  | ops :: tighter, lhs =>
    fix (fun more lhs => do
      match ← eatOp? BinaryOp.mark ops with
      | some op => more (.binary op lhs (← readLevels operand tighter))
      | none => return lhs) lhs

section

variable {operand : Reader Formula} {e r : Formula} {level level' : Nat}

/-- An operand of the tighter levels comes first. -/
theorem takes_readLevels_cons {ops : List BinaryOp} {tighter : List (List BinaryOp)}
    (he : (readLevels operand tighter).Takes ks (· = e) ks₁)
    (h : (readMore operand (ops :: tighter) e).Takes ks₁ (· = r) ks') :
    (readLevels operand (ops :: tighter)).Takes ks (· = r) ks' := by
  refine he.bind ?_
  rintro _ rfl
  exact h

/-- Nothing follows if no operator of the level does. -/
theorem takes_readMore_of_stops (h : Stops ks level) :
    (readMore operand (BinaryOp.levels.drop level) e).Takes ks (· = e) ks := by
  cases hdrop : BinaryOp.levels.drop level with
  | nil => exact .pure rfl
  | cons ops tighter =>
    refine .fix fun _ _ => (takes_eatOp?_none fun op hop => ?_).bind ?_
    · exact h op (Nat.le_of_eq (BinaryOp.level_of_mem hdrop hop).symm)
    · rintro _ rfl
      exact .pure rfl

/-- An operator and its right operand follow. -/
theorem takes_readMore_op {op : BinaryOp} {lhs rhs : Formula} (hlen : ks₁.length ≤ ks.length)
    (hr : (readLevels operand (BinaryOp.levels.drop (op.level + 1))).Takes ks (· = rhs) ks₁)
    (h : (readMore operand (BinaryOp.levels.drop op.level) (.binary op lhs rhs)).Takes ks₁ (· = r) ks') :
    (readMore operand (BinaryOp.levels.drop op.level) lhs).Takes (.punct op.mark :: ks) (· = r) ks' := by
  obtain ⟨ops, hdrop, hop⟩ := op.drop_level
  rw [hdrop] at h ⊢
  refine .fix fun more hmore => (takes_eatOp? BinaryOp.mark_injective hop).bind ?_
  rintro _ rfl
  refine hr.bind ?_
  rintro _ rfl
  exact hmore _ _ _ _ (Nat.lt_succ_of_le hlen) h

/-- What is read on a tighter level is read on a looser one, if no operator in between follows. -/
theorem takes_readLevels_of_le (hle : level ≤ level') (hstop : Stops ks₁ (level + 1))
    (h : ∀ r ks', (readMore operand (BinaryOp.levels.drop level') e).Takes ks₁ (· = r) ks' →
      (readLevels operand (BinaryOp.levels.drop level')).Takes ks (· = r) ks') :
    ∀ r ks', (readMore operand (BinaryOp.levels.drop level) e).Takes ks₁ (· = r) ks' →
      (readLevels operand (BinaryOp.levels.drop level)).Takes ks (· = r) ks' := by
  refine Nat.decreasingInduction' (fun l _ hl ih r ks' hmore => ?_) hle h
  have htail := BinaryOp.levels.tail_drop (i := l)
  cases hdrop : BinaryOp.levels.drop l with
  | nil =>
    rw [hdrop, tail_nil] at htail
    rw [hdrop] at hmore
    rw [← htail] at ih
    exact ih r ks' hmore
  | cons ops tighter =>
    rw [hdrop] at htail hmore
    obtain rfl : tighter = BinaryOp.levels.drop (l + 1) := htail
    have hstop' : Stops ks₁ (l + 1) := hstop.mono (Nat.succ_le_succ hl)
    exact takes_readLevels_cons (ih e ks₁ (takes_readMore_of_stops hstop')) hmore

/-- What is read in front of all operators is read on every level that none of them follows. -/
theorem takes_readLevels_of_operand (h : operand.Takes ks (· = e) ks₁) (hstop : Stops ks₁ (level + 1))
    (hmore : (readMore operand (BinaryOp.levels.drop level) e).Takes ks₁ (· = r) ks') :
    (readLevels operand (BinaryOp.levels.drop level)).Takes ks (· = r) ks' := by
  refine takes_readLevels_of_le (Nat.le_max_left level BinaryOp.levels.length) hstop
    (fun r ks' hmore => ?_) r ks' hmore
  rw [drop_eq_nil_of_le (Nat.le_max_right ..)] at hmore ⊢
  rw [readLevels, ← bind_pure operand]
  refine h.bind ?_
  rintro _ rfl
  exact hmore

end

/-! ### Reading back -/

/-- A path can be read, and is not taken for the null pointer. -/
def Readable (scope : Scope) (p : Path) (ty : Ty) : Prop := scope.Resolves p ty ∧ p.var ∉ nullWords

section

variable {scope : Scope} {e : Formula} {level : Nat} {kinds : List Token.Kind}

/-- In front of fewer than `n` tokens, a reader does what reads expressions. -/
def Nested (scope : Scope) (n : Nat) (expr : Reader Formula) : Prop :=
  ∀ ks P ks', ks.length < n → (readExpr scope).Takes ks P ks' → expr.Takes ks P ks'

/-- An expression is read on all levels, and so is what stands in parentheses in it. -/
theorem takes_readExpr (h : ∀ expr, Nested scope ks.length expr →
      (readLevels (readUnary scope expr) BinaryOp.levels).Takes ks (· = e) ks') :
    (readExpr scope).Takes ks (· = e) ks' :=
  .fix fun _ hself => h _ fun ks P ks' => hself () ks P ks'

/-- What is written on a level is read there, whatever is read on this level behind it. -/
theorem takes_written (hw : Written level e kinds) (he : e.Holds (Readable scope)) :
    ∀ (ks : List Token.Kind) (expr : Reader Formula) (r : Formula) (ks' : List Token.Kind),
      Nested scope (kinds ++ ks).length expr → EndsPath ks → Stops ks (level + 1) →
      (readMore (readUnary scope expr) (BinaryOp.levels.drop level) e).Takes ks (· = r) ks' →
      (readLevels (readUnary scope expr) (BinaryOp.levels.drop level)).Takes (kinds ++ ks) (· = r) ks' := by
  induction hw with
  | number level value =>
    intro ks expr r ks' _ _ hstop hmore
    exact takes_readLevels_of_operand (takes_readUnary_number value) hstop hmore
  | null level hword =>
    intro ks expr r ks' _ _ hstop hmore
    exact takes_readLevels_of_operand (takes_readUnary_null hword) hstop hmore
  | path level p ty =>
    intro ks expr r ks' _ hend hstop hmore
    exact takes_readLevels_of_operand (takes_readUnary_path he.1 he.2 hend) hstop hmore
  | @unary level op e kinds _ ih =>
    intro ks expr r ks' hexpr hend hstop hmore
    have hread := ih he ks expr e ks (fun ks P ks' hlt => hexpr ks P ks' (Nat.lt_succ_of_lt hlt)) hend
      ((stops_length _).mono (Nat.le_succ _)) (takes_readMore_of_stops (stops_length _))
    exact takes_readLevels_of_operand (takes_readUnary_op op hread) hstop hmore
  | @binary level op lhs rhs left right hlevel _ _ ihl ihr =>
    intro ks expr r ks' hexpr hend hstop hmore
    rw [append_assoc, cons_append] at hexpr ⊢
    have hstop' : Stops ks (op.level + 1) := hstop.mono (Nat.succ_le_succ hlevel)
    -- The right operand is all that is read on the next level.
    have hright := ihr he.2 ks expr rhs ks
      (fun ks₁ P ks' hlt => hexpr ks₁ P ks'
        (by simp only [length_append, length_cons] at hlt ⊢; omega))
      hend (hstop'.mono (Nat.le_succ _)) (takes_readMore_of_stops hstop')
    refine takes_readLevels_of_le hlevel hstop (fun r ks' hmore => ?_) r ks' hmore
    exact ihl he.1 _ expr r ks' hexpr (endsPath_of_op op) (stops_of_op op)
      (takes_readMore_op (by simp only [length_append]; omega) hright hmore)
  | @parens level e kinds _ ih =>
    intro ks expr r ks' hexpr hend hstop hmore
    rw [parens, append_assoc, cons_append] at hexpr ⊢
    -- In parentheses all levels are read again, up to the closing one.
    have hread := takes_readExpr fun expr' hexpr' =>
      ih he (.punct ")" :: ks) expr' e _ hexpr' (endsPath_of_closer (by decide))
        (stops_of_closer (by decide) 1) (takes_readMore_of_stops (stops_of_closer (by decide) 0))
    exact takes_readLevels_of_operand (takes_readUnary_parens (hexpr _ _ _ (Nat.lt_succ_self _) hread))
      hstop hmore

/-- An expression that is written with the parentheses that it needs, or with more of them, is read
    back, and the cursor stands on the token behind it. -/
theorem readExpr_written (he : e.Holds (Readable scope)) :
    Written 0 e (e.render 0) ∧ ∀ (kinds : List Token.Kind) (toks rest : List Token) (next : Token)
      (mark : String) (finish : Span), Written 0 e kinds → toks.map Token.kind = kinds →
      next.kind = .punct mark → mark ∈ Cursor.closers →
      (readExpr scope).run ⟨toks ++ next :: rest, finish⟩ = .ok (e, ⟨next :: rest, finish⟩) := by
  refine ⟨written_render e 0, fun kinds toks rest next mark finish hw htoks hnext hmark => ?_⟩
  have hread : (readExpr scope).Takes (kinds ++ .punct mark :: rest.map Token.kind) (· = e)
      (.punct mark :: rest.map Token.kind) :=
    takes_readExpr fun expr hexpr => takes_written hw he _ expr e _ hexpr (endsPath_of_closer hmark)
      (stops_of_closer hmark 1) (takes_readMore_of_stops (stops_of_closer hmark 0))
  obtain ⟨_, toks', hrun, rfl, hsuf, htoks'⟩ :=
    hread (toks ++ next :: rest) finish (by rw [map_append, map_cons, htoks, hnext])
  -- Two ends of the tokens with the same length are the same.
  have hlen : toks'.length = (next :: rest).length := by
    rw [← length_map (f := Token.kind), htoks', length_cons, length_map, length_cons]
  obtain rfl := (suffix_of_suffix_length_le hsuf (suffix_append _ _) (Nat.le_of_eq hlen)).eq_of_length hlen
  exact hrun

end

end Formula

/-! ### A condition with operators of many levels -/

namespace Sample

/-- The declarations of a list and of a number. -/
def listScope : Scope where
  structs := [⟨"elist", .start, some [⟨"next", .ptr ⟨0⟩⟩, ⟨"data", .int⟩]⟩]
  aliases := []
  vars := [[("i", .int), ("c", .ptr ⟨0⟩)]]

/-- The next cell of a list. -/
def nextCell : Formula := .path ⟨"c", [⟨"next", 0⟩]⟩ (.ptr ⟨0⟩)

/-- The number. -/
def count : Formula := .path ⟨"i", []⟩ .int

/-- A condition, which is written `!(c->next == null) && i - (1 - 2) < 3 * -i`. -/
def longCondition : Formula :=
  .binary .and (.unary .not (.binary .eq nextCell .null))
    (.binary .lt (.binary .sub count (.binary .sub (.number 1) (.number 2)))
      (.binary .mul (.number 3) (.unary .neg count)))

theorem holds_longCondition : longCondition.Holds (Formula.Readable listScope) := by
  have hcell : Formula.Readable listScope ⟨"c", [⟨"next", 0⟩]⟩ (.ptr ⟨0⟩) :=
    ⟨.field (p := .ofVar "c") (f := ⟨"next", .ptr ⟨0⟩⟩) (.var rfl) rfl rfl rfl, by decide⟩
  have hcount : Formula.Readable listScope ⟨"i", []⟩ .int := ⟨.var rfl, by decide⟩
  exact ⟨⟨hcell, trivial⟩, ⟨hcount, trivial, trivial⟩, trivial, hcount⟩

end Sample

/-- It is read back, also with one more pair of parentheses. -/
theorem Formula.readExpr_written_longCondition :
    Sample.longCondition.Holds (Readable Sample.listScope) ∧
      (readExpr Sample.listScope).run
        ⟨(parens (Sample.longCondition.render 0)).map (⟨·, .none⟩) ++ [⟨.punct ";", .none⟩], .none⟩ =
        .ok (Sample.longCondition, ⟨[⟨.punct ";", .none⟩], .none⟩) := by
  obtain ⟨hw, hread⟩ := readExpr_written Sample.holds_longCondition
  exact ⟨Sample.holds_longCondition, hread _ _ [] ⟨.punct ";", .none⟩ ";" .none (.parens 0 hw)
    (by rw [map_map]; exact map_id _) rfl (by decide)⟩

end HeapShape
