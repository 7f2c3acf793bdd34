import HeapShape.Program.Reader
import HeapShape.Proofs.Outcomes

/-!
# What a reader returns

Rules for computations that read tokens, with or without declarations to keep. They are about
what is returned if the text is not refused.

* `Reader.Returns`: what a reader returns has a property;
* `Parser.Ensures`: what a parser returns, and the declarations that it leaves, have a property.

Both follow the computation step by step (`bind`), and a computation that calls itself has a
property that each call has if the calls in it have it (`fix`).

The paths that are read have a type (`Path.HasType`), and so have all paths of an expression.

* `Formula.returns_readPath`, `Formula.holds_readExpr`: paths and expressions that are read;
* `Program.of_parse`: programs that are read.
-/

namespace HeapShape

namespace Reader

variable {α β : Type} {m : Reader α} {f : α → Reader β} {P : α → Prop} {Q : β → Prop}

/-- The outcome of each call of a reader that calls itself has a property if the outcomes of the calls
    in it have it, and refusals have it anyway. -/
theorem fix_holds {body : (α → Reader β) → α → Reader β}
    {R : α → Cursor → Except SourceError (β × Cursor) → Prop} (herror : ∀ a c e, R a c (.error e))
    (h : ∀ self, (∀ a c, R a c (self a c)) → ∀ a c, R a c (body self a c)) (a : α) (c : Cursor) :
    R a c (fix body a c) := by
  -- Fewer tokens are left with each call.
  induction hn : c.rest.length using Nat.strongRecOn generalizing a c with
  | ind n ih =>
    rw [fix]
    refine h _ (fun a' c' => ?_) a c
    split
    · rename_i hlt
      exact ih _ (hn ▸ hlt) a' c' rfl
    · exact herror a' c' _

/-- What a reader returns has a property. -/
def Returns (m : Reader α) (P : α → Prop) : Prop := ∀ c a c', m c = .ok (a, c') → P a

namespace Returns

theorem mono {P' : α → Prop} (h : m.Returns P) (hP : ∀ a, P a → P' a) : m.Returns P' :=
  fun c a c' ha => hP a (h c a c' ha)

theorem any (m : Reader α) : m.Returns fun _ => True := fun _ _ _ _ => trivial

theorem pure {a : α} (h : P a) : (Pure.pure a : Reader α).Returns P := by
  intro c a' c' ha
  obtain ⟨rfl, -⟩ := Prod.mk.inj (Except.ok.inj ha)
  exact h

theorem bind (hm : m.Returns P) (hf : ∀ a, P a → (f a).Returns Q) : (m >>= f).Returns Q := by
  intro c b c' hb
  obtain ⟨⟨a, c₁⟩, ha, hb⟩ := ok_of_bind hb
  exact hf a (hm c a c₁ ha) c₁ b c' hb

/-- What is read first does not matter. -/
theorem after (m : Reader α) (hf : ∀ a, (f a).Returns Q) : (m >>= f).Returns Q :=
  (any m).bind fun a _ => hf a

theorem malformed (span : Span) (e : Malformed) : (Reader.malformed span e : Reader α).Returns P :=
  fun _ _ _ ha => by cases ha

theorem unsupported (span : Span) (c : Construct) : (Reader.unsupported span c : Reader α).Returns P :=
  fun _ _ _ ha => by cases ha

theorem lift {x : Except SourceError α} (h : ∀ a, x = .ok a → P a) : (liftM x : Reader α).Returns P := by
  intro c a c' ha
  obtain ⟨a', hx, ha⟩ := ok_of_bind ha
  obtain ⟨rfl, -⟩ := Prod.mk.inj (Except.ok.inj ha)
  exact h a' hx

/-- The calls of a reader that calls itself have a property if they have it when the calls in
    them have it. -/
theorem fix {body : (α → Reader β) → α → Reader β} {P : α → β → Prop}
    (h : ∀ self, (∀ a, (self a).Returns (P a)) → ∀ a, (body self a).Returns (P a)) (a : α) :
    (Reader.fix body a).Returns (P a) := by
  intro c
  refine fix_holds (R := fun a _ r => ∀ b c', r = .ok (b, c') → P a b) ?_ (fun self hself a c => ?_) a c
  · rintro a c e b c' ⟨⟩
  · exact h self (fun a c => hself a c) a c

end Returns

end Reader

namespace Parser

variable {α β : Type} {p : Parser α} {f : α → Parser β} {scope : Scope} {P : Scope → α → Prop}
  {Q : Scope → β → Prop}

/-- What a parser leaves and returns has a property. -/
def Ensures (p : Parser α) (scope : Scope) (P : Scope → α → Prop) : Prop :=
  (p scope).Returns fun r => P r.2 r.1

namespace Ensures

theorem mono {P' : Scope → α → Prop} (h : p.Ensures scope P) (hP : ∀ s a, P s a → P' s a) :
    p.Ensures scope P' := Reader.Returns.mono h fun r => hP r.2 r.1

theorem pure {a : α} (h : P scope a) : (Pure.pure a : Parser α).Ensures scope P :=
  Reader.Returns.pure h

theorem bind (hp : p.Ensures scope P) (hf : ∀ s a, P s a → (f a).Ensures s Q) :
    (p >>= f).Ensures scope Q :=
  Reader.Returns.bind hp fun r hr => hf r.2 r.1 hr

/-- What a property depends on may be known before. -/
theorem of_imp {H : Prop} (h : H → p.Ensures scope P) : p.Ensures scope fun s a => H → P s a :=
  fun c r c' hr hH => h hH c r c' hr

/-- A reader leaves the declarations as they are. -/
theorem lift {m : Reader α} {R : α → Prop} (hm : m.Returns R) :
    (liftM m : Parser α).Ensures scope fun s a => s = scope ∧ R a := by
  show (m >>= fun a => Pure.pure (a, scope) : Reader (α × Scope)).Returns _
  exact hm.bind fun _ ha => .pure ⟨rfl, ha⟩

/-- What a reader returns is used. -/
theorem reading {m : Reader α} {R : α → Prop} (hm : m.Returns R)
    (hf : ∀ a, R a → (f a).Ensures scope Q) : (liftM m >>= f).Ensures scope Q := by
  refine (lift hm).bind fun s a h => ?_
  obtain ⟨rfl, ha⟩ := h
  exact hf a ha

/-- What a reader returns does not matter. -/
theorem skip (m : Reader α) (hf : ∀ a, (f a).Ensures scope Q) : (liftM m >>= f).Ensures scope Q :=
  reading (.any m) fun a _ => hf a

/-- What a computation without tokens returns is used. -/
theorem lifting {x : Except SourceError α} (hf : ∀ a, x = .ok a → (f a).Ensures scope Q) :
    (liftM x >>= f).Ensures scope Q :=
  reading (m := liftM x) (.lift fun _ => id) hf

theorem malformed (span : Span) (e : Malformed) :
    (liftM (Reader.malformed span e : Reader α) : Parser α).Ensures scope P :=
  (lift (.malformed span e : Reader.Returns _ fun _ : α => False)).mono fun _ _ h => h.2.elim

theorem unsupported (span : Span) (c : Construct) :
    (liftM (Reader.unsupported span c : Reader α) : Parser α).Ensures scope P :=
  (lift (.unsupported span c : Reader.Returns _ fun _ : α => False)).mono fun _ _ h => h.2.elim

theorem getting {f : Scope → Parser β} (hf : (f scope).Ensures scope Q) :
    (get >>= f : Parser β).Ensures scope Q := hf

theorem setting {scope' : Scope} {P : Scope → PUnit → Prop} (h : P scope' ()) :
    (set scope' : Parser PUnit).Ensures scope P := Reader.Returns.pure h

theorem modifying {g : Scope → Scope} {f : PUnit → Parser β} (hf : (f ()).Ensures (g scope) Q) :
    (modify g >>= f : Parser β).Ensures scope Q := hf

/-- The calls of a parser that calls itself have a property if they have it when the calls in
    them have it. -/
theorem fix {body : (α → Parser β) → α → Parser β} {P : α → Scope → Scope → β → Prop}
    (h : ∀ self, (∀ a s, (self a).Ensures s (P a s)) → ∀ a s, (body self a).Ensures s (P a s))
    (a : α) (scope : Scope) : (Parser.fix body a).Ensures scope (P a scope) := by
  have hcalls : ∀ arg : α × Scope,
      (Reader.fix (fun self (arg : α × Scope) => body (fun a' s' => self (a', s')) arg.1 arg.2)
        arg).Returns fun r => P arg.1 arg.2 r.2 r.1 :=
    Reader.Returns.fix fun self hself arg => h _ (fun a s => hself (a, s)) arg.1 arg.2
  exact hcalls (a, scope)

end Ensures

end Parser

/-! ### Paths and expressions -/

/-- An access path has a type, if variables and structures are known. It starts with a variable, and
    each step has the place and the name of a field of the structure that the path in front of it
    points to. -/
inductive Path.HasType (var? : String → Option Ty) (decl? : StructId → Option StructDecl) :
    Path → Ty → Prop
  | var {x : String} {ty : Ty} (hx : var? x = some ty) : HasType var? decl? (.ofVar x) ty
  | field {p : Path} {T : StructId} {decl : StructDecl} {index : Nat} {f : FieldDecl}
      (hp : HasType var? decl? p (.ptr T)) (hdecl : decl? T = some decl)
      (hf : decl.fields[index]? = some f) : HasType var? decl? (p.field ⟨f.name, index⟩) f.ty

theorem Path.HasType.mono {var? var?' : String → Option Ty} {decl? decl?' : StructId → Option StructDecl}
    (hvar : ∀ x ty, var? x = some ty → var?' x = some ty)
    (hdecl : ∀ T decl, decl? T = some decl → decl?' T = some decl) {p : Path} {ty : Ty}
    (h : p.HasType var? decl? ty) : p.HasType var?' decl?' ty := by
  induction h with
  | var hx => exact .var (hvar _ _ hx)
  | field _ hT hf ih => exact .field ih (hdecl _ _ hT) hf

/-- The types of the paths that can be read with some declarations. -/
def Scope.Types (s : Scope) : Path → Ty → Prop := Path.HasType s.var? s.decl?

namespace Formula

/-- The paths of an expression have a property, each with its type. -/
def Holds (P : Path → Ty → Prop) : Formula → Prop
  | .number _ | .null => True
  | .path p ty => P p ty
  | .unary _ e => e.Holds P
  | .binary _ lhs rhs => lhs.Holds P ∧ rhs.Holds P

variable {P : Path → Ty → Prop} {scope : Scope}

theorem Holds.paths {e : Formula} (h : e.Holds P) : ∀ p ∈ e.paths, ∃ ty, P p ty := by
  induction e with
  | number value | null => exact fun p hp => (List.not_mem_nil hp).elim
  | path p ty => exact List.forall_mem_singleton.2 ⟨ty, h⟩
  | unary op e ih => exact ih h
  | binary op lhs rhs ihl ihr => exact fun p hp => (List.mem_append.1 hp).elim (ihl h.1 p) (ihr h.2 p)

theorem returns_readFields {arg : Path × Ty} (harg : scope.Types arg.1 arg.2) :
    (readFields scope arg).Returns fun r => scope.Types r.1 r.2 := by
  refine (Reader.Returns.fix
    (P := fun (arg r : Path × Ty) => scope.Types arg.1 arg.2 → scope.Types r.1 r.2)
    (fun more hmore arg => ?_) arg).mono fun r h => h harg
  obtain ⟨p, ty⟩ := arg
  refine .after _ fun here => .after _ fun b => ?_
  split
  · exact .unsupported _ _
  · refine .after _ fun b => ?_
    split
    · exact .unsupported _ _
    · refine .after _ fun b => ?_
      split
      · refine .after _ fun r => ?_
        obtain ⟨name, fieldSpan⟩ := r
        dsimp only
        split
        · exact .malformed _ _
        · split
          · exact .malformed _ _
          · rename_i T decl hdecl
            split
            · exact .malformed _ _
            · rename_i f index hfind
              have hname := List.find?_some hfind
              obtain rfl : f.name = name := of_decide_eq_true hname
              have hf := List.mem_zipIdx_iff_getElem?.1 (List.mem_of_find?_eq_some hfind)
              exact (hmore _).mono fun r h hp => h (.field hp hdecl hf)
      · exact .pure id

theorem returns_readPath : (readPath scope).Returns fun r => scope.Types r.1 r.2 := by
  refine .after _ fun r => ?_
  obtain ⟨var, varSpan⟩ := r
  dsimp only
  split
  · exact .malformed _ _
  · rename_i ty hty
    exact returns_readFields (.var hty)

theorem holds_readPrimary {expr : Reader Formula} (he : expr.Returns (Holds scope.Types)) :
    (readPrimary scope expr).Returns (Holds scope.Types) := by
  refine .after _ fun here => .after _ fun b => ?_
  split
  · exact .unsupported _ _
  · refine .after _ fun b => ?_
    split
    · exact .unsupported _ _
    · refine .after _ fun b => ?_
      split
      · exact he.bind fun e h => .after _ fun _ => .pure h
      · refine .after _ fun token => ?_
        split
        · exact .after _ fun _ => .pure trivial
        · split
          · exact .after _ fun _ => .pure trivial
          · refine .after _ fun kind => ?_
            split
            · exact .unsupported _ _
            · exact returns_readPath.bind fun r hr => .pure hr
        · exact .malformed _ _

theorem holds_readUnary {expr : Reader Formula} (he : expr.Returns (Holds scope.Types)) :
    (readUnary scope expr).Returns (Holds scope.Types) := by
  refine Reader.Returns.fix (P := fun (_ : Unit) (e : Formula) => e.Holds scope.Types)
    (fun more hmore _ => .after _ fun op => ?_) ()
  split
  · exact (hmore ()).bind fun e h => .pure h
  · exact holds_readPrimary he

theorem holds_readChain {ops : List BinaryOp} {operand : Reader Formula}
    (ho : operand.Returns (Holds P)) : (readChain ops operand).Returns (Holds P) := by
  refine ho.bind fun lhs hl => ?_
  refine (Reader.Returns.fix (P := fun (lhs e : Formula) => lhs.Holds P → e.Holds P)
    (fun more hmore lhs => .after _ fun op => ?_) lhs).mono fun e h => h hl
  split
  · exact ho.bind fun rhs hr => (hmore _).mono fun e h hl => h ⟨hl, hr⟩
  · exact .pure id

theorem holds_readLevels {operand : Reader Formula} (ho : operand.Returns (Holds P))
    (levels : List (List BinaryOp)) : (readLevels operand levels).Returns (Holds P) := by
  induction levels with
  | nil => exact ho
  | cons ops tighter ih => exact holds_readChain ih

/-- The paths of an expression that is read have the types that were found. -/
theorem holds_readExpr : (readExpr scope).Returns (Holds scope.Types) :=
  Reader.Returns.fix (P := fun (_ : Unit) (e : Formula) => e.Holds scope.Types)
    (fun _ hself _ => holds_readLevels (holds_readUnary (hself ())) BinaryOp.levels) ()

end Formula

/-- A program that is read has what reading it ensures. -/
theorem Program.of_parse {P : Program → Prop} (hP : Parser.program.Ensures .empty fun _ p => P p)
    {source : String} {p : Program} (h : Program.parse source = .ok p) : P p := by
  obtain ⟨tokens, -, hrun⟩ := ok_of_bind h
  obtain ⟨⟨p', c⟩, hdropped, rfl⟩ := ok_of_map hrun
  obtain ⟨⟨⟨p'', s⟩, c'⟩, hread, hdrop⟩ := ok_of_bind hdropped
  obtain ⟨rfl, -⟩ := Prod.mk.inj (Except.ok.inj hdrop)
  exact hP _ (p'', s) c' hread

end HeapShape
