import HeapShape.Check
import HeapShape.Proofs.Binding
import HeapShape.Proofs.Frames

/-!
# Scopes that end

A program keeps its variables in scopes, one within the other, but a state has one table of
variables, and a scope that ends takes the variables that it declared out of the table, by
name. So a variable of an outer scope is lost with a variable of an inner scope that has the
same name.

What is lost where can be read off the program. `Stmt.missing` collects the variables that a
statement names where they are not in scope, for a given account of which variables leave scope
with a statement. With the variables of the scopes that end in it (`Stmt.ended`) these are the
variables that a path can find to be undefined:

* `Stmt.introduced`: the variables that a body brings into scope, which are those that end with it;
* `FlowGraph.fits_ofProgram`: the flow graph of a program names no others;
* `Exploration.sound_run`: no path of an exploration finds another one to be undefined, except
  for a directive that says so itself.
-/

namespace HeapShape

open List

/-- The types of the variables in scope, the latest first. -/
abbrev Context := List (String × Ty)

namespace Stmt

/-! ### Variables that come into scope -/

/-- The variables in scope after a statement. -/
def scope (Γ : Context) : Stmt → Context
  | .decl _ var ty _ => (var, ty) :: Γ
  | _ => Γ

/-- The variables in scope after a body, before its own scope ends. -/
def scopeIn (Γ : Context) (body : List Stmt) : Context := body.foldl scope Γ

/-- The variables that a body brings into scope, in their order. -/
def introduced (body : List Stmt) : List String := ((scopeIn [] body).map Prod.fst).reverse

/-- A body brings the variables into scope that it declares itself. -/
theorem exists_scopeIn (Γ : Context) (body : List Stmt) :
    ∃ Δ, scopeIn Γ body = Δ ++ Γ ∧ (Δ.map Prod.fst).reverse = locals body := by
  induction body generalizing Γ with
  | nil => exact ⟨[], rfl, rfl⟩
  | cons s body ih =>
    obtain ⟨Δ, hΔ, hnames⟩ := ih (s.scope Γ)
    cases s with
    | decl span var ty init =>
      refine ⟨Δ ++ [(var, ty)], hΔ.trans (append_cons ..), ?_⟩
      rw [map_append, reverse_append, hnames]
      rfl
    | _ => exact ⟨Δ, hΔ, hnames⟩

theorem introduced_eq_locals (body : List Stmt) : introduced body = locals body := by
  obtain ⟨Δ, hΔ, hnames⟩ := exists_scopeIn [] body
  rw [introduced, hΔ, append_nil, hnames]

/-! ### Names that are not in scope -/

mutual

/-- The variables of the scopes that end in a statement. -/
def ended : Stmt → List String
  | .block _ body => locals body ++ endedIn body
  | .ite _ _ thenBody elseBody =>
    (locals thenBody ++ endedIn thenBody) ++ (locals elseBody ++ endedIn elseBody)
  | .loop _ _ body => locals body ++ endedIn body
  | .decl .. | .assign .. | .alloc .. | .free .. | .assert .. | .directive .. | .return _ => []

/-- The variables of the scopes that end in the statements of a body. -/
def endedIn : List Stmt → List String
  | [] => []
  | s :: body => s.ended ++ endedIn body

end

/-- The variables in scope after a statement, where those that `gone` tells are taken away. -/
def leaves (gone : Stmt → List String) (names : List String) (s : Stmt) : List String :=
  (s.declared?.toList ++ names).removeAll (gone s)

/-- The variables in scope after a body. -/
def leavesIn (gone : Stmt → List String) : List String → List Stmt → List String
  | names, [] => names
  | names, s :: body => leavesIn gone (s.leaves gone names) body

mutual

/-- The variables that a statement names where they are not in scope. A loop starts with what
    it leaves. -/
def missing (gone : Stmt → List String) (names : List String) : Stmt → List String
  | .decl _ var _ init =>
    ((init.elim [] Expr.paths).map Path.var).removeAll (var :: names)
  | .assign _ lhs rhs => (lhs.var :: rhs.paths.map Path.var).removeAll names
  | .alloc _ lhs _ => [lhs.var].removeAll names
  | .free _ path => [path.var].removeAll names
  | .assert _ cond => (cond.paths.map Path.var).removeAll names
  | .block _ body => missingIn gone names body
  | .ite _ cond thenBody elseBody =>
    (cond.paths.map Path.var).removeAll names ++
      (missingIn gone names thenBody ++ missingIn gone names elseBody)
  | .loop span cond body =>
    let kept := names.removeAll (gone (.loop span cond body))
    (cond.paths.map Path.var).removeAll kept ++ missingIn gone kept body
  | .directive .. | .return _ => []

/-- The variables that the statements of a body name where they are not in scope. -/
def missingIn (gone : Stmt → List String) (names : List String) : List Stmt → List String
  | [] => []
  | s :: body => s.missing gone names ++ missingIn gone (s.leaves gone names) body

end

variable {gone : Stmt → List String} {names names' exempt : List String} {var : String}

theorem mem_leaves {s : Stmt} :
    var ∈ s.leaves gone names ↔ (s.declared? = some var ∨ var ∈ names) ∧ var ∉ gone s := by
  rw [leaves, mem_removeAll, mem_append, Option.mem_toList]

/-- A variable stays in scope, if no scope that ends declares it. -/
theorem mem_leavesIn {body : List Stmt} (hv : var ∈ names) (he : var ∉ endedIn body) :
    var ∈ leavesIn ended names body := by
  induction body generalizing names with
  | nil => exact hv
  | cons s body ih =>
    rw [endedIn, mem_append, not_or] at he
    exact ih (mem_leaves.2 ⟨.inr hv, he.1⟩) he.2

/-- What is in scope after a body that was a scope of its own. -/
theorem removeAll_ended_subset (names : List String) (body : List Stmt) :
    names.removeAll (locals body ++ endedIn body) ⊆
      (leavesIn ended names body).removeAll (locals body) := by
  intro var hv
  rw [mem_removeAll, mem_append, not_or] at hv
  exact mem_removeAll.2 ⟨mem_leavesIn hv.1 hv.2.2, hv.2.1⟩

/-- A statement that declares nothing and ends no scope changes nothing. -/
theorem leaves_subset_of_plain {s : Stmt} (hd : s.declared? = none) : s.leaves gone names ⊆ names := by
  intro var hv
  rcases (mem_leaves.1 hv).1 with h | h
  · exact (Option.some_ne_none _ (h.symm.trans hd)).elim
  · exact h

end Stmt

/-! ### Names in a flow graph -/

namespace Instr

/-- The variables in scope after a row of instructions. -/
def leavesAll (names : List String) (instrs : List (Span × Instr)) : List String :=
  instrs.foldl (fun names i => i.2.leaves names) names

variable {names names' : List String}

theorem leavesAll_append (instrs instrs' : List (Span × Instr)) :
    leavesAll names (instrs ++ instrs') = leavesAll (leavesAll names instrs) instrs' :=
  foldl_append

theorem leaves_mono (h : names ⊆ names') (i : Instr) : i.leaves names ⊆ i.leaves names' := by
  rcases i with ⟨var, ty⟩ | _ | _ | _ | _ | _ | vars
  · exact cons_subset_cons var h
  · exact h
  · exact h
  · exact h
  · exact h
  · exact h
  · intro var hv
    obtain ⟨hv, hkept⟩ := mem_removeAll.1 hv
    exact mem_removeAll.2 ⟨h hv, hkept⟩

end Instr

/-- What is in scope at the start of a block suffices for its instructions and for the blocks
    that it leads to, some variables apart. The names in scope at the start of a block are given
    by `start`, and the number of blocks by `size`. -/
structure Block.Fits (start : BlockId → List String) (exempt : List String) (size : Nat)
    (names : List String) (b : Block) : Prop where
  instrs : ∀ i span instr, b.instrs[i]? = some (span, instr) → ∀ var ∈ instr.uses,
    var ∈ Instr.leavesAll names (b.instrs.take i) ∨ var ∈ exempt
  targets : ∀ target ∈ b.exit.targets, target < size ∧
    start target ⊆ Instr.leavesAll names b.instrs
  cond : ∀ span cond thenTarget elseTarget, b.exit = .branch span cond thenTarget elseTarget →
    ∀ path ∈ cond.paths, path.var ∈ Instr.leavesAll names b.instrs ∨ path.var ∈ exempt

namespace Block.Fits

variable {start start' : BlockId → List String} {exempt names : List String} {size size' : Nat}
  {b : Block}

theorem empty : Block.Fits start exempt size names ⟨[], .return⟩ where
  instrs _ _ _ hget := by rw [getElem?_nil] at hget; exact (Option.some_ne_none _ hget.symm).elim
  targets _ ht := (not_mem_nil ht).elim
  cond _ _ _ _ hbranch := Exit.noConfusion hbranch

/-- Other blocks may be added. -/
theorem grow (h : b.Fits start exempt size names) (hsize : size ≤ size')
    (hstart : ∀ id < size, start' id = start id) : b.Fits start' exempt size' names where
  instrs := h.instrs
  targets target ht := by
    obtain ⟨hlt, hsub⟩ := h.targets target ht
    rw [hstart target hlt]
    exact ⟨Nat.lt_of_lt_of_le hlt hsize, hsub⟩
  cond := h.cond

/-- An instruction may be added to a block that leads nowhere yet. -/
theorem emit (h : b.Fits start exempt size names) (hexit : b.exit = .return) {instr : Instr}
    (hi : ∀ var ∈ instr.uses, var ∈ Instr.leavesAll names b.instrs ∨ var ∈ exempt) (span : Span) :
    { b with instrs := b.instrs ++ [(span, instr)] }.Fits start exempt size names where
  instrs i span' instr' hget := by
    rcases Nat.lt_trichotomy i b.instrs.length with hlt | rfl | hgt
    · rw [getElem?_append_left hlt] at hget
      rw [take_append_of_le_length (Nat.le_of_lt hlt)]
      exact h.instrs i span' instr' hget
    · rw [getElem?_concat_length] at hget
      obtain ⟨rfl, rfl⟩ := Prod.mk.inj (Option.some.inj hget)
      rw [take_left]
      exact hi
    · rw [getElem?_eq_none (by simpa using Nat.succ_le_of_lt hgt)] at hget
      exact (Option.some_ne_none _ hget.symm).elim
  targets target ht := by
    rw [hexit] at ht
    exact (not_mem_nil ht).elim
  cond _ _ _ _ hbranch := Exit.noConfusion (hexit.symm.trans hbranch)

/-- A block may be led on. -/
theorem close (h : b.Fits start exempt size names) {exit : Exit}
    (htargets : ∀ target ∈ exit.targets, target < size ∧
      start target ⊆ Instr.leavesAll names b.instrs)
    (hcond : ∀ span cond thenTarget elseTarget, exit = .branch span cond thenTarget elseTarget →
      ∀ path ∈ cond.paths, path.var ∈ Instr.leavesAll names b.instrs ∨ path.var ∈ exempt) :
    { b with exit }.Fits start exempt size names :=
  ⟨h.instrs, htargets, hcond⟩

end Block.Fits

namespace FlowGraph.Draft

variable {d d' d'' : Draft} {start start' : BlockId → List String} {names names' exempt : List String}
  {next id : BlockId}

/-- The blocks of a draft fit, and some variables are in scope at the end of the open one. -/
structure Fits (start : BlockId → List String) (exempt names : List String) (d : Draft) : Prop where
  blocks : ∀ (id : BlockId) b, d.blocks[id]? = some b → b.Fits start exempt d.size (start id)
  current : ∃ b, d.blocks[d.current]? = some b ∧ b.exit = .return ∧
    names ⊆ Instr.leavesAll (start d.current) b.instrs

@[simp] theorem size_emit (span : Span) (instr : Instr) : (d.emit span instr).size = d.size :=
  length_modify ..

@[simp] theorem size_close (exit : Exit) : (d.close exit next).size = d.size :=
  length_modify ..

@[simp] theorem size_grow (n : Nat) : (d.grow n).size = d.size + n := by
  rw [size, grow, length_append, length_replicate, size]

theorem blocks_emit_of_ne (h : id ≠ d.current) (span : Span) (instr : Instr) :
    (d.emit span instr).blocks[id]? = d.blocks[id]? :=
  getElem?_modify_ne _ _ h.symm

theorem blocks_close_of_ne (h : id ≠ d.current) (exit : Exit) :
    (d.close exit next).blocks[id]? = d.blocks[id]? :=
  getElem?_modify_ne _ _ h.symm

/-- The blocks that are added are empty. -/
theorem blocks_grow {n id : Nat} (hid : d.size ≤ id) (hlt : id < d.size + n) :
    (d.grow n).blocks[id]? = some ⟨[], .return⟩ := by
  rw [grow, getElem?_append_right hid, getElem?_replicate, if_pos]
  exact Nat.sub_lt_left_of_lt_add hid hlt

namespace Fits

variable (h : d.Fits start exempt names)
include h

theorem mono (hsub : names' ⊆ names) : d.Fits start exempt names' := by
  obtain ⟨b, hb, hexit, hnames⟩ := h.current
  exact ⟨h.blocks, b, hb, hexit, List.Subset.trans hsub hnames⟩

theorem emit (span : Span) (instr : Instr) (hi : ∀ var ∈ instr.uses, var ∈ names ∨ var ∈ exempt) :
    (d.emit span instr).Fits start exempt (instr.leaves names) := by
  obtain ⟨b, hb, hexit, hnames⟩ := h.current
  have hopen : (d.emit span instr).blocks[d.current]? =
      some { b with instrs := b.instrs ++ [(span, instr)] } := by
    rw [Draft.emit, getElem?_modify_eq, hb]
    rfl
  refine ⟨fun id b' hb' => ?_, _, hopen, hexit, ?_⟩
  · rw [size_emit]
    by_cases hid : id = d.current
    · subst hid
      obtain rfl := Option.some.inj (hopen.symm.trans hb')
      exact (h.blocks _ b hb).emit hexit (fun var hv => (hi var hv).imp_left (hnames ·)) span
    · rw [blocks_emit_of_ne hid] at hb'
      exact h.blocks id b' hb'
  · rw [Instr.leavesAll_append]
    exact Instr.leaves_mono hnames instr

theorem endScope (body : List Stmt) (span : Span) :
    (d.endScope body span).Fits start exempt (names.removeAll (Stmt.locals body)) := by
  rw [Draft.endScope]
  split
  · exact h.mono fun var hv => (mem_removeAll.1 hv).1
  · refine h.emit span (.kill _) ?_
    intro var hv
    exact (not_mem_nil hv).elim

theorem grow (hstart : ∀ id < d.size, start' id = start id) (n : Nat) :
    (d.grow n).Fits start' exempt names := by
  obtain ⟨b, hb, hexit, hnames⟩ := h.current
  have hcur : d.current < d.size := (List.getElem?_eq_some_iff.1 hb).1
  refine ⟨fun id b' hb' => ?_, b, ?_, hexit, ?_⟩
  · rcases Nat.lt_or_ge id d.size with hid | hid
    · rw [Draft.grow, getElem?_append_left hid] at hb'
      rw [hstart id hid]
      exact (h.blocks id b' hb').grow (by rw [size_grow]; exact Nat.le_add_right _ _) hstart
    · have hlt : id < d.size + n := by
        rw [← size_grow n]
        exact (List.getElem?_eq_some_iff.1 hb').1
      obtain rfl := Option.some.inj ((blocks_grow hid hlt).symm.trans hb')
      exact .empty
  · rw [Draft.grow, getElem?_append_left hcur, hb]
  · show names ⊆ Instr.leavesAll (start' d.current) b.instrs
    rw [hstart _ hcur]
    exact hnames

variable (exit : Exit) (htargets : ∀ target ∈ exit.targets, target < d.size ∧ start target ⊆ names)
  (hcond : ∀ span cond thenTarget elseTarget, exit = .branch span cond thenTarget elseTarget →
    ∀ path ∈ cond.paths, path.var ∈ names ∨ path.var ∈ exempt)
include htargets hcond

/-- The blocks of a draft fit when the open one is closed. -/
theorem blocks_close (next id : BlockId) (b : Block) (hb : (d.close exit next).blocks[id]? = some b) :
    b.Fits start exempt d.size (start id) := by
  obtain ⟨b', hb', -, hnames⟩ := h.current
  by_cases hid : id = d.current
  · subst hid
    rw [Draft.close, getElem?_modify_eq, hb'] at hb
    obtain rfl := Option.some.inj hb
    exact (h.blocks _ b' hb').close
      (fun target ht => ⟨(htargets target ht).1, List.Subset.trans (htargets target ht).2 hnames⟩)
      (fun span cond t e he path hp => (hcond span cond t e he path hp).imp_left (hnames ·))
  · rw [blocks_close_of_ne hid] at hb
    exact h.blocks id b hb

theorem close (hnext : d.blocks[next]? = some ⟨[], .return⟩) (hne : next ≠ d.current) :
    (d.close exit next).Fits start exempt (start next) := by
  refine ⟨?_, ⟨[], .return⟩, (blocks_close_of_ne hne exit).trans hnext, rfl, List.Subset.refl _⟩
  rw [size_close]
  exact h.blocks_close exit htargets hcond next

end Fits

/-! ### Laying out statements -/

/-- The draft where the first side of a choice is laid out. -/
def choice (d : Draft) (span : Span) (cond : Cond) : Draft :=
  (d.grow 3).close (.branch span cond d.size (d.size + 1)) d.size

/-- The draft where the body of a loop is laid out. -/
def repeated (d : Draft) (span : Span) (cond : Cond) : Draft :=
  close { (d.grow 3).close (.goto d.size) d.size with loopHeads := d.loopHeads ++ [d.size] }
    (.branch span cond (d.size + 1) (d.size + 2)) (d.size + 1)

/-- Lay out a body in a scope of its own that leads to one block, and open another one. -/
def scope (d : Draft) (body : List Stmt) (span : Span) (target next : BlockId) : Draft :=
  ((d.body body).endScope body span).close (.goto target) next

theorem size_choice (span : Span) (cond : Cond) : (d.choice span cond).size = d.size + 3 :=
  (size_close _).trans (size_grow 3)

/-- The blocks of a loop are added. -/
theorem size_marked (d : Draft) : ((d.grow 3).close (.goto d.size) d.size).size = d.size + 3 := by
  rw [size_close, size_grow]

theorem size_repeated (span : Span) (cond : Cond) : (d.repeated span cond).size = d.size + 3 :=
  (size_close _).trans (size_marked d)

/-- The blocks that are added start empty. -/
theorem blocks_added (hcur : d.current < d.size) {n i : Nat} (hi : i < n) (exit : Exit) (next : BlockId) :
    ((d.grow n).close exit next).blocks[d.size + i]? = some ⟨[], .return⟩ := by
  have hne : d.size + i ≠ (d.grow n).current :=
    Nat.ne_of_gt (Nat.lt_of_lt_of_le hcur (Nat.le_add_right _ _))
  rw [blocks_close_of_ne hne, blocks_grow (Nat.le_add_right _ _) (Nat.add_lt_add_left hi _)]

theorem blocks_repeated (hcur : d.current < d.size) {i : Nat} (hi : i < 3) (hne : d.size + i ≠ d.size)
    (span : Span) (cond : Cond) : (d.repeated span cond).blocks[d.size + i]? = some ⟨[], .return⟩ := by
  rw [repeated, blocks_close_of_ne hne]
  exact blocks_added hcur hi (.goto d.size) d.size

/-- Blocks that are not open do not change, and the open one is the same or new. -/
structure Extends (d d' : Draft) : Prop where
  size : d.size ≤ d'.size
  blocks : ∀ id < d.size, id ≠ d.current → d'.blocks[id]? = d.blocks[id]?
  current : d'.current = d.current ∨ d.size ≤ d'.current
  lt : d.current < d.size → d'.current < d'.size

namespace Extends

theorem refl (d : Draft) : d.Extends d := ⟨Nat.le_refl _, fun _ _ _ => rfl, .inl rfl, id⟩

/-- A block that is not open and not new is not the open one later. -/
theorem ne_current (h : d.Extends d') {id : BlockId} (hid : id < d.size) (hne : id ≠ d.current) :
    id ≠ d'.current := by
  rcases h.current with heq | hge
  · rw [heq]
    exact hne
  · exact Nat.ne_of_lt (Nat.lt_of_lt_of_le hid hge)

theorem trans (h : d.Extends d') (h' : d'.Extends d'') : d.Extends d'' where
  size := Nat.le_trans h.size h'.size
  blocks id hid hne := by
    rw [h'.blocks id (Nat.lt_of_lt_of_le hid h.size) (h.ne_current hid hne), h.blocks id hid hne]
  current := by
    rcases h'.current with heq | hge
    · rw [heq]
      exact h.current
    · exact .inr (Nat.le_trans h.size hge)
  lt hcur := h'.lt (h.lt hcur)

theorem emit (h : d.Extends d') (span : Span) (instr : Instr) : d.Extends (d'.emit span instr) where
  size := by rw [size_emit]; exact h.size
  blocks id hid hne := by
    rw [blocks_emit_of_ne (h.ne_current hid hne), h.blocks id hid hne]
  current := h.current
  lt hcur := by rw [size_emit]; exact h.lt hcur

theorem endScope (h : d.Extends d') (body : List Stmt) (span : Span) :
    d.Extends (d'.endScope body span) := by
  rw [Draft.endScope]
  split
  · exact h
  · exact h.emit span _

theorem close (h : d.Extends d') (exit : Exit) (hnext : d.size ≤ next) (hlt : next < d'.size) :
    d.Extends (d'.close exit next) where
  size := by rw [size_close]; exact h.size
  blocks id hid hne := by
    rw [blocks_close_of_ne (h.ne_current hid hne), h.blocks id hid hne]
  current := .inr hnext
  lt _ := by rw [size_close]; exact hlt

theorem grow (d : Draft) (n : Nat) : d.Extends (d.grow n) where
  size := by rw [size_grow]; exact Nat.le_add_right _ _
  blocks id hid _ := getElem?_append_left hid
  current := .inl rfl
  lt hcur := by rw [size_grow]; exact Nat.lt_add_right n hcur

end Extends

/-- One of the blocks that are added is opened. -/
theorem extends_added (d : Draft) {n i : Nat} (hi : i < n) (exit : Exit) :
    d.Extends ((d.grow n).close exit (d.size + i)) := by
  refine (Extends.grow d n).close exit (Nat.le_add_right _ i) ?_
  rw [size_grow]
  exact Nat.add_lt_add_left hi _

theorem extends_choice (d : Draft) (span : Span) (cond : Cond) : d.Extends (d.choice span cond) :=
  extends_added d (by decide : 0 < 3) _

theorem extends_repeated (d : Draft) (span : Span) (cond : Cond) : d.Extends (d.repeated span cond) := by
  have hhead := extends_added d (by decide : 0 < 3) (.goto d.size)
  have hmarked : d.Extends { (d.grow 3).close (.goto d.size) d.size with
    loopHeads := d.loopHeads ++ [d.size] } := ⟨hhead.size, hhead.blocks, hhead.current, hhead.lt⟩
  exact hmarked.close _ (Nat.le_add_right _ 1) (by have := size_marked d; omega :
    d.size + 1 < ((d.grow 3).close (.goto d.size) d.size).size)

mutual

theorem extends_stmt (d : Draft) : ∀ s, d.Extends (d.stmt s)
  | .decl span var ty (some e) => ((Extends.refl d).emit span _).emit span _
  | .decl span var ty none => (Extends.refl d).emit span _
  | .assign .. | .alloc .. | .free .. | .assert .. | .directive .. => (Extends.refl d).emit _ _
  | .block span inner => (extends_body d inner).endScope inner span
  | .ite span cond thenBody elseBody => by
    have hjoin : d.size + 2 < (d.choice span cond).size := by rw [size_choice]; omega
    have hthen := (extends_body (d.choice span cond) thenBody).endScope thenBody span
    have hjoin := Nat.lt_of_lt_of_le hjoin hthen.size
    have hopen := ((extends_choice d span cond).trans hthen).close (.goto (d.size + 2))
      (Nat.le_add_right _ 1) (Nat.lt_of_succ_lt hjoin)
    have helse := (extends_body ((d.choice span cond).scope thenBody span (d.size + 2) (d.size + 1))
      elseBody).endScope elseBody span
    exact (hopen.trans helse).close (.goto (d.size + 2)) (Nat.le_add_right _ 2)
      (Nat.lt_of_lt_of_le ((size_close _).symm ▸ hjoin) helse.size)
  | .loop span cond inner => by
    have hafter : d.size + 2 < (d.repeated span cond).size := by rw [size_repeated]; omega
    have hinner := (extends_body (d.repeated span cond) inner).endScope inner span
    exact ((extends_repeated d span cond).trans hinner).close (.goto d.size) (Nat.le_add_right _ 2)
      (Nat.lt_of_lt_of_le hafter hinner.size)
  | .return _ => extends_added d Nat.zero_lt_one .return

theorem extends_body (d : Draft) : ∀ body, d.Extends (d.body body)
  | [] => .refl d
  | s :: rest => (extends_stmt d s).trans (extends_body _ rest)

end

theorem extends_scope (d : Draft) (body : List Stmt) (span : Span) :
    d.Extends ((d.body body).endScope body span) := (extends_body d body).endScope body span

theorem size_le_scope (d : Draft) (body : List Stmt) (span : Span) (target next : BlockId) :
    d.size ≤ (d.scope body span target next).size :=
  Nat.le_trans (extends_scope d body span).size (Nat.le_of_eq (size_close _).symm)

/-- A scope changes no block that is not open. -/
theorem blocks_scope {id : Nat} (hid : id < d.size) (hne : id ≠ d.current) (body : List Stmt)
    (span : Span) (target next : BlockId) :
    (d.scope body span target next).blocks[id]? = d.blocks[id]? := by
  have hext := extends_scope d body span
  rw [scope, blocks_close_of_ne (hext.ne_current hid hne), hext.blocks id hid hne]

theorem removeAll_subset {l l' : List String} (h : l ⊆ l') : names.removeAll l' ⊆ names.removeAll l :=
  fun _ hv => mem_removeAll.2 ⟨(mem_removeAll.1 hv).1, fun hl => (mem_removeAll.1 hv).2 (h hl)⟩

/-- What a list leaves out is exempt, so the list is in scope up to this. -/
theorem mem_or_exempt {l : List String} (h : l.removeAll names ⊆ exempt) :
    ∀ var ∈ l, var ∈ names ∨ var ∈ exempt := by
  intro var hv
  by_cases hn : var ∈ names
  · exact .inl hn
  · exact .inr (h (mem_removeAll.2 ⟨hv, hn⟩))

theorem path_mem_or_exempt {ps : List Path} (h : (ps.map Path.var).removeAll names ⊆ exempt) :
    ∀ path ∈ ps, path.var ∈ names ∨ path.var ∈ exempt :=
  fun _ hp => mem_or_exempt h _ (mem_map_of_mem hp)

/-- The names at the start of the blocks of a draft, and of blocks that are added. -/
def startWith (d : Draft) (start : BlockId → List String) (new : List (List String)) (id : BlockId) :
    List String :=
  if id < d.size then start id else new.getD (id - d.size) []

theorem startWith_of_lt (start : BlockId → List String) (new : List (List String)) (h : id < d.size) :
    d.startWith start new id = start id := if_pos h

theorem startWith_size_add (start : BlockId → List String) (new : List (List String)) (i : Nat) :
    d.startWith start new (d.size + i) = new.getD i [] := by
  rw [startWith, if_neg (Nat.not_lt.2 (Nat.le_add_right _ _)), Nat.add_sub_cancel_left]

theorem Fits.current_lt (h : d.Fits start exempt names) : d.current < d.size := by
  obtain ⟨b, hb, -, -⟩ := h.current
  exact (List.getElem?_eq_some_iff.1 hb).1

/-- The open block is closed, and leads to blocks that are added. -/
theorem Fits.branch (h : d.Fits start exempt names) (new : List (List String)) (exit : Exit) {i : Nat}
    (hi : i < new.length)
    (htargets : ∀ target ∈ exit.targets, ∃ j < new.length, target = d.size + j ∧ new.getD j [] ⊆ names)
    (hcond : ∀ span cond thenTarget elseTarget, exit = .branch span cond thenTarget elseTarget →
      ∀ path ∈ cond.paths, path.var ∈ names ∨ path.var ∈ exempt) :
    ((d.grow new.length).close exit (d.size + i)).Fits (d.startWith start new) exempt
      (new.getD i []) := by
  rw [← startWith_size_add start new i]
  refine (h.grow (fun id hid => startWith_of_lt start new hid) new.length).close exit ?_ hcond
    (blocks_grow (Nat.le_add_right _ _) (Nat.add_lt_add_left hi _))
    (Nat.ne_of_gt (Nat.lt_of_lt_of_le h.current_lt (Nat.le_add_right _ _)))
  intro target ht
  obtain ⟨j, hj, rfl, hsub⟩ := htargets target ht
  rw [size_grow, startWith_size_add]
  exact ⟨Nat.add_lt_add_left hj _, hsub⟩

/-- A body in a scope of its own, which leads to one block, while another one is opened. -/
theorem Fits.scope {body : List Stmt} {target : BlockId} (hstart : ∀ id < d.size, start' id = start id)
    (h : (d.body body).Fits start' exempt (Stmt.leavesIn Stmt.ended names body)) (span : Span)
    (htarget : target < d.size)
    (hkept : start target ⊆ names.removeAll (Stmt.locals body ++ Stmt.endedIn body))
    (hnext : d.blocks[next]? = some ⟨[], .return⟩) (hne : next ≠ d.current) :
    (d.scope body span target next).Fits start' exempt (start next) := by
  have hext := extends_scope d body span
  have hlt : next < d.size := (List.getElem?_eq_some_iff.1 hnext).1
  rw [← hstart next hlt]
  refine (h.endScope body span).close (.goto target) ?_ (fun _ _ _ _ hg => Exit.noConfusion hg) ?_
    (hext.ne_current hlt hne)
  · intro t ht
    obtain rfl := mem_singleton.1 ht
    rw [hstart t htarget]
    exact ⟨Nat.lt_of_lt_of_le htarget hext.size,
      List.Subset.trans hkept (Stmt.removeAll_ended_subset names body)⟩
  · rw [hext.blocks next hlt hne, hnext]

/-- A way to lay out code at the end of a draft: from some variables in scope to others. -/
def LaysOut (exempt names names' : List String) (lay : Draft → Draft) : Prop :=
  ∀ d start, d.Fits start exempt names → ∃ start', (∀ id < d.size, start' id = start id) ∧
    (lay d).Fits start' exempt names'

namespace LaysOut

theorem emit (span : Span) (instr : Instr) (hi : ∀ var ∈ instr.uses, var ∈ names ∨ var ∈ exempt)
    (hsub : names' ⊆ instr.leaves names) : LaysOut exempt names names' (·.emit span instr) :=
  fun _ start h => ⟨start, fun _ _ => rfl, (h.emit span instr hi).mono hsub⟩

theorem ite {thenBody elseBody : List Stmt} {cond : Cond} (span : Span)
    (hcond : ∀ path ∈ cond.paths, path.var ∈ names ∨ path.var ∈ exempt)
    (hthen : LaysOut exempt names (Stmt.leavesIn Stmt.ended names thenBody) (·.body thenBody))
    (helse : LaysOut exempt names (Stmt.leavesIn Stmt.ended names elseBody) (·.body elseBody)) :
    LaysOut exempt names ((Stmt.ite span cond thenBody elseBody).leaves Stmt.ended names)
      (·.stmt (.ite span cond thenBody elseBody)) := by
  intro d start h
  let kept := (Stmt.ite span cond thenBody elseBody).leaves Stmt.ended names
  let new := [names, names, kept]
  let start₀ := d.startWith start new
  have hnew (i : Nat) : start₀ (d.size + i) = new.getD i [] := startWith_size_add start new i
  let d₁ := d.choice span cond
  have hsize₁ : d₁.size = d.size + 3 := size_choice span cond
  have hempty {i : Nat} (hi : i < 3) : d₁.blocks[d.size + i]? = some ⟨[], .return⟩ :=
    blocks_added h.current_lt hi ..
  have hfit : d₁.Fits start₀ exempt names := by
    refine h.branch new (.branch span cond d.size (d.size + 1)) (by decide : 0 < 3) ?_ ?_
    · intro t ht
      rcases mem_cons.1 ht with rfl | ht
      · exact ⟨0, (by decide : 0 < 3), rfl, List.Subset.refl _⟩
      · obtain rfl := mem_singleton.1 ht
        exact ⟨1, (by decide : 1 < 3), rfl, List.Subset.refl _⟩
    · rintro _ _ _ _ ⟨⟩
      exact hcond
  -- The first side leads to the block where both meet, and the second one is opened.
  obtain ⟨start₁, hstart₁, hbody₁⟩ := hthen d₁ start₀ hfit
  let d₂ := d₁.scope thenBody span (d.size + 2) (d.size + 1)
  have hfit₁ : d₂.Fits start₁ exempt names := by
    have hscope := hbody₁.scope hstart₁ span (by omega : d.size + 2 < d₁.size) ?_
      (hempty (by decide : 1 < 3)) (Nat.succ_ne_self _)
    · rw [hnew 1] at hscope
      exact hscope
    · rw [hnew 2]
      exact removeAll_subset (subset_append_left _ _)
  have hsize₂ : d₁.size ≤ d₂.size := size_le_scope ..
  have hempty₂ : d₂.blocks[d.size + 2]? = some ⟨[], .return⟩ :=
    (blocks_scope (by omega : d.size + 2 < d₁.size)
      (Nat.ne_of_gt (Nat.lt_add_of_pos_right (by decide))) ..).trans (hempty (by decide : 2 < 3))
  -- The second side leads there too.
  obtain ⟨start₂, hstart₂, hbody₂⟩ := helse d₂ start₁ hfit₁
  have hmeet : start₁ (d.size + 2) = kept := by
    rw [hstart₁ _ (by omega), hnew 2]
    rfl
  refine ⟨start₂, fun id hid => ?_, ?_⟩
  · rw [hstart₂ id (by omega), hstart₁ id (by omega)]
    exact startWith_of_lt start new hid
  · have hscope := hbody₂.scope hstart₂ span (by omega : d.size + 2 < d₂.size) ?_ hempty₂
      (Nat.succ_ne_self _)
    · rw [hmeet] at hscope
      exact hscope
    · rw [hmeet]
      exact removeAll_subset (subset_append_right _ _)

theorem loop {inner : List Stmt} {cond : Cond} (span : Span)
    (hcond : ∀ path ∈ cond.paths,
      path.var ∈ (Stmt.loop span cond inner).leaves Stmt.ended names ∨ path.var ∈ exempt)
    (hinner : LaysOut exempt ((Stmt.loop span cond inner).leaves Stmt.ended names)
      (Stmt.leavesIn Stmt.ended ((Stmt.loop span cond inner).leaves Stmt.ended names) inner)
      (·.body inner)) :
    LaysOut exempt names ((Stmt.loop span cond inner).leaves Stmt.ended names)
      (·.stmt (.loop span cond inner)) := by
  intro d start h
  let kept := (Stmt.loop span cond inner).leaves Stmt.ended names
  let new := [kept, kept, kept]
  let start₀ := d.startWith start new
  have hnew (i : Nat) : start₀ (d.size + i) = new.getD i [] := startWith_size_add start new i
  let d₁ := (d.grow 3).close (.goto d.size) d.size
  have hfit : d₁.Fits start₀ exempt kept := by
    refine h.branch new (.goto d.size) (by decide : 0 < 3) ?_ fun _ _ _ _ hg => Exit.noConfusion hg
    intro t ht
    obtain rfl := mem_singleton.1 ht
    exact ⟨0, (by decide : 0 < 3), rfl, Stmt.leaves_subset_of_plain rfl⟩
  -- The test is made in the head.
  let marked : Draft := { d₁ with loopHeads := d.loopHeads ++ [d.size] }
  let d₂ := d.repeated span cond
  have hsize₁ : d₁.size = d.size + 3 := size_marked d
  have hsize₂ : d₂.size = d.size + 3 := size_repeated span cond
  have hfit₂ : d₂.Fits start₀ exempt kept := by
    have hmarked : marked.Fits start₀ exempt kept := ⟨hfit.blocks, hfit.current⟩
    have hclosed := hmarked.close (.branch span cond (d.size + 1) (d.size + 2)) ?_ ?_
      (blocks_added h.current_lt (by decide : 1 < 3) (.goto d.size) d.size) (Nat.succ_ne_self _)
    · rw [hnew 1] at hclosed
      exact hclosed
    · intro t ht
      have hlt : d.size + 2 < d₁.size := by omega
      rcases mem_cons.1 ht with rfl | ht
      · exact ⟨Nat.lt_of_succ_lt hlt, by rw [hnew 1]; exact List.Subset.refl _⟩
      · obtain rfl := mem_singleton.1 ht
        exact ⟨hlt, by rw [hnew 2]; exact List.Subset.refl _⟩
    · rintro _ _ _ _ ⟨⟩
      exact hcond
  -- What the body leaves is again what the head starts with.
  obtain ⟨start₃, hstart₃, hbody⟩ := hinner d₂ start₀ hfit₂
  refine ⟨start₃, fun id hid => ?_, ?_⟩
  · rw [hstart₃ id (by omega)]
    exact startWith_of_lt start new hid
  · have hscope := hbody.scope hstart₃ span (by omega : d.size < d₂.size) ?_
      (blocks_repeated h.current_lt (by decide : 2 < 3) (by omega) span cond) (Nat.succ_ne_self _)
    · rw [hnew 2] at hscope
      exact hscope
    · intro var hv
      have hv : var ∈ kept := (hnew 0).subst hv
      exact mem_removeAll.2 ⟨hv, (Stmt.mem_leaves.1 hv).2⟩

end LaysOut

mutual

theorem laysOut_stmt (names : List String) : ∀ s : Stmt, s.missing Stmt.ended names ⊆ exempt →
    LaysOut exempt names (s.leaves Stmt.ended names) (·.stmt s)
  | .decl span var ty none, _ => by
    rw [Stmt.leaves, Stmt.ended, removeAll_nil]
    exact .emit span (.decl var ty) (fun _ hv => (not_mem_nil hv).elim) (List.Subset.refl _)
  | .decl span var ty (some e), hm => by
    intro d start h
    refine ⟨start, fun _ _ => rfl, ?_⟩
    have hdecl := h.emit span (.decl var ty) fun _ hv => (not_mem_nil hv).elim
    rw [Stmt.leaves, Stmt.ended, removeAll_nil]
    refine hdecl.emit span (.assign (.ofVar var) e) fun other ho => ?_
    rcases mem_cons.1 ho with rfl | ho
    · exact .inl mem_cons_self
    · exact mem_or_exempt hm other ho
  | .assign span lhs rhs, hm =>
    .emit span (.assign lhs rhs) (mem_or_exempt hm) (Stmt.leaves_subset_of_plain rfl)
  | .alloc span lhs ty, hm =>
    .emit span (.alloc lhs ty) (mem_or_exempt hm) (Stmt.leaves_subset_of_plain rfl)
  | .free span path, hm => .emit span (.free path) (mem_or_exempt hm) (Stmt.leaves_subset_of_plain rfl)
  | .assert span cond, hm =>
    .emit span (.assert cond) (mem_or_exempt hm) (Stmt.leaves_subset_of_plain rfl)
  | .directive span dir, _ =>
    .emit span (.directive dir) (fun _ hv => (not_mem_nil hv).elim)
      (Stmt.leaves_subset_of_plain rfl)
  | .block span inner, hm => by
    intro d start h
    obtain ⟨start', hstart, hfit⟩ := laysOut_body names inner hm d start h
    exact ⟨start', hstart, (hfit.endScope inner span).mono (Stmt.removeAll_ended_subset names inner)⟩
  | .ite span cond thenBody elseBody, hm => by
    rw [Stmt.missing, append_subset, append_subset] at hm
    obtain ⟨hcond, hthen, helse⟩ := hm
    exact .ite span (path_mem_or_exempt hcond) (laysOut_body names thenBody hthen)
      (laysOut_body names elseBody helse)
  | .loop span cond inner, hm => by
    rw [Stmt.missing, append_subset] at hm
    exact .loop span (path_mem_or_exempt hm.1) (laysOut_body _ inner hm.2)
  | .return span, _ => by
    -- What follows is laid out in a block that nothing leads to.
    intro d start h
    refine ⟨d.startWith start [names], fun id hid => startWith_of_lt start _ hid, ?_⟩
    refine (h.branch [names] .return (by decide : 0 < 1) ?_ ?_).mono (Stmt.leaves_subset_of_plain rfl)
    · exact fun _ ht => (not_mem_nil ht).elim
    · exact fun _ _ _ _ hr => Exit.noConfusion hr

theorem laysOut_body (names : List String) : ∀ body : List Stmt,
    Stmt.missingIn Stmt.ended names body ⊆ exempt →
      LaysOut exempt names (Stmt.leavesIn Stmt.ended names body) (·.body body)
  | [], _ => fun _ start h => ⟨start, fun _ _ => rfl, h⟩
  | s :: rest, hm => by
    intro d start h
    rw [Stmt.missingIn, append_subset] at hm
    obtain ⟨start₁, hstart₁, hfit₁⟩ := laysOut_stmt names s hm.1 d start h
    obtain ⟨start₂, hstart₂, hfit₂⟩ := laysOut_body _ rest hm.2 (d.stmt s) start₁ hfit₁
    refine ⟨start₂, fun id hid => ?_, hfit₂⟩
    rw [hstart₂ id (Nat.lt_of_lt_of_le hid (extends_stmt d s).size), hstart₁ id hid]

end

end FlowGraph.Draft

namespace FlowGraph

/-- What is in scope at the start of each block suffices, some variables apart. Nothing is in
    scope at the entry. -/
structure Fits (start : BlockId → List String) (exempt : List String) (g : FlowGraph) : Prop where
  entry : start entry = []
  blocks : ∀ (id : BlockId) b, g.blocks[id]? = some b → b.Fits start exempt g.blocks.length (start id)

/-- A flow graph misses only the variables that its program misses. -/
theorem fits_ofProgram (p : Program) :
    ∃ start, (ofProgram p).Fits start (Stmt.missingIn Stmt.ended [] p.body) := by
  let exempt := Stmt.missingIn Stmt.ended [] p.body
  have hempty : Draft.empty.Fits (fun _ => []) exempt [] := by
    refine ⟨fun id b hb => ?_, ⟨[], .return⟩, rfl, rfl, List.Subset.refl _⟩
    obtain ⟨hlt, rfl⟩ := List.getElem?_eq_some_iff.1 hb
    obtain rfl : id = 0 := Nat.lt_one_iff.1 hlt
    exact .empty
  obtain ⟨start, hstart, hfit⟩ := Draft.laysOut_body [] p.body (List.Subset.refl exempt) _ _ hempty
  refine ⟨start, hstart 0 Nat.zero_lt_one, fun id b hb => ?_⟩
  have hsize : (ofProgram p).blocks.length = (Draft.empty.body p.body).size :=
    length_modify ..
  rw [hsize]
  exact hfit.blocks_close .return (fun _ ht => (not_mem_nil ht).elim)
    (fun _ _ _ _ hr => Exit.noConfusion hr) (Draft.empty.body p.body).current id b hb

end FlowGraph

/-! ### Explorations -/

section

variable {task : Task} {start : BlockId → List String} {exempt : List String} {f : Frame}
  {var : String}

/-- The variables that should be in scope are in scope on a path. -/
def Frame.Fits (task : Task) (start : BlockId → List String) (f : Frame) : Prop :=
  ∀ b, task.graph.blocks[f.block]? = some b →
    f.state.Binds (Instr.leavesAll (start f.block) (b.instrs.take f.index))

/-- The next instruction of a path, which is not a directive, or the condition that ends its
    block finds a variable to be undefined. -/
inductive Frame.Misses (task : Task) (f : Frame) (var : String) : Prop
  | instr {b : Block} {span : Span} {i : Instr} {s : State}
      (hb : task.graph.blocks[f.block]? = some b) (hi : b.instrs[f.index]? = some (span, i))
      (hd : ∀ d, i ≠ .directive d)
      (h : (s, .error (.undefined var)) ∈ (Exploration.perform task i f.state).2)
  | cond {b : Block} {span : Span} {c : Cond} {thenTarget elseTarget : BlockId} {s : State}
      (hb : task.graph.blocks[f.block]? = some b) (hi : b.instrs[f.index]? = none)
      (hexit : b.exit = .branch span c thenTarget elseTarget)
      (h : (s, .error (.undefined var)) ∈
        Exploration.branch task.structs c thenTarget elseTarget f.state)

theorem Frame.Fits.exempt_of_misses (h : f.Fits task start) (hg : task.graph.Fits start exempt)
    (hm : f.Misses task var) : var ∈ exempt := by
  rcases hm with ⟨hb, hi, hd, hmem⟩ | ⟨hb, hi, hexit, hmem⟩
  · obtain ⟨huse, hunbound⟩ := Exploration.undefined_of_perform hd hmem
    refine ((hg.blocks _ _ hb).instrs _ _ _ hi var huse).resolve_left fun hin => ?_
    exact hunbound (h _ hb var hin)
  · obtain ⟨huse, hunbound⟩ := (Exploration.uses_branch task.structs _ _ _ _ _ _ hmem).2 var rfl
    obtain ⟨path, hp, rfl⟩ := mem_map.1 huse
    refine ((hg.blocks _ _ hb).cond _ _ _ _ hexit path hp).resolve_left fun hin => ?_
    refine hunbound (h _ hb _ ?_)
    rwa [take_of_length_le (List.getElem?_eq_none_iff.1 hi)]

theorem Frame.Fits.next {f' : Frame} (h : f.Fits task start) (hg : task.graph.Fits start exempt)
    (hn : f.Next task f') : f'.Fits task start := by
  cases hn with
  | instr path hb hi hmem =>
    intro b' hb'
    obtain rfl := Option.some.inj (hb.symm.trans hb')
    rw [take_add_one, hi, Instr.leavesAll_append]
    have hbinds := Exploration.binds_of_perform hmem (h _ hb)
    exact hbinds
  | @exit b s target _ path hb hi hx he =>
    have hbinds := h b hb
    rw [take_of_length_le (List.getElem?_eq_none_iff.1 hi)] at hbinds
    have hstart := ((hg.blocks _ b hb).targets target hx.mem_targets).2
    have hscope : f.state.SameScope s := by
      generalize b.exit = exit at hx
      cases hx with
      | goto => exact .refl _
      | branch hmem => exact (Exploration.uses_branch task.structs _ _ _ _ _ _ hmem).1
    cases he <;> exact fun _ _ => hscope.binds (hbinds.mono hstart)

/-- A directive was judged to fail on the path of a violation, at its place and for its defect. -/
def Report.Tells (r : Report) (v : Violation) : Prop :=
  ∃ w ∈ r.verdicts, w.path = v.path ∧ w.span = v.span ∧ w.judgement = .fail (.defect v.defect)

/-- A variable that the work on a path finds to be undefined is exempt, or a directive says so. -/
theorem Frame.Fits.exempt_or_tells {v : Violation} (h : f.Fits task start)
    (hg : task.graph.Fits start exempt) (he : f.Ends task v) (hv : v.defect = .undefined var) :
    var ∈ exempt ∨ ∃ b w, task.graph.blocks[f.block]? = some b ∧ (f.workIn task b).verdict = some w ∧
      w.path = v.path ∧ w.span = v.span ∧ w.judgement = .fail (.defect v.defect) := by
  rcases he with ⟨hb, hs, hp⟩ | hd
  · rename_i b i s d path
    obtain rfl : d = .undefined var := hv
    rw [Frame.workIn] at hs
    split at hs
    · rename_i span instr hi
      have hget := Outcomes.getElem?_of_mapResult hs
      by_cases hdir : ∃ d, instr = .directive d
      · -- A directive has one outcome, and its verdict is told.
        obtain ⟨d, rfl⟩ := hdir
        have hone : (Exploration.direct task d f.state).2.length = 1 := by
          rw [Exploration.direct]
          split <;> rfl
        have hzero : i = 0 :=
          Nat.lt_one_iff.1 (Nat.lt_of_lt_of_eq (List.getElem?_eq_some_iff.1 hget).1 hone)
        obtain ⟨hsame, hj⟩ := Exploration.judgement_of_undefined (mem_of_getElem? hget)
        refine .inr ⟨b, ⟨f.state.path, span, d, (Exploration.direct task d f.state).1⟩, hb, ?_, ?_, ?_, hj⟩
        · rw [Frame.workIn, hi]
          rfl
        · rw [hp hzero, hsame]
        · rw [Frame.workIn, hi]
          rfl
      · exact .inl (h.exempt_of_misses hg
          (.instr hb hi (fun d hd => hdir ⟨d, hd⟩) (mem_of_getElem? hget)))
    · rename_i hi
      rcases hexit : b.exit with target | ⟨span, c, thenTarget, elseTarget⟩ | _ <;> rw [hexit] at hs
      · cases mem_singleton.1 (mem_of_getElem? hs)
      · have hget := Outcomes.getElem?_of_mapResult hs
        exact .inl (h.exempt_of_misses hg (.cond hb hi hexit (mem_of_getElem? hget)))
      · cases mem_singleton.1 (mem_of_getElem? hs)
  · cases hv.symm.trans hd

end

namespace Exploration

variable {task : Task} {start : BlockId → List String} {exempt : List String} {e e' : Exploration}

/-- The paths that wait fit, and every variable that was found to be undefined is exempt or
    was told so by a directive. -/
structure Sound (task : Task) (start : BlockId → List String) (exempt : List String)
    (e : Exploration) : Prop where
  waiting : ∀ f ∈ e.waiting.toList, f.Fits task start
  violations : ∀ v ∈ e.report.violations, ∀ var, v.defect = .undefined var →
    var ∈ exempt ∨ e.report.Tells v

theorem Sound.step (hg : task.graph.Fits start exempt) (h : e.Sound task start exempt)
    (hstep : e.step task = .ok (some e')) : e'.Sound task start exempt := by
  obtain ⟨f, waiting, next, hwait, -, hr⟩ := step_cases hstep
  obtain ⟨b, hb, hverdicts⟩ := hr.verdicts
  have hf : f.Fits task start := h.waiting f (hwait ▸ mem_cons_self)
  refine ⟨waiting_step (fun _ _ hf => hf.next hg) h.waiting hstep, fun v hv var hvar => ?_⟩
  rcases hr.violations v hv with hold | hends
  · refine (h.violations v hold var hvar).imp_right ?_
    rintro ⟨w, hw, htells⟩
    exact ⟨w, (hverdicts w).2 (.inl hw), htells⟩
  · refine (hf.exempt_or_tells hg hends hvar).imp_right ?_
    rintro ⟨b', w, hb', hw, htells⟩
    cases hb.symm.trans hb'
    exact ⟨w, (hverdicts w).2 (.inr hw), htells⟩

/-- Every exploration of a flow graph that fits is sound. -/
theorem sound_run (hg : task.graph.Fits start exempt) {n : Nat} (h : e.Sound task start exempt)
    (hrun : run task n e = .ok e') : e'.Sound task start exempt :=
  run_keeps (Sound.step hg) h hrun

theorem sound_start (hg : task.graph.Fits start exempt) :
    Exploration.start.Sound task start exempt := by
  refine ⟨waiting_start fun b _ var hv => ?_, fun v hv => (Array.not_mem_empty v hv).elim⟩
  have hentry : var ∈ start FlowGraph.entry := hv
  rw [hg.entry] at hentry
  exact (not_mem_nil hentry).elim

end Exploration

end HeapShape
