import HeapShape.Proofs.Scoping

/-!
# Where statements are laid out

Laying out a program puts each statement between two points of the flow graph. This module says
where, once, so that what holds of the statements can be told of the paths between these points.

* `FlowGraph.Point`: a point of a flow graph, in front of an instruction or of an exit;
* `Stmt.Placed`: the code of a statement is between two points;
* `FlowGraph.Draft.Completed`: a flow graph is what a draft becomes. This travels backwards: if it
  holds after a statement is laid out, it holds before, and the statement is placed
  (`FlowGraph.Draft.places_stmt`);
* `FlowGraph.exists_placed`: the body of a program is placed from the entry to the end.
-/

namespace HeapShape

open List

namespace FlowGraph

/-- A point of a flow graph: a place in a block. -/
structure Point where
  /-- The block. -/
  block : BlockId
  /-- The number of the instruction behind it. -/
  index : Nat

/-- The point behind an instruction. -/
def Point.next (p : Point) : Point := ⟨p.block, p.index + 1⟩

/-- The point at the start of a block. -/
def Point.first (block : BlockId) : Point := ⟨block, 0⟩

variable (g : FlowGraph)

/-- There is an instruction behind a point. -/
def InstrAt (p : Point) (span : Span) (instr : Instr) : Prop :=
  ∃ b, g.blocks[p.block]? = some b ∧ b.instrs[p.index]? = some (span, instr)

/-- There is an exit behind a point. -/
def ExitAt (p : Point) (exit : Exit) : Prop :=
  ∃ b, g.blocks[p.block]? = some b ∧ b.instrs[p.index]? = none ∧ b.exit = exit

/-- Some instructions are in a row between two points. -/
def Row (span : Span) : List Instr → Point → Point → Prop
  | [], p, q => q = p
  | instr :: rest, p, q => g.InstrAt p span instr ∧ Row span rest p.next q

variable {g} {p : Point} {span : Span} {instr : Instr} {exit : Exit}

theorem InstrAt.unique {span' : Span} {instr' : Instr} (h : g.InstrAt p span instr)
    (h' : g.InstrAt p span' instr') : span' = span ∧ instr' = instr := by
  obtain ⟨b, hb, hi⟩ := h
  obtain ⟨b', hb', hi'⟩ := h'
  obtain rfl := Option.some.inj (hb.symm.trans hb')
  exact Prod.mk.inj (Option.some.inj (hi'.symm.trans hi))

theorem InstrAt.not_exitAt (h : g.InstrAt p span instr) : ¬ g.ExitAt p exit := by
  rintro ⟨b', hb', hi', -⟩
  obtain ⟨b, hb, hi⟩ := h
  obtain rfl := Option.some.inj (hb.symm.trans hb')
  rw [hi] at hi'
  cases hi'

theorem ExitAt.unique {exit' : Exit} (h : g.ExitAt p exit) (h' : g.ExitAt p exit') : exit' = exit := by
  obtain ⟨b, hb, -, rfl⟩ := h
  obtain ⟨b', hb', -, rfl⟩ := h'
  rw [Option.some.inj (hb.symm.trans hb')]

end FlowGraph

namespace Stmt

open FlowGraph (Point)

/-- The instructions of a declaration. -/
def declInstrs (var : String) (ty : Ty) (init : Option Expr) : List Instr :=
  .decl var ty :: init.toList.map (.assign (.ofVar var))

/-- The instructions at the end of a scope. -/
def scopeEnd (body : List Stmt) : List Instr :=
  match introduced body with
  | [] => []
  | vars => [.kill vars]

/-- A body is between two points, with the end of its scope. -/
def ScopePlaced (g : FlowGraph) (span : Span) (body : List Stmt) (placed : Point → Point → Prop)
    (p q : Point) : Prop :=
  ∃ m, placed p m ∧ g.Row span (scopeEnd body) m q

mutual

/-- The code of a statement is between two points. What is behind a return is not reached from it. -/
def Placed (g : FlowGraph) : Stmt → Point → Point → Prop
  | .decl span var ty init, p, q => g.Row span (declInstrs var ty init) p q
  | .assign span lhs rhs, p, q => g.Row span [.assign lhs rhs] p q
  | .alloc span lhs ty, p, q => g.Row span [.alloc lhs ty] p q
  | .free span path, p, q => g.Row span [.free path] p q
  | .assert span cond, p, q => g.Row span [.assert cond] p q
  | .directive span d, p, q => g.Row span [.directive d] p q
  | .block span body, p, q => ScopePlaced g span body (PlacedIn g body) p q
  | .ite span cond thenBody elseBody, p, q => ∃ thenBlock elseBlock join thenEnd elseEnd,
      g.ExitAt p (.branch span cond thenBlock elseBlock) ∧ thenBlock ≠ elseBlock ∧
      ScopePlaced g span thenBody (PlacedIn g thenBody) (.first thenBlock) thenEnd ∧
      g.ExitAt thenEnd (.goto join) ∧
      ScopePlaced g span elseBody (PlacedIn g elseBody) (.first elseBlock) elseEnd ∧
      g.ExitAt elseEnd (.goto join) ∧ q = .first join
  | .loop span cond body, p, q => ∃ head start after bodyEnd,
      g.ExitAt p (.goto head) ∧ g.ExitAt (.first head) (.branch span cond start after) ∧
      ScopePlaced g span body (PlacedIn g body) (.first start) bodyEnd ∧
      g.ExitAt bodyEnd (.goto head) ∧ q = .first after
  | .return _, p, _ => g.ExitAt p .return

/-- The code of a body is between two points. -/
def PlacedIn (g : FlowGraph) : List Stmt → Point → Point → Prop
  | [], p, q => q = p
  | s :: rest, p, q => ∃ m, s.Placed g p m ∧ PlacedIn g rest m q

end

end Stmt

namespace FlowGraph.Draft

variable {g : FlowGraph} {d : Draft} {waiting : List BlockId} {next : BlockId} {span : Span}

/-- The open end of a draft. -/
def point (d : Draft) : Point := ⟨d.current, (d.blocks[d.current]?.map (·.instrs.length)).getD 0⟩

theorem point_of_current {b : Block} (h : d.blocks[d.current]? = some b) :
    d.point = ⟨d.current, b.instrs.length⟩ := by
  rw [point, h]
  rfl

/-- A flow graph is what a draft becomes: closed blocks stay, with the exception of those that wait
    to be opened, and the open one may get more instructions. -/
structure Completed (g : FlowGraph) (waiting : List BlockId) (d : Draft) : Prop where
  closed : ∀ id : Nat, id < d.size → id ∉ waiting → id ≠ d.current → g.blocks[id]? = d.blocks[id]?
  opened : ∃ b b', d.blocks[d.current]? = some b ∧ g.blocks[d.current]? = some b' ∧ b.instrs <+: b'.instrs

/-- Blocks that wait exist, and are not open. -/
def Waiting (d : Draft) (waiting : List BlockId) : Prop := ∀ id ∈ waiting, id < d.size ∧ id ≠ d.current

theorem Waiting.extends {d' : Draft} (hw : d.Waiting waiting) (h : d.Extends d') : d'.Waiting waiting :=
  fun id hid => ⟨Nat.lt_of_lt_of_le (hw id hid).1 h.size, h.ne_current (hw id hid).1 (hw id hid).2⟩

namespace Completed

theorem emit {instr : Instr} (h : (d.emit span instr).Completed g waiting) :
    d.Completed g waiting ∧ g.InstrAt d.point span instr ∧
      (d.emit span instr).point = d.point.next := by
  obtain ⟨b', c, hb', hc, hprefix⟩ := h.opened
  have hmodified := hb'
  rw [Draft.emit, getElem?_modify_eq] at hmodified
  obtain ⟨b, hb, rfl⟩ := Option.map_eq_some_iff.1 hmodified
  have hinstr : c.instrs[b.instrs.length]? = some (span, instr) := by
    obtain ⟨rest, hrest⟩ := hprefix
    rw [← hrest, getElem?_append_left (by simp)]
    exact getElem?_concat_length
  refine ⟨⟨fun id hid hw hne => ?_, b, c, hb, hc, ?_⟩, ?_, ?_⟩
  · rw [h.closed id (by rwa [size_emit]) hw hne, blocks_emit_of_ne hne]
  · exact (prefix_append _ _).trans hprefix
  · rw [point_of_current hb]
    exact ⟨c, hc, hinstr⟩
  · rw [point_of_current hb', point_of_current hb]
    show Point.mk d.current (b.instrs ++ [_]).length = _
    rw [length_append]
    rfl

theorem row (instrs : List Instr)
    (h : (instrs.foldl (fun d i => d.emit span i) d).Completed g waiting) :
    d.Completed g waiting ∧ g.Row span instrs d.point (instrs.foldl (fun d i => d.emit span i) d).point := by
  induction instrs generalizing d with
  | nil => exact ⟨h, rfl⟩
  | cons instr rest ih =>
    obtain ⟨hemitted, hrow⟩ := ih h
    obtain ⟨hd, hinstr, hpoint⟩ := hemitted.emit
    exact ⟨hd, hinstr, hpoint ▸ hrow⟩

theorem endScope {body : List Stmt} (h : (d.endScope body span).Completed g waiting) :
    d.Completed g waiting ∧ g.Row span (Stmt.scopeEnd body) d.point (d.endScope body span).point := by
  have hfold : d.endScope body span = (Stmt.scopeEnd body).foldl (fun d i => d.emit span i) d := by
    rw [Draft.endScope, Stmt.scopeEnd, Stmt.introduced_eq_locals]
    rcases Stmt.locals body with _ | ⟨var, vars⟩ <;> rfl
  rw [hfold] at h ⊢
  exact row _ h

theorem close {exit : Exit} (h : (d.close exit next).Completed g waiting) (hcur : d.current < d.size)
    (hw : d.current ∉ waiting) (hne : next ≠ d.current) :
    d.Completed g (next :: waiting) ∧ g.ExitAt d.point exit := by
  have hb : d.blocks[d.current]? = some d.blocks[d.current] := getElem?_eq_getElem hcur
  have hc : g.blocks[d.current]? = some { d.blocks[d.current] with exit } := by
    rw [h.closed d.current (by rwa [size_close]) hw hne.symm, Draft.close,
      getElem?_modify_eq, hb]
    rfl
  refine ⟨⟨fun id hid hwait hid' => ?_, _, _, hb, hc, prefix_refl _⟩, ?_⟩
  · rw [mem_cons, not_or] at hwait
    rw [h.closed id (by rwa [size_close]) hwait.2 hwait.1, blocks_close_of_ne hid']
  · rw [point_of_current hb]
    exact ⟨_, hc, getElem?_eq_none (Nat.le_refl _), rfl⟩

/-- The open block is closed when blocks are added, and one of them is opened. -/
theorem branch {n : Nat} {exit : Exit} (added : List BlockId)
    (h : ((d.grow n).close exit next).Completed g (added ++ waiting)) (hcur : d.current < d.size)
    (hw : d.Waiting waiting) (hadded : ∀ id ∈ next :: added, d.size ≤ id) :
    d.Completed g waiting ∧ g.ExitAt d.point exit := by
  have hold {id : Nat} (hid : id < d.size) : (d.grow n).blocks[id]? = d.blocks[id]? :=
    getElem?_append_left hid
  have hne {id : Nat} (hid : id ∈ next :: added) : id ≠ d.current :=
    Nat.ne_of_gt (Nat.lt_of_lt_of_le hcur (hadded id hid))
  have hle : d.size ≤ (d.grow n).size := by rw [size_grow]; exact Nat.le_add_right _ _
  have hnot : d.current ∉ added ++ waiting := by
    intro hmem
    rcases mem_append.1 hmem with hnew | hmem
    · exact hne (mem_cons_of_mem _ hnew) rfl
    · exact (hw _ hmem).2 rfl
  obtain ⟨hgrown, hexit⟩ := h.close (Nat.lt_of_lt_of_le hcur hle) hnot (hne mem_cons_self)
  obtain ⟨b, c, hb, hc, hprefix⟩ := hgrown.opened
  have hb' : d.blocks[d.current]? = some b := (hold hcur).symm.trans hb
  rw [point_of_current hb] at hexit
  rw [point_of_current hb']
  refine ⟨⟨fun id hid hwait hid' => ?_, b, c, hb', hc, hprefix⟩, hexit⟩
  rw [← hold hid]
  refine hgrown.closed id (Nat.lt_of_lt_of_le hid hle) (fun hmem => ?_) hid'
  rcases mem_append.1 (cons_append ▸ hmem) with hnew | hmem
  · exact Nat.not_lt.2 (hadded id hnew) hid
  · exact hwait hmem

end Completed

/-! ### Statements are placed -/

/-- What is laid out between two drafts is placed in the flow graph that the second one becomes, and
    the first one becomes the same flow graph. -/
def Places (g : FlowGraph) (placed : Point → Point → Prop) (lay : Draft → Draft) : Prop :=
  ∀ d waiting, d.current < d.size → d.Waiting waiting → (lay d).Completed g waiting →
    d.Completed g waiting ∧ placed d.point (lay d).point

theorem Places.scope {body : List Stmt} {target : BlockId}
    (hplaces : Places g (Stmt.PlacedIn g body) (·.body body)) (hcur : d.current < d.size)
    (hw : d.Waiting (next :: waiting)) (h : (d.scope body span target next).Completed g waiting) :
    d.Completed g (next :: waiting) ∧ ∃ bodyEnd,
      Stmt.ScopePlaced g span body (Stmt.PlacedIn g body) d.point bodyEnd ∧
      g.ExitAt bodyEnd (.goto target) := by
  have hext := extends_scope d body span
  have hw' := hw.extends hext
  obtain ⟨hended, hexit⟩ := h.close (hext.lt hcur)
    (fun hmem => (hw' _ (mem_cons_of_mem _ hmem)).2 rfl) (hw' next mem_cons_self).2
  obtain ⟨hbody, hrow⟩ := hended.endScope
  obtain ⟨hd, hin⟩ := hplaces d _ hcur hw hbody
  exact ⟨hd, _, ⟨_, hin, hrow⟩, hexit⟩

theorem point_of_empty (h : d.blocks[d.current]? = some ⟨[], .return⟩) : d.point = .first d.current :=
  point_of_current h

theorem Waiting.cons (hw : d.Waiting waiting) (hlt : next < d.size) (hne : next ≠ d.current) :
    d.Waiting (next :: waiting) := by
  intro id hid
  rcases mem_cons.1 hid with rfl | hid
  · exact ⟨hlt, hne⟩
  · exact hw id hid

theorem places_ite {thenBody elseBody : List Stmt} {cond : Cond} (span : Span)
    (hthen : Places g (Stmt.PlacedIn g thenBody) (·.body thenBody))
    (helse : Places g (Stmt.PlacedIn g elseBody) (·.body elseBody)) :
    Places g ((Stmt.ite span cond thenBody elseBody).Placed g)
      (·.stmt (.ite span cond thenBody elseBody)) := by
  intro d waiting hcur hw h
  let d₁ := d.choice span cond
  let d₂ := d₁.scope thenBody span (d.size + 2) (d.size + 1)
  let d₃ := d₂.scope elseBody span (d.size + 2) (d.size + 2)
  have hsize₁ : d₁.size = d.size + 3 := size_choice span cond
  have hsize₂ : d₁.size ≤ d₂.size := size_le_scope ..
  have hext₁ : d.Extends d₁ := extends_choice d span cond
  have hthen₁ := extends_scope d₁ thenBody span
  have hext₂ : d.Extends d₂ := (hext₁.trans hthen₁).close _ (Nat.le_add_right _ 1)
    (Nat.lt_of_lt_of_le (by omega) hthen₁.size)
  have hone : d.size + 1 ≠ d.size := Nat.succ_ne_self _
  have htwo : d.size + 2 ≠ d.size := by omega
  have hlt₁ : d.size + 2 < d₁.size := by omega
  have hlt₂ : d.size + 2 < d₂.size := by omega
  have hempty₁ {i : Nat} (hi : i < 3) : d₁.blocks[d.size + i]? = some ⟨[], .return⟩ :=
    blocks_added hcur hi _ _
  have hempty₂ {i : Nat} (hi : i < 3) (hne : d.size + i ≠ d.size) :
      d₂.blocks[d.size + i]? = some ⟨[], .return⟩ :=
    (blocks_scope (by omega) hne ..).trans (hempty₁ hi)
  have hempty₃ : d₃.blocks[d.size + 2]? = some ⟨[], .return⟩ :=
    (blocks_scope (by omega) (Nat.succ_ne_self (d.size + 1)) ..).trans (hempty₂ (by decide) htwo)
  -- The block of the second side and the one where both meet wait while the first side is laid out.
  have hw₂ : d₂.Waiting ((d.size + 2) :: waiting) :=
    (hw.extends hext₂).cons hlt₂ (Nat.succ_ne_self (d.size + 1))
  have hw₁ : d₁.Waiting ((d.size + 1) :: (d.size + 2) :: waiting) :=
    ((hw.extends hext₁).cons hlt₁ htwo).cons (Nat.lt_of_succ_lt hlt₁) hone
  obtain ⟨h₂, elseEnd, helsePlaced, helseExit⟩ :=
    helse.scope (Nat.lt_of_succ_lt hlt₂) hw₂ h
  obtain ⟨h₁, thenEnd, hthenPlaced, hthenExit⟩ :=
    hthen.scope (show d.size < d₁.size by omega) hw₁ h₂
  rw [point_of_empty (d := d₂) (hempty₂ (by decide) hone)] at helsePlaced
  rw [point_of_empty (d := d₁) (hempty₁ (by decide : 0 < 3))] at hthenPlaced
  obtain ⟨hd, hexit⟩ := Completed.branch [d.size + 1, d.size + 2] h₁ hcur hw (by simp)
  exact ⟨hd, _, _, _, _, _, hexit, hone.symm, hthenPlaced, hthenExit, helsePlaced, helseExit,
    point_of_empty (d := d₃) hempty₃⟩

theorem places_loop {body : List Stmt} {cond : Cond} (span : Span)
    (hbody : Places g (Stmt.PlacedIn g body) (·.body body)) :
    Places g ((Stmt.loop span cond body).Placed g) (·.stmt (.loop span cond body)) := by
  intro d waiting hcur hw h
  let d₀ := (d.grow 3).close (.goto d.size) d.size
  let d₁ : Draft := { d₀ with loopHeads := d.loopHeads ++ [d.size] }
  let d₂ := d.repeated span cond
  let d₃ := d₂.scope body span d.size (d.size + 2)
  have hsize₁ : d₁.size = d.size + 3 := size_marked d
  have hsize₂ : d₂.size = d.size + 3 := size_repeated span cond
  have hlt₁ : d.size < d₁.size := by omega
  have hlt₂ : d.size + 2 < d₂.size := by omega
  have hone : d.size + 1 ≠ d.size := Nat.succ_ne_self _
  have htwo : d.size + 2 ≠ d.size := by omega
  have hext₂ : d.Extends d₂ := extends_repeated d span cond
  have hempty₁ {i : Nat} (hi : i < 3) : d₁.blocks[d.size + i]? = some ⟨[], .return⟩ :=
    blocks_added hcur hi (.goto d.size) d.size
  have hempty₂ {i : Nat} (hi : i < 3) (hne : d.size + i ≠ d.size) :
      d₂.blocks[d.size + i]? = some ⟨[], .return⟩ := blocks_repeated hcur hi hne span cond
  have hempty₃ : d₃.blocks[d.size + 2]? = some ⟨[], .return⟩ :=
    (blocks_scope hlt₂ (Nat.succ_ne_self (d.size + 1)) ..).trans (hempty₂ (by decide) htwo)
  have hw₂ : d₂.Waiting ((d.size + 2) :: waiting) :=
    (hw.extends hext₂).cons hlt₂ (Nat.succ_ne_self (d.size + 1))
  obtain ⟨h₂, bodyEnd, hbodyPlaced, hbodyExit⟩ := hbody.scope (Nat.lt_of_succ_lt hlt₂) hw₂ h
  -- The test is made in the head, which is closed when the body is opened.
  have hnot : d.size ∉ (d.size + 2) :: waiting := by
    intro hmem
    rcases mem_cons.1 hmem with heq | hmem
    · exact htwo heq.symm
    · exact Nat.lt_irrefl _ (hw _ hmem).1
  obtain ⟨h₁, htest⟩ := Completed.close (d := d₁) h₂ hlt₁ hnot hone
  have h₀ : d₀.Completed g ((d.size + 1) :: (d.size + 2) :: waiting) := ⟨h₁.closed, h₁.opened⟩
  obtain ⟨hd, hexit⟩ := Completed.branch [d.size + 1, d.size + 2] h₀ hcur hw (by simp)
  rw [point_of_empty (d := d₁) (hempty₁ (by decide : 0 < 3))] at htest
  rw [point_of_empty (d := d₂) (hempty₂ (by decide : 1 < 3) hone)] at hbodyPlaced
  exact ⟨hd, _, _, _, _, hexit, htest, hbodyPlaced, hbodyExit, point_of_empty (d := d₃) hempty₃⟩

mutual

theorem places_stmt (g : FlowGraph) : ∀ s : Stmt, Places g (s.Placed g) (·.stmt s)
  | .decl span var ty none | .decl span var ty (some e) => fun _ _ _ _ h =>
    Completed.row (Stmt.declInstrs var ty _) h
  | .assign span lhs rhs => fun _ _ _ _ h => Completed.row [.assign lhs rhs] h
  | .alloc span lhs ty => fun _ _ _ _ h => Completed.row [.alloc lhs ty] h
  | .free span path => fun _ _ _ _ h => Completed.row [.free path] h
  | .assert span cond => fun _ _ _ _ h => Completed.row [.assert cond] h
  | .directive span dir => fun _ _ _ _ h => Completed.row [.directive dir] h
  | .block span inner => by
    intro d waiting hcur hw h
    obtain ⟨hbody, hrow⟩ := Completed.endScope h
    obtain ⟨hd, hin⟩ := places_body g inner d waiting hcur hw hbody
    exact ⟨hd, _, hin, hrow⟩
  | .ite span cond thenBody elseBody =>
    places_ite span (places_body g thenBody) (places_body g elseBody)
  | .loop span cond inner => places_loop span (places_body g inner)
  | .return _ => fun _ _ hcur hw h => Completed.branch [] h hcur hw (by simp)

theorem places_body (g : FlowGraph) : ∀ body : List Stmt, Places g (Stmt.PlacedIn g body) (·.body body)
  | [] => fun _ _ _ _ h => ⟨h, rfl⟩
  | s :: rest => by
    intro d waiting hcur hw h
    obtain ⟨hs, hrest⟩ := places_body g rest (d.stmt s) waiting ((extends_stmt d s).lt hcur)
      (hw.extends (extends_stmt d s)) h
    obtain ⟨hd, hplaced⟩ := places_stmt g s d waiting hcur hw hs
    exact ⟨hd, _, hplaced, hrest⟩

end

end FlowGraph.Draft

/-- The body of a program is placed from the entry to the end of the program. -/
theorem FlowGraph.exists_placed (p : Program) :
    ∃ q, Stmt.PlacedIn (ofProgram p) p.body (.first entry) q ∧ (ofProgram p).ExitAt q .return := by
  let d := Draft.empty.body p.body
  have hcur : d.current < d.size := (Draft.extends_body Draft.empty p.body).lt Nat.zero_lt_one
  have hb : d.blocks[d.current]? = some d.blocks[d.current] := getElem?_eq_getElem hcur
  have hlast : (ofProgram p).blocks[d.current]? = some { d.blocks[d.current] with exit := .return } := by
    show (d.close .return d.current).blocks[d.current]? = _
    rw [Draft.close, getElem?_modify_eq, hb]
    rfl
  have hcompleted : d.Completed (ofProgram p) [] :=
    ⟨fun _ _ _ hne => getElem?_modify_ne _ _ hne.symm, _, _, hb, hlast, prefix_refl _⟩
  obtain ⟨-, hplaced⟩ := Draft.places_body (ofProgram p) p.body .empty [] Nat.zero_lt_one
    (fun id hid => (not_mem_nil hid).elim) hcompleted
  refine ⟨_, hplaced, ?_⟩
  rw [Draft.point_of_current hb]
  exact ⟨_, hlast, getElem?_eq_none (Nat.le_refl _), rfl⟩

end HeapShape
