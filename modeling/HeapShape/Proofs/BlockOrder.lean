import HeapShape.Proofs.Scoping
import Mathlib.Data.List.Nodup

/-!
# The order of blocks

The blocks of a flow graph can be put in an order in which every exit leads forward, or to the
head of a loop. It is the order in which blocks are closed when a program is laid out: a block
that an exit leads to is opened later, with the exception of the head that the body of a loop
leads back to.

* `FlowGraph.Draft.Ordered`: the blocks that are closed, the newest one first. None of them leads
  to an older one, or to itself, that is not a loop head;
* `FlowGraph.Draft.keepsOrder_stmt`: laying out a statement keeps this;
* `FlowGraph.exists_order`: the order of all blocks.
-/

namespace HeapShape

open List

/-- The exit of a block leads to another one, which is no loop head. -/
def FlowGraph.Continues (g : FlowGraph) (a b : BlockId) : Prop :=
  (∃ block, g.blocks[a]? = some block ∧ b ∈ block.exit.targets) ∧ g.isLoopHead b = false

namespace FlowGraph.Draft

variable {d d' d'' : Draft} {id next : BlockId} {done done' done'' : List BlockId}

/-- The exit of a block. -/
def exit? (d : Draft) (id : BlockId) : Option Exit := d.blocks[id]?.map Block.exit

theorem exit?_emit (span : Span) (instr : Instr) : (d.emit span instr).exit? id = d.exit? id := by
  by_cases hid : id = d.current
  · subst hid
    rw [exit?, exit?, emit, getElem?_modify_eq]
    exact Option.map_map ..
  · rw [exit?, exit?, blocks_emit_of_ne hid]

theorem exit?_close_of_ne (hid : id ≠ d.current) (exit : Exit) :
    (d.close exit next).exit? id = d.exit? id := by
  rw [exit?, exit?, blocks_close_of_ne hid]

theorem exit?_close_current {exit ex : Exit} (h : (d.close exit next).exit? d.current = some ex) :
    ex = exit := by
  rw [exit?, close, getElem?_modify_eq] at h
  obtain ⟨b, hb, rfl⟩ := Option.map_eq_some_iff.1 h
  obtain ⟨b', -, rfl⟩ := Option.map_eq_some_iff.1 hb
  rfl

/-- A block that is added leads nowhere. -/
theorem exit?_grow {n : Nat} {ex : Exit} (h : (d.grow n).exit? id = some ex) :
    d.exit? id = some ex ∨ ex = .return := by
  obtain ⟨b, hb, rfl⟩ := Option.map_eq_some_iff.1 h
  rcases Nat.lt_or_ge id d.size with hid | hid
  · rw [grow, getElem?_append_left hid] at hb
    exact .inl (by rw [exit?, hb]; rfl)
  · have hlt : id < d.size + n := by
      rw [← size_grow n]
      exact (List.getElem?_eq_some_iff.1 hb).1
    obtain rfl := Option.some.inj ((blocks_grow hid hlt).symm.trans hb)
    exact .inr rfl

/-- The exit of a block leads to another one, which is no loop head. -/
def Continues (d : Draft) (a b : BlockId) : Prop :=
  ∃ ex, d.exit? a = some ex ∧ b ∈ ex.targets ∧ b ∉ d.loopHeads

/-- A block is neither open nor closed: it waits to be opened. -/
def Waits (d : Draft) (done : List BlockId) (id : BlockId) : Prop :=
  id < d.size ∧ id ∉ d.current :: done

theorem Waits.close (h : d.Waits done id) (hne : id ≠ next) (exit : Exit) :
    (d.close exit next).Waits (d.current :: done) id := by
  refine ⟨by rw [size_close]; exact h.1, ?_⟩
  rw [mem_cons, not_or]
  exact ⟨hne, h.2⟩

/-- Some blocks are closed, in an order with the newest one first: none leads to an older one or
    to itself, except to loop heads. Other blocks lead nowhere. -/
structure Ordered (done : List BlockId) (d : Draft) : Prop where
  nodup : (d.current :: done).Nodup
  lt : ∀ id ∈ d.current :: done, id < d.size
  returns : ∀ id ∉ done, ∀ ex, d.exit? id = some ex → ex = .return
  forward : done.Pairwise fun b a => ¬ d.Continues b a
  irrefl : ∀ id ∈ done, ¬ d.Continues id id

namespace Ordered

variable (h : d.Ordered done)
include h

theorem not_continues {a b : BlockId} (hb : b ∉ done) : ¬ d.Continues b a := by
  rintro ⟨ex, hex, ht, -⟩
  rw [h.returns b hb ex hex] at ht
  exact not_mem_nil ht

/-- Blocks that lead nowhere may be added, and blocks may become loop heads. -/
theorem of_exits (hcur : d'.current = d.current) (hsize : d.size ≤ d'.size)
    (hexit : ∀ id ex, d'.exit? id = some ex → d.exit? id = some ex ∨ ex = .return)
    (hheads : d.loopHeads ⊆ d'.loopHeads) : d'.Ordered done := by
  have hcont {a b : BlockId} : d'.Continues a b → d.Continues a b := by
    rintro ⟨ex, hex, ht, hhead⟩
    rcases hexit a ex hex with hex | rfl
    · exact ⟨ex, hex, ht, fun hb => hhead (hheads hb)⟩
    · exact (not_mem_nil ht).elim
  refine ⟨hcur ▸ h.nodup, fun id hid => ?_, fun id hid ex hex => ?_, ?_, fun id hid hc => ?_⟩
  · rw [hcur] at hid
    exact Nat.lt_of_lt_of_le (h.lt id hid) hsize
  · rcases hexit id ex hex with hex | rfl
    · exact h.returns id hid ex hex
    · rfl
  · exact h.forward.imp fun hn hc => hn (hcont hc)
  · exact h.irrefl id hid (hcont hc)

theorem emit (span : Span) (instr : Instr) : (d.emit span instr).Ordered done :=
  h.of_exits rfl (Nat.le_of_eq (size_emit span instr).symm)
    (fun _ _ hex => .inl (exit?_emit span instr ▸ hex)) (List.Subset.refl _)

theorem grow (n : Nat) : (d.grow n).Ordered done :=
  h.of_exits rfl (by rw [size_grow]; exact Nat.le_add_right _ n) (fun _ _ => exit?_grow)
    (List.Subset.refl _)

theorem mark (head : BlockId) : ({ d with loopHeads := d.loopHeads ++ [head] } : Draft).Ordered done :=
  h.of_exits rfl (Nat.le_refl _) (fun _ _ hex => .inl hex) (subset_append_left _ _)

/-- Blocks that are added wait. -/
theorem waits_grow {n i : Nat} (hi : i < n) : (d.grow n).Waits done (d.size + i) := by
  refine ⟨by rw [size_grow]; exact Nat.add_lt_add_left hi _, fun hmem => ?_⟩
  exact Nat.not_lt.2 (Nat.le_add_right _ i) (h.lt _ hmem)

/-- The open block is closed, and another one is opened. The exit leads to blocks that wait, or
    to loop heads. -/
theorem close (exit : Exit)
    (htargets : ∀ target ∈ exit.targets, target ∈ d.loopHeads ∨ d.Waits done target)
    (hnext : d.Waits done next) : (d.close exit next).Ordered (d.current :: done) := by
  have hcurrent (a : BlockId) (ha : a ∈ d.current :: done) :
      ¬ (d.close exit next).Continues d.current a := by
    rintro ⟨ex, hex, ht, hhead⟩
    rw [exit?_close_current hex] at ht
    exact (htargets a ht).elim hhead fun hw => hw.2 ha
  have hother {a b : BlockId} (hb : b ∈ done) :
      ¬ d.Continues b a → ¬ (d.close exit next).Continues b a := by
    have hne : b ≠ d.current := fun heq => (nodup_cons.1 h.nodup).1 (heq ▸ hb)
    rintro hn ⟨ex, hex, ht⟩
    exact hn ⟨ex, exit?_close_of_ne hne exit ▸ hex, ht⟩
  refine ⟨nodup_cons.2 ⟨hnext.2, h.nodup⟩, fun id hid => ?_, fun id hid ex hex => ?_, ?_,
    fun id hid => ?_⟩
  · rw [size_close]
    rcases mem_cons.1 hid with rfl | hid
    · exact hnext.1
    · exact h.lt id hid
  · rw [mem_cons, not_or] at hid
    exact h.returns id hid.2 ex (exit?_close_of_ne hid.1 exit ▸ hex)
  · refine pairwise_cons.2 ⟨fun a ha => hcurrent a (mem_cons_of_mem _ ha), ?_⟩
    exact h.forward.imp_of_mem fun hb _ => hother hb
  · rcases mem_cons.1 hid with rfl | hid
    · exact hcurrent _ mem_cons_self
    · exact hother hid (h.irrefl id hid)

end Ordered

/-- A draft goes on: blocks that are closed in addition were open or are new. -/
structure Proceeds (d : Draft) (done : List BlockId) (d' : Draft) (done' : List BlockId) : Prop where
  ordered : d'.Ordered done'
  added : ∀ id ∈ done', id ∈ done ∨ id = d.current ∨ d.size ≤ id
  heads : d.loopHeads ⊆ d'.loopHeads
  extended : d.Extends d'

namespace Proceeds

theorem refl (h : d.Ordered done) : d.Proceeds done d done :=
  ⟨h, fun _ hid => .inl hid, List.Subset.refl _, .refl d⟩

variable (h : d.Proceeds done d' done')
include h

/-- A block that waits goes on to wait. -/
theorem waits (hw : d.Waits done id) : d'.Waits done' id := by
  obtain ⟨hlt, hid⟩ := hw
  rw [mem_cons, not_or] at hid
  refine ⟨Nat.lt_of_lt_of_le hlt h.extended.size, ?_⟩
  rw [mem_cons, not_or]
  refine ⟨h.extended.ne_current hlt hid.1, fun hmem => ?_⟩
  rcases h.added id hmem with hmem | heq | hge
  · exact hid.2 hmem
  · exact hid.1 heq
  · exact Nat.not_lt.2 hge hlt

theorem trans (h' : d'.Proceeds done' d'' done'') : d.Proceeds done d'' done'' := by
  refine ⟨h'.ordered, fun id hid => ?_, List.Subset.trans h.heads h'.heads, h.extended.trans h'.extended⟩
  rcases h'.added id hid with hid | rfl | hge
  · exact h.added id hid
  · exact .inr h.extended.current
  · exact .inr (.inr (Nat.le_trans h.extended.size hge))

theorem emit (span : Span) (instr : Instr) : d.Proceeds done (d'.emit span instr) done' :=
  ⟨h.ordered.emit span instr, h.added, h.heads, h.extended.emit span instr⟩

theorem endScope (body : List Stmt) (span : Span) : d.Proceeds done (d'.endScope body span) done' := by
  rw [Draft.endScope]
  split
  · exact h
  · exact h.emit span _

omit h in
theorem grow (h : d.Ordered done) (n : Nat) : d.Proceeds done (d.grow n) done :=
  ⟨h.grow n, fun _ hid => .inl hid, List.Subset.refl _, .grow d n⟩

theorem mark (head : BlockId) : d.Proceeds done { d' with loopHeads := d'.loopHeads ++ [head] } done' :=
  ⟨h.ordered.mark head, h.added, List.Subset.trans h.heads (subset_append_left _ _),
    h.extended.size, h.extended.blocks, h.extended.current, h.extended.lt⟩

theorem close (exit : Exit)
    (htargets : ∀ target ∈ exit.targets, target ∈ d'.loopHeads ∨ d'.Waits done' target)
    (hnew : d.size ≤ next) (hnext : d'.Waits done' next) :
    d.Proceeds done (d'.close exit next) (d'.current :: done') := by
  refine ⟨h.ordered.close exit htargets hnext, fun id hid => ?_, h.heads,
    h.extended.close exit hnew hnext.1⟩
  rcases mem_cons.1 hid with rfl | hid
  · exact .inr h.extended.current
  · exact h.added id hid

end Proceeds

/-- A way to lay out code keeps blocks in order. -/
def KeepsOrder (lay : Draft → Draft) : Prop :=
  ∀ (d : Draft) (done : List BlockId), d.Ordered done → ∃ done', d.Proceeds done (lay d) done'

namespace KeepsOrder

theorem ite {thenBody elseBody : List Stmt} (span : Span) (cond : Cond)
    (hthen : KeepsOrder (·.body thenBody)) (helse : KeepsOrder (·.body elseBody)) :
    KeepsOrder (·.stmt (.ite span cond thenBody elseBody)) := by
  intro d done h
  let exit : Exit := .branch span cond d.size (d.size + 1)
  have hnew {i : Nat} (hi : i < 3) : (d.grow 3).Waits done (d.size + i) := h.waits_grow hi
  have hopen₁ := (Proceeds.grow h 3).close exit
    (forall_mem_cons.2 ⟨.inr (hnew (by decide : 0 < 3)),
      forall_mem_singleton.2 (.inr (hnew (by decide : 1 < 3)))⟩) (Nat.le_refl _)
    (hnew (by decide : 0 < 3))
  -- The first side leads to the block where both meet, and the second one is opened.
  obtain ⟨done₁, hbody₁⟩ := hthen _ _ hopen₁.ordered
  have hside₁ := hbody₁.endScope thenBody span
  have hwait := hside₁.waits ((hnew (by decide : 1 < 3)).close (Nat.succ_ne_self _) exit)
  have hjoin := hside₁.waits ((hnew (by decide : 2 < 3)).close
    (Nat.ne_of_gt (Nat.lt_add_of_pos_right (by decide : 0 < 2))) exit)
  have hopen₂ := (hopen₁.trans hside₁).close (.goto (d.size + 2))
    (forall_mem_singleton.2 (.inr hjoin)) (Nat.le_add_right _ 1) hwait
  -- The second side leads there, too, and this block is opened.
  obtain ⟨done₂, hbody₂⟩ := helse _ _ hopen₂.ordered
  have hside₂ := hbody₂.endScope elseBody span
  have hjoin₂ := hside₂.waits (hjoin.close (Nat.succ_ne_self _) (.goto (d.size + 2)))
  exact ⟨_, (hopen₂.trans hside₂).close (.goto (d.size + 2)) (forall_mem_singleton.2 (.inr hjoin₂))
    (Nat.le_add_right _ 2) hjoin₂⟩

theorem loop {body : List Stmt} (span : Span) (cond : Cond) (hbody : KeepsOrder (·.body body)) :
    KeepsOrder (·.stmt (.loop span cond body)) := by
  intro d done h
  let exit : Exit := .branch span cond (d.size + 1) (d.size + 2)
  have hnew {i : Nat} (hi : i < 3) : (d.grow 3).Waits done (d.size + i) := h.waits_grow hi
  have hhead := ((Proceeds.grow h 3).close (.goto d.size)
    (forall_mem_singleton.2 (.inr (hnew (by decide : 0 < 3)))) (Nat.le_refl _)
    (hnew (by decide : 0 < 3))).mark d.size
  have hstart := (hnew (by decide : 1 < 3)).close (Nat.succ_ne_self _) (.goto d.size)
  have hafter := (hnew (by decide : 2 < 3)).close
    (Nat.ne_of_gt (Nat.lt_add_of_pos_right (by decide : 0 < 2))) (.goto d.size)
  have hopen := hhead.close exit
    (forall_mem_cons.2 ⟨.inr hstart, forall_mem_singleton.2 (.inr hafter)⟩) (Nat.le_add_right _ 1) hstart
  -- The body leads back to the head, and the block behind the loop is opened.
  obtain ⟨done₁, hinner⟩ := hbody _ _ hopen.ordered
  have hside := hinner.endScope body span
  exact ⟨_, (hopen.trans hside).close (.goto d.size)
    (forall_mem_singleton.2 (.inl (hside.heads (mem_append_right _ (mem_singleton_self _)))))
    (Nat.le_add_right _ 2) (hside.waits (hafter.close (Nat.succ_ne_self _) exit))⟩

end KeepsOrder

mutual

/-- Laying out a statement keeps blocks in order. -/
theorem keepsOrder_stmt : ∀ s : Stmt, KeepsOrder (·.stmt s)
  | .decl span var ty (some e) => fun _ done h => ⟨done, ((Proceeds.refl h).emit span _).emit span _⟩
  | .decl span var ty none => fun _ done h => ⟨done, (Proceeds.refl h).emit span _⟩
  | .assign .. | .alloc .. | .free .. | .assert .. | .directive .. => fun _ done h =>
    ⟨done, (Proceeds.refl h).emit _ _⟩
  | .block span inner => fun d done h => by
    obtain ⟨done', hbody⟩ := keepsOrder_body inner d done h
    exact ⟨done', hbody.endScope inner span⟩
  | .ite span cond thenBody elseBody =>
    .ite span cond (keepsOrder_body thenBody) (keepsOrder_body elseBody)
  | .loop span cond inner => .loop span cond (keepsOrder_body inner)
  | .return _ => fun d done h =>
    ⟨_, (Proceeds.grow h 1).close .return (fun _ ht => (not_mem_nil ht).elim) (Nat.le_refl _)
      (h.waits_grow (by decide : 0 < 1))⟩

theorem keepsOrder_body : ∀ body : List Stmt, KeepsOrder (·.body body)
  | [] => fun _ done h => ⟨done, .refl h⟩
  | s :: rest => fun d done h => by
    obtain ⟨done₁, hstmt⟩ := keepsOrder_stmt s d done h
    obtain ⟨done₂, hrest⟩ := keepsOrder_body rest _ done₁ hstmt.ordered
    exact ⟨done₂, hstmt.trans hrest⟩

end

theorem ordered_empty : empty.Ordered [] := by
  refine ⟨nodup_singleton 0, forall_mem_singleton.2 Nat.zero_lt_one, fun id _ ex hex => ?_,
    .nil, fun _ hid => (not_mem_nil hid).elim⟩
  obtain ⟨b, hb, rfl⟩ := Option.map_eq_some_iff.1 hex
  obtain rfl := mem_singleton.1 (mem_of_getElem? hb)
  rfl

/-- What leads on in a flow graph led on in its draft. -/
theorem continues_of_finish {a b : BlockId} (h : d.finish.Continues a b) : d.Continues a b := by
  obtain ⟨⟨block, hblock, ht⟩, hhead⟩ := h
  have hex : (d.close .return d.current).exit? a = some block.exit := by
    rw [exit?, show (d.close .return d.current).blocks[a]? = some block from hblock]
    rfl
  refine ⟨block.exit, ?_, ht, ?_⟩
  · by_cases ha : a = d.current
    · subst ha
      rw [exit?_close_current hex] at ht
      exact (not_mem_nil ht).elim
    · rw [exit?_close_of_ne ha] at hex
      exact hex
  · exact fun hb => Bool.false_ne_true (hhead.symm.trans (contains_iff_mem.2 hb))

end FlowGraph.Draft

/-- An order of all blocks in which every exit leads forward, or to a loop head. -/
structure FlowGraph.IsOrder (order : List BlockId) (g : FlowGraph) : Prop where
  all : order.Perm (List.range g.blocks.length)
  forward : order.Pairwise fun a b => ¬ g.Continues b a
  irrefl : ∀ a, ¬ g.Continues a a

theorem FlowGraph.exists_order (p : Program) : ∃ order, (ofProgram p).IsOrder order := by
  obtain ⟨done, hlaid⟩ := Draft.keepsOrder_body p.body Draft.empty [] Draft.ordered_empty
  have h := hlaid.ordered
  let d := Draft.empty.body p.body
  have hlength : (ofProgram p).blocks.length = d.size := length_modify ..
  have hcont {a b : BlockId} (hc : (ofProgram p).Continues a b) : d.Continues a b :=
    Draft.continues_of_finish hc
  have hlt (id : BlockId) (hid : id ∈ done) : id < d.size := h.lt id (mem_cons_of_mem _ hid)
  -- The blocks in the order in which they were closed, and then those that lead nowhere.
  let rest := (List.range d.size).filter (· ∉ done)
  have hrest {a b : BlockId} (hb : b ∈ rest) : ¬ (ofProgram p).Continues b a := fun hc =>
    h.not_continues (of_decide_eq_true (mem_filter.1 hb).2) (hcont hc)
  refine ⟨done.reverse ++ rest, ?_, ?_, fun a hc => ?_⟩
  · have hnodup : (done.reverse ++ rest).Nodup := by
      refine nodup_append.2 ⟨nodup_reverse.2 (nodup_cons.1 h.nodup).2,
        nodup_range.filter _, ?_⟩
      rintro a ha _ hb rfl
      exact of_decide_eq_true (mem_filter.1 hb).2 (mem_reverse.1 ha)
    rw [hlength, perm_ext_iff_of_nodup hnodup nodup_range]
    intro id
    simp only [rest, mem_append, mem_reverse, mem_filter, mem_range, decide_eq_true_eq]
    exact ⟨fun hid => hid.elim (hlt id) And.left,
      fun hid => (em (id ∈ done)).imp_right fun hn => ⟨hid, hn⟩⟩
  · refine pairwise_append.2 ⟨?_, ?_, fun a _ b hb => hrest hb⟩
    · exact pairwise_reverse.2 (h.forward.imp fun hn hc => hn (hcont hc))
    · exact pairwise_of_forall_mem_list fun a _ b hb => hrest hb
  · by_cases ha : a ∈ done
    · exact h.irrefl a ha (hcont hc)
    · exact h.not_continues ha (hcont hc)

end HeapShape
