import HeapShape.FlowGraph
import HeapShape.Proofs.Memory

/-!
# Programs that run on memory

What the instructions and conditions that states are computed for do when a program runs:
a *machine* has memory and the values of the variables in scope. A read or a write goes
wrong if it follows anything but the address of a record, or asks for a field that the record
does not have, and so does a release of anything but a record. Scalars are not computed, so
a scalar expression can have any value, and a condition on scalars any outcome.

* `Machine.Evaluates`: an expression has a value, or goes wrong;
* `Machine.Runs`: an instruction leads to a machine, or goes wrong;
* `Machine.Decides`: a condition has an outcome, or goes wrong. Conditions are evaluated
  from left to right, and no further than needed.

What goes wrong has the result `none`.
-/

namespace HeapShape

/-- The record that a datum is the address of, with this address. -/
def Memory.target (m : Memory) : Datum → Option (Addr × Record)
  | .addr a => (m.lookup a).map (a, ·)
  | _ => none

/-- The state of a program that runs. -/
structure Machine where
  /-- Memory. -/
  mem : Memory
  /-- What the variables in scope hold. -/
  vars : NameMap Datum

namespace Machine

variable (c : Machine)

/-! ### Paths -/

/-- What a field of the record at an address holds. -/
def load (d : Datum) (index : Nat) : Option Datum := (c.mem.target d).bind (·.2.fields[index]?)

/-- Follow fields. -/
def follow : Datum → List FieldRef → Option Datum
  | d, [] => some d
  | d, f :: fs => (c.load d f.index).bind (follow · fs)

/-- What a path holds. -/
def read (p : Path) : Option Datum := (c.vars.get? p.var).bind (c.follow · p.fields)

/-- Read paths, which goes wrong if one of them does. -/
def readAll : List Path → Option Unit
  | [] => some ()
  | p :: ps => (c.read p).bind fun _ => readAll ps

/-- Set a field of the record at an address. -/
def store (d : Datum) (index : Nat) (new : Datum) : Option Machine :=
  (c.mem.target d).bind fun (a, r) =>
    if index < r.fields.length then
      some { c with mem := c.mem.insert a { r with fields := r.fields.set index new } }
    else none

/-- Set what a path holds. -/
def write (p : Path) (new : Datum) : Option Machine :=
  match p.splitLast? with
  | none => (c.vars.get? p.var).map fun _ => { c with vars := c.vars.insert p.var new }
  | some (parent, last) => (c.read parent).bind (c.store · last.index new)

/-- Release the record at an address. -/
def release (d : Datum) : Option Machine :=
  (c.mem.target d).map fun (a, _) => { c with mem := c.mem.erase a }

/-! ### Expressions and instructions -/

/-- An expression has a value, or goes wrong. -/
inductive Evaluates : Expr → Option Datum → Prop
  | null : Evaluates .null (some .null)
  | path (p : Path) : Evaluates (.path p) (c.read p)
  | scalar (ps : List Path) (n : Int) : Evaluates (.scalar ps) ((c.readAll ps).map fun _ => .scalar n)

/-- Nothing refers to an address, so it can be given out. -/
structure Unused (a : Addr) : Prop where
  mem : a ∉ c.mem
  fields : ∀ b r, c.mem.lookup b = some r → .addr a ∉ r.fields
  vars : ∀ x, c.vars.get? x ≠ some (.addr a)

/-- An assignment, an allocation or a release leads to a machine, or goes wrong. A new record
    is at an address that nothing refers to, and holds anything that fits its structure. -/
inductive Runs (structs : Structs) : Instr → Option Machine → Prop
  | assign {lhs : Path} {rhs : Expr} {d : Datum} (h : c.Evaluates rhs (some d)) :
      Runs structs (.assign lhs rhs) (c.write lhs d)
  | assign_wrong {lhs : Path} {rhs : Expr} (h : c.Evaluates rhs none) :
      Runs structs (.assign lhs rhs) none
  | alloc {lhs : Path} {a : Addr} {r : Record} (hr : r.Fits structs) (ha : c.Unused a) :
      Runs structs (.alloc lhs r.ty) ({ c with mem := c.mem.insert a r }.write lhs (.addr a))
  | alloc_wrong {lhs : Path} {ty : StructId} (h : structs.decl? ty = none) :
      Runs structs (.alloc lhs ty) none
  | free (p : Path) : Runs structs (.free p) ((c.read p).bind c.release)

/-! ### Conditions -/

/-- The outcome of a comparison. With a scalar it can be any. -/
inductive Compares : Datum → Datum → Bool → Prop
  | pointers (p q : Option Addr) : Compares (.pointer p) (.pointer q) (decide (p = q))
  | scalar_left (n : Int) (d : Datum) (t : Bool) : Compares (.scalar n) d t
  | scalar_right (d : Datum) (n : Int) (t : Bool) : Compares d (.scalar n) t

/-- A condition has an outcome, or goes wrong. -/
inductive Decides : Cond → Option Bool → Prop
  | unknown (ps : List Path) (t : Bool) : Decides (.unknown ps) ((c.readAll ps).map fun _ => t)
  | cmp {eq t : Bool} {lhs rhs : Expr} {d e : Datum} (hl : c.Evaluates lhs (some d))
      (hr : c.Evaluates rhs (some e)) (ht : Compares d e t) :
      Decides (.cmp eq lhs rhs) (some (t == eq))
  | cmp_left {eq : Bool} {lhs rhs : Expr} (hl : c.Evaluates lhs none) :
      Decides (.cmp eq lhs rhs) none
  | cmp_right {eq : Bool} {lhs rhs : Expr} {d : Datum} (hl : c.Evaluates lhs (some d))
      (hr : c.Evaluates rhs none) : Decides (.cmp eq lhs rhs) none
  | not {b : Cond} {r : Option Bool} (h : Decides b r) : Decides (.not b) (r.map (!·))
  | and_first {b b' : Cond} {r : Option Bool} (h : Decides b r) (hr : r ≠ some true) :
      Decides (.and b b') r
  | and_second {b b' : Cond} {r : Option Bool} (h : Decides b (some true)) (h' : Decides b' r) :
      Decides (.and b b') r
  | or_first {b b' : Cond} {r : Option Bool} (h : Decides b r) (hr : r ≠ some false) :
      Decides (.or b b') r
  | or_second {b b' : Cond} {r : Option Bool} (h : Decides b (some false)) (h' : Decides b' r) :
      Decides (.or b b') r

end Machine

end HeapShape
