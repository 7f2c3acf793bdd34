import HeapShape.Heap
import Mathlib.Data.Finmap

/-!
# What a heap says about memory

Memory is a finite map from addresses to records. A record has a structure and holds, in
each field, null, an address or a scalar. A symbolic heap speaks about memory through a
*valuation*, which makes each location null or an address:

* a cell is the record at its location;
* a full `list` is a chain of records from its root to null, and a segment of one is a chain
  to where its hole is;
* a full `bintreep_o` is a tree at its root where each record points up to its parent, and
  a segment of one is such a tree with one position left open, which is where its hole is;
* a freed location is an address without a record;
* nothing is said of an opaque location.

The *footprint* of a cell or a summary is the set of addresses of its records. Footprints
of different locations have nothing in common. Members and graphs are not described here.

What counts as a record of a structure, apart from the fields that a predicate speaks of,
is a parameter `ok`. The strictest choice is `Record.Fits`.

* `Heap.Describes`: a heap holds of memory, with the given footprints;
* `Heap.Sat`: a heap holds of memory;
* `Summary.WellFormed`: a summary of a list or a tree that has a meaning.
-/

namespace HeapShape

/-! ### Memory -/

/-- An address. Null is not an address. -/
abbrev Addr := Nat

/-- What a variable or a field holds in memory. -/
inductive Datum where
  /-- The null pointer. -/
  | null
  /-- An address. -/
  | addr (a : Addr)
  /-- A scalar. -/
  | scalar (n : Int)
  deriving DecidableEq

/-- The pointer to an address, or null. -/
def Datum.pointer : Option Addr → Datum
  | none => .null
  | some a => .addr a

/-- A record in memory. -/
structure Record where
  /-- Its structure. -/
  ty : StructId
  /-- What its fields hold. -/
  fields : List Datum
  deriving DecidableEq

/-- Memory: a record for each address in use. -/
abbrev Memory := Finmap fun _ : Addr => Record

/-- A datum is of a type. -/
def Datum.OfType (d : Datum) : Ty → Prop
  | .int => ∃ n, d = .scalar n
  | .ptr _ => ∃ p, d = .pointer p

/-- A record has the fields that its structure declares. -/
def Record.Fits (structs : Structs) (r : Record) : Prop :=
  ∃ decl, structs.decl? r.ty = some decl ∧
    List.Forall₂ (fun f d => d.OfType f.ty) decl.fields r.fields

namespace Memory

/-- A chain of records through the field `next`, from a pointer to `stop`. -/
inductive Chain (m : Memory) (node : Record → Prop) (next : Nat) (stop : Datum) :
    Datum → Finset Addr → Prop
  /-- The chain without records. -/
  | nil : Chain m node next stop stop ∅
  /-- A record in front of a chain. -/
  | cons {a : Addr} {r : Record} {d : Datum} {A : Finset Addr} (hr : m.lookup a = some r)
      (hnode : node r) (hd : r.fields[next]? = some d) (ha : a ∉ A)
      (tail : Chain m node next stop d A) : Chain m node next stop (.addr a) (insert a A)

/-- A tree below a pointer whose records hold their parent in the field `up`, where the root
    has a given parent. One position may be open: the pointer there and the parent that is
    expected there are told. -/
inductive Tree (m : Memory) (node : Record → Prop) (left right up : Nat) :
    Option (Datum × Datum) → Datum → Datum → Finset Addr → Prop
  /-- The tree without records. -/
  | empty {parent : Datum} : Tree m node left right up none parent .null ∅
  /-- The open position. -/
  | hole {parent d : Datum} : Tree m node left right up (some (d, parent)) parent d ∅
  /-- A record above two trees. -/
  | node {a : Addr} {r : Record} {parent d e : Datum} {o o' : Option (Datum × Datum)}
      {A B : Finset Addr} (hr : m.lookup a = some r) (hnode : node r)
      (hd : r.fields[left]? = some d) (he : r.fields[right]? = some e)
      (hup : r.fields[up]? = some parent) (ho : o = none ∨ o' = none) (ha : a ∉ A ∪ B)
      (hAB : Disjoint A B) (ltree : Tree m node left right up o (.addr a) d A)
      (rtree : Tree m node left right up o' (.addr a) e B) :
      Tree m node left right up (o.or o') parent (.addr a) (insert a (A ∪ B))

end Memory

/-! ### Valuations -/

/-- A valuation: the address that each location stands for, or null. -/
abbrev Valuation := Loc → Option Addr

namespace Valuation

/-- A value can be a datum. Of a scalar nothing more is known. -/
def Holds (ν : Valuation) : Value → Datum → Prop
  | .null, d => d = .null
  | .ptr loc, d => d = .pointer (ν loc)
  | .int, d => ∃ n, d = .scalar n

variable {ν : Valuation} {v : Value} {d : Datum}

/-- Two valuations agree on the locations that a value mentions. -/
theorem Holds.congr {ν' : Valuation} (h : ν.Holds v d) (hν : ∀ loc, v = .ptr loc → ν' loc = ν loc) :
    ν'.Holds v d := by
  cases v with
  | null => exact h
  | int => exact h
  | ptr loc => rw [Holds, hν loc rfl]; exact h

/-- A pointer value can only be one datum. -/
theorem Holds.unique {e : Datum} (hv : v ≠ .int) (hd : ν.Holds v d) (he : ν.Holds v e) : d = e := by
  cases v with
  | null => exact hd.trans he.symm
  | ptr loc => exact hd.trans he.symm
  | int => exact absurd rfl hv

/-- A location may be replaced by a value that can be the same datum. -/
theorem Holds.subst {w : Value} {loc : Loc} (hw : ν.Holds w (.pointer (ν loc))) (h : ν.Holds v d) :
    ν.Holds (v.subst loc w) d := by
  rw [Value.subst]
  split
  · rename_i hv
    subst hv
    cases h
    exact hw
  · exact h

end Valuation

/-! ### Facts -/

/-- A record is of a structure. -/
def Record.IsOf (ok : Record → Prop) (ty : StructId) (r : Record) : Prop := r.ty = ty ∧ ok r

/-- Where a chain stops: at null, or at the hole of a segment. -/
def Hole.StopsAt (ν : Valuation) : Option Hole → Datum → Prop
  | none, d => d = .null
  | some o, d => ν.Holds o.value d

/-- Which position of a tree is open: none, or the hole of a segment with its parent. -/
def Hole.OpenAt (ν : Valuation) : Option Hole → Option (Datum × Datum) → Prop
  | none, q => q = none
  | some o, q => ∃ d parent, ν.Holds o.value d ∧ List.Forall₂ ν.Holds o.params.ptrs [parent] ∧
      q = some (d, parent)

section

variable (structs : Structs) (ok : Record → Prop) (ν : Valuation) (m : Memory)

/-- A summary at a location holds of the records at some addresses. -/
def Summary.Holds (loc : Loc) (A : Finset Addr) (s : Summary) : Prop :=
  match s.pred, s.pred.layout? structs s.ty with
  | .list, some ⟨[next], _, _, _⟩ => ∃ stop, Hole.StopsAt ν s.hole stop ∧
      m.Chain (Record.IsOf ok s.ty) next stop (.pointer (ν loc)) A
  | .tree, some ⟨[left, right], some up, _, _⟩ => ∃ q parent, Hole.OpenAt ν s.hole q ∧
      List.Forall₂ ν.Holds s.params.ptrs [parent] ∧
      m.Tree (Record.IsOf ok s.ty) left right up q parent (.pointer (ν loc)) A
  | _, _ => False

/-- A fact about a location holds of the records at some addresses. -/
def Fact.Holds (loc : Loc) (A : Finset Addr) : Fact → Prop
  | .cell c => ∃ a r, ν loc = some a ∧ m.lookup a = some r ∧ r.ty = c.ty ∧
      List.Forall₂ ν.Holds c.fields r.fields ∧ A = {a}
  | .summary s => s.Holds structs ok ν m loc A
  | .member .. => False

/-- A heap holds of memory, where each fact has its footprint. -/
structure Heap.Describes (h : Heap) (foot : Loc → Finset Addr) : Prop where
  /-- Each fact holds of its footprint. -/
  facts : ∀ loc f, h.slot loc = .occupied f → f.Holds structs ok ν m loc (foot loc)
  /-- Footprints of different locations have nothing in common. -/
  apart : ∀ loc loc' f f', h.slot loc = .occupied f → h.slot loc' = .occupied f' → loc ≠ loc' →
    Disjoint (foot loc) (foot loc')
  /-- There is no record at a freed location. -/
  freed : ∀ loc, h.slot loc = .tombstone → ∃ a, ν loc = some a ∧ a ∉ m

/-- A heap holds of memory. -/
def Heap.Sat (h : Heap) : Prop := ∃ foot, h.Describes structs ok ν m foot

end

/-! ### Summaries with a meaning -/

/-- A summary of a list or a tree has a meaning: its structure is laid out for the
    predicate, it has the parameters that the predicate asks for, and its hole is a pointer
    with such parameters. -/
structure Summary.WellFormed (structs : Structs) (s : Summary) : Prop where
  kind : s.pred = .list ∨ s.pred = .tree
  layout : (s.pred.layout? structs s.ty).isSome
  ptrs : s.params.ptrs.length = s.pred.signature.ptrArity
  sets : s.params.sets = []
  hole : ∀ o, s.hole = some o → o.value ≠ .int ∧ .int ∉ o.params.ptrs ∧
    o.params.ptrs.length = s.pred.signature.ptrArity ∧ o.params.sets = []

/-- A fact is a cell, or a summary of a list or a tree that has a meaning. -/
def Fact.WellFormed (structs : Structs) : Fact → Prop
  | .cell _ => True
  | .summary s => s.WellFormed structs
  | .member .. => False

end HeapShape
