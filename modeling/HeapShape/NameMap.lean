/-!
# Maps from names

A finite map whose keys are names, kept in the order of the names. What is told about a
map name by name, such as the values of all variables, comes in this order.

* `NameMap.get?_insert`, `NameMap.get?_erase`, `NameMap.get?_map`: what an operation does
  to the value of each name;
* `NameMap.mem_of_get?`, `NameMap.isSome_get?`: the values of names as entries.
-/

namespace HeapShape

/-- A finite map from names. -/
structure NameMap (α : Type) where
  /-- The names and their values, in the order of the names. -/
  entries : List (String × α)
  deriving DecidableEq, Inhabited

namespace NameMap

variable {α : Type}

/-- The map without names. -/
def empty : NameMap α := ⟨[]⟩

/-- The value of a name in a list of entries. -/
def find (name : String) : List (String × α) → Option α
  | [] => none
  | (n, a) :: l => if name = n then some a else find name l

/-- The value of a name. -/
def get? (m : NameMap α) (name : String) : Option α := find name m.entries

/-- The entries with the value of a name set. -/
def insertEntry (name : String) (a : α) : List (String × α) → List (String × α)
  | [] => [(name, a)]
  | (n, b) :: l =>
    if name < n then (name, a) :: (n, b) :: l
    else if name = n then (name, a) :: l
    else (n, b) :: insertEntry name a l

/-- Set the value of a name. -/
def insert (m : NameMap α) (name : String) (a : α) : NameMap α := ⟨insertEntry name a m.entries⟩

/-- Forget a name. -/
def erase (m : NameMap α) (name : String) : NameMap α := ⟨m.entries.filter (·.1 ≠ name)⟩

/-- Change every value. -/
def map {β : Type} (m : NameMap α) (f : α → β) : NameMap β := ⟨m.entries.map fun (n, a) => (n, f a)⟩

theorem get?_insert (m : NameMap α) (name other : String) (a : α) :
    (m.insert name a).get? other = if other = name then some a else m.get? other := by
  obtain ⟨l⟩ := m
  simp only [get?, insert]
  induction l with
  | nil => rfl
  | cons e l ih => grind [insertEntry, find]

theorem get?_erase (m : NameMap α) (name other : String) :
    (m.erase name).get? other = if other = name then none else m.get? other := by
  obtain ⟨l⟩ := m
  simp only [get?, erase]
  induction l with
  | nil => simp [find]
  | cons e l ih => grind [find]

theorem get?_map {β : Type} (m : NameMap α) (f : α → β) (name : String) :
    (m.map f).get? name = (m.get? name).map f := by
  obtain ⟨l⟩ := m
  simp only [get?, map]
  induction l with
  | nil => rfl
  | cons e l ih => grind [find]

theorem mem_of_get? {m : NameMap α} {name : String} {a : α} (h : m.get? name = some a) :
    (name, a) ∈ m.entries := by
  obtain ⟨l⟩ := m
  simp only [get?] at h
  induction l with
  | nil => simp [find] at h
  | cons e l ih => grind [find]

theorem isSome_get? {m : NameMap α} {name : String} :
    (m.get? name).isSome ↔ ∃ e ∈ m.entries, e.1 = name := by
  obtain ⟨l⟩ := m
  simp only [get?]
  induction l with
  | nil => simp [find]
  | cons e l ih => grind [find]

end NameMap

end HeapShape
