/-!
# Table

A finite map from numbers, as a list of entries in the order in which their keys were first
set.  `get?` is the view: each operation is known by what it does to it.
-/

namespace MediaHost

/-- Entries by number. -/
structure Table (α : Type) where
  entries : List (Nat × α) := []
deriving DecidableEq, Repr

namespace Table
variable {α : Type}

instance : Inhabited (Table α) := ⟨{}⟩

/-- The entry of `k`. -/
def find (k : Nat) : List (Nat × α) → Option α
  | [] => none
  | e :: es => if e.1 = k then some e.2 else find k es

/-- Replaces the entry of `k`, or adds it at the end. -/
def setIn (k : Nat) (v : α) : List (Nat × α) → List (Nat × α)
  | [] => [(k, v)]
  | e :: es => if e.1 = k then (k, v) :: es else e :: setIn k v es

def get? (t : Table α) (k : Nat) : Option α := find k t.entries

def set (t : Table α) (k : Nat) (v : α) : Table α := ⟨setIn k v t.entries⟩

def erase (t : Table α) (k : Nat) : Table α := ⟨t.entries.filter (·.1 ≠ k)⟩

/-- Changes the entry of `k`, if there is one. -/
def modify (t : Table α) (k : Nat) (f : α → α) : Table α :=
  ⟨t.entries.map fun e => if e.1 = k then (e.1, f e.2) else e⟩

def size (t : Table α) : Nat := t.entries.length

/-- How many entries have the property. -/
def count (t : Table α) (p : α → Bool) : Nat := t.entries.countP fun e => p e.2

@[simp] theorem get?_set (t : Table α) (k j : Nat) (v : α) :
    (t.set k v).get? j = if k = j then some v else t.get? j := by
  unfold set get?
  induction t.entries with
  | nil => simp [setIn, find]
  | cons e es ih => grind [setIn, find]

@[simp] theorem get?_erase (t : Table α) (k j : Nat) :
    (t.erase k).get? j = if k = j then none else t.get? j := by
  unfold erase get?
  induction t.entries with
  | nil => simp [find]
  | cons e es ih => grind [find]

@[simp] theorem get?_modify (t : Table α) (k j : Nat) (f : α → α) :
    (t.modify k f).get? j = if k = j then (t.get? j).map f else t.get? j := by
  unfold modify get?
  induction t.entries with
  | nil => simp [find]
  | cons e es ih => grind [find]

end Table
end MediaHost
