/-! Finite tables: a value per key, the latest entry of a key wins. -/

namespace TypedTree

/-- Entries by key; no two entries of a table built with `insert` have the same key. -/
structure Table (κ α : Type) where
  entries : List (κ × α) := []

namespace Table

variable {κ α β : Type} [DecidableEq κ]

def empty : Table κ α := ⟨[]⟩

def find? (table : Table κ α) (key : κ) : Option α :=
  (table.entries.find? fun entry => entry.1 = key).map Prod.snd

def contains (table : Table κ α) (key : κ) : Bool :=
  (table.find? key).isSome

def erase (table : Table κ α) (key : κ) : Table κ α :=
  ⟨table.entries.filter fun entry => entry.1 ≠ key⟩

def insert (table : Table κ α) (key : κ) (value : α) : Table κ α :=
  ⟨(key, value) :: (table.erase key).entries⟩

def insertAll (table : Table κ α) (entries : List (κ × α)) : Table κ α :=
  entries.foldl (fun table entry => table.insert entry.1 entry.2) table

def size (table : Table κ α) : Nat := table.entries.length

def keys (table : Table κ α) : List κ := table.entries.map Prod.fst

@[simp] theorem find?_empty (key : κ) : (empty : Table κ α).find? key = none := rfl

theorem find?_erase (table : Table κ α) (key other : κ) :
    (table.erase key).find? other = if other = key then none else table.find? other := by
  unfold erase find?
  rw [List.find?_filter]
  split
  next same =>
    subst same
    simp
  next different =>
    congr 2
    funext entry
    by_cases found : entry.1 = other
    · simp [found, different]
    · simp [found]

theorem find?_insert (table : Table κ α) (key other : κ) (value : α) :
    (table.insert key value).find? other = if other = key then some value else table.find? other := by
  by_cases same : other = key
  · simp [insert, find?, same]
  · have rest := table.find?_erase key other
    rw [if_neg same] at rest ⊢
    rw [← rest]
    simp [insert, find?, Ne.symm same]

@[simp] theorem find?_insert_self (table : Table κ α) (key : κ) (value : α) :
    (table.insert key value).find? key = some value := by
  rw [find?_insert, if_pos rfl]

theorem find?_insert_of_ne (table : Table κ α) {key other : κ} (value : α) (different : other ≠ key) :
    (table.insert key value).find? other = table.find? other := by
  rw [find?_insert, if_neg different]

end Table

end TypedTree
