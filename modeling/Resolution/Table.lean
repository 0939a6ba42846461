import Resolution.Handle

/-!
# Tables

A table stores its entries in order of creation and hands out the position of each one.  Entries are
changed in place and never removed, so a handle stays valid once it was given out.
-/

namespace Resolution

/-- Entries of type `α`, named by handles of type `κ`. -/
structure Table (κ α : Type) where
  /-- Entries in order of creation. -/
  entries : Array α
  deriving Inhabited

namespace Table

variable {κ α : Type}

/-- The table without entries. -/
def empty : Table κ α := ⟨#[]⟩

/-- Number of entries. -/
def size (table : Table κ α) : Nat := table.entries.size

/-- Store a further entry. -/
def push (table : Table κ α) (entry : α) : Table κ α := ⟨table.entries.push entry⟩

@[simp] theorem size_push (table : Table κ α) (entry : α) :
    (table.push entry).size = table.size + 1 := by
  simp [push, size]

variable [Handle κ]

/-- Entry a handle names, if it was created. -/
def get? (table : Table κ α) (handle : κ) : Option α := table.entries[Handle.index handle]?

/-- Handle under which the next entry is stored. -/
def next (table : Table κ α) : κ := Handle.ofIndex table.size

def modify (table : Table κ α) (handle : κ) (change : α → α) : Table κ α :=
  ⟨table.entries.modify (Handle.index handle) change⟩

/-- Handles of all entries, in order of creation. -/
def handles (table : Table κ α) : List κ := (List.range table.size).map Handle.ofIndex

@[simp] theorem size_modify (table : Table κ α) (handle : κ) (change : α → α) :
    (table.modify handle change).size = table.size := by
  simp [modify, size]

@[simp] theorem get?_empty (handle : κ) : (empty : Table κ α).get? handle = none := by
  simp [empty, get?]

@[simp] theorem get?_push_next (table : Table κ α) (entry : α) :
    (table.push entry).get? table.next = some entry := by
  simp [push, get?, next, size]

theorem get?_push_of_ne (table : Table κ α) (entry : α) {handle : κ} (older : handle ≠ table.next) :
    (table.push entry).get? handle = table.get? handle := by
  have position : Handle.index handle ≠ table.entries.size := by
    intro same
    exact older (Handle.index_injective (by simp [next, size, same]))
  simp [push, get?, Array.getElem?_push, position]

@[simp] theorem get?_modify_self (table : Table κ α) (handle : κ) (change : α → α) :
    (table.modify handle change).get? handle = (table.get? handle).map change := by
  simp [modify, get?, Array.getElem?_modify]

theorem get?_modify_of_ne (table : Table κ α) {handle other : κ} (change : α → α)
    (distinct : other ≠ handle) :
    (table.modify handle change).get? other = table.get? other := by
  have position : Handle.index handle ≠ Handle.index other := by
    intro same
    exact distinct (Handle.index_injective same.symm)
  simp [modify, get?, Array.getElem?_modify, position]

theorem get?_isSome_iff (table : Table κ α) (handle : κ) :
    (table.get? handle).isSome ↔ Handle.index handle < table.size := by
  simp [get?, size]

theorem mem_handles (table : Table κ α) (handle : κ) :
    handle ∈ table.handles ↔ Handle.index handle < table.size := by
  constructor
  · intro member
    obtain ⟨position, bound, rfl⟩ := List.mem_map.mp member
    simpa using bound
  · intro bound
    exact List.mem_map.mpr ⟨Handle.index handle, by simpa using bound, by simp⟩

end Table

end Resolution
