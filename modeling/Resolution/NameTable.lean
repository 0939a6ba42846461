import Resolution.Handle
import Resolution.Order

/-!
# Name tables

Members by name, in order of arrival.  Every name occurs once.
-/

namespace Resolution

/-- Members by name. -/
structure NameTable where
  /-- Names and their members, in order of arrival. -/
  entries : List (String × MemberId) := []
  deriving DecidableEq, Repr, Inhabited

namespace NameTable

/-- The table without names. -/
def empty : NameTable := {}

def find? (table : NameTable) (name : String) : Option MemberId := table.entries.lookup name

/-- Number of names. -/
def size (table : NameTable) : Nat := table.entries.length

/-- Replace the member of a name in a list, or append the name. -/
def put (name : String) (member : MemberId) : List (String × MemberId) → List (String × MemberId)
  | [] => [(name, member)]
  | entry :: rest =>
    if entry.1 = name then (name, member) :: rest else entry :: put name member rest

/-- Give a name a member, whatever it had before. -/
def set (table : NameTable) (name : String) (member : MemberId) : NameTable :=
  ⟨put name member table.entries⟩

/-- Give a free name a member; a taken name answers the member it has. -/
def insert (table : NameTable) (name : String) (member : MemberId) : Except MemberId NameTable :=
  match table.find? name with
  | some existing => .error existing
  | none => .ok (table.set name member)

/-- Names and members in order of creation of the members. -/
def sorted (table : NameTable) : List (String × MemberId) :=
  sortBy (fun first second => decide (first.2.index ≤ second.2.index)) table.entries

@[simp] theorem find?_empty (name : String) : empty.find? name = none := rfl

private theorem lookup_put (name other : String) (member : MemberId)
    (entries : List (String × MemberId)) :
    (put name member entries).lookup other =
      if other = name then some member else entries.lookup other := by
  induction entries with
  | nil =>
    by_cases same : other = name
    · simp [put, same]
    · have differs : (other == name) = false := by simpa using same
      simp [put, List.lookup_cons, same, differs]
  | cons entry rest ih =>
    obtain ⟨key, value⟩ := entry
    by_cases here : other = key
    · subst here
      by_cases taken : other = name <;> simp [put, taken]
    · have differs : (other == key) = false := by simpa using here
      by_cases taken : key = name
      · subst taken
        simp [put, List.lookup_cons, here, differs]
      · simp [put, List.lookup_cons, taken, differs, ih]

@[simp] theorem find?_set_self (table : NameTable) (name : String) (member : MemberId) :
    (table.set name member).find? name = some member := by
  simp [set, find?, lookup_put]

theorem find?_set_of_ne (table : NameTable) {name other : String} (member : MemberId)
    (distinct : other ≠ name) : (table.set name member).find? other = table.find? other := by
  simp [set, find?, lookup_put, distinct]

theorem eq_set_of_insert {table later : NameTable} {name : String} {member : MemberId}
    (inserted : table.insert name member = .ok later) : table.find? name = none ∧
    later = table.set name member := by
  unfold insert at inserted
  split at inserted
  · cases inserted
  · rename_i free
    exact ⟨free, (Except.ok.inj inserted).symm⟩

theorem insert_eq_error_iff (table : NameTable) (name : String) (member existing : MemberId) :
    table.insert name member = .error existing ↔ table.find? name = some existing := by
  unfold insert
  split <;> simp_all

theorem mem_of_mem_set {table : NameTable} {name : String} {member : MemberId}
    {named : String × MemberId}
    (listed : named ∈ (table.set name member).entries) :
    named ∈ table.entries ∨ named = (name, member) := by
  obtain ⟨entries⟩ := table
  unfold set at listed
  induction entries with
  | nil => exact .inr (List.mem_singleton.mp listed)
  | cons entry rest ih => grind [put]

/-! ## Distinct names -/

def Distinct (table : NameTable) : Prop := (table.entries.map Prod.fst).Nodup

theorem distinct_empty : empty.Distinct := List.nodup_nil

private theorem map_fst_put (name : String) (member : MemberId)
    (entries : List (String × MemberId)) :
    (put name member entries).map Prod.fst =
      if name ∈ entries.map Prod.fst then entries.map Prod.fst else entries.map Prod.fst ++
      [name] := by
  induction entries with
  | nil => rfl
  | cons entry rest ih =>
    rw [put]
    by_cases here : entry.1 = name
    · simp [here]
    · have apart : name ≠ entry.1 := fun same => here same.symm
      rw [if_neg here, List.map_cons, List.map_cons, ih]
      by_cases later : name ∈ rest.map Prod.fst <;> simp [later, apart]

theorem Distinct.set {table : NameTable} (distinct : table.Distinct) (name : String)
    (member : MemberId) :
    (table.set name member).Distinct := by
  unfold Distinct NameTable.set
  rw [map_fst_put]
  split
  · exact distinct
  · rename_i free
    refine List.nodup_append.mpr ⟨distinct, by simp, ?_⟩
    intro taken listed other isName same
    rw [List.mem_singleton.mp isName] at same
    exact free (same ▸ listed)

theorem Distinct.find?_eq_some_iff {table : NameTable} (distinct : table.Distinct) (name : String)
    (member : MemberId) :
    table.find? name = some member ↔ (name, member) ∈ table.entries := by
  obtain ⟨entries⟩ := table
  unfold Distinct at distinct
  unfold find?
  induction entries with
  | nil => simp
  | cons entry rest ih =>
    obtain ⟨key, value⟩ := entry
    obtain ⟨fresh, distinctRest⟩ := List.nodup_cons.mp distinct
    rw [List.lookup_cons]
    by_cases here : name = key
    · subst here
      have absent : (name, member) ∉ rest := fun listed => fresh (List.mem_map.mpr ⟨_, listed, rfl⟩)
      simp [absent, eq_comm]
    · have differs : (name == key) = false := by simpa using here
      rw [differs]
      have := ih distinctRest
      simp_all

theorem mem_sorted (table : NameTable) (entry : String × MemberId) :
    entry ∈ table.sorted ↔ entry ∈ table.entries :=
  (sortBy_perm _ table.entries).mem_iff

theorem Distinct.sorted {table : NameTable} (distinct : table.Distinct) :
    (table.sorted.map Prod.fst).Nodup :=
  ((sortBy_perm _ table.entries).map Prod.fst).nodup_iff.mpr distinct

end NameTable

end Resolution
