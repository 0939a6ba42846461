/-!
# Stable sorting

Insertion sort by a key.  Entries of equal keys keep their order.
-/

namespace Resolution

variable {α : Type}

/-- Insert an entry before the first one that it may precede. -/
def insertBy (precedes : α → α → Bool) (entry : α) : List α → List α
  | [] => [entry]
  | first :: rest =>
    if precedes entry first then entry :: first :: rest
    else first :: insertBy precedes entry rest

/-- Sort a list; entries that may precede each other keep their order. -/
def sortBy (precedes : α → α → Bool) (entries : List α) : List α :=
  entries.foldr (insertBy precedes) []

@[simp] theorem sortBy_cons (precedes : α → α → Bool) (entry : α) (rest : List α) :
    sortBy precedes (entry :: rest) = insertBy precedes entry (sortBy precedes rest) := rfl

theorem insertBy_perm (precedes : α → α → Bool) (entry : α) (entries : List α) :
    (insertBy precedes entry entries).Perm (entry :: entries) := by
  induction entries with
  | nil => exact List.Perm.refl _
  | cons first rest ih =>
    rw [insertBy]
    split
    · exact List.Perm.refl _
    · exact (List.Perm.cons first ih).trans (List.Perm.swap entry first rest)

/-- Sorting keeps every entry as often as it occurs. -/
theorem sortBy_perm (precedes : α → α → Bool) (entries : List α) :
    (sortBy precedes entries).Perm entries := by
  induction entries with
  | nil => exact List.Perm.refl _
  | cons entry rest ih => exact (insertBy_perm precedes entry _).trans (List.Perm.cons entry ih)

section Order

variable {precedes : α → α → Bool} (total : ∀ first second, precedes first second = true ∨
  precedes second first = true)
  (trans : ∀ first second third, precedes first second = true → precedes second third = true →
    precedes first third = true)

include total trans

theorem insertBy_pairwise (entry : α) {entries : List α}
    (ordered : entries.Pairwise (precedes · · = true)) :
    (insertBy precedes entry entries).Pairwise (precedes · · = true) := by
  induction entries with
  | nil => exact List.pairwise_singleton ..
  | cons first rest ih =>
    obtain ⟨least, later⟩ := List.pairwise_cons.mp ordered
    rw [insertBy]
    split
    · rename_i before
      refine .cons (fun other listed => ?_) ordered
      rcases List.mem_cons.mp listed with rfl | inside
      · exact before
      · exact trans entry first other before (least other inside)
    · rename_i behind
      refine .cons (fun other listed => ?_) (ih later)
      rcases List.mem_cons.mp ((insertBy_perm ..).mem_iff.mp listed) with rfl | inside
      · exact (total other first).resolve_left behind
      · exact least other inside

theorem sortBy_pairwise (entries : List α) :
    (sortBy precedes entries).Pairwise (precedes · · = true) := by
  induction entries with
  | nil => exact .nil
  | cons entry rest ih => exact insertBy_pairwise total trans entry ih

end Order

/-- Entries that may precede each other keep their order. -/
theorem filter_sortBy {precedes : α → α → Bool} {chosen : α → Bool}
    (alike : ∀ first second, chosen first = true → chosen second = true →
      precedes first second = true)
    (entries : List α) : (sortBy precedes entries).filter chosen = entries.filter chosen := by
  have inserted (entry : α) (others : List α) :
      (insertBy precedes entry others).filter chosen = (entry :: others).filter chosen := by
    induction others with
    | nil => rfl
    | cons first rest ih =>
      rw [insertBy]
      split
      · rfl
      · rename_i behind
        -- Of two chosen entries, none is put behind the other.
        have apart : ¬(chosen entry = true ∧ chosen first = true) := fun both =>
          behind (alike _ _ both.1 both.2)
        grind
  induction entries with
  | nil => rfl
  | cons entry rest ih => rw [sortBy_cons, inserted, List.filter_cons, List.filter_cons, ih]

end Resolution
