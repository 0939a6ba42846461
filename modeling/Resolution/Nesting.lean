import Resolution.Fault

/-!
# Nesting levels

A level counter with an upper bound.  Entering past the bound is refused and remembered; a bound of
zero refuses nothing.
-/

namespace Resolution

/-- Current level, bound, and whether the bound was ever passed. -/
structure Nesting where
  depth : Nat := 0
  /-- Largest admitted level; zero admits all. -/
  limit : Nat
  exceeded : Bool := false
  deriving DecidableEq, Repr

namespace Nesting

/-- The counter at the outermost level. -/
def new (limit : Nat) : Nesting := { limit }

/-- Whether a level lies within a bound. -/
def admits (limit depth : Nat) : Bool := limit == 0 || depth ≤ limit

/-- Enter a level; the answer tells whether it is admitted. -/
def enter : Action Nesting Bool := do
  modify fun nesting => { nesting with depth := nesting.depth + 1 }
  let nesting ← get
  if admits nesting.limit nesting.depth then
    return true
  else
    set { nesting with exceeded := true }
    return false

/-- Leave a level that was entered. -/
def exit : Action Nesting Unit := do
  let nesting ← get
  if nesting.depth = 0 then
    throw .unmatchedExit
  set { nesting with depth := nesting.depth - 1 }

theorem enter_eq (nesting : Nesting) :
    enter nesting = .ok (admits nesting.limit (nesting.depth + 1))
      { nesting with
        depth := nesting.depth + 1
        exceeded := nesting.exceeded || !admits nesting.limit (nesting.depth + 1) } := by
  change (if admits nesting.limit (nesting.depth + 1) then _ else _ : Action Nesting Bool) _ = _
  cases admits nesting.limit (nesting.depth + 1) with
  | true => rw [Bool.not_true, Bool.or_false]; rfl
  | false => rw [Bool.not_false, Bool.or_true]; rfl

/-- Leaving an entered level succeeds. -/
theorem exit_succ (depth limit : Nat) (exceeded : Bool) :
    exit ⟨depth + 1, limit, exceeded⟩ = .ok () ⟨depth, limit, exceeded⟩ :=
  rfl

end Nesting

end Resolution
