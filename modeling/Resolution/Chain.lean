import Resolution.Fault

/-!
# Chains

Parents, fragments, scopes and enclosing symbols form chains: each handle names at most one next
handle of the same table.  A chain over a table with `size` entries repeats itself when it is longer
than that, so `size + 1` steps see the whole of every chain that ends.
-/

namespace Resolution
namespace Chain

variable {κ β : Type}

/-- First answer of `test` along a chain. -/
def find? (next : κ → Except Fault (Option κ)) (test : κ → Except Fault (Option β)) :
    Nat → κ → Except Fault (Option β)
  | 0, _ => .error .outOfFuel
  | fuel + 1, here => do
    match ← test here with
    | some answer => return some answer
    | none =>
      match ← next here with
      | none => return none
      | some there => find? next test fuel there

/-- A handle and everything that follows it. -/
def toList (next : κ → Except Fault (Option κ)) : Nat → κ → Except Fault (List κ)
  | 0, _ => .error .outOfFuel
  | fuel + 1, here => do
    match ← next here with
    | none => return [here]
    | some there => return here :: (← toList next fuel there)

/-- The end of a chain. -/
def last (next : κ → Except Fault (Option κ)) : Nat → κ → Except Fault κ
  | 0, _ => .error .outOfFuel
  | fuel + 1, here => do
    match ← next here with
    | none => return here
    | some there => last next fuel there

/-- Everything that follows a handle. -/
def after (next : κ → Except Fault (Option κ)) (fuel : Nat) (here : κ) :
    Except Fault (List κ) := do
  match ← next here with
  | none => return []
  | some there => toList next fuel there

end Chain
end Resolution
