import Resolution.Symbol.Basic
import Resolution.Tree.Basic

/-!
# Purity

An expression is pure when evaluating it has no side effect: it assigns nothing, and everything it
calls is a function that is declared pure or provided from outside.
-/

namespace Resolution

/-- Whether calling the symbol has no side effect. -/
def Symbol.isPureCallee (symbol : Symbol) : Bool :=
  symbol.kind.isFunction && (symbol.has .isPure || symbol.has .isImport)

namespace Tree

variable (tree : Tree) (symbols : Symbols)

/-- Whether a resolved node names a callee without side effects. -/
def namesPureCallee (id : NodeId) : Except Fault Bool := do
  match (← tree.fetch id).symbol with
  | some callee => return (← symbols.fetch callee).isPureCallee
  | none => return false

/-- Whether a resolved node has no side effect beside those of its children. -/
def isPureHere (id : NodeId) : Except Fault Bool := do
  match (← tree.fetch id).kind with
  | .binary op _ _ => return !op.isAssign
  | .unary op _ => return !op.isStep
  | .call target _ => tree.namesPureCallee symbols target
  | .new _ _ | .superCall _ => tree.namesPureCallee symbols id
  | _ => return true

/-- Whether a resolved expression is pure, within a number of levels. -/
def isPureWithin : Nat → NodeId → Except Fault Bool
  | 0, _ => .error .outOfFuel
  | fuel + 1, id => do
    if ← tree.isPureHere symbols id then
      (← tree.fetch id).kind.children.allM (isPureWithin fuel)
    else
      return false

/-- Whether a resolved expression is pure; a tree has no more levels than nodes. -/
def isPure (id : NodeId) : Except Fault Bool := tree.isPureWithin symbols (tree.size + 1) id

end Tree

end Resolution
