import Resolution.Constant.Arithmetic
import Resolution.Symbol.Basic
import Resolution.Tree.Source

/-!
# Constant folding

Folding works from the leaves up: a node whose operands are literals, or that refers to a constant
symbol, becomes a literal itself.  A folded node keeps its resolved type.
-/

namespace Resolution

def NodeKind.constant? : NodeKind → Option Constant
  | .bool value => some (.bool value)
  | .int value => some (.int value)
  | .double value => some (.double value)
  | .string value => some (.text value)
  | _ => none

def Constant.literal : Constant → NodeKind
  | .bool value => .bool value
  | .int value => .int value
  | .double value => .double value
  | .text value => .string value

@[simp] theorem Constant.constant?_literal (constant : Constant) :
    constant.literal.constant? = some constant := by
  cases constant <;> rfl

def Symbol.referenceValue? (symbol : Symbol) : Option Constant :=
  if symbol.kind = .enumValue ∨ symbol.kind = .define ∨ symbol.has .isConst then symbol.constant
  else none

namespace Tree

/-- Value of a literal node. -/
def constantOf? (tree : Tree) (id : NodeId) : Except Fault (Option Constant) :=
  return (← tree.fetch id).kind.constant?

def value? (tree : Tree) (symbols : Symbols) (id : NodeId) : Except Fault (Option Constant) := do
  let node ← tree.fetch id
  match node.kind with
  | .name _ | .dot _ _ =>
    match node.symbol with
    | none => return none
    | some symbol => return (← symbols.fetch symbol).referenceValue?
  | .implicitCast value | .cast _ value =>
    return (← tree.constantOf? value).bind fun constant => node.type.bind constant.convert?
  | .unary op value => return (← tree.constantOf? value).bind (Constant.unary? op)
  | .binary op left right =>
    match ← tree.constantOf? left with
    | none => return none
    | some leftValue => return (← tree.constantOf? right).bind (Constant.binary? op leftValue)
  | _ => return none

end Tree

namespace Source

/-- Make a node a literal; its resolved type stays. -/
def setLiteral (id : NodeId) (constant : Constant) : Action Source Unit := do
  let type := (← Action.ofExcept ((← get).tree.fetch id)).type
  match constant with
  | .text value => intern value
  | _ => pure ()
  onTree (Tree.replace id constant.literal)
  onTree (Table.update id fun node => { node with type })

/-- Fold the tree below a node, within a number of levels. -/
def foldWithin (symbols : Symbols) : Nat → NodeId → Action Source Unit
  | 0, _ => throw .outOfFuel
  | fuel + 1, id => do
    let node ← Action.ofExcept ((← get).tree.fetch id)
    node.kind.children.forM (foldWithin symbols fuel)
    match ← Action.ofExcept ((← get).tree.value? symbols id) with
    | some constant => setLiteral id constant
    | none => return

def fold (symbols : Symbols) (root : NodeId) : Action Source Unit := do
  foldWithin symbols ((← get).tree.size + 1) root

end Source

end Resolution
