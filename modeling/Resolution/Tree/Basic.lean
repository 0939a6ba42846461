import Resolution.Chain
import Resolution.Tree.Node

/-!
# Syntax trees

All nodes of a program stand in one table.  Storing a node links its children to it.  A node can be
replaced in place, and it can be wrapped: its content moves to a new child, so that whatever refers
to the node now refers to the wrapper.
-/

namespace Resolution

/-- All nodes of a program. -/
abbrev Tree := Table NodeId Node

namespace Tree

/-- Make `parent` the parent of every listed node, in order. -/
def adopt (parent : NodeId) : List NodeId → Action Tree Unit
  | [] => pure ()
  | child :: rest => do
    Table.update child fun node => { node with parent := some parent }
    adopt parent rest

/-- Store a node and link its children to it. -/
def alloc (kind : NodeKind) (span : Span) : Action Tree NodeId := do
  let id := (← get).next
  adopt id kind.children
  Table.create { kind, span }

/-- Give a node another sort and content; what was resolved about it is forgotten. -/
def replace (id : NodeId) (kind : NodeKind) : Action Tree Unit := do
  adopt id kind.children
  Table.update id fun node => { node with kind, type := none, symbol := none }

/-- Move a node's content into a new child and make the node what `make` builds around that child.
-/
def wrap (id : NodeId) (make : NodeId → NodeKind) : Action Tree NodeId := do
  let outer ← Action.ofExcept ((← get).fetch id)
  Table.update id fun node => { node with kind := .null, type := none, symbol := none }
  let inner ← Table.create { outer with parent := some id, sibling := none }
  adopt inner outer.kind.children
  replace id (make inner)
  return inner

def pushStatement (block statement : NodeId) : Action Tree Unit := do
  let receiver ← Action.ofExcept ((← get).fetch block)
  match receiver.kind with
  | .block statements =>
    Table.update block fun node => { node with kind := .block (statements ++ [statement]) }
  | other => throw (.misplaced .statementList other.describe)
  Table.update statement fun node => { node with parent := some block }

def parentOf (tree : Tree) (id : NodeId) : Except Fault (Option NodeId) :=
  return (← tree.fetch id).parent

/-- Link of a node to the next fragment of its declaration. -/
def siblingOf (tree : Tree) (id : NodeId) : Except Fault (Option NodeId) :=
  return (← tree.fetch id).sibling

/-- Parents of a node, innermost first. -/
def ancestors (tree : Tree) (id : NodeId) : Except Fault (List NodeId) :=
  Chain.after tree.parentOf (tree.size + 1) id

/-- Fragments of a declaration, from the given one on. -/
def fragments (tree : Tree) (first : NodeId) : Except Fault (List NodeId) :=
  Chain.toList tree.siblingOf (tree.size + 1) first

end Tree

end Resolution
