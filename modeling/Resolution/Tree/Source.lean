import Resolution.Interner
import Resolution.Tree.Basic

/-!
# Sources

A tree together with every name that was written in it.
-/

namespace Resolution

/-- A tree and the names seen in it. -/
structure Source where
  tree : Tree
  names : Interner

namespace Source

/-- The source without nodes. -/
def new : Source := ⟨.empty, .new⟩

/-- Change the tree alone. -/
def onTree {α : Type} (action : Action Tree α) : Action Source α :=
  Action.zoom Source.tree (fun source tree => { source with tree }) action

/-- Take note of a text. -/
def intern (text : String) : Action Source Unit :=
  modify fun source => { source with names := source.names.note text }

end Source

end Resolution
