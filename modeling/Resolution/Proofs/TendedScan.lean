import Resolution.Proofs.Tending

/-!
# Scans tend the tree

Scanning declarations never moves a node: it gives nodes symbols and links the fragments of a
declaration.
-/

namespace Resolution
namespace Resolve

variable {ledger : Ledger}

instance (id : NodeId) (scope : ScopeId) (enclosing : Option SymbolId) :
    Tends none ledger (placeholder id scope enclosing) := by
  unfold placeholder
  refine .after fun kind => ?_
  split <;> infer_instance

instance (symbol : SymbolId) (id : NodeId) : Tends none ledger (appendFragment symbol id) := by
  unfold appendFragment
  refine .after fun fragments => ?_
  split <;> infer_instance

instance (id : NodeId) (scope : ScopeId) (enclosing : Option SymbolId) :
    Tends none ledger (declare id scope enclosing) := by
  unfold declare
  refine .after fun kind => ?_
  split
  · infer_instance
  refine .after fun existing? => ?_
  split
  · infer_instance
  · refine .after fun symbol => .after fun member => ?_
    refine .after fun answer => ?_
    split <;> infer_instance

instance (scope : ScopeId) (enclosing : Option SymbolId) (nodes : List NodeId) :
    Tends none ledger (declareAll scope enclosing nodes) := by
  induction nodes with
  | nil => exact inferInstanceAs (Tends none ledger (pure []))
  | cons id rest ih =>
    unfold declareAll
    infer_instance

instance (symbol : SymbolId) (kind : ScopeKind) (type : TypeId) (parent : Option ScopeId) :
    Tends none ledger (openTypeScope symbol kind type parent) := by
  unfold openTypeScope
  infer_instance

instance (owner : SymbolId) (scope : ScopeId) (nodes : List NodeId) :
    Tends none ledger (declareParameters owner scope nodes) := by
  induction nodes with
  | nil => exact inferInstanceAs (Tends none ledger (pure []))
  | cons id rest ih =>
    refine .after fun declared => ?_
    split <;> infer_instance

instance (symbol : SymbolId) (parameters : List NodeId) :
    Tends none ledger (openParameterScope symbol parameters) := by
  unfold openParameterScope
  infer_instance

instance (function : SymbolId) (scope : ScopeId) (nodes : List NodeId) :
    Tends none ledger (declareArguments function scope nodes) := by
  induction nodes with
  | nil => exact inferInstanceAs (Tends none ledger (pure []))
  | cons id rest ih =>
    refine .after fun declared => ?_
    split <;> infer_instance

instance (symbol : SymbolId) (id : NodeId) : Tends none ledger (declareFunction symbol id) := by
  unfold declareFunction
  refine .after fun kind => ?_
  split <;> infer_instance

instance (fragments : List NodeId) : Tends none ledger (linkFragments fragments) := by
  induction fragments with
  | nil => exact inferInstanceAs (Tends none ledger (pure ()))
  | cons first rest ih =>
    cases rest with
    | nil => exact tends_updateNode
    | cons second rest => exact tends_bind tends_updateNode fun _ => ih

instance (symbol : SymbolId) : Tends none ledger (orderFragments symbol) := by
  unfold orderFragments
  refine .after fun fragments => .after fun primary? => ?_
  split <;> infer_instance

instance (symbol : SymbolId) (sort : ObjectSort) : Tends none ledger (objectType symbol sort) := by
  unfold objectType
  refine .after fun entry => ?_
  split
  · infer_instance
  · split <;> infer_instance

section Members

variable {scan : MemberScan} [scans : ∀ fragments scope symbol,
  Tends none ledger (scan fragments scope symbol)]

instance (symbol : SymbolId) (flags : Flags) (primary : NodeId) (fragments : List NodeId) :
    Tends none ledger (assignSort scan symbol flags primary fragments) := by
  unfold assignSort declareSpace declareEnum declareObject
  refine .after fun kind => ?_
  split <;> infer_instance

instance (symbol : SymbolId) : Tends none ledger (assignKind scan symbol) := by
  unfold assignKind reportStrayExtension
  refine .after fun fragments? => ?_
  split
  · infer_instance
  · refine .after fun flags => .after fun _ => ?_
    split <;> infer_instance

end Members

instance (fuel : Nat) (blocks : List NodeId) (scope : ScopeId) (enclosing : Option SymbolId) :
    Tends none ledger (declareBlocks fuel blocks scope enclosing) := by
  induction fuel generalizing blocks scope enclosing with
  | zero => exact inferInstanceAs (Tends none ledger (throw .outOfFuel : Resolve Unit))
  | succ fuel ih =>
    unfold declareBlocks
    infer_instance

instance (blocks : List NodeId) : Tends none ledger (scan blocks) := by
  unfold scan
  infer_instance

instance (id : NodeId) (scope : ScopeId) (enclosing : SymbolId) :
    Tends none ledger (declareGenerated id scope enclosing) := by
  unfold declareGenerated
  refine .after fun symbol? => ?_
  split <;> infer_instance

instance (id : NodeId) : Tends none ledger (declareLocal id) := by
  unfold declareLocal
  refine .after fun context => .after fun symbol => ?_
  refine .after fun flags => .after fun _ => .after fun kind => ?_
  dsimp only
  split <;> infer_instance

instance (symbol : SymbolId) : Tends none ledger (insertLocal symbol) := by
  unfold insertLocal
  refine .after fun entry => .after fun member => ?_
  refine .after fun context => .after fun answer => ?_
  split <;> infer_instance

end Resolve
end Resolution
