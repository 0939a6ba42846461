import Resolution.Program
import Resolution.Proofs.ErrorFree

/-!
# Rules that only look

Checks and reports read the store and leave it as it is, so they can be passed over in every proof
about what a rule changes.
-/

namespace Resolution
namespace Resolve

/-! ## Expressions -/

@[simp] instance looks_isTypeReference (id : NodeId) : Looks (isTypeReference id) := by
  refine .after fun node => ?_
  split
  · simp
  · simp
  · split <;> simp
  · split <;> simp
  · split <;> simp
  · simp

@[simp] instance (symbol : Symbol) : Looks (isStaticMember symbol) := by
  unfold isStaticMember
  split
  · simp
  · exact .after fun _ => looks_pure _

@[simp] instance (id : NodeId) (target : SymbolId) (access : Access) :
    Looks (checkInstance id target access) := by
  refine .after fun symbol => .after fun context => ?_
  refine .after fun isStatic => ?_
  split
  · exact .after fun _ => looks_report _
  · simp

@[simp] instance (symbol : Symbol) (owner : SymbolId) : Looks (isWithinReach symbol owner) := by
  refine .after fun context => .after fun around => ?_
  refine looks_bind (looks_mapM (fun scope => looks_ask _) around) fun scopes => ?_
  split
  · simp
  split
  · simp
  · refine .after fun entry => ?_
    exact looks_anyM (fun object => looks_askTypes _) _

@[simp] instance (id : NodeId) (target : SymbolId) : Looks (checkVisibility id target) := by
  refine .after fun symbol => ?_
  split
  · simp
  split
  · simp
  · refine .after fun isReached => ?_
    split
    · simp
    · refine .after fun name => .after fun _ => looks_report _

@[simp] instance (id : NodeId) : Looks (needsContext id) := by
  unfold needsContext
  simp

@[simp] instance (context : Option TypeId) (definition : TypeId) :
    Looks (expectedArguments context definition) := by
  unfold expectedArguments
  split <;> simp

@[simp] instance (id : NodeId) (what : String) : Looks (reportUninferable id what) := by
  unfold reportUninferable
  simp

@[simp] instance (entry : NodeId) : Looks (pairOf entry) := by
  unfold pairOf
  refine .after fun _ => ?_
  split <;> simp

@[simp] instance (type : TypeId) : Looks (numberType type) := by
  unfold numberType
  simp

@[simp] instance (left right : NodeId) : Looks (promote left right) := by
  unfold promote
  refine .after fun _ => .after fun _ => ?_
  exact .after fun _ => .after fun _ => looks_askTypes _

@[simp] instance (left right : TypeId) : Looks (areNumbers left right) := by
  unfold areNumbers
  simp

@[simp] instance (left right : TypeId) : Looks (areIntegers left right) := by
  unfold areIntegers
  simp

@[simp] instance (left right : TypeId) : Looks (areSameFlags left right) := by
  unfold areSameFlags
  simp

@[simp] instance (id : NodeId) (operator : String) (operands : List TypeId) :
    Looks (reportOperatorMismatch id operator operands) := by
  unfold reportOperatorMismatch
  refine looks_ite (looks_pure _) (looks_bind ?_ fun _ => .after fun _ => looks_report _)
  exact looks_mapM (fun type => .after fun _ => looks_pure _) _

@[simp] instance (id : NodeId) (operator : String) (operands : List TypeId) :
    Looks (mismatchedOperator id operator operands) := by
  unfold mismatchedOperator
  simp

@[simp] instance (target : NodeId) (variableId : SymbolId) :
    Looks (checkOwnership target variableId) := by
  unfold checkOwnership
  refine .after fun site => ?_
  split
  · exact looks_pure _
  · refine .after fun owners => .after fun writer => looks_ite ?_ (looks_pure _)
    simp

@[simp] instance (id : NodeId) : Looks (namedVariable? id) := by
  unfold namedVariable?
  refine .after fun _ => ?_
  split <;> simp

@[simp] instance (target : NodeId) : Looks (checkAssignable target) := by
  unfold checkAssignable
  refine .after fun found => ?_
  split
  · refine .after fun type => ?_
    exact looks_ite (by simp) (looks_pure _)
  · refine .after fun symbol => looks_ite ?_ ?_
    · simp
    · simp

@[simp] instance (callee : Option SymbolId) (otherwise : String) :
    Looks (calleeName callee otherwise) := by
  unfold calleeName
  split <;> simp

@[simp] instance (id : NodeId) (callee : Option SymbolId) : Looks (checkCallPurity id callee) := by
  unfold checkCallPurity
  refine .after fun site => ?_
  split
  · exact looks_pure _
  · refine .after fun caller => looks_ite (looks_pure _) ?_
    cases callee with
    | none => simp
    | some symbol =>
      refine .after fun _ => .after fun _ => looks_ite (looks_pure _) ?_
      exact .after fun _ => .after fun _ => looks_report _

@[simp] instance (target : NodeId) (type : TypeId) : Looks (inferableParameters target type) := by
  unfold inferableParameters
  refine .after fun node => ?_
  split
  · exact looks_pure _
  · exact looks_pure _
  · refine .after fun mentions => looks_ite (.after fun callee => ?_) (looks_pure _)
    exact looks_mapM (fun parameter => .after fun _ => looks_pure _) _

@[simp] instance (parameter : TypeId) (bound : Option TypeId) (pairs : List (TypeId × NodeId)) :
    Looks (bindParameter parameter bound pairs) := by
  induction pairs generalizing bound with
  | nil => exact looks_pure _
  | cons pair rest ih =>
    unfold bindParameter
    refine looks_ite (ih bound) (.after fun found => ?_)
    split
    · exact ih _
    · exact .after fun _ => ih _

@[simp] instance (id : NodeId) (callee : Option SymbolId) (parameter : TypeId) :
    Looks (reportUnboundParameter id callee parameter) := by
  unfold reportUnboundParameter
  refine .after fun _ => .after fun _ => ?_
  exact .after fun _ => looks_report _

@[simp] instance (id : NodeId) (callee : Option SymbolId) (bound : List (TypeId × Option TypeId)) :
    Looks (inferredArguments id callee bound) := by
  induction bound with
  | nil => exact looks_pure _
  | cons pair rest ih =>
    unfold inferredArguments
    refine looks_ite (looks_pure _) ?_
    split
    · exact .after fun _ => looks_pure _
    · exact looks_bind ih fun _ => looks_pure _

@[simp] instance (type : TypeId) : Looks (isAbstractType type) := by
  unfold isAbstractType
  refine .after fun _ => ?_
  split <;> simp

@[simp] instance (id : NodeId) (problem : String) : Looks (reportSuper id problem) := by
  unfold reportSuper
  simp

@[simp] instance (target : NodeId) (generic : TypeId) : Looks (genericArity target generic) := by
  unfold genericArity
  refine .after fun _ => ?_
  split
  · simp
  · refine .after fun _ => ?_
    split <;> simp

@[simp] instance (id : NodeId) : Looks (refuseExpression id) := by
  unfold refuseExpression
  refine .after fun _ => .after fun _ => ?_
  exact .after fun _ => looks_pure _

/-! ## Statements -/

@[simp] instance (id : NodeId) (what : String) : Looks (reportNotConstant id what) := by
  unfold reportNotConstant
  simp

@[simp] instance (id : NodeId) (keyword place : String) (levels : Nat) :
    Looks (checkJump id keyword place levels) := by
  unfold checkJump
  simp

@[simp] instance (id : NodeId) : Looks (refuseStatement id) := by
  unfold refuseStatement
  simp

@[simp] instance (function : SymbolId) (name : String) :
    Looks (initializedVariable? function name) := by
  unfold initializedVariable?
  refine .after fun site => ?_
  split
  · exact looks_pure _
  · refine .after fun _ => looks_ite (looks_pure _) ?_
    refine .after fun _ => .after fun found => ?_
    split <;> simp

@[simp] instance (function : SymbolId) : Looks (bodyContext function) := by
  unfold bodyContext
  refine .after fun _ => ?_
  split <;> simp

@[simp] instance (branch : NodeId) (first : Option NodeId) :
    Looks (defaultBranch branch first) := by
  unfold defaultBranch
  split
  · exact looks_pure _
  · refine .after fun _ => .after fun _ => ?_
    exact .after fun _ => looks_pure _

/-! ## Declarations -/

@[simp] instance looks_reportRedeclared (span : Span) (existing : SymbolId) :
    Looks (reportRedeclared span existing) := by
  unfold reportRedeclared
  simp

@[simp] instance looks_joinsFragments (existing : SymbolId) (id : NodeId) :
    Looks (joinsFragments existing id) := by
  unfold joinsFragments
  refine .after fun symbol => ?_
  split
  · refine .after fun kind => ?_
    split
    · exact looks_pure _
    · refine .after fun fragments => looks_allM (fun fragment => ?_) fragments
      refine .after fun _ => ?_
      split <;> exact looks_pure _
    · refine .after fun fragments => looks_allM (fun fragment => ?_) fragments
      refine .after fun _ => ?_
      split <;> exact looks_pure _
    · refine .after fun fragments => looks_allM (fun fragment => ?_) fragments
      refine .after fun _ => ?_
      split <;> exact looks_pure _
    · exact looks_pure _
  · exact looks_pure _

@[simp] instance looks_parameterTypes (symbol : SymbolId) : Looks (parameterTypes symbol) := by
  unfold parameterTypes
  refine .after fun _ => looks_mapM (fun _ => ?_) _
  simp

@[simp] instance looks_writtenFlags (id : NodeId) : Looks (writtenFlags id) := by
  unfold writtenFlags
  refine .after fun _ => ?_
  split <;> simp

@[simp] instance looks_enclosingKind? (symbol : SymbolId) : Looks (enclosingKind? symbol) := by
  unfold enclosingKind?
  refine .after fun _ => ?_
  split <;> simp

@[simp] instance (id : NodeId) : Looks (fragmentBlock id) := by
  unfold fragmentBlock
  refine .after fun _ => ?_
  split <;> simp

@[simp] instance (id : NodeId) : Looks (isExtension id) := by
  unfold isExtension
  refine .after fun _ => ?_
  split <;> simp

@[simp] instance looks_fragmentFlags (symbol : SymbolId) (fragments : List NodeId) :
    Looks (fragmentFlags symbol fragments) := by
  unfold fragmentFlags
  refine .after fun _ => .after fun _ => ?_
  split <;> simp

@[simp] instance (symbol : Symbol) : Looks (reportMissingValue symbol) := by
  unfold reportMissingValue
  simp

@[simp] instance (symbol : Symbol) (message label : String) :
    Looks (reportUntyped symbol message label) := by
  unfold reportUntyped
  simp

@[simp] instance (id : NodeId) : Looks (isPure id) := by
  unfold isPure
  simp

@[simp] instance (kind : SymbolKind) (span : Span) (before written : List Modifier) :
    Looks (checkHeader kind span before written) := by
  induction written generalizing before with
  | nil => exact looks_pure _
  | cons modifier rest ih =>
    unfold checkHeader
    refine looks_ite (.after fun _ => ih _) (looks_ite ?_ ?_)
    · exact .after fun _ => ih _
    · exact looks_bind (ih _) fun _ => looks_pure _

@[simp] instance looks_checkModifiers (symbol : SymbolId) : Looks (checkModifiers symbol) := by
  unfold checkModifiers
  refine .after fun _ => .after fun _ => looks_bind ?_ ?_
  · refine looks_mapM (fun fragment => .after fun _ => ?_) _
    split <;> simp
  · intro written
    dsimp only
    split
    · refine .after fun _ => ?_
      split <;> simp
    · split <;> simp

@[simp] instance (symbol : Symbol) (hasBody : Bool) : Looks (checkBody symbol hasBody) := by
  unfold checkBody
  simp

@[simp] instance looks_enumValue? (id : NodeId) : Looks (enumValue? id) := by
  unfold enumValue?
  refine .after fun _ => ?_
  split <;> simp

@[simp] instance looks_fragmentValues (fragment : NodeId) : Looks (fragmentValues fragment) := by
  unfold fragmentValues
  refine .after fun kind => ?_
  split
  · exact .after fun _ => looks_bind (looks_mapM looks_enumValue? _) fun _ => looks_pure _
  · exact .after fun _ => looks_bind (looks_mapM looks_enumValue? _) fun _ => looks_pure _
  · exact looks_pure _

@[simp] instance looks_enumValues (owner : SymbolId) : Looks (enumValues owner) :=
  .after fun _ => looks_bind (looks_mapM looks_fragmentValues _) fun _ => looks_pure _

@[simp] instance (id : SymbolId) : Looks ( enumEntry? id) := by
  unfold enumEntry?
  simp

@[simp] instance (id : SymbolId) : Looks (declaredValue? id) := by
  unfold declaredValue?
  refine .after fun _ => ?_
  split
  · simp
  · refine .after fun _ => ?_
    split <;> simp

@[simp] instance (fields : List SymbolId) : Looks (inWrittenOrder fields) :=
  looks_bind (looks_mapM (fun _ => .after fun _ => looks_pure _) fields) fun _ =>
    looks_pure _

@[simp] instance looks_reportInvalidBase (symbol : SymbolId) (isClass : Bool) (id : NodeId)
    (type : TypeId) :
    Looks (reportInvalidBase symbol isClass id type) := by
  unfold reportInvalidBase
  simp

@[simp] instance looks_reportFinalBase (id : NodeId) (type : TypeId) (base : Symbol) :
    Looks (reportFinalBase id type base) := by
  unfold reportFinalBase
  simp

@[simp] instance (symbol : SymbolId) : Looks (isDecorated symbol) :=
  .after fun _ =>
    looks_anyM (fun _ => .after fun _ => looks_pure _) _

@[simp] instance (span : Span) (message label : String) :
    Looks (reportDecoration span message label) := by
  unfold reportDecoration
  simp

@[simp] instance (name : String) (span : Span) (allowed : String) :
    Looks (reportTarget name span allowed) := by
  unfold reportTarget
  simp

@[simp] instance (name : String) (span : Span) (expected found : Nat) :
    Looks (reportArgumentCount name span expected found) := by
  unfold reportArgumentCount
  simp

@[simp] instance (symbol : Symbol) : Looks (isEntryPoint symbol) := by
  unfold isEntryPoint
  simp

@[simp] instance (symbol : SymbolId) : Looks (decorationsOf symbol) :=
  .after fun _ =>
    looks_bind (looks_mapM (fun _ => .after fun _ => looks_pure _) _) fun _ =>
      looks_pure _

@[simp] instance (program : NodeId) : Looks (fileBlocks program) := by
  unfold fileBlocks
  refine .after fun kind => ?_
  split
  · refine looks_mapM (fun file => .after fun _ => ?_) _
    split <;> simp
  · exact looks_throw _

@[simp] instance looks_mathType?  : Looks (mathType?) := by
  unfold mathType?
  refine .after fun _ => ?_
  split <;> simp

@[simp] instance looks_checkEntryPoint (required : Bool) (program : NodeId) :
    Looks (checkEntryPoint required program) := by
  unfold checkEntryPoint
  refine .after fun _ => ?_
  split <;> simp

end Resolve
end Resolution
