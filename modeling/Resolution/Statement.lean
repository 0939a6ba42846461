import Resolution.Declaration.Scan
import Resolution.Expression.Literal
import Resolution.Expression.Rule

/-!
# Statements

Every block, loop and switch branch opens a scope of its own.  A local variable is visible after its
declaration, a local function already inside of it.  The values of a switch are distinct constants.
-/

namespace Resolution
namespace Resolve

/-- Report an expression that has to be a constant. -/
def reportNotConstant (id : NodeId) (what : String) : Resolve Unit := do
  report ((Diagnostic.error .notConstant s!"{what} must be a constant").label (← spanOf id)
    "not a constant expression")

/-- Whether an expression is worth evaluating for its effect alone. -/
def hasEffect : NodeKind → Bool
  | .call _ _ | .new _ _ | .superCall _ => true
  | .binary op _ _ => op.isAssign
  | .unary op _ => op.isStep
  | _ => false

/-- Report a jump without a statement around it that it could leave. -/
def checkJump (id : NodeId) (keyword place : String) (levels : Nat) : Resolve Unit := do
  if levels = 0 then
    report ((Diagnostic.error .strayJump s!"`{keyword}` outside of {place}").label (← spanOf id)
      "nothing to leave here")

/-- Report a statement that is nested too deeply. -/
def refuseStatement (id : NodeId) : Resolve Unit := do
  report ((Diagnostic.error .tooDeep "statement is nested too deeply").label (← spanOf id)
    "nesting limit reached here")

def openBlockScope : Resolve ScopeId := do
  let around := (← read).scope
  onScopes (Scopes.create .block (some around) none)

variable [Resolver]

def block (id : NodeId) : Resolve Unit := do
  let scope ← openBlockScope
  let statements ← blockStatements id
  inScope scope (statements.forM Resolver.statement)
  let _ ← setType id .void

def loopBody (body : NodeId) : Resolve Unit :=
  withContext (fun context => { context with loops := context.loops + 1 }) (block body)

def expressionStatement (id : NodeId) : Resolve Unit := do
  let effective := hasEffect (← kindOf id)
  let _ ← valueType id none
  if !effective then
    reportUnused ((Diagnostic.warning .unusedValue "expression value is unused").label (← spanOf id)
      "this has no effect")

/-! ## Function bodies -/

/-- The instance variable that an initializer of a constructor sets. -/
def initializedVariable? (function : SymbolId) (name : String) : Resolve (Option SymbolId) := do
  match (← read).object with
  | none => return none
  | some object =>
    if (← symbolOf function).kind ≠ .constructor then
      return none
    let type := (← symbolOf object).typeOrError
    match ← askTypes fun types => types.findMember? type name with
    | none => return none
    | some member =>
      let target ← memberTarget member
      let symbol ← symbolOf target
      return if symbol.kind = .instanceVariable ∧ symbol.enclosing = some object then some target
        else none

def memberInitializer (function : SymbolId) (id : NodeId) : Resolve Unit := do
  match ← kindOf id with
  | .memberInitializer name operand =>
    match ← initializedVariable? function name with
    | none =>
      report ((Diagnostic.error .unknownInitializer
        s!"`{name}` is not an instance variable this constructor can initialize").label
          (← spanOf id)
        "unknown member initializer")
      let _ ← valueType operand none
      let _ ← setType id .error
    | some target =>
      Resolver.settle target
      let type := (← symbolOf target).typeOrError
      setSymbol id (some target)
      let _ ← setType id type
      valueOfType type operand
  | other => throw (.misplaced .memberInitializer other.describe)

def bodyContext (function : SymbolId) : Resolve Context := do
  let symbol ← symbolOf function
  let scope := symbol.ownScope.getD globalScope
  if symbol.kind = .localFunction then
    let context ← read
    return { scope, function := some function, object := context.object,
             isStatic := context.isStatic }
  else
    let isStatic := symbol.kind ≠ .instanceFunction ∧ symbol.kind ≠ .constructor
    return { scope, function := some function, object := ← enclosingObject? function, isStatic }

/-- Resolve the initializers and the body of a function. -/
def functionBody (function : SymbolId) : Resolve Unit := do
  Resolver.settle function
  match (← symbolOf function).node with
  | none => return
  | some id =>
    match ← kindOf id with
    | .functionDecl _ _ _ _ initializers (some body) =>
      let context ← bodyContext function
      inContext context do
        initializers.forM (memberInitializer function)
        block body
    | .functionDecl _ _ _ _ _ none => return
    | other => throw (.misplaced .functionBody other.describe)

/-! ## Statements -/

def localDeclaration (id : NodeId) : Resolve Unit := do
  let symbol ← declareLocal id
  if (← symbolOf symbol).kind = .localFunction then
    insertLocal symbol
    Resolver.settle symbol
    functionBody symbol
  else
    Resolver.settle symbol
    insertLocal symbol

/-- Resolve a returned value against the result of the current function. -/
def returnValue (id : NodeId) (name : String) (expected : TypeId) (operand : Option NodeId) :
    Resolve Unit := do
  match operand with
  | some operand =>
    if expected = .void then
      let _ ← valueType operand none
      report ((Diagnostic.error .invalidReturn s!"`{name}` does not return a value").label
        (← spanOf operand) "unexpected return value")
    else
      valueOfType expected operand
  | none =>
    if expected ≠ .void ∧ expected ≠ .error then
      let result ← textOf expected
      report ((Diagnostic.error .invalidReturn s!"`{name}` must return a `{result}`").label
        (← spanOf id)
        "missing return value")

def returnStatement (id : NodeId) (operand : Option NodeId) : Resolve Unit := do
  match (← read).function with
  | none => throw .strayReturn
  | some function =>
    let symbol ← symbolOf function
    let type := symbol.typeOrError
    if type = .error then
      operand.forM fun operand => do
        let _ ← valueType operand none
    else
      let expected ←
        if symbol.kind = .constructor then pure .void
        else pure ((← askTypes fun types => types.result? type).getD .error)
      returnValue id symbol.name expected operand

/-- Resolve a clause of a `for` loop: a statement or a bare expression. -/
def forClause (id : NodeId) : Resolve Unit := do
  match ← kindOf id with
  | .expression _ | .variableDecl _ _ _ => Resolver.statement id
  | _ =>
    let _ ← valueType id none

/-- Resolve a `for` loop in a scope of its own. -/
def forLoop (setup test update : Option NodeId) (body : NodeId) : Resolve Unit := do
  let scope ← openBlockScope
  inScope scope do
    setup.forM forClause
    test.forM condition
    update.forM forClause
    loopBody body

/-! ## Switches -/

/-- Constants that a switch handles, each with the branch that handles it. -/
abbrev Handled := List (Constant × NodeId)

/-- Resolve a value of a switch branch, and answer the constants handled so far. -/
def caseValue (branch : NodeId) (type : TypeId) (handled : Handled) (id : NodeId) :
    Resolve Handled := do
  let found ← valueType id (if type = .error then none else some type)
  let _ ← convertTo id type
  fold id
  if type = .error ∨ found = .error then
    return handled
  match ← constantOf? id with
  | none =>
    reportNotConstant id "case value"
    return handled
  | some constant =>
    match handled.find? fun entry => entry.1.agrees constant with
    | some (_, first) =>
      report (((Diagnostic.error .duplicateCase "duplicate case value").label (← spanOf id)
        "already handled").related (← spanOf first) "first case with this value")
      return handled
    | none => return handled ++ [(constant, branch)]

/-- Take note of a branch without values, and answer the first one. -/
def defaultBranch (branch : NodeId) (first : Option NodeId) : Resolve (Option NodeId) := do
  match first with
  | none => return some branch
  | some first =>
    report (((Diagnostic.error .duplicateDefault "switch has more than one default case").label
      (← spanOf branch) "second default").related (← spanOf first) "first default here")
    return some first

/-- Resolve the branches of a switch over a value of a type. -/
def switchBranches (type : TypeId) : List NodeId → Option NodeId → Handled → Resolve Unit
  | [], _, _ => pure ()
  | branch :: rest, first, handled => do
    match ← kindOf branch with
    | .switchCase values body =>
      let first ← if values.isEmpty then defaultBranch branch first else pure first
      let handled ← values.foldlM (caseValue branch type) handled
      let _ ← setType branch .void
      withContext (fun context => { context with switches := context.switches + 1 }) (block body)
      switchBranches type rest first handled
    | other => throw (.misplaced .switchCase other.describe)

def switch (operand : NodeId) (branches : List NodeId) : Resolve Unit := do
  let type ← valueType operand none
  switchBranches type branches none []

/-! ## The rule for statements -/

/-- Resolve a statement by the rule for its sort. -/
def statementOfKind (id : NodeId) : Resolve Unit := do
  match ← kindOf id with
  | .expression operand => expressionStatement operand
  | .variableDecl _ _ _ | .functionDecl _ _ _ _ _ _ => localDeclaration id
  | .returnStmt operand => returnStatement id operand
  | .breakStmt =>
    let context ← read
    checkJump id "break" "a loop or switch" (context.loops + context.switches)
  | .continueStmt => checkJump id "continue" "a loop" (← read).loops
  | .block _ => block id
  | .ifStmt test yes no => do
    condition test
    block yes
    no.forM block
  | .whileStmt test body => do
    condition test
    loopBody body
  | .forStmt setup test update body => forLoop setup test update body
  | .switchStmt operand branches => switch operand branches
  | .assertStmt operand => do
    condition operand
    fold operand
  | other => throw (.misplaced .statement other.describe)

/-- Resolve a statement and record that it has no value. -/
def resolveStatement (id : NodeId) : Resolve Unit := do
  statementOfKind id
  if (← node id).type.isNone then
    let _ ← setType id .void

/-- Resolve a statement where its nesting is admitted. -/
def statementRule (id : NodeId) : Resolve Unit :=
  deeper (refuseStatement id) (resolveStatement id)

end Resolve
end Resolution
