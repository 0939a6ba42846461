import Resolution.Expression.Access
import Resolution.Expression.Overloading
import Resolution.Purity

/-!
# Calls

Arguments are resolved against the types that the callee expects and then converted.  The type
arguments of a generic function are inferred from the arguments declared with exactly a type
parameter.  A pure function only calls functions without side effects.
-/

namespace Resolution
namespace Resolve

def calleeName (callee : Option SymbolId) (otherwise : String) : Resolve String :=
  match callee with
  | some symbol => nameOf symbol
  | none => pure otherwise

/-- Report a call with side effects in a pure function. -/
def checkCallPurity (id : NodeId) (callee : Option SymbolId) : Resolve Unit := do
  match (← read).function with
  | none => return
  | some function =>
    let caller ← symbolOf function
    if !caller.has .isPure then
      return
    let isPure ←
      match callee with
      | some symbol => pure (← symbolOf symbol).isPureCallee
      | none => pure false
    if isPure then
      return
    let name ← calleeName callee "this function"
    report ((Diagnostic.error .impure
      s!"pure function `{caller.name}` calls `{name}`, which is not pure").label
      (← spanOf id) "impure call")

/-- Type parameters of a generic callee that its type still mentions. -/
def inferableParameters (target : NodeId) (type : TypeId) : Resolve (List TypeId) := do
  let node ← Resolve.node target
  match node.kind, node.symbol with
  | .parameterize _ _, _ | _, none => return []
  | _, some callee =>
    if ← askTypes fun types => types.mentionsParameter type then
      (← symbolOf callee).parameters.mapM fun parameter => return (← symbolOf parameter).typeOrError
    else
      return []

/-- Type that a type parameter is bound to by the arguments declared with it: the first one, widened
by those that have a type in common with it. -/
def bindParameter (parameter : TypeId) (bound : Option TypeId) :
    List (TypeId × NodeId) → Resolve (Option TypeId)
  | [] => return bound
  | (declared, argument) :: rest => do
    if declared ≠ parameter then
      bindParameter parameter bound rest
    else
      let found ← typeOf argument
      match bound with
      | none => bindParameter parameter (some found) rest
      | some previous =>
        let common? ← askTypes fun types => types.common? previous found
        bindParameter parameter (some (common?.getD previous)) rest

/-- Report a type argument that the arguments do not determine. -/
def reportUnboundParameter (id : NodeId) (callee : Option SymbolId) (parameter : TypeId) :
    Resolve Unit := do
  let function ← calleeName callee "function"
  let name ← textOf parameter
  report (((Diagnostic.error .uninferable
    s!"cannot infer type argument `{name}` of `{function}`").label
    (← spanOf id) "type argument unknown").note "pass the type arguments explicitly")

/-- Type arguments for type parameters; there is no answer where one of them has an error or none.
-/
def inferredArguments (id : NodeId) (callee : Option SymbolId) :
    List (TypeId × Option TypeId) → Resolve (Option (List TypeId))
  | [] => return some []
  | (parameter, bound) :: rest => do
    if bound = some .error then
      return none
    match bound.filter fun type => type ≠ .null ∧ type ≠ .void with
    | none =>
      reportUnboundParameter id callee parameter
      return none
    | some type => return (← inferredArguments id callee rest).map (type :: ·)

variable [Resolver]

/-- Type of a generic callee with its type arguments inferred from the arguments. -/
def inferCallee (id : NodeId) (callee : Option SymbolId) (type : TypeId) (parameters : List TypeId)
    (arguments : List NodeId) : Resolve TypeId := do
  let declared ← askTypes fun types => types.argumentsOf type
  let bound ← parameters.mapM fun parameter =>
    return (parameter, ← bindParameter parameter none (declared.zip arguments))
  match ← inferredArguments id callee bound with
  | none => return .error
  | some found => onTypes (Types.substitute Resolver.fuel type parameters found)

/-- Check the number of resolved arguments and convert them. -/
def checkArguments (id : NodeId) (what : String) (expected : List TypeId)
    (arguments : List NodeId) :
    Resolve Unit := do
  if expected.length ≠ arguments.length then
    report ((Diagnostic.error .argumentCount
      s!"`{what}` takes {expected.length} argument(s) but {arguments.length} were supplied").label
      (← spanOf id) "wrong number of arguments")
  else
    convertArguments arguments expected

/-- Resolve arguments that nothing is known about, and answer a type. -/
def looseArguments (arguments : List NodeId) (answer : TypeId) : Resolve TypeId := do
  valueTypes arguments []
  return answer

/-- Resolve the arguments of a callee, and answer its type with the type arguments inferred. -/
def calleeType (id target : NodeId) (type : TypeId) (arguments : List NodeId) : Resolve TypeId := do
  let callee := (← node target).symbol
  let inferable ← inferableParameters target type
  if inferable.isEmpty then
    valueTypes arguments (← askTypes fun types => types.argumentsOf type)
    return type
  else
    valueTypes arguments []
    setType target (← inferCallee id callee type inferable arguments)

def call (id target : NodeId) (arguments : List NodeId) : Resolve TypeId := do
  let type ← valueType target none
  if type = .error then
    return ← looseArguments arguments .error
  if (← askTypes fun types => types.kind type) ≠ .function then
    let found ← textOf type
    report ((Diagnostic.error .notCallable s!"`{found}` is not callable").label (← spanOf target)
      "not a function")
    return ← looseArguments arguments .error
  let callee := (← node target).symbol
  let type ← calleeType id target type arguments
  if type = .error then
    return .error
  let result := (← askTypes fun types => types.result? type).getD .error
  let expected ← askTypes fun types => types.argumentsOf type
  checkArguments id (← calleeName callee "function") expected arguments
  checkCallPurity id callee
  return result

/-- Resolve the arguments of a known constructor and check them. -/
def constructorCall (id : NodeId) (constructor : SymbolId) (type : TypeId) (what : String)
    (arguments : List NodeId) : Resolve Unit := do
  let expected ← askTypes fun types => types.argumentsOf type
  valueTypes arguments expected
  if type ≠ .error then
    checkArguments id what expected arguments
  checkCallPurity id (some constructor)

/-- Whether a type is an interface or an abstract class. -/
def isAbstractType (type : TypeId) : Resolve Bool := do
  let entry ← askTypes fun types => types.entry type
  match entry.kind, entry.symbol with
  | .interface, _ => return true
  | .classType, some symbol => hasFlag symbol .isAbstract
  | _, _ => return false

/-- Create an instance of a class with a known constructor. -/
def instanceOf (id : NodeId) (object : TypeId) (arguments : List NodeId) : Resolve TypeId := do
  match ← askTypes fun types => types.findMember? object "new" with
  | none =>
    let name ← textOf object
    report ((Diagnostic.error .notCallable s!"`{name}` has no constructor").label (← spanOf id)
      "cannot construct")
    looseArguments arguments object
  | some member =>
    let constructor ← memberTarget member
    let type ← memberType member
    setSymbol id (some constructor)
    checkVisibility id constructor
    constructorCall id constructor type (← textOf object) arguments
    return object

def creation (id target : NodeId) (arguments : List NodeId) : Resolve TypeId := do
  let object ← typeNamed target
  if object = .error then
    return ← looseArguments arguments .error
  ensureMembers object
  if ← isAbstractType object then
    let name ← textOf object
    report (((Diagnostic.error .abstractInstance
      s!"cannot instantiate abstract type `{name}`").label
      (← spanOf id) "abstract").note "instantiate a concrete class that implements it")
    return ← looseArguments arguments object
  if (← askTypes fun types => types.kind object) ≠ .classType then
    let name ← textOf object
    report ((Diagnostic.error .notType s!"`{name}` cannot be created with `new`").label
      (← spanOf target)
      "not a class")
    return ← looseArguments arguments .error
  instanceOf id object arguments

/-- Report a misplaced call of a base constructor. -/
def reportSuper (id : NodeId) (problem : String) : Resolve Unit := do
  report ((Diagnostic.error .invalidSuper problem).label (← spanOf id) "invalid `super` call")

/-- Constructor of the base class of the current object, with its type. -/
def baseConstructor? (id : NodeId) : Resolve (Option (SymbolId × TypeId)) := do
  let context ← read
  let inConstructor ←
    match context.function with
    | some function => pure ((← symbolOf function).kind == .constructor)
    | none => pure false
  if !inConstructor then
    reportSuper id "`super` can only be called from a constructor"
    return none
  let object ←
    match context.object with
    | some object => pure (← symbolOf object).typeOrError
    | none => pure .error
  match ← askTypes fun types => types.baseClass? object with
  | none =>
    if object ≠ .error then
      reportSuper id s!"`{← textOf object}` has no base class"
    return none
  | some base =>
    ensureMembers base
    match ← askTypes fun types => types.findMember? base "new" with
    | none =>
      reportSuper id s!"base class `{← textOf base}` has no constructor"
      return none
    | some member =>
      let constructor ← memberTarget member
      return some (constructor, ← memberType member)

def superCall (id : NodeId) (arguments : List NodeId) : Resolve TypeId := do
  match ← baseConstructor? id with
  | none => looseArguments arguments .error
  | some (constructor, type) =>
    setSymbol id (some constructor)
    constructorCall id constructor type "super" arguments
    return .void

def element (id target place : NodeId) : Resolve TypeId := do
  let targetType ← valueType target none
  let context ← operatorContext targetType .index 0
  let placeType ← valueType place context
  if targetType = .error ∨ placeType = .error then
    return .error
  match ← operatorCall id .index target [place] with
  | some type => return type
  | none =>
    reportOperatorMismatch id "[]" [targetType, placeType]
    return .error

end Resolve
end Resolution
