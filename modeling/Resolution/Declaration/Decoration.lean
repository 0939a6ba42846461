import Resolution.Declaration.Object

/-!
# Decorations

Decorations are looked at once their symbol is settled.  Their arguments are constant texts.
`EmitAs` and `NeedsInclude` apply to every declaration, `ExternC` to functions, `EntryPoint` to one
global function without arguments, and `Operator` lets an instance function implement an operator.
-/

namespace Resolution
namespace Resolve

def reportDecoration (span : Span) (message label : String) : Resolve Unit :=
  report ((Diagnostic.error .invalidDecoration message).label span label)

/-- Report a decoration on something it does not apply to. -/
def reportTarget (name : String) (span : Span) (allowed : String) : Resolve Unit :=
  reportDecoration span s!"`@{name}` can only be applied to {allowed}" "invalid target"

def reportArgumentCount (name : String) (span : Span) (expected found : Nat) : Resolve Unit :=
  reportDecoration span s!"`@{name}` takes {expected} argument(s), found {found}"
    "wrong number of arguments"

/-- Run a step with the single argument of a decoration. -/
def withArgument (name : String) (span : Span) (arguments : List String) (step : String →
    Resolve Unit) :
    Resolve Unit :=
  match arguments with
  | [argument] => step argument
  | _ => reportArgumentCount name span 1 arguments.length

/-- Run a step for a decoration without arguments. -/
def withoutArguments (name : String) (span : Span) (arguments : List String) (step : Resolve Unit) :
    Resolve Unit :=
  match arguments with
  | [] => step
  | _ => reportArgumentCount name span 0 arguments.length

/-- Whether a symbol is a global function without arguments that answers nothing or a number. -/
def isEntryPoint (symbol : Symbol) : Resolve Bool := do
  let type := symbol.typeOrError
  let arguments ← askTypes fun types => types.argumentsOf type
  let result ← askTypes fun types => types.result? type
  return symbol.kind == .globalFunction && arguments.isEmpty &&
    (result == some .void || result == some .int)

def registerEntryPoint (id : SymbolId) (span : Span) : Resolve Unit := do
  let symbol ← symbolOf id
  if !(← isEntryPoint symbol) then
    if symbol.typeOrError ≠ .error then
      reportTarget "EntryPoint" span
        "global functions taking no arguments and returning `void` or `int`"
    return
  match (← get).entryPoint with
  | some existing =>
    let first ← symbolOf existing
    report (((Diagnostic.error .duplicateEntryPoint "more than one entry point").label symbol.span
      "second `@EntryPoint`").related first.span "first entry point here")
  | none =>
    updateSymbol id fun entry => { entry with flags := entry.flags.add .isEntryPoint }
    modify fun store => { store with entryPoint := some id }

/-- Let a function implement an operator of the object that declares it. -/
def registerOperator (id : SymbolId) (span : Span) (token : String) : Resolve Unit := do
  let symbol ← symbolOf id
  if symbol.kind ≠ .instanceFunction then
    return ← reportTarget "Operator" span "instance functions"
  match Overload.ofToken? token with
  | none => reportDecoration span s!"`{token}` is not an overloadable operator" "unknown operator"
  | some overload =>
    let type := symbol.typeOrError
    let count := (← askTypes fun types => types.argumentsOf type).length
    if type ≠ .error ∧ count ≠ overload.argumentCount then
      return ← reportDecoration span
        (s!"operator `{token}` takes {overload.argumentCount} argument(s), " ++
          s!"but `{symbol.name}` has {count}")
        "wrong argument count for this operator"
    match symbol.enclosing with
    | none => return
    | some object => updateSymbol object fun entry => entry.register overload id

def applyDecoration (id : SymbolId) (name : String) (span : Span) (arguments : List String) :
    Resolve Unit := do
  match name with
  | "EmitAs" =>
    withArgument name span arguments fun text =>
      updateSymbol id fun entry => { entry with emitAs := some text }
  | "NeedsInclude" =>
    withArgument name span arguments fun file =>
      updateSymbol id fun entry => { entry with includes := entry.includes ++ [file] }
  | "EntryPoint" => withoutArguments name span arguments (registerEntryPoint id span)
  | "ExternC" =>
    withoutArguments name span arguments do
      if (← symbolOf id).kind.isFunction then
        updateSymbol id fun entry => { entry with flags := entry.flags.add .isExternC }
      else
        reportTarget name span "functions"
  | "Operator" => withArgument name span arguments (registerOperator id span)
  | _ => reportDecoration span s!"unknown annotation `@{name}`" "not a known annotation"

variable [Resolver]

/-- Resolve an argument of a decoration; there is no answer where it is no constant text. -/
def decorationArgument (id : NodeId) : Resolve (Option String) := do
  let type ← valueType id (some .string)
  fold id
  if type = .error then
    return none
  match ← constantOf? id with
  | some (.text argument) => return some argument
  | _ =>
    reportDecoration (← spanOf id) "annotation arguments must be constant strings"
      "not a constant string"
    return none

/-- Resolve a decoration and apply it to its symbol. -/
def decorate (symbol : SymbolId) (id : NodeId) : Resolve Unit := do
  match ← kindOf id with
  | .decoration name arguments =>
    let arguments ← arguments.mapM decorationArgument
    if arguments.all Option.isSome then
      let _ ← setType id .void
      applyDecoration symbol name (← spanOf id) (arguments.filterMap fun argument => argument)
  | other => throw (.misplaced .decoration other.describe)

def decorationsOf (symbol : SymbolId) : Resolve (List NodeId) := do
  let headers ← (← fragmentsOf symbol).mapM fun fragment => return (← kindOf fragment).header?
  return (headers.filterMap fun header => header).flatMap Header.decorations

def applyDecorations (symbol : SymbolId) : Resolve Unit := do
  let decorations ← decorationsOf symbol
  if decorations.isEmpty then
    return
  inContext (← declarationContext symbol) (decorations.forM (decorate symbol))

end Resolve
end Resolution
