import Resolution.Declaration.Scan
import Resolution.Declaration.Variable
import Resolution.Order

/-!
# Generated functions

A class without a constructor gets one that passes its first arguments on to the base class and sets
every variable without a value from a further argument.  An enum without a `toString` gets one that
answers the name of a value.  Generated functions are ordinary members of their declaration.
-/

namespace Resolution

/-- How the names of enum values are found by their numbers. -/
inductive EnumNames where
  | blank
  /-- The numbers are consecutive, from the given one on. -/
  | table (first : Int64) (names : List String)
  /-- Each number has a name of its own. -/
  | cases (entries : List (Int64 × String))
  deriving DecidableEq, Repr

namespace EnumNames

/-- Whether numbers count up from `next`.  The number after `next` has to exist wherever a number is
left to be looked at. -/
def countsFrom (next : Int64) : List Int64 → Except Fault Bool
  | [] => return true
  | number :: rest =>
    if next = Int64.maxValue then throw .overflow
    else if number = next then countsFrom (next + 1) rest
    else return false

/-- The first entry of every number in a sorted list; `previous` is the number before. -/
def distinct : Option Int64 → List (Int64 × String) → List (Int64 × String)
  | _, [] => []
  | previous, (number, name) :: rest =>
    if previous = some number then distinct previous rest
    else (number, name) :: distinct (some number) rest

/-- How the names of values in declaration order are found by their numbers. -/
def ofValues (values : List (Int64 × String)) : Except Fault EnumNames := do
  let sorted := sortBy (fun first second => first.1 ≤ second.1) values
  match sorted with
  | [] => return .blank
  | (first, _) :: _ =>
    if ← countsFrom first (sorted.map Prod.fst) then return .table first (sorted.map Prod.snd)
    else return .cases (distinct none sorted)

end EnumNames

namespace Resolve

/-- Append a function to the members of a declaration and declare it. -/
def addGenerated (owner : SymbolId) (function : NodeKind) (span : Span) (flags : Flags) :
    Resolve Unit := do
  let symbol ← symbolOf owner
  match symbol.node, symbol.ownScope with
  | some primary, some scope =>
    match ← kindOf primary with
    | .objectDecl _ _ _ _ body | .enumDecl _ _ body =>
      let id ← alloc function span
      onTree (Tree.pushStatement body id)
      match ← declareGenerated id scope owner with
      | none => return
      | some generated =>
        updateSymbol generated fun entry => { entry with flags := entry.flags.union flags }
    | _ => return
  | _, _ => return

/-! ## Names of enum values -/

/-- The current value as an integer. -/
def currentNumber (span : Span) : Resolve NodeId := do
  let current ← alloc .this span
  let type ← alloc (.type .int) span
  alloc (.cast type current) span

/-- Body that looks names up by their distance from the first number. -/
def tableBody (first : Int64) (names : List String) (span : Span) : Resolve (List NodeId) := do
  let texts ← names.mapM fun name => alloc (.string name) span
  let list ← alloc (.list texts) span
  let number ← currentNumber span
  let place ←
    if first = 0 then pure number
    else do
      let start ← alloc (.int first) span
      alloc (.binary .subtract number start) span
  let name ← alloc (.index list place) span
  return [← alloc (.returnStmt (some name)) span]

def returnCase (values : List NodeId) (text : NodeId) (span : Span) : Resolve NodeId := do
  let result ← alloc (.returnStmt (some text)) span
  let body ← alloc (.block [result]) span
  alloc (.switchCase values body) span

/-- Branch that returns the name of a number. -/
def nameCase (span : Span) (entry : Int64 × String) : Resolve NodeId := do
  let number ← alloc (.int entry.1) span
  let text ← alloc (.string entry.2) span
  returnCase [number] text span

/-- Body that looks names up one by one; an unknown number has the empty name. -/
def casesBody (entries : List (Int64 × String)) (span : Span) : Resolve (List NodeId) := do
  let cases ← entries.mapM (nameCase span)
  let blank ← alloc (.string "") span
  let fallback ← returnCase [] blank span
  let number ← currentNumber span
  return [← alloc (.switchStmt number (cases ++ [fallback])) span]

/-- Body that answers the name of the current value. -/
def namesBody (names : EnumNames) (span : Span) : Resolve (List NodeId) := do
  match names with
  | .table first names => tableBody first names span
  | .cases entries => casesBody entries span
  | .blank =>
    let blank ← alloc (.string "") span
    return [← alloc (.returnStmt (some blank)) span]

/-- Number and name of an enum value. -/
def enumEntry? (id : SymbolId) : Resolve (Option (Int64 × String)) := do
  let symbol ← symbolOf id
  return (symbol.constant.bind Constant.int?).map fun number => (number, symbol.name)

/-- Give an enum a function that answers the name of a value. -/
def generateEnumText (owner : SymbolId) (values : List SymbolId) : Resolve Unit := do
  let span := (← symbolOf owner).span
  let entries := (← values.mapM enumEntry?).filterMap id
  let names ← ask fun _ => EnumNames.ofValues entries
  let statements ← namesBody names span
  let body ← alloc (.block statements) span
  let result ← alloc (.type .string) span
  addGenerated owner (.functionDecl { name := "toString", span } [] [] (some result) [] (some body))
    span
    (.ofList [.isSynthesized, .isInline, .isPure])

/-! ## Constructors -/

/-- Declaration of an argument with a known type. -/
def generatedArgument (span : Span) (name : String) (type : TypeId) : Resolve NodeId := do
  let type ← alloc (.type type) span
  alloc (.variableDecl { name, span } (some type) none) span

def declaredValue? (id : SymbolId) : Resolve (Option NodeId) := do
  match (← symbolOf id).node with
  | none => return none
  | some declaration =>
    match ← kindOf declaration with
    | .variableDecl _ _ operand => return operand
    | _ => return none

/-- Whether the first of two symbols is written in front of the second or at the same place. -/
def writtenBefore (first second : SymbolId × Span) : Bool :=
  first.2.file < second.2.file || (first.2.file == second.2.file && first.2.start ≤ second.2.start)

/-- Argument of a constructor for a variable, and the initializer that sets the variable. -/
def fieldParts (span : Span) (field : SymbolId) : Resolve (NodeId × NodeId) := do
  let symbol ← symbolOf field
  let argument ← generatedArgument span symbol.name symbol.typeOrError
  let operand ← alloc (.name symbol.name) span
  return (argument, ← alloc (.memberInitializer symbol.name operand) span)

/-- Statements that pass arguments on to the base class. -/
def forwardingBody (arguments : List (String × TypeId)) (span : Span) : Resolve (List NodeId) := do
  let forwarded ← arguments.mapM fun argument => alloc (.name argument.1) span
  let call ← alloc (.superCall forwarded) span
  return [← alloc (.expression call) span]

variable [Resolver]

/-- Constructor that the base class of a type has. -/
def inheritedConstructor? (type : TypeId) : Resolve (Option MemberId) := do
  match ← askTypes fun types => types.baseClass? type with
  | none => return none
  | some base =>
    ensureMembers base
    askTypes fun types => types.findMember? base "new"

/-- Arguments of a constructor by name and type, and whether calling it is pure. -/
def constructorArguments (member : MemberId) : Resolve (List (String × TypeId) × Bool) := do
  let constructor ← memberTarget member
  let type ← memberType member
  let symbol ← symbolOf constructor
  let names ← symbol.arguments.mapM nameOf
  return (names.zip (← askTypes fun types => types.argumentsOf type), symbol.isPureCallee)

/-- Settle the variables among the members of a type; the answers are those without a value, and
whether the values of the others are pure. -/
def openFields : List (String × MemberId) → Resolve (List SymbolId × Bool)
  | [] => pure ([], true)
  | (_, member) :: rest => do
    let entry ← askTypes fun types => types.member member
    if entry.isInherited || (← symbolOf entry.symbol).kind != .instanceVariable then
      openFields rest
    else
      Resolver.settle entry.symbol
      match ← declaredValue? entry.symbol with
      | some operand =>
        let pureHere ← isPure operand
        let (fields, pureRest) ← openFields rest
        return (fields, pureHere && pureRest)
      | none =>
        let (fields, pureRest) ← openFields rest
        return (entry.symbol :: fields, pureRest)

/-- Variables in the order in which they are written. -/
def inWrittenOrder (fields : List SymbolId) : Resolve (List SymbolId) := do
  let placed ← fields.mapM fun field => return (field, (← symbolOf field).span)
  return (sortBy writtenBefore placed).map Prod.fst

/-- Give a class without a constructor one. -/
def generateConstructor (owner : SymbolId) : Resolve Unit := do
  let symbol ← symbolOf owner
  let type := symbol.typeOrError
  let span := symbol.span
  let base? ← inheritedConstructor? type
  let (passed, pureBase) ←
    match base? with
    | some member => constructorArguments member
    | none => pure ([], true)
  let (fields, pureFields) ← openFields (← askTypes fun types => types.membersOf type)
  let fields ← inWrittenOrder fields
  let passedArguments ← passed.mapM fun argument => generatedArgument span argument.1 argument.2
  let parts ← fields.mapM (fieldParts span)
  let statements ← if base?.isSome then forwardingBody passed span else pure []
  let body ← alloc (.block statements) span
  let flags := if pureBase && pureFields then [Flag.isSynthesized, .isPure] else [.isSynthesized]
  addGenerated owner
    (.functionDecl { name := "new", span } [] (passedArguments ++ parts.map Prod.fst) none
      (parts.map Prod.snd) (some body))
    span (.ofList flags)

end Resolve
end Resolution
