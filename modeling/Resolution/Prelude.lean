import Resolution.Tree.Builder

/-!
# Built-in declarations

Every program sees the same file of imported declarations in front of its own: the scalar types with
their `toString`, texts, lists and maps with their operators, and a namespace that raises numbers to
powers.
-/

namespace Resolution
namespace Prelude

/-- A function without a body, given by the names of its argument and result types. -/
structure Signature where
  name : String
  operator : Option String := none
  arguments : List (String × String) := []
  result : Option String := none

/-- A built-in class. -/
structure Shape where
  name : String
  parameters : List String := []
  functions : List Signature

def textFunction : Signature := { name := "toString", result := some "string" }

/-- A function that gives the number of elements. -/
def countFunction : Signature := { name := "count", result := some "int" }

/-- A constructor without arguments. -/
def constructorSignature : Signature := { name := "new" }

/-- Class of a scalar type. -/
def scalar (name : String) : Shape := { name, functions := [textFunction] }

def text : Shape :=
  { name := "string"
    functions :=
      [textFunction, countFunction,
        { name := "get", operator := some "[]", arguments := [("index", "int")],
          result := some "string" }] }

def list : Shape :=
  { name := "List"
    parameters := ["T"]
    functions :=
      [constructorSignature, { name := "push", arguments := [("value", "T")] }, countFunction,
        { name := "get", operator := some "[]", arguments := [("index", "int")],
          result := some "T" },
        { name := "set", operator := some "[]=", arguments := [("index", "int"), ("value", "T")] },
        { name := "contains", operator := some "in", arguments := [("value", "T")],
          result := some "bool" }] }

def map : Shape :=
  { name := "Map"
    parameters := ["K", "V"]
    functions :=
      [constructorSignature, countFunction,
        { name := "get", operator := some "[]", arguments := [("key", "K")], result := some "V" },
        { name := "set", operator := some "[]=", arguments := [("key", "K"), ("value", "V")] },
        { name := "containsKey", operator := some "in", arguments := [("key", "K")],
          result := some "bool" }] }

/-- The built-in classes in order. -/
def classes : List Shape :=
  [scalar "bool", scalar "int", scalar "float", scalar "double", text, list, map]

/-- The function that raises a number to a power. -/
def power : Signature :=
  { name := "pow", arguments := [("base", "double"), ("exponent", "double")],
    result := some "double" }

def buildArgument (argument : String × String) : Build NodeId := do
  let type ← Build.name argument.2
  Build.argument argument.1 type

/-- Build the arguments and the result of a function, then the function. -/
def buildSignature (signature : Signature) (header : Header) : Build NodeId := do
  let arguments ← signature.arguments.mapM buildArgument
  let result ← signature.result.mapM Build.name
  Build.function header [] arguments result none

/-- Build the function of a class, decorated with the operator that it implements. -/
def buildFunction (signature : Signature) : Build NodeId := do
  let decorations ← signature.operator.toList.mapM fun token => do
    Build.decoration "Operator" [← Build.string token]
  let header ← Build.header signature.name
  buildSignature signature { header with modifiers := [.isPure], decorations }

def buildClass (shape : Shape) : Build NodeId := do
  let functions ← shape.functions.mapM buildFunction
  let header ← Build.header shape.name
  Build.object .classType (header.withModifier .isImport) shape.parameters [] functions

/-- Build the namespace that raises numbers to powers. -/
def buildMath : Build NodeId := do
  let header ← Build.header power.name
  let function ← buildSignature power { header with modifiers := [.isImport, .isPure] }
  Build.space (← Build.header "math") [function]

/-- Build the file of all built-in declarations. -/
def build : Build NodeId := do
  let classes ← classes.mapM buildClass
  let math ← buildMath
  Build.file (classes ++ [math])

/-- The built-in declarations as a step on a source. -/
def extend : Action Source NodeId :=
  Action.zoom (fun source => { source with file := Span.preludeFile })
    (fun _ draft => draft.toSource) build

end Prelude
end Resolution
