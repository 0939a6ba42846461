import Resolution.Symbol.Basic
import Resolution.Type.Basic

/-!
# How types read

Types are written as in a program: `List<int>`, `fn(int, double) string`.
-/

namespace Resolution
namespace Types

/-- Name of a built-in type that no symbol declares. -/
def builtinName : TypeId → String
  | .bool => "bool"
  | .int => "int"
  | .float => "float"
  | .double => "double"
  | .string => "string"
  | .list => "List"
  | .map => "Map"
  | _ => "<anonymous>"

/-- Text of a type, within a number of steps. -/
def textWithin (types : Types) (symbols : Symbols) : Nat → TypeId → Except Fault String
  | 0, _ => .error .outOfFuel
  | fuel + 1, type => do
    let entry ← types.entry type
    match entry.kind with
    | .error => return "<error>"
    | .null => return "null"
    | .void => return "void"
    | .function =>
      match entry.related with
      | [] => throw .missing
      | result :: arguments =>
        let arguments := ", ".intercalate (← arguments.mapM (textWithin types symbols fuel))
        let result ← textWithin types symbols fuel result
        return s!"fn({arguments}) {result}"
    | _ =>
      let name ←
        match entry.symbol with
        | some symbol => pure (← symbols.fetch symbol).name
        | none => pure (builtinName type)
      match entry.arguments with
      | none => return name
      | some arguments =>
        let arguments := ", ".intercalate (← arguments.mapM (textWithin types symbols fuel))
        return s!"{name}<{arguments}>"

def text (types : Types) (symbols : Symbols) (type : TypeId) : Except Fault String :=
  types.textWithin symbols (types.size + 1) type

end Types
end Resolution
