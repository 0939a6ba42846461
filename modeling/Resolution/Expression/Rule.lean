import Resolution.Expression.Access
import Resolution.Expression.Assignment
import Resolution.Expression.Call
import Resolution.Expression.Generic

/-!
# The rule for expressions

Each sort of expression has a rule of its own.  An expression nested deeper than admitted is not
looked at.
-/

namespace Resolution
namespace Resolve

/-- Report an expression that is nested too deeply. -/
def refuseExpression (id : NodeId) : Resolve TypeId := do
  let limit := (← read).maxDepth
  report (((Diagnostic.error .tooDeep "expression is nested too deeply").label (← spanOf id)
    "nesting limit reached here").note s!"the limit is {limit} levels")
  return .error

variable [Resolver]

/-- Type of an expression by the rule for its sort. -/
def expressionType (id : NodeId) (context : Option TypeId) : Resolve TypeId := do
  let node ← Resolve.node id
  match node.kind with
  | .name name => bareName id name
  | .dot target name => dot id target name context
  | .this => currentInstance id
  | .null => return .null
  | .bool _ => return .bool
  | .int _ => return .int
  | .double _ => return .double
  | .string _ => return .string
  | .type type => return type
  | .list elements => listLiteral id elements context
  | .map entries => mapLiteral id entries context
  | .call target arguments => call id target arguments
  | .superCall arguments => superCall id arguments
  | .new target arguments => creation id target arguments
  | .cast type operand => cast id type operand
  | .implicitCast operand =>
    match node.type with
    | some type => return type
    | none => Resolver.expression operand context
  | .hook test yes no => conditional test yes no context
  | .index target place => element id target place
  | .parameterize target arguments => typeApplication id target arguments
  | .unary op operand => unary id op operand context
  | .binary op left right =>
    if op.isAssign then assignment id op left right else binary id op left right
  | other => throw (.misplaced .expression other.describe)

def expressionRule (id : NodeId) (context : Option TypeId) : Resolve TypeId := do
  let type ← deeper (refuseExpression id) (expressionType id context)
  setType id type

end Resolve
end Resolution
