import Resolution.Resolver

/-!
# Operators implemented by functions

The functions that implement an operator are registered on the types that declare them.  The
candidates for a receiver are those registered on its type and the bases of it, as members of the
receiver.  Each candidate is ranked against the argument types, and a single best one turns the
operator into a call.
-/

namespace Resolution

/-- How well a function accepts given argument types. -/
inductive Rank where
  | rejected
  | converted
  | exact
  deriving DecidableEq, Repr

/-- A function that implements an operator for a receiver. -/
structure Candidate where
  function : SymbolId
  /-- Type of the function as a member of the receiver. -/
  type : TypeId
  deriving DecidableEq, Repr

/-- Outcome of choosing among ranked candidates. -/
inductive Selection where
  | rejected
  | ambiguous (candidates : List Candidate)
  | chosen (candidate : Candidate)
  deriving DecidableEq, Repr

def Candidate.ofRank (rank : Rank) (ranked : List (Rank × Candidate)) : List Candidate :=
  (ranked.filter fun entry => entry.1 == rank).map Prod.snd

/-- Choice among candidates of the same rank. -/
def Selection.among : List Candidate → Selection
  | [] => .rejected
  | [candidate] => .chosen candidate
  | candidates => .ambiguous candidates

/-- Choose among ranked candidates: exact ones win over converted ones. -/
def Selection.of (ranked : List (Rank × Candidate)) : Selection :=
  match Candidate.ofRank .exact ranked with
  | [] => among (Candidate.ofRank .converted ranked)
  | exact => among exact

namespace Types

def rankArguments (types : Types) : List TypeId → List TypeId → Except Fault Rank
  | [], [] => return .exact
  | expected :: rest, found :: others => do
    if expected = found then
      rankArguments types rest others
    else if ← types.convertsImplicitly found expected then
      match ← rankArguments types rest others with
      | .rejected => return .rejected
      | _ => return .converted
    else
      return .rejected
  | _, _ => return .rejected

/-- Rank of a function type against argument types. -/
def rank (types : Types) (function : TypeId) (arguments : List TypeId) : Except Fault Rank := do
  let expected ← types.argumentsOf function
  if expected.length ≠ arguments.length then
    return .rejected
  types.rankArguments expected arguments

end Types

namespace Resolve

/-- Report an operator that neither a rule nor a function covers. -/
def reportOperatorMismatch (id : NodeId) (operator : String) (operands : List TypeId) :
    Resolve Unit := do
  if operands.contains .error then
    return
  let listed := " and ".intercalate (← operands.mapM fun type => return s!"`{← textOf type}`")
  report ((Diagnostic.error .operatorMismatch
    s!"operator `{operator}` does not apply to {listed}").label
    (← spanOf id) "no built-in rule or overload")

variable [Resolver]

/-- Add registered functions to the candidates for a receiver; `seen` are the functions that were
looked at. -/
def addCandidates (receiver : TypeId) :
    List SymbolId → List SymbolId × List Candidate → Resolve (List SymbolId × List Candidate)
  | [], gathered => pure gathered
  | function :: rest, (seen, candidates) => do
    let name ← nameOf function
    match ← askTypes fun types => types.findMember? receiver name with
    | none => addCandidates receiver rest (seen, candidates)
    | some member =>
      let target ← memberTarget member
      if seen.contains target then
        addCandidates receiver rest (seen, candidates)
      else
        let type ← memberType member
        let candidates := if type = .error then candidates else candidates ++ [⟨target, type⟩]
        addCandidates receiver rest (target :: seen, candidates)

/-- Gather the candidates from pending types and their bases, the last base of a type first. -/
def gatherCandidates (receiver : TypeId) (overload : Overload) :
    Nat → List TypeId → List TypeId → List SymbolId × List Candidate → Resolve (List Candidate)
  | _, [], _, gathered => return gathered.2
  | 0, _ :: _, _, _ => throw .outOfFuel
  | fuel + 1, type :: pending, visited, gathered => do
    if visited.contains type then
      gatherCandidates receiver overload fuel pending visited gathered
    else
      let entry ← askTypes fun types => types.entry type
      let pending := entry.related.reverse ++ pending
      match entry.symbol with
      | none => gatherCandidates receiver overload fuel pending (type :: visited) gathered
      | some owner =>
        settleIfUntouched owner
        let registered := (← symbolOf owner).overloadsOf overload
        let gathered ← addCandidates receiver registered gathered
        gatherCandidates receiver overload fuel pending (type :: visited) gathered

/-- Functions that implement an operator for a receiver. -/
def candidatesOf (receiver : TypeId) (overload : Overload) : Resolve (List Candidate) := do
  if receiver = .error then
    return []
  let kind ← askTypes fun types => types.kind receiver
  if !(kind.isObject || kind.isEnum) then
    return []
  ensureMembers receiver
  gatherCandidates receiver overload Resolver.fuel [receiver] [] ([], [])

/-- Type expected for an argument, where a single function implements the operator. -/
def operatorContext (receiver : TypeId) (overload : Overload) (position : Nat) :
    Resolve (Option TypeId) := do
  match ← candidatesOf receiver overload with
  | [only] => return (← askTypes fun types => types.argumentsOf only.type)[position]?
  | _ => return none

/-- Convert arguments to the types of a signature. -/
def convertArguments : List NodeId → List TypeId → Resolve Unit
  | argument :: arguments, type :: types => do
    let _ ← convertTo argument type
    convertArguments arguments types
  | _, _ => pure ()

/-- Turn an operator into a call of a function; an order comparison compares the call with zero. -/
def callOperator (id : NodeId) (overload : Overload) (receiver : NodeId) (arguments : List NodeId)
    (candidate : Candidate) : Resolve TypeId := do
  let span ← spanOf id
  let name ← nameOf candidate.function
  let callee ← alloc (.dot (some receiver) name) span
  setSymbol callee (some candidate.function)
  let _ ← setType callee candidate.type
  convertArguments arguments (← askTypes fun types => types.argumentsOf candidate.type)
  let result := (← askTypes fun types => types.result? candidate.type).getD .error
  let call := NodeKind.call callee arguments
  if overload ≠ .compare then
    onTree (Tree.replace id call)
    return result
  match ← kindOf id with
  | .binary op _ _ =>
    let call ← alloc call span
    let _ ← setType call result
    let zero ← alloc (.int 0) span
    let _ ← setType zero .int
    if result ≠ .int then
      let _ ← convertTo call .int
    onTree (Tree.replace id (.binary op call zero))
    return .bool
  | other => throw (.misplaced .comparison other.describe)

/-- Turn an operator over resolved operands into a call.  There is no answer, and nothing changes,
where no function implements the operator for the receiver. -/
def operatorCall (id : NodeId) (overload : Overload) (receiver : NodeId) (arguments : List NodeId) :
    Resolve (Option TypeId) := do
  let receiverType ← typeOf receiver
  let candidates ← candidatesOf receiverType overload
  if candidates.isEmpty then
    return none
  let found ← arguments.mapM typeOf
  if found.contains .error then
    return some .error
  let ranked ← candidates.mapM fun candidate =>
    return (← askTypes fun types => types.rank candidate.type found, candidate)
  let listed := ", ".intercalate (← found.mapM textOf)
  match Selection.of ranked with
  | .rejected =>
    let owner ← textOf receiverType
    report ((Diagnostic.error .noOverload
      s!"no `{overload.token}` overload on `{owner}` accepts ({listed})").label (← spanOf id)
      "no matching operator")
    return some .error
  | .ambiguous winners =>
    let owner ← textOf receiverType
    let spans ← winners.mapM fun winner => return (← symbolOf winner.function).span
    let diagnostic := (Diagnostic.error .ambiguousOverload
      s!"ambiguous `{overload.token}` overload on `{owner}` for ({listed})").label (← spanOf id)
      "several overloads match equally well"
    report (spans.foldl (fun diagnostic span => diagnostic.related span "candidate") diagnostic)
      (by rw [Diagnostic.code_foldl_related]; rfl)
    return some .error
  | .chosen winner => return some (← callOperator id overload receiver arguments winner)

end Resolve
end Resolution
