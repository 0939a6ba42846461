import Resolution.Resolver

/-!
# Merging inherited members

A name inherited from several bases is looked at when it is first needed.  If all candidates are one
and the same member, the name stands for it.  Virtual functions of one type merge into one.  Names
that need no instance are ambiguous until they are qualified, and all other combinations are errors.
-/

namespace Resolution

/-- What matters about an inherited member when it is merged with others. -/
structure Inherited where
  /-- The symbol that does the work. -/
  target : SymbolId
  type : TypeId
  flags : Flags
  /-- Whether the target needs an instance. -/
  isInstanceMember : Bool
  deriving DecidableEq, Repr

/-- What becomes of a name that is inherited from several bases. -/
inductive Merge where
  | forwarded (target : SymbolId) (type : TypeId)
  /-- It has to be qualified. -/
  | ambiguous
  | unmergeable
  | mismatched
  | function (type : TypeId) (isAbstract isPure agreesOnPurity : Bool)
  deriving DecidableEq, Repr

/-- What becomes of a name with a first candidate and further ones. -/
def Merge.classify (first : Inherited) (rest : List Inherited) : Merge :=
  let candidates := first :: rest
  if candidates.all fun candidate =>
    candidate.target == first.target && candidate.type == first.type then
    .forwarded first.target first.type
  else if candidates.any fun candidate => !candidate.flags.has .isVirtual then
    if candidates.all fun candidate => !candidate.isInstanceMember then .ambiguous else .unmergeable
  else if candidates.any fun candidate => candidate.type != first.type then
    .mismatched
  else
    .function first.type (candidates.all fun candidate => candidate.flags.has .isAbstract)
      (first.flags.has .isPure)
      (candidates.all fun candidate => candidate.flags.has .isPure == first.flags.has .isPure)

namespace Resolve

/-- Carry out a merge on a symbol, and report what is wrong with it. -/
def applyMerge (id : SymbolId) (candidates : List Inherited) (merge : Merge) : Resolve Unit := do
  let symbol ← symbolOf id
  match merge with
  | .forwarded target type =>
    updateSymbol id fun entry =>
      { entry with kind := .forwarded, forwardedTo := some target, type := some type }
  | .ambiguous =>
    updateSymbol id fun entry => { entry with kind := .ambiguous, type := some .error }
  | .unmergeable =>
    let spans ← candidates.mapM fun candidate => return (← symbolOf candidate.target).span
    let diagnostic := ((Diagnostic.error .unmergeable
      s!"cannot merge the inherited members named `{symbol.name}`").label symbol.span
      "inherits conflicting members").note "only virtual functions of the same type can be merged"
    report (spans.foldl (fun diagnostic span => diagnostic.related span "candidate") diagnostic)
      (by rw [Diagnostic.code_foldl_related]; rfl)
    updateSymbol id fun entry => { entry with type := some .error }
  | .mismatched =>
    let listed := ", ".intercalate
      (← candidates.mapM fun candidate => return s!"`{← textOf candidate.type}`")
    report (((Diagnostic.error .mergedTypes
      s!"inherited members named `{symbol.name}` disagree on their type").label symbol.span
      "ambiguous merged type").note s!"candidate types: {listed}")
    updateSymbol id fun entry => { entry with type := some .error }
  | .function type isAbstract isPure agreesOnPurity =>
    if !agreesOnPurity then
      report ((Diagnostic.error .mergedPurity
        s!"inherited members named `{symbol.name}` disagree on purity").label symbol.span
          "merged here")
    let flags := symbol.flags.add .isVirtual
    let flags := if isAbstract then flags.add .isAbstract else flags
    let flags := if isPure then flags.add .isPure else flags
    updateSymbol id fun entry => { entry with kind := .merged, flags, type := some type }

variable [Resolver]

/-- What matters about a member when it is merged. -/
def inheritedMember (member : MemberId) : Resolve (SymbolId × TypeId) := do
  let type ← memberType member
  return (← memberTarget member, type)

/-- Settle a name that is inherited from several bases. -/
def settleUnmerged (id : SymbolId) : Resolve Unit := do
  let found ← (← symbolOf id).candidates.mapM inheritedMember
  let candidates ← found.mapM fun entry => do
    let symbol ← symbolOf entry.1
    return (⟨entry.1, entry.2, symbol.flags, symbol.kind.isInstanceMember⟩ : Inherited)
  match candidates with
  | [] => return
  | first :: rest => applyMerge id candidates (.classify first rest)

end Resolve
end Resolution
