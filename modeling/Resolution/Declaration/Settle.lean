import Resolution.Declaration.Decoration
import Resolution.Declaration.Function
import Resolution.Declaration.Merge

/-!
# Settling symbols

A symbol is settled once, when it is first needed, and whatever its declaration refers to is settled
first.  A symbol that is needed while it is active closes a cycle: every symbol on the cycle is
reported and ends with the error type.
-/

namespace Resolution

/-- Symbols on the cycle that a symbol closes, from it on inwards; `active` has the innermost symbol
first. -/
def cycleMembers (active : List SymbolId) (symbol : SymbolId) : List SymbolId :=
  if active.contains symbol then
    symbol :: (active.takeWhile fun other => other ≠ symbol).reverse
  else []

namespace Resolve

/-- Report a symbol on a cycle, unless it was reported before. -/
def reportCyclic (path : String) (id : SymbolId) : Resolve Unit := do
  if (← get).cyclic.contains id then
    return
  modify fun store => { store with cyclic := id :: store.cyclic }
  let symbol ← symbolOf id
  report (((Diagnostic.error .cycle s!"`{symbol.name}` depends on itself").label symbol.span
    "part of a dependency cycle").note path)

/-- Report every symbol on the cycle that an active symbol closes. -/
def reportCycle (id : SymbolId) : Resolve Unit := do
  let members := cycleMembers (← read).active id
  if members.isEmpty then
    return
  let path := "` -> `".intercalate (← members.mapM nameOf)
  let closing ← nameOf id
  members.forM (reportCyclic s!"cycle: `{path}` -> `{closing}`")
  setSymbolType id .error

/-- Finish an active symbol; on a cycle or without a type it has the error type. -/
def finish (id : SymbolId) : Resolve Unit := do
  if (← get).cyclic.contains id || (← symbolOf id).type.isNone then
    setSymbolType id .error
  onSymbols (Symbols.finish id)

variable [Resolver]

def settleByKind (id : SymbolId) (kind : SymbolKind) : Resolve Unit :=
  match kind with
  | .space | .typeParameter => checkModifiers id
  | .enum | .flags => settleEnum id
  | .classType | .interface => settleObject id
  | .globalFunction | .instanceFunction | .constructor | .localFunction => settleFunction id
  | .globalVariable | .instanceVariable | .localVariable | .argument => settleVariable id
  | .enumValue => settleEnumValue id
  | .alias => settleAlias id
  | .define => settleDefine id
  | .unmerged => settleUnmerged id
  | .forwarded | .merged | .ambiguous | .placeholder => pure ()

/-- Settle an untouched symbol and apply its decorations. -/
def settleUntouched (id : SymbolId) : Resolve Unit := do
  let kind := (← symbolOf id).kind
  onSymbols (Symbols.start id)
  let context ← declarationContext id
  whileActive id (inContext context (settleByKind id kind))
  finish id
  applyDecorations id

/-- Settle a symbol, or report the cycle that it closes. -/
def settleRule (id : SymbolId) : Resolve Unit := do
  match (← symbolOf id).progress with
  | .settled => return
  | .active => reportCycle id
  | .untouched => settleUntouched id

end Resolve
end Resolution
