import Resolution.Session

/-!
# Modifiers

Each sort of declaration admits certain modifiers.  A repeated modifier is only warned about;
visibilities exclude each other, and what is abstract cannot be final.
-/

namespace Resolution

/-- Modifiers that a declaration of a sort may have. -/
def SymbolKind.modifiers : SymbolKind → List Modifier
  | .space => [.isPublic, .isPrivate, .isImport, .isExport]
  | .classType =>
    [.isPublic, .isPrivate, .isProtected, .isFinal, .isAbstract, .isImport, .isExport]
  | .interface | .enum | .flags => [.isPublic, .isPrivate, .isProtected, .isImport, .isExport]
  | .globalFunction =>
    [.isPublic, .isPrivate, .isProtected, .isPure, .isStatic, .isInline, .isImport, .isExport]
  | .instanceFunction =>
    [.isPublic, .isPrivate, .isProtected, .isPure, .isFinal, .isVirtual, .isOverride, .isAbstract,
      .isInline, .isImport, .isExport]
  | .constructor => [.isPublic, .isPrivate, .isProtected, .isPure, .isInline, .isImport]
  | .localFunction => [.isPure, .isInline]
  | .globalVariable =>
    [.isPublic, .isPrivate, .isProtected, .isConst, .isStatic, .isImport, .isExport]
  | .instanceVariable | .alias | .define => [.isPublic, .isPrivate, .isProtected]
  | .localVariable | .argument => [.isConst]
  | .enumValue | .typeParameter | .placeholder | .unmerged | .forwarded | .ambiguous | .merged => []

def Modifier.isVisibility : Modifier → Bool
  | .isPublic | .isPrivate | .isProtected => true
  | _ => false

/-- A modifier and where it is written. -/
abbrev WrittenModifier := Modifier × Span

/-- A visibility that conflicts with the first one written, together with that first one. -/
def visibilityConflict? (written : List WrittenModifier) : Option (Modifier × WrittenModifier) :=
  match written.filter fun entry => entry.1.isVisibility with
  | [] => none
  | (first, _) :: rest => (rest.find? fun entry => entry.1 ≠ first).map fun entry => (first, entry)

namespace Resolve

/-- Report the repeated and disallowed modifiers of a header, and answer the others; `before` are
those that were looked at. -/
def checkHeader (kind : SymbolKind) (span : Span) :
    List Modifier → List Modifier → Resolve (List WrittenModifier)
  | _, [] => pure []
  | before, modifier :: rest => do
    if before.contains modifier then
      report ((Diagnostic.warning .repeatedModifier
        s!"`{modifier.word}` is written more than once").label
        span "duplicate modifier")
      checkHeader kind span (modifier :: before) rest
    else if !kind.modifiers.contains modifier then
      report ((Diagnostic.error .modifier
        s!"`{modifier.word}` is not allowed on a {kind.describe}").label span "not allowed here")
      checkHeader kind span (modifier :: before) rest
    else
      return (modifier, span) :: (← checkHeader kind span (modifier :: before) rest)

/-- Check the modifiers of every fragment of a symbol, and their conflicts. -/
def checkModifiers (symbol : SymbolId) : Resolve Unit := do
  let kind := (← symbolOf symbol).kind
  let written ← (← fragmentsOf symbol).mapM fun fragment => do
    match (← kindOf fragment).header? with
    | some header => checkHeader kind header.span [] header.modifiers
    | none => return []
  let written := written.flatten
  match visibilityConflict? written with
  | some (first, second, span) =>
    report ((Diagnostic.error .modifier s!"`{first.word}` conflicts with `{second.word}`").label
      span
      "conflicting visibility")
  | none => pure ()
  match written.find? fun entry => entry.1 = .isAbstract, written.find? fun entry =>
    entry.1 = .isFinal with
  | some _, some (_, span) =>
    report ((Diagnostic.error .modifier "`abstract` conflicts with `final`").label span
      "conflicting modifier")
  | _, _ => pure ()

end Resolve
end Resolution
