import Resolution.Handle
import Resolution.Span

/-!
# Declaration headers

The part every declaration shares: its name, the modifiers written on it and its decorations.
Modifiers are located at the name.
-/

namespace Resolution

/-- Keyword that qualifies a declaration. -/
inductive Modifier where
  | isPublic
  | isPrivate
  | isProtected
  | isConst
  | isFinal
  | isPure
  | isStatic
  | isVirtual
  | isOverride
  | isAbstract
  | isImport
  | isExport
  | isInline
  deriving DecidableEq, Repr

namespace Modifier

def all : List Modifier :=
  [.isPublic, .isPrivate, .isProtected, .isConst, .isFinal, .isPure, .isStatic, .isVirtual,
    .isOverride, .isAbstract, .isImport, .isExport, .isInline]

def word : Modifier → String
  | .isPublic => "public"
  | .isPrivate => "private"
  | .isProtected => "protected"
  | .isConst => "const"
  | .isFinal => "final"
  | .isPure => "pure"
  | .isStatic => "static"
  | .isVirtual => "virtual"
  | .isOverride => "override"
  | .isAbstract => "abstract"
  | .isImport => "import"
  | .isExport => "export"
  | .isInline => "inline"

def ofWord? (written : String) : Option Modifier := all.find? fun modifier =>
    modifier.word == written

end Modifier

/-- Name, modifiers and decorations of a declaration. -/
structure Header where
  name : String
  span : Span
  modifiers : List Modifier := []
  decorations : List NodeId := []
  deriving DecidableEq, Repr, Inhabited

namespace Header

def has (header : Header) (modifier : Modifier) : Bool := header.modifiers.contains modifier

/-- Write a further modifier. -/
def withModifier (header : Header) (modifier : Modifier) : Header :=
  { header with modifiers := header.modifiers ++ [modifier] }

/-- Write a further decoration. -/
def withDecoration (header : Header) (decoration : NodeId) : Header :=
  { header with decorations := header.decorations ++ [decoration] }

end Header

end Resolution
