/-!
# Diagnostic codes

Every problem a resolution can report has a code of its own.  Codes print as a letter and four
digits: `E2` for names and types, `E9` for limits of the resolution itself, `W2` for warnings.
-/

namespace Resolution

/-- What a diagnostic is about. -/
inductive Code where
  /-- No implicit conversion between two types. -/
  | mismatch
  | undeclared
  | redeclared
  | cycle
  | modifier
  | notType
  | typeAsValue
  | typeArgumentCount
  | invalidBase
  | finalBase
  /-- An extension without a declaration to extend. -/
  | strayExtension
  | uninferable
  | voidValue
  | constWithoutValue
  | impure
  | inaccessible
  /-- An instance member without an instance, or a static member through one. -/
  | wrongInstance
  | ambiguous
  | unmergeable
  | mergedTypes
  /-- Inherited members of different purity. -/
  | mergedPurity
  /-- An overriding member without the modifier. -/
  | missingOverride
  | overridesNonVirtual
  | overrideType
  | overridePurity
  /-- The modifier without a member to override. -/
  | overridesNothing
  | unimplemented
  | abstractInstance
  /-- An abstract function with a body, or another one without. -/
  | bodyMismatch
  | noOverload
  | ambiguousOverload
  | operatorMismatch
  | invalidCast
  | notCallable
  | argumentCount
  | notAssignable
  | invalidReturn
  | strayJump
  | duplicateCase
  | duplicateDefault
  | invalidDecoration
  | noEntryPoint
  | duplicateEntryPoint
  | invalidSuper
  | unknownInitializer
  | tooDeep
  | notConstant
  | tooManyErrors
  | unusedValue
  | repeatedModifier
  deriving DecidableEq, Repr

namespace Code

/-- Every code, in order. -/
def all : List Code :=
  [.mismatch, .undeclared, .redeclared, .cycle, .modifier, .notType, .typeAsValue,
    .typeArgumentCount,
    .invalidBase, .finalBase, .strayExtension, .uninferable, .voidValue, .constWithoutValue,
      .impure,
    .inaccessible, .wrongInstance, .ambiguous, .unmergeable, .mergedTypes, .mergedPurity,
    .missingOverride, .overridesNonVirtual, .overrideType, .overridePurity, .overridesNothing,
    .unimplemented, .abstractInstance, .bodyMismatch, .noOverload, .ambiguousOverload,
    .operatorMismatch, .invalidCast, .notCallable, .argumentCount, .notAssignable, .invalidReturn,
    .strayJump, .duplicateCase, .duplicateDefault, .invalidDecoration, .noEntryPoint,
    .duplicateEntryPoint, .invalidSuper, .unknownInitializer, .tooDeep, .notConstant,
      .tooManyErrors,
    .unusedValue, .repeatedModifier]

/-- Printed form of a code. -/
def text : Code → String
  | .mismatch => "E2001"
  | .undeclared => "E2002"
  | .redeclared => "E2003"
  | .cycle => "E2004"
  | .modifier => "E2005"
  | .notType => "E2006"
  | .typeAsValue => "E2007"
  | .typeArgumentCount => "E2008"
  | .invalidBase => "E2009"
  | .finalBase => "E2010"
  | .strayExtension => "E2011"
  | .uninferable => "E2012"
  | .voidValue => "E2013"
  | .constWithoutValue => "E2014"
  | .impure => "E2015"
  | .inaccessible => "E2016"
  | .wrongInstance => "E2017"
  | .ambiguous => "E2018"
  | .unmergeable => "E2019"
  | .mergedTypes => "E2020"
  | .mergedPurity => "E2021"
  | .missingOverride => "E2022"
  | .overridesNonVirtual => "E2023"
  | .overrideType => "E2024"
  | .overridePurity => "E2025"
  | .overridesNothing => "E2026"
  | .unimplemented => "E2027"
  | .abstractInstance => "E2028"
  | .bodyMismatch => "E2029"
  | .noOverload => "E2030"
  | .ambiguousOverload => "E2031"
  | .operatorMismatch => "E2032"
  | .invalidCast => "E2033"
  | .notCallable => "E2034"
  | .argumentCount => "E2035"
  | .notAssignable => "E2036"
  | .invalidReturn => "E2037"
  | .strayJump => "E2038"
  | .duplicateCase => "E2039"
  | .duplicateDefault => "E2040"
  | .invalidDecoration => "E2041"
  | .noEntryPoint => "E2042"
  | .duplicateEntryPoint => "E2043"
  | .invalidSuper => "E2044"
  | .unknownInitializer => "E2045"
  | .tooDeep => "E2046"
  | .notConstant => "E2047"
  | .tooManyErrors => "E9002"
  | .unusedValue => "W2001"
  | .repeatedModifier => "W2002"

/-- Read a printed code; the letter may be written small. -/
def parse? (written : String) : Option Code :=
  let upper := written.toList.map Char.toUpper
  all.find? fun code => code.text.toList == upper

/-- Codes about overriding. -/
def isOverride (code : Code) : Bool :=
  [missingOverride, overridesNonVirtual, overrideType, overridePurity, overridesNothing].contains
    code

/-- Codes about merging inherited members. -/
def isMerge (code : Code) : Bool := [unmergeable, mergedTypes, mergedPurity].contains code

/-- The code of a limit of the resolution itself. -/
def isLimit (code : Code) : Bool := code == tooManyErrors

/-- Codes of warnings. -/
def isWarning (code : Code) : Bool := [unusedValue, repeatedModifier].contains code

def position (code : Code) : Nat := all.idxOf code

end Code

end Resolution
