import Resolution.Chain
import Resolution.Type.Basic

/-!
# Conversions

Which types convert to which, implicitly or by a cast, and the type that two types have in common.
-/

namespace Resolution
namespace Types

/-- Integers and reals. -/
def isNumeric (type : TypeId) : Bool := type == .int || type == .float || type == .double

def isReal (type : TypeId) : Bool := type == .float || type == .double

variable (types : Types)

/-- Enums and sets of flags. -/
def isEnum (type : TypeId) : Except Fault Bool := return (← types.kind type).isEnum

def isFlags (type : TypeId) : Except Fault Bool := return (← types.kind type) == .flags

/-- Integers and what is represented by them. -/
def isIntegerLike (type : TypeId) : Except Fault Bool :=
  if type == .int then return true else types.isEnum type

/-- Numbers and what is represented by them. -/
def isNumberLike (type : TypeId) : Except Fault Bool :=
  if isNumeric type then return true else types.isEnum type

/-- Types that `null` converts to; plain values are excluded, texts are not. -/
def isReference (type : TypeId) : Except Fault Bool :=
  if type == .bool || isNumeric type then return false
  else return [TypeKind.classType, .interface, .function, .parameter].contains (← types.kind type)

def baseClass? (type : TypeId) : Except Fault (Option TypeId) := do
  let entry ← types.entry type
  if entry.kind ≠ .classType then
    return none
  match entry.related.head? with
  | none => return none
  | some base => return if (← types.kind base) = .classType then some base else none

/-- Whether one type has another among its bases and their bases, within a number of steps. -/
def hasBaseWithin : Nat → TypeId → TypeId → Except Fault Bool
  | 0, _, _ => .error .outOfFuel
  | fuel + 1, type, base => do
    let entry ← types.entry type
    if !entry.kind.isObject then
      return false
    entry.related.anyM fun parent =>
      if parent = base then return true else hasBaseWithin fuel parent base

/-- Whether one type has another among its bases and their bases. -/
def hasBase (type base : TypeId) : Except Fault Bool :=
  types.hasBaseWithin (types.size + 1) type base

/-- Whether a value of one type may stand where another type is expected. -/
def convertsImplicitly (source target : TypeId) : Except Fault Bool := do
  if source = target ∨ source = .error ∨ target = .error then
    return true
  if source = .null then
    return ← types.isReference target
  if isNumeric source && isReal target then
    return true
  if (← types.isEnum source) && (target == .int || target == .double) then
    return true
  types.hasBase source target

/-- Whether a value of one type may be cast to another. -/
def convertsExplicitly (source target : TypeId) : Except Fault Bool := do
  if ← types.convertsImplicitly source target then
    return true
  let fromNumber ← types.isNumberLike source
  if fromNumber && isNumeric target then
    return true
  if (fromNumber && target == .bool) || (source == .bool && isNumeric target) then
    return true
  if source = .int then
    if ← types.isEnum target then
      return true
  types.hasBase target source

/-- First base class of one class that another class has as a base. -/
def commonBase? (type other : TypeId) : Except Fault (Option TypeId) := do
  match ← types.baseClass? type with
  | none => return none
  | some first =>
    Chain.find? types.baseClass?
      (fun base => return if ← types.hasBase other base then some base else none)
      (types.size + 1) first

/-- The type that two types convert to: one of them, a number, or the nearest common base class. -/
def common? (first second : TypeId) : Except Fault (Option TypeId) := do
  if first = second then
    return some first
  if first = .error ∨ second = .error then
    return some .error
  if ← types.convertsImplicitly first second then
    return some second
  if ← types.convertsImplicitly second first then
    return some first
  if ← types.isNumberLike first then
    if ← types.isNumberLike second then
      if ← types.isIntegerLike first then
        if ← types.isIntegerLike second then
          return some .int
      return some .double
  if (← types.kind first) = .classType then
    if (← types.kind second) = .classType then
      return ← types.commonBase? first second
  return none

end Types
end Resolution
