import Resolution.Expression.Operator
import Resolution.Proofs.CommonTypes
import Resolution.Proofs.ErrorFree

/-!
# Promotion of numbers

An operator on numbers counts an enum as an integer when it looks for the type of the calculation,
while the enum itself converts to `int` and `double` only.  So both operands of an operator on
numbers convert to the type that `promote` chooses, except for an enum beside a `float`.
-/

namespace Resolution
namespace Types

variable {types : Types} {source target first second : TypeId}

/-- The built-in types stand at their positions, and numbers have no bases. -/
structure HasNumbers (types : Types) : Prop where
  builtins : types.HasBuiltins
  baseless : ∀ type entry, isNumeric type = true → types.entries.get? type = some entry →
    entry.related = []

/-- A type without bases has no other type among them. -/
theorem hasBase_of_baseless {entry : TypeEntry} (stored : types.entries.get? source = some entry)
    (baseless : entry.kind.isObject = false ∨ entry.related = []) (target : TypeId) :
    types.hasBase source target = .ok false := by
  unfold hasBase hasBaseWithin
  refine (except_bind_eq_ok_iff ..).mpr ⟨entry, entry_eq_ok_iff.mpr stored, ?_⟩
  cases isObject : entry.kind.isObject with
  | false => rfl
  | true =>
    have noBases : entry.related = [] := baseless.resolve_left (by rw [isObject]; nofun)
    rw [noBases]
    rfl

theorem HasNumbers.convertsImplicitly_number (numbers : types.HasNumbers)
    (numeric : isNumeric source = true)
    (also : isNumeric target = true) :
    types.convertsImplicitly source target = .ok (source == target || isReal target) := by
  obtain ⟨entry, stored, _⟩ := kind_eq_ok_iff.mp (numbers.builtins.kind_of_numeric numeric)
  have noBase := hasBase_of_baseless stored (.inr (numbers.baseless source entry numeric stored))
    target
  have noEnum := numbers.builtins.isEnum_of_numeric numeric
  unfold convertsImplicitly
  rcases numeric_cases numeric with rfl | rfl | rfl <;> rcases numeric_cases also with
    rfl | rfl | rfl <;>
    rw [noEnum, noBase] <;> rfl

theorem HasNumbers.convertsImplicitly_enum (numbers : types.HasNumbers)
    (isEnum : types.isEnum source = .ok true)
    (numeric : isNumeric target = true) :
    types.convertsImplicitly source target = .ok (target != .float) := by
  rcases numeric_cases numeric with rfl | rfl | rfl
  · exact numbers.builtins.converts_of_isEnum isEnum (.inl rfl)
  · obtain ⟨entry, stored, sort⟩ := isEnum_eq_ok_iff.mp isEnum
    have noObject : entry.kind.isObject = false := by
      cases kind : entry.kind <;> rw [kind] at sort <;> first | rfl | cases sort
    have noNumber : ¬(isNumeric source && isReal .float) = true := by
      intro number
      rw [numbers.builtins.isEnum_of_numeric (Bool.and_eq_true_iff.mp number).1] at isEnum
      cases isEnum
    have sound : ¬(source = .float ∨ source = .error ∨ TypeId.float = .error) := by
      rintro (rfl | rfl | failed)
      · exact noNumber rfl
      · unfold Types.isEnum at isEnum
        rw [numbers.builtins.kind .error rfl] at isEnum
        cases isEnum
      · cases failed
    unfold convertsImplicitly
    rw [if_neg sound, if_neg (numbers.builtins.ne_null_of_isEnum isEnum), if_neg noNumber, isEnum]
    exact hasBase_of_baseless stored (.inl noObject) .float
  · exact numbers.builtins.converts_of_isEnum isEnum (.inr rfl)

theorem HasNumbers.common?_number (numbers : types.HasNumbers) (numeric : isNumeric first = true)
    (also : isNumeric second = true) :
    types.common? first second = .ok (some (if isReal second then second else first)) := by
  have forward := numbers.convertsImplicitly_number numeric also
  have backward := numbers.convertsImplicitly_number also numeric
  rcases numeric_cases numeric with rfl | rfl | rfl <;> rcases numeric_cases also with
    rfl | rfl | rfl
  all_goals first
    | exact common?_of_joins (.same rfl)
    | exact common?_of_joins (.forward (by decide) (by decide) forward)
    | exact common?_of_joins (.backward forward backward)

theorem isNumeric_counted (builtins : types.HasBuiltins)
    (number : types.isNumberLike source = .ok true) :
    ∃ isEnum, types.isEnum source = .ok isEnum ∧ isNumeric (if isEnum then .int else source) =
    true ∧
      (isEnum = true → isNumeric source = false) := by
  unfold isNumberLike at number
  split at number
  · rename_i numeric
    exact ⟨false, builtins.isEnum_of_numeric numeric, numeric, nofun⟩
  · rename_i noNumber
    exact ⟨true, number, rfl, fun _ => by simpa using noNumber⟩

/-- Two types that stand for numbers have a common type once enums count as integers.  Each converts
to it, unless it is an enum and the other one is `float`. -/
theorem HasNumbers.common_of_numbers (numbers : types.HasNumbers)
    (leftNumber : types.isNumberLike first = .ok true)
    (rightNumber : types.isNumberLike second = .ok true) :
    ∃ leftEnum rightEnum common, types.isEnum first = .ok leftEnum ∧
    types.isEnum second = .ok rightEnum ∧
      types.common? (if leftEnum then .int else first) (if rightEnum then .int else second) =
      .ok (some common) ∧
      types.convertsImplicitly first common = .ok (!(leftEnum && second == .float)) ∧
      types.convertsImplicitly second common = .ok (!(rightEnum && first == .float)) := by
  obtain ⟨leftEnum, leftSort, leftCounts, leftPlain⟩ :=
    isNumeric_counted numbers.builtins leftNumber
  obtain ⟨rightEnum, rightSort, rightCounts, rightPlain⟩ :=
    isNumeric_counted numbers.builtins rightNumber
  refine ⟨leftEnum, rightEnum, _, leftSort, rightSort,
    numbers.common?_number leftCounts rightCounts, ?_⟩
  have apart {type : TypeId} (plain : isNumeric type = false) : (type == .float) = false := by
    refine beq_eq_false_iff_ne.mpr ?_
    rintro rfl
    cases plain
  cases leftEnum <;> cases rightEnum
  · -- Two numbers: one of them is the common type, and the other converts to it.
    rcases numeric_cases leftCounts with rfl | rfl | rfl <;> rcases numeric_cases rightCounts with
      rfl | rfl | rfl <;>
      exact ⟨numbers.convertsImplicitly_number rfl rfl, numbers.convertsImplicitly_number rfl rfl⟩
  · rcases numeric_cases leftCounts with rfl | rfl | rfl <;>
      exact ⟨convertsImplicitly_self _, numbers.convertsImplicitly_enum rightSort rfl⟩
  · rcases numeric_cases rightCounts with rfl | rfl | rfl <;>
      exact ⟨numbers.convertsImplicitly_enum leftSort rfl, convertsImplicitly_self _⟩
  · rw [apart (leftPlain rfl), apart (rightPlain rfl)]
    exact ⟨numbers.convertsImplicitly_enum leftSort rfl,
      numbers.convertsImplicitly_enum rightSort rfl⟩

end Types

namespace Resolve

variable {site : Surroundings} {store : Store} {left right : NodeId} {leftType rightType : TypeId}

theorem run_askTypes {α : Type} {question : Types → Except Fault α} {answer : α}
    (answered : question store.types = .ok answer) :
    askTypes question site store = .ok (answer, []) store := by
  simp only [askTypes, ask, act, Reporting.silent, answered]

/-- Two operands that stand for numbers have a type for their calculation.  Each converts to it,
unless it is an enum and the other one is a `float`. -/
theorem promote_reaches_operands (numbers : store.types.HasNumbers)
    (leftTyped : typeOf left site store = .ok (leftType, []) store)
    (rightTyped : typeOf right site store = .ok (rightType, []) store)
    (leftNumber : store.types.isNumberLike leftType = .ok true)
    (rightNumber : store.types.isNumberLike rightType = .ok true) :
    ∃ leftEnum rightEnum common, store.types.isEnum leftType = .ok leftEnum ∧
      store.types.isEnum rightType = .ok rightEnum ∧
      promote left right site store = .ok (some common, []) store ∧
      store.types.convertsImplicitly leftType common = .ok (!(leftEnum && rightType == .float)) ∧
      store.types.convertsImplicitly rightType common = .ok (!(rightEnum && leftType == .float)) :=
  by
  obtain ⟨leftEnum, rightEnum, common, leftSort, rightSort, chosen, reaches⟩ :=
    numbers.common_of_numbers leftNumber rightNumber
  have counts {type : TypeId} {isEnum : Bool} (sort : store.types.isEnum type = .ok isEnum) :
      numberType type site store = .ok (if isEnum then .int else type, []) store :=
    bind_eq_ok_iff.mpr ⟨isEnum, [], store, [], run_askTypes sort, rfl, rfl⟩
  refine ⟨leftEnum, rightEnum, common, leftSort, rightSort, ?_, reaches⟩
  refine bind_eq_ok_iff.mpr ⟨_, [], store, [], leftTyped, ?_, rfl⟩
  refine bind_eq_ok_iff.mpr ⟨_, [], store, [], counts leftSort, ?_, rfl⟩
  refine bind_eq_ok_iff.mpr ⟨_, [], store, [], rightTyped, ?_, rfl⟩
  exact bind_eq_ok_iff.mpr ⟨_, [], store, [], counts rightSort, run_askTypes chosen, rfl⟩

end Resolve
end Resolution
