import Resolution.Proofs.CommonTypes

/-!
# The nearest common base class

The search for a common type goes along the base classes of one type and looks each up among all
bases of the other.  Where classes have one base class at most and interfaces extend interfaces
only, a class among the bases of a type is found along its base classes.  So the base classes of a
type form a chain, two chains that meet go on together, and the class where they meet is the common
type, whichever type comes first.
-/

namespace Resolution
namespace Types

variable {types : Types} {first second base type : TypeId}

/-! ## Base classes -/

theorem kind_of_superclasses (path : Relation.ReflTransGen types.Superclass type base)
    (isClass : types.kind type = .ok .classType) : types.kind base = .ok .classType := by
  induction path with
  | refl => exact isClass
  | tail _ step _ =>
    obtain ⟨_, _, _, _, isBase⟩ := superclass_iff.mp step
    exact isBase

/-- The search finds the first class that the other type has as a base, so all other such classes
come after it. -/
theorem Searches.nearest {fuel : Nat} {start other : TypeId} {answer : Option TypeId}
    (searches : types.Searches other fuel start answer) : (∀ nearest, answer = some nearest →
        Relation.ReflTransGen types.Superclass start nearest ∧ types.hasBase other nearest =
        .ok true) ∧
      ∀ base, Relation.ReflTransGen types.Superclass start base →
      types.hasBase other base = .ok true →
        ∃ nearest, answer = some nearest ∧ Relation.ReflTransGen types.Superclass nearest base := by
  induction searches with
  | here isBase =>
    refine ⟨?_, fun base path _ => ⟨_, rfl, path⟩⟩
    rintro _ ⟨⟩
    exact ⟨.refl, isBase⟩
  | last fails ends =>
    refine ⟨nofun, fun base path isBase => ?_⟩
    rcases Relation.ReflTransGen.cases_head path with rfl | ⟨parent, superclass, _⟩
    · exact absurd isBase fails
    · rw [Superclass, ends] at superclass
      cases superclass
  | further fails step _ ih =>
    obtain ⟨finds, least⟩ := ih
    refine ⟨fun nearest chosen => (finds nearest chosen).imp_left (.head step),
      fun base path isBase => ?_⟩
    rcases Relation.ReflTransGen.cases_head path with rfl | ⟨parent, superclass, rest⟩
    · exact absurd isBase fails
    · rw [superclass_unique superclass step] at rest
      exact least base rest isBase

/-- Classes have one base class at most, which comes first, all other bases are interfaces, built-in
numbers have no bases, and no type is among its own bases. -/
structure Lineal (types : Types) : Prop where
  builtins : types.HasBuiltins
  bases : ∀ type entry position base, types.entries.get? type = some entry →
    entry.kind.isObject = true →
    entry.related[position]? = some base → ∃ above, types.entries.get? base = some above ∧
      (above.kind = .interface ∨ above.kind = .classType ∧ entry.kind = .classType ∧ position = 0)
  numbers : ∀ type entry, isNumeric type = true → types.entries.get? type = some entry →
    entry.related = []
  acyclic : ∀ type, ¬Relation.TransGen types.Derives type type

namespace Lineal

variable {type base : TypeId}

theorem base_isObject (lineal : types.Lineal) (derives : types.Derives type base) :
    ∃ above, types.entries.get? base = some above ∧ above.kind.isObject = true := by
  obtain ⟨entry, stored, isObject, listed⟩ := derives
  obtain ⟨position, _, here⟩ := List.mem_iff_getElem.mp listed
  obtain ⟨above, found, sort⟩ :=
    lineal.bases type entry position base stored isObject (List.getElem?_eq_some_iff.mpr ⟨_, here⟩)
  refine ⟨above, found, ?_⟩
  rcases sort with isInterface | ⟨isClass, _⟩
  · rw [isInterface]
    rfl
  · rw [isClass]
    rfl

theorem ordered (lineal : types.Lineal) : types.Ordered where
  stored type base derives := by
    obtain ⟨above, found, _⟩ := lineal.base_isObject derives
    exact ⟨above, found⟩
  acyclic := lineal.acyclic

theorem superclass_of_derives (lineal : types.Lineal) (derives : types.Derives type base)
    (isClass : types.kind base = .ok .classType) : types.Superclass type base := by
  obtain ⟨entry, stored, isObject, listed⟩ := derives
  obtain ⟨position, _, here⟩ := List.mem_iff_getElem.mp listed
  have placed := List.getElem?_eq_some_iff.mpr ⟨_, here⟩
  obtain ⟨above, found, sort⟩ := lineal.bases type entry position base stored isObject placed
  obtain ⟨_, same, kind⟩ := kind_eq_ok_iff.mp isClass
  cases found.symm.trans same
  rcases sort with isInterface | ⟨_, alsoClass, rfl⟩
  · rw [kind] at isInterface
    cases isInterface
  · exact superclass_iff.mpr ⟨entry, stored,
      alsoClass, by rw [List.head?_eq_getElem?, placed], isClass⟩

/-- Interfaces lead to interfaces only, so the way up to a class goes along base classes. -/
theorem superclasses_of_derives (lineal : types.Lineal)
    (path : Relation.TransGen types.Derives type base)
    (isClass : types.kind base = .ok .classType) :
    Relation.TransGen types.Superclass type base := by
  induction path using Relation.TransGen.head_induction_on with
  | single derives => exact .single (lineal.superclass_of_derives derives isClass)
  | head derives _ ih =>
    obtain ⟨_, step, _⟩ := Relation.TransGen.head'_iff.mp ih
    obtain ⟨entry, stored, alsoClass, _⟩ := superclass_iff.mp step
    have kind := kind_eq_ok_iff.mpr ⟨entry, stored, alsoClass⟩
    exact .head (lineal.superclass_of_derives derives kind) ih

end Lineal

/-! ## The nearest base class -/

/-- A class that two types have as a base. -/
def IsCommonBase (types : Types) (first second base : TypeId) : Prop :=
  types.kind base = .ok .classType ∧ types.hasBase first base = .ok true ∧
    types.hasBase second base = .ok true

/-- A common base class that has all other ones as bases. -/
def IsNearestBase (types : Types) (first second base : TypeId) : Prop :=
  types.IsCommonBase first second base ∧
    ∀ other, types.IsCommonBase first second other → other ≠ base →
      types.hasBase base other = .ok true

theorem IsCommonBase.symm (common : types.IsCommonBase first second base) :
    types.IsCommonBase second first base :=
  ⟨common.1, common.2.2, common.2.1⟩

theorem IsNearestBase.symm (nearest : types.IsNearestBase first second base) :
    types.IsNearestBase second first base :=
  ⟨nearest.1.symm, fun other common => nearest.2 other common.symm⟩

namespace Lineal

variable {known entry : TypeEntry} {other : TypeId}

variable (lineal : types.Lineal)

include lineal

theorem hasBase_iff (type base : TypeId) :
    types.hasBase type base = .ok true ↔ Relation.TransGen types.Derives type base :=
  lineal.ordered.hasBase_iff type base

theorem nearest_unique (one : types.IsNearestBase first second base)
    (two : types.IsNearestBase first second other) : base = other := by
  by_contra differ
  have up := (lineal.hasBase_iff base other).mp (one.2 other two.1 (Ne.symm differ))
  have down := (lineal.hasBase_iff other base).mp (two.2 base one.1 differ)
  exact lineal.acyclic base (up.trans down)

theorem commonBase?_answers (stored : types.entries.get? first = some entry)
    (otherStored : types.entries.get? second = some known) :
    ∃ answer, types.commonBase? first second = .ok answer ∧
      (answer = none ↔ ¬∃ base, types.IsCommonBase first second base) ∧
      ∀ base, answer = some base → types.IsNearestBase first second base := by
  obtain ⟨answer, found⟩ := lineal.ordered.answers_commonBase? stored otherStored
  -- A common base class is the base class of the first type, or comes after it.
  have onwards : ∀ base, types.IsCommonBase first second base →
      ∃ parent, types.Superclass first parent ∧
        Relation.ReflTransGen types.Superclass parent base := by
    rintro base ⟨isClass, isBase, _⟩
    exact Relation.TransGen.head'_iff.mp
      (lineal.superclasses_of_derives ((lineal.hasBase_iff first base).mp isBase) isClass)
  refine ⟨answer, found, ?_⟩
  unfold commonBase? at found
  obtain ⟨start, stepped, walked⟩ := (except_bind_eq_ok_iff ..).mp found
  cases start with
  | none =>
    cases walked
    refine ⟨iff_of_true rfl ?_, nofun⟩
    rintro ⟨base, common⟩
    obtain ⟨parent, superclass, _⟩ := onwards base common
    rw [Superclass, stepped] at superclass
    cases superclass
  | some start =>
    obtain ⟨finds, least⟩ := (searches_of_find? walked).nearest
    have reaches : ∀ base, types.IsCommonBase first second base →
        ∃ nearest, answer = some nearest ∧ Relation.ReflTransGen types.Superclass nearest base := by
      intro base common
      obtain ⟨parent, superclass, path⟩ := onwards base common
      rw [superclass_unique superclass stepped] at path
      exact least base path common.2.2
    have nearest : ∀ base, answer = some base → types.IsNearestBase first second base := by
      intro base chosen
      obtain ⟨path, isBase⟩ := finds base chosen
      obtain ⟨_, _, _, _, startClass⟩ := superclass_iff.mp stepped
      have up : Relation.TransGen types.Superclass first base := .head' stepped path
      refine ⟨⟨kind_of_superclasses path startClass, ?_, isBase⟩, fun other common differs => ?_⟩
      · exact (lineal.hasBase_iff first base).mpr (up.lift id fun _ _ => Superclass.derives)
      · obtain ⟨_, again, after⟩ := reaches other common
        cases chosen.symm.trans again
        rcases Relation.reflTransGen_iff_eq_or_transGen.mp after with same | further
        · exact absurd same differs
        · exact (lineal.hasBase_iff base other).mpr (further.lift id fun _ _ => Superclass.derives)
    refine ⟨⟨?_, fun absent => ?_⟩, nearest⟩
    · rintro rfl ⟨base, common⟩
      obtain ⟨_, ⟨⟩, _⟩ := reaches base common
    · cases answer with
      | none => rfl
      | some base => exact absurd ⟨base, (nearest base rfl).1⟩ absent

/-- Which of two types comes first does not matter for the base class they have in common. -/
theorem commonBase?_comm (stored : types.entries.get? first = some entry)
    (otherStored : types.entries.get? second = some known) :
    types.commonBase? first second = types.commonBase? second first := by
  obtain ⟨answer, found, absent, nearest⟩ := lineal.commonBase?_answers stored otherStored
  obtain ⟨other, foundAlso, absentAlso, nearestAlso⟩ :=
    lineal.commonBase?_answers otherStored stored
  have both : (∃ base, types.IsCommonBase first second base) ↔
    ∃ base, types.IsCommonBase second first base :=
    exists_congr fun _ => ⟨IsCommonBase.symm, IsCommonBase.symm⟩
  rw [found, foundAlso]
  congr 1
  cases answer with
  | none => exact (absentAlso.mpr (both.not.mp (absent.mp rfl))).symm
  | some base =>
    cases other with
    | none => exact absurd ⟨base, (nearest base rfl).1⟩ (both.not.mpr (absentAlso.mp rfl))
    | some known => rw [lineal.nearest_unique (nearest base rfl) (nearestAlso known rfl).symm]

end Lineal

/-! ## The order of the two types -/

namespace Lineal

theorem not_hasBase_null (lineal : types.Lineal) (type : TypeId) :
    types.hasBase type .null ≠ .ok true := by
  intro isBase
  obtain ⟨parent, _, derives⟩ :=
    Relation.TransGen.tail'_iff.mp ((lineal.hasBase_iff type .null).mp isBase)
  obtain ⟨above, found, isObject⟩ := lineal.base_isObject derives
  obtain ⟨_, same, kind⟩ := kind_eq_ok_iff.mp (lineal.builtins.kind .null rfl)
  cases found.symm.trans same
  rw [kind] at isObject
  cases isObject

/-- Built-in numbers have no bases. -/
theorem not_hasBase_of_numeric (lineal : types.Lineal) (numeric : isNumeric type = true)
    (base : TypeId) : types.hasBase type base ≠ .ok true := by
  intro isBase
  obtain ⟨parent, ⟨entry, stored, _, listed⟩, _⟩ :=
    Relation.TransGen.head'_iff.mp ((lineal.hasBase_iff type base).mp isBase)
  rw [lineal.numbers type entry numeric stored] at listed
  cases listed

theorem isReal_of_converts (lineal : types.Lineal) (distinct : first ≠ second)
    (sound : ¬(first = .error ∨ second = .error)) (forward : types.Conversion first second)
    (backward : types.Conversion second first) : isReal first = true ∧ isReal second = true := by
  have noEnum : ∀ type, isNumeric type = true → types.isEnum type ≠ .ok true := by
    intro type numeric isEnum
    rw [lineal.builtins.isEnum_of_numeric numeric] at isEnum
    cases isEnum
  have numeric_of_real : ∀ type, isReal type = true → isNumeric type = true := by
    intro type real
    unfold isReal at real
    unfold isNumeric
    rw [Bool.or_assoc, real, Bool.or_true]
  have numeric_of_wide : ∀ type, type = .int ∨ type = .double → isNumeric type = true := by
    rintro type (rfl | rfl) <;> rfl
  cases forward with
  | same equal => exact absurd equal distinct
  | error failed => exact absurd failed sound
  | null isNull _ =>
    subst isNull
    cases backward with
    | same equal => exact absurd equal.symm distinct
    | error failed => exact absurd failed.symm sound
    | null alsoNull _ => exact absurd alsoNull.symm distinct
    | number _ real => cases real
    | enum _ wide => cases numeric_of_wide _ wide
    | base isBase => exact absurd isBase (lineal.not_hasBase_null second)
  | number numeric real =>
    have alsoNumeric := numeric_of_real second real
    cases backward with
    | same equal => exact absurd equal.symm distinct
    | error failed => exact absurd failed.symm sound
    | null isNull _ =>
      subst isNull
      cases real
    | number _ alsoReal => exact ⟨alsoReal, real⟩
    | enum isEnum _ => exact absurd isEnum (noEnum second alsoNumeric)
    | base isBase => exact absurd isBase (lineal.not_hasBase_of_numeric alsoNumeric first)
  | enum isEnum wide =>
    have numeric := numeric_of_wide second wide
    cases backward with
    | same equal => exact absurd equal.symm distinct
    | error failed => exact absurd failed.symm sound
    | null isNull _ =>
      subst isNull
      cases numeric
    | number _ real => exact absurd isEnum (noEnum first (numeric_of_real first real))
    | enum alsoEnum _ => exact absurd alsoEnum (noEnum second numeric)
    | base isBase => exact absurd isBase (lineal.not_hasBase_of_numeric numeric first)
  | base isBase =>
    cases backward with
    | same equal => exact absurd equal.symm distinct
    | error failed => exact absurd failed.symm sound
    | null isNull _ =>
      subst isNull
      exact absurd isBase (lineal.not_hasBase_null first)
    | number _ real =>
      exact absurd isBase (lineal.not_hasBase_of_numeric (numeric_of_real first real) second)
    | enum _ wide =>
      exact absurd isBase (lineal.not_hasBase_of_numeric (numeric_of_wide first wide) second)
    | base alsoBase =>
      exact absurd (((lineal.hasBase_iff first second).mp isBase).trans
        ((lineal.hasBase_iff second first).mp alsoBase)) (lineal.acyclic first)

end Lineal

/-- Not both of two tests succeed, in either order. -/
theorem not_both_symm {one two : Except Fault Bool} (answers : Answers two)
    (fails : one = .ok false ∨ one = .ok true ∧ two = .ok false) :
    two = .ok false ∨ two = .ok true ∧ one = .ok false := by
  obtain ⟨answer, answered⟩ := answers
  rcases fails with failed | ⟨_, failed⟩
  · cases answer with
    | false => exact .inl answered
    | true => exact .inr ⟨answered, failed⟩
  · exact .inl failed

/-- A common type is found the other way round as well. -/
theorem Lineal.joins_symm (lineal : types.Lineal) {entry known : TypeEntry}
    (stored : types.entries.get? first = some entry)
    (otherStored : types.entries.get? second = some known)
    (notReals : ¬(first = .float ∧ second = .double ∨ first = .double ∧ second = .float))
    {answer : Option TypeId}
    (joins : types.Joins first second answer) : types.Joins second first answer := by
  cases joins with
  | same equal =>
    subst equal
    exact .same rfl
  | error distinct failed => exact .error distinct.symm failed.symm
  | forward distinct sound converts =>
    obtain ⟨back, asked⟩ := lineal.ordered.answers_convertsImplicitly otherStored stored
    cases back with
    | false => exact .backward asked converts
    | true =>
      obtain ⟨real, alsoReal⟩ := lineal.isReal_of_converts distinct sound
        (conversion_of_converts converts)
        (conversion_of_converts asked)
      simp only [isReal, Bool.or_eq_true, beq_iff_eq] at real alsoReal
      grind
  | backward fails converts =>
    obtain ⟨distinct, sound⟩ := ne_of_not_converts fails
    exact .forward distinct.symm (fun failed => sound failed.symm) converts
  | integer apart left right => exact .integer apart.symm right left
  | number apart left right mixed =>
    exact .number apart.symm right left (not_both_symm (answers_isIntegerLike otherStored) mixed)
  | nearest apart plain left right found =>
    refine .nearest apart.symm (not_both_symm (answers_isNumberLike otherStored) plain) right left
      ?_
    rw [← lineal.commonBase?_comm stored otherStored, found]
  | unrelated apart plain left noClass =>
    have sort : types.kind second = .ok known.kind := kind_eq_ok_iff.mpr ⟨known, otherStored, rfl⟩
    refine .unrelated apart.symm (not_both_symm (answers_isNumberLike otherStored) plain) sort ?_
    by_cases isClass : known.kind = .classType
    · refine .inr ⟨isClass, _, left, ?_⟩
      rcases noClass with noClass | ⟨_, other, same, noClass⟩
      · exact noClass
      · cases sort.symm.trans same
        exact absurd isClass noClass
    · exact .inl isClass

/-- Which of two types comes first does not matter for their common type, except for the two reals.
Two classes that do not convert to each other and are not both numbers have the nearest of their
common base classes as their common type, and no common type only if they have no base class in
common. -/
theorem common_type_is_nearest (lineal : types.Lineal) :
    (∀ first second, types.Stores first → types.Stores second →
      ¬(first = .float ∧ second = .double ∨ first = .double ∧ second = .float) →
      ∃ answer, types.common? first second = .ok answer ∧ types.common? second first = .ok answer) ∧
    ∀ first second, types.kind first = .ok .classType → types.kind second = .ok .classType →
      types.convertsImplicitly first second = .ok false → types.convertsImplicitly second first =
      .ok false →
      ¬(isNumeric first = true ∧ isNumeric second = true) →
      ∃ answer, types.common? first second = .ok answer ∧
        (answer = none ↔ ¬∃ base, types.IsCommonBase first second base) ∧
        ∀ base, answer = some base ↔ types.IsNearestBase first second base := by
  refine ⟨fun first second firstStores secondStores notReals => ?_, ?_⟩
  · obtain ⟨_, stored⟩ := firstStores.exists_get?
    obtain ⟨_, alsoStored⟩ := secondStores.exists_get?
    obtain ⟨answer, found⟩ := lineal.ordered.answers_common? stored alsoStored
    exact ⟨answer, found, common?_of_joins (lineal.joins_symm stored alsoStored notReals
      (joins_of_common? found))⟩
  · intro first second isClass alsoClass forward backward notNumbers
    obtain ⟨entry, stored, sort⟩ := kind_eq_ok_iff.mp isClass
    obtain ⟨known, alsoStored, alsoSort⟩ := kind_eq_ok_iff.mp alsoClass
    obtain ⟨answer, found, absent, nearest⟩ := lineal.commonBase?_answers stored alsoStored
    -- A class stands for a number only where it is one.
    have numbered : ∀ type entry, types.entries.get? type = some entry → entry.kind = .classType →
        types.isNumberLike type = .ok (isNumeric type) := by
      intro type entry stored sort
      unfold isNumberLike
      split
      · rename_i numeric
        rw [numeric]
        rfl
      · rename_i unnumbered
        rw [Bool.not_eq_true] at unnumbered
        rw [unnumbered]
        exact isEnum_eq_ok_iff.mpr ⟨entry, stored, by rw [sort]; rfl⟩
    have left := numbered first entry stored sort
    have right := numbered second known alsoStored alsoSort
    refine ⟨answer, common?_of_joins (.nearest ⟨forward, backward⟩ ?_ isClass alsoClass found),
      absent, fun base => ?_⟩
    · rw [left, right]
      cases numeric : isNumeric first with
      | false => exact .inl rfl
      | true =>
        exact .inr ⟨rfl, congrArg Except.ok (Bool.eq_false_iff.mpr fun also =>
          notNumbers ⟨numeric, also⟩)⟩
    · refine ⟨nearest base, fun isNearest => ?_⟩
      cases answer with
      | none => exact absurd ⟨base, isNearest.1⟩ (absent.mp rfl)
      | some other => rw [lineal.nearest_unique (nearest other rfl) isNearest]

theorem lineal_siblings : (afterCalls siblingCalls).Lineal where
  builtins := reachable_siblings.hasBuiltins
  bases type entry position base stored isObject listed := by
    have checked : ∀ type entry, (afterCalls siblingCalls).entries.get? type = some entry →
        entry.related.length ≤ 2 ∧ ∀ position < 2, ∀ base ∈ entry.related[position]?,
          ∃ above, (afterCalls siblingCalls).entries.get? base = some above ∧
            (above.kind = .interface ∨ above.kind = .classType ∧ entry.kind = .classType ∧
              position = 0) := by
      decide
    obtain ⟨short, legal⟩ := checked type entry stored
    have bound : position < entry.related.length := (List.getElem?_eq_some_iff.mp listed).1
    exact legal position (by omega) base listed
  numbers type entry numeric stored := by
    have checked : ∀ type entry, (afterCalls siblingCalls).entries.get? type = some entry →
      isNumeric type = true →
        entry.related = [] := by
      decide
    exact checked type entry stored numeric
  acyclic := acyclic_siblings

/-- Of the two common base classes of `Left` and `Right`, `Middle` is the nearer one. -/
theorem common_type_is_nearest_siblings : (afterCalls siblingCalls).Lineal ∧
      (afterCalls siblingCalls).convertsImplicitly ⟨13⟩ ⟨14⟩ = .ok false ∧
      (afterCalls siblingCalls).convertsImplicitly ⟨14⟩ ⟨13⟩ = .ok false ∧
      (afterCalls siblingCalls).common? ⟨13⟩ ⟨14⟩ = .ok (some ⟨12⟩) ∧
      (afterCalls siblingCalls).common? ⟨14⟩ ⟨13⟩ = .ok (some ⟨12⟩) ∧
      (afterCalls siblingCalls).IsCommonBase ⟨13⟩ ⟨14⟩ ⟨11⟩ ∧
      (afterCalls siblingCalls).IsNearestBase ⟨13⟩ ⟨14⟩ ⟨12⟩ := by
  obtain ⟨symmetric, nearest⟩ := common_type_is_nearest lineal_siblings
  have found : (afterCalls siblingCalls).common? ⟨13⟩ ⟨14⟩ = .ok (some ⟨12⟩) := rfl
  obtain ⟨answer, one, two⟩ := symmetric ⟨13⟩ ⟨14⟩ (by decide) (by decide) (by decide)
  obtain ⟨other, again, _, means⟩ := nearest ⟨13⟩ ⟨14⟩ rfl rfl rfl rfl (by decide)
  cases found.symm.trans one
  cases found.symm.trans again
  exact ⟨lineal_siblings, rfl, rfl, found, two, ⟨rfl, rfl, rfl⟩, (means ⟨12⟩).mp rfl⟩

end Types
end Resolution
