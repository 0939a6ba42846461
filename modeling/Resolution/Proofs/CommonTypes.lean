import Resolution.Proofs.Hierarchy
import Resolution.Proofs.Substituting

/-!
# Common types

Two types have a common type when one converts to the other, when both stand for numbers, or when
both are classes with a base class in common.  The search walks along the base classes of the first
type only and asks at each whether the second type has it as a base.  `Conversion` and `Joins` list
the ways in which a type converts to another and in which a common type is found.  Both types
convert to their common type.
-/

namespace Resolution
namespace Types

variable {types : Types} {first second source target type base other : TypeId}
  {answer : Option TypeId} {fuel : Nat}

/-! ## Built-in types -/

/-- The built-in types stand at their positions. -/
def HasBuiltins (types : Types) : Prop :=
  ∀ type entry, Types.new.entries.get? type = some entry →
    ∃ known, types.entries.get? type = some known ∧ known.kind = entry.kind

theorem HasBuiltins.kind (builtins : types.HasBuiltins) (type : TypeId) {kind : TypeKind}
    (known : Types.new.kind type = .ok kind) : types.kind type = .ok kind := by
  obtain ⟨entry, stored, rfl⟩ := kind_eq_ok_iff.mp known
  exact kind_eq_ok_iff.mpr (builtins type entry stored)

/-- Calls leave the sorts of the built-in types alone. -/
theorem Reachable.hasBuiltins (reachable : Reachable types) : types.HasBuiltins := by
  have extended : Types.new.Extends types := by
    induction reachable with
    | new => exact .refl _
    | call call before admitted returned ih =>
      exact ih.trans (call.ensures_run before.hashConsed admitted () _ returned).2
  intro type entry stored
  obtain ⟨known, found, kept⟩ := extended type entry stored
  exact ⟨known, found, kept.kind⟩

theorem numeric_cases (numeric : isNumeric type = true) : type = .int ∨ type = .float ∨
    type = .double := by
  simpa [isNumeric, or_assoc] using numeric

theorem HasBuiltins.kind_of_numeric (builtins : types.HasBuiltins)
    (numeric : isNumeric type = true) :
    types.kind type = .ok .classType := by
  rcases numeric_cases numeric with rfl | rfl | rfl
  · exact builtins.kind .int rfl
  · exact builtins.kind .float rfl
  · exact builtins.kind .double rfl

theorem HasBuiltins.isEnum_of_numeric (builtins : types.HasBuiltins)
    (numeric : isNumeric type = true) :
    types.isEnum type = .ok false := by
  unfold isEnum
  rw [builtins.kind_of_numeric numeric]
  rfl

/-- What stands for a number is no `null`. -/
theorem HasBuiltins.ne_null_of_isEnum (builtins : types.HasBuiltins)
    (isEnum : types.isEnum type = .ok true) : type ≠ .null := by
  rintro rfl
  obtain ⟨entry, stored, sort⟩ := isEnum_eq_ok_iff.mp isEnum
  obtain ⟨_, same, kind⟩ := kind_eq_ok_iff.mp (builtins.kind .null rfl)
  cases stored.symm.trans same
  rw [kind] at sort
  cases sort

/-! ## Ways to a common type -/

/-- Neither of two types converts to the other. -/
structure Apart (types : Types) (first second : TypeId) : Prop where
  forward : types.convertsImplicitly first second = .ok false
  backward : types.convertsImplicitly second first = .ok false

theorem Apart.symm (apart : types.Apart first second) : types.Apart second first :=
  ⟨apart.backward, apart.forward⟩

/-- The ways in which two types get their common type, or none. -/
inductive Joins (types : Types) (first second : TypeId) : Option TypeId → Prop where
  | same (equal : first = second) : Joins types first second (some first)
  | error (distinct : first ≠ second) (failed : first = .error ∨ second = .error) :
      Joins types first second (some .error)
  | forward (distinct : first ≠ second) (sound : ¬(first = .error ∨ second = .error))
      (converts : types.convertsImplicitly first second = .ok true) :
        Joins types first second (some second)
  | backward (fails : types.convertsImplicitly first second = .ok false)
      (converts : types.convertsImplicitly second first = .ok true) :
        Joins types first second (some first)
  | integer (apart : types.Apart first second) (left : types.isIntegerLike first = .ok true)
      (right : types.isIntegerLike second = .ok true) : Joins types first second (some .int)
  | number (apart : types.Apart first second) (left : types.isNumberLike first = .ok true)
      (right : types.isNumberLike second = .ok true)
      (mixed : types.isIntegerLike first = .ok false ∨
        types.isIntegerLike first = .ok true ∧ types.isIntegerLike second = .ok false) :
      Joins types first second (some .double)
  | nearest {answer : Option TypeId} (apart : types.Apart first second)
      (plain : types.isNumberLike first = .ok false ∨
        types.isNumberLike first = .ok true ∧ types.isNumberLike second = .ok false)
      (left : types.kind first = .ok .classType) (right : types.kind second = .ok .classType)
      (found : types.commonBase? first second = .ok answer) : Joins types first second answer
  | unrelated (apart : types.Apart first second)
      (plain : types.isNumberLike first = .ok false ∨
        types.isNumberLike first = .ok true ∧ types.isNumberLike second = .ok false)
      {kind : TypeKind} (left : types.kind first = .ok kind)
      (noClass : kind ≠ .classType ∨ kind = .classType ∧
        ∃ other, types.kind second = .ok other ∧ other ≠ .classType) : Joins types first second none

theorem isNumberLike_of_isIntegerLike (integer : types.isIntegerLike type = .ok true) :
    types.isNumberLike type = .ok true := by
  unfold isIntegerLike at integer
  unfold isNumberLike
  split
  · rfl
  · rename_i unnumbered
    rwa [if_neg] at integer
    intro isInt
    exact unnumbered (by simp [isNumeric, isInt])

/-- The last rule for a common type, after conversions and numbers: the nearest base class of two
classes. -/
theorem joins_of_plain (apart : types.Apart first second)
    (plain : types.isNumberLike first = .ok false ∨
      types.isNumberLike first = .ok true ∧ types.isNumberLike second = .ok false) (found : (do
      if (← types.kind first) = .classType then if (← types.kind second) = .classType then
          return ← types.commonBase? first second
      return none) = Except.ok answer) : types.Joins first second answer := by
  obtain ⟨kind, left, rest⟩ := (except_bind_eq_ok_iff ..).mp found
  split at rest
  · rename_i isClass
    subst isClass
    obtain ⟨other, right, rest⟩ := (except_bind_eq_ok_iff ..).mp rest
    split at rest
    · rename_i alsoClass
      subst alsoClass
      exact .nearest apart plain left right rest
    · rename_i noClass
      cases rest
      exact .unrelated apart plain left (.inr ⟨rfl, other, right, noClass⟩)
  · rename_i noClass
    cases rest
    exact .unrelated apart plain left (.inl noClass)

theorem joins_of_common? (found : types.common? first second = .ok answer) :
    types.Joins first second answer := by
  unfold common? at found
  split at found
  · rename_i equal
    cases found
    exact .same equal
  rename_i distinct
  split at found
  · rename_i failed
    cases found
    exact .error distinct failed
  rename_i sound
  obtain ⟨forward, converts, found⟩ := (except_bind_eq_ok_iff ..).mp found
  cases forward with
  | true =>
    cases found
    exact .forward distinct sound converts
  | false =>
    obtain ⟨backward, convertsBack, found⟩ := (except_bind_eq_ok_iff ..).mp found
    cases backward with
    | true =>
      cases found
      exact .backward converts convertsBack
    | false =>
      have apart : types.Apart first second := ⟨converts, convertsBack⟩
      obtain ⟨number, left, found⟩ := (except_bind_eq_ok_iff ..).mp found
      cases number with
      | false => exact joins_of_plain apart (.inl left) found
      | true =>
        obtain ⟨alsoNumber, right, found⟩ := (except_bind_eq_ok_iff ..).mp found
        cases alsoNumber with
        | false => exact joins_of_plain apart (.inr ⟨left, right⟩) found
        | true =>
          obtain ⟨integer, leftInteger, found⟩ := (except_bind_eq_ok_iff ..).mp found
          cases integer with
          | false =>
            cases found
            exact .number apart left right (.inl leftInteger)
          | true =>
            obtain ⟨alsoInteger, rightInteger, found⟩ := (except_bind_eq_ok_iff ..).mp found
            cases alsoInteger with
            | false =>
              cases found
              exact .number apart left right (.inr ⟨leftInteger, rightInteger⟩)
            | true =>
              cases found
              exact .integer apart leftInteger rightInteger

theorem ne_of_not_converts (fails : types.convertsImplicitly first second = .ok false) :
    first ≠ second ∧ ¬(first = .error ∨ second = .error) := by
  unfold convertsImplicitly at fails
  split at fails
  · cases fails
  · rename_i distinct
    exact not_or.mp distinct

theorem common?_of_joins (joins : types.Joins first second answer) :
    types.common? first second = .ok answer := by
  unfold common?
  cases joins with
  | same equal =>
    rw [if_pos equal]
    rfl
  | error distinct failed =>
    rw [if_neg distinct, if_pos failed]
    rfl
  | forward distinct sound converts =>
    rw [if_neg distinct, if_neg sound, converts]
    rfl
  | backward fails converts =>
    obtain ⟨distinct, sound⟩ := ne_of_not_converts fails
    rw [if_neg distinct, if_neg sound, fails, converts]
    rfl
  | integer apart left right =>
    obtain ⟨distinct, sound⟩ := ne_of_not_converts apart.forward
    rw [if_neg distinct, if_neg sound, apart.forward, apart.backward,
      isNumberLike_of_isIntegerLike left,
      isNumberLike_of_isIntegerLike right, left, right]
    rfl
  | number apart left right mixed =>
    obtain ⟨distinct, sound⟩ := ne_of_not_converts apart.forward
    rw [if_neg distinct, if_neg sound, apart.forward, apart.backward, left, right]
    rcases mixed with leftReal | ⟨leftInteger, rightReal⟩
    · rw [leftReal]
      rfl
    · rw [leftInteger, rightReal]
      rfl
  | nearest apart plain left right found =>
    obtain ⟨distinct, sound⟩ := ne_of_not_converts apart.forward
    rw [if_neg distinct, if_neg sound, apart.forward, apart.backward, left, right]
    rcases plain with unnumbered | ⟨numbered, unnumbered⟩
    · rw [unnumbered]
      exact found
    · rw [numbered, unnumbered]
      exact found
  | @unrelated apart plain kind left noClass =>
    obtain ⟨distinct, sound⟩ := ne_of_not_converts apart.forward
    rw [if_neg distinct, if_neg sound, apart.forward, apart.backward, left]
    have nothing : (if kind = .classType then do
          if (← types.kind second) = .classType then return ← types.commonBase? first second
          return none
        else pure none) = Except.ok none := by
      rcases noClass with noClass | ⟨rfl, other, right, noClass⟩
      · rw [if_neg noClass]
        rfl
      · rw [if_pos rfl, right]
        change (if other = .classType then _ else _) = _
        rw [if_neg noClass]
        rfl
    rcases plain with unnumbered | ⟨numbered, unnumbered⟩
    · rw [unnumbered]
      exact nothing
    · rw [numbered, unnumbered]
      exact nothing

/-! ## Both types convert to the common type -/

/-- The ways in which a type converts to another. -/
inductive Conversion (types : Types) (source target : TypeId) : Prop where
  | same (equal : source = target)
  | error (failed : source = .error ∨ target = .error)
  | null (isNull : source = .null) (reference : types.isReference target = .ok true)
  | number (numeric : isNumeric source = true) (real : isReal target = true)
  | enum (isEnum : types.isEnum source = .ok true) (wide : target = .int ∨ target = .double)
    (proper : source ≠ .null)
  | base (isBase : types.hasBase source target = .ok true) (proper : source ≠ .null)

theorem conversion_of_converts (converts : types.convertsImplicitly source target = .ok true) :
    types.Conversion source target := by
  unfold convertsImplicitly at converts
  split at converts
  · rename_i trivially
    rcases trivially with equal | failed
    · exact .same equal
    · exact .error failed
  split at converts
  · rename_i isNull
    exact .null isNull converts
  rename_i proper
  split at converts
  · rename_i numbers
    obtain ⟨numeric, real⟩ := Bool.and_eq_true_iff.mp numbers
    exact .number numeric real
  obtain ⟨isEnum, sort, converts⟩ := (except_bind_eq_ok_iff ..).mp converts
  split at converts
  · rename_i widens
    obtain ⟨rfl, wide⟩ := Bool.and_eq_true_iff.mp widens
    exact .enum sort (by simpa using wide) proper
  · exact .base converts proper

theorem isObject_of_hasBase (based : types.hasBase source target = .ok true) :
    ∃ entry, types.entries.get? source = some entry ∧ entry.kind.isObject = true := by
  unfold hasBase hasBaseWithin at based
  obtain ⟨entry, fetched, rest⟩ := (except_bind_eq_ok_iff ..).mp based
  refine ⟨entry, entry_eq_ok_iff.mp fetched, ?_⟩
  split at rest
  · cases rest
  · rename_i isObject
    simpa using isObject

theorem HasBuiltins.ne_null_of_hasBase (builtins : types.HasBuiltins)
    (based : types.hasBase source target = .ok true) :
    source ≠ .null := by
  rintro rfl
  obtain ⟨entry, stored, isObject⟩ := isObject_of_hasBase based
  obtain ⟨_, same, kind⟩ := kind_eq_ok_iff.mp (builtins.kind .null rfl)
  cases stored.symm.trans same
  rw [kind] at isObject
  cases isObject

theorem Conversion.converts (conversion : types.Conversion source target) :
    types.convertsImplicitly source target = .ok true := by
  unfold convertsImplicitly
  split
  · rfl
  rename_i apart
  cases conversion with
  | same equal => exact absurd (.inl equal) apart
  | error failed => exact absurd (.inr failed) apart
  | null isNull reference =>
    rw [if_pos isNull]
    exact reference
  | number numeric real =>
    have proper : source ≠ .null := by
      rintro rfl
      cases numeric
    rw [if_neg proper, if_pos (by rw [numeric, real]; rfl)]
    rfl
  | enum isEnum wide proper =>
    rw [if_neg proper]
    split
    · rfl
    · rw [isEnum]
      rcases wide with rfl | rfl <;> rfl
  | base isBase proper =>
    obtain ⟨entry, stored, isObject⟩ := isObject_of_hasBase isBase
    have noEnum : types.isEnum source = .ok false := by
      refine isEnum_eq_ok_iff.mpr ⟨entry, stored, ?_⟩
      cases sort : entry.kind <;> simp_all [TypeKind.isObject, TypeKind.isEnum]
    rw [if_neg proper]
    split
    · rfl
    · rw [noEnum]
      exact isBase

theorem convertsImplicitly_self (type : TypeId) : types.convertsImplicitly type type = .ok true :=
  Conversion.converts (.same rfl)

theorem convertsImplicitly_error (type : TypeId) :
    types.convertsImplicitly type .error = .ok true :=
  Conversion.converts (.error (.inr rfl))

theorem HasBuiltins.converts_of_isEnum (builtins : types.HasBuiltins)
    (isEnum : types.isEnum source = .ok true)
    (wide : target = .int ∨ target = .double) : types.convertsImplicitly source target = .ok true :=
  Conversion.converts (.enum isEnum wide (builtins.ne_null_of_isEnum isEnum))

theorem HasBuiltins.converts_of_hasBase (builtins : types.HasBuiltins)
    (based : types.hasBase source target = .ok true) :
    types.convertsImplicitly source target = .ok true :=
  Conversion.converts (.base based (builtins.ne_null_of_hasBase based))

theorem HasBuiltins.converts_int (builtins : types.HasBuiltins)
    (integer : types.isIntegerLike source = .ok true) :
    types.convertsImplicitly source .int = .ok true := by
  unfold isIntegerLike at integer
  split at integer
  · rename_i isInt
    rw [beq_iff_eq.mp isInt]
    exact convertsImplicitly_self .int
  · exact builtins.converts_of_isEnum integer (.inl rfl)

theorem HasBuiltins.converts_double (builtins : types.HasBuiltins)
    (number : types.isNumberLike source = .ok true) :
    types.convertsImplicitly source .double = .ok true := by
  unfold isNumberLike at number
  split at number
  · rename_i numeric
    exact Conversion.converts (.number numeric rfl)
  · exact builtins.converts_of_isEnum number (.inr rfl)

/-! ## Base classes -/

/-- One class is the base class of another. -/
def Superclass (types : Types) (type base : TypeId) :
    Prop := types.baseClass? type = .ok (some base)

theorem superclass_unique : Relator.RightUnique types.Superclass := by
  intro type base other one two
  rw [Superclass, one] at two
  exact Option.some.inj (Except.ok.inj two)

theorem superclass_iff :
    types.Superclass type base ↔ ∃ entry, types.entries.get? type = some entry ∧
    entry.kind = .classType ∧
      entry.related.head? = some base ∧ types.kind base = .ok .classType := by
  unfold Superclass baseClass?
  rw [except_bind_eq_ok_iff]
  simp only [entry_eq_ok_iff]
  refine exists_congr fun entry => and_congr_right fun _ => ?_
  by_cases isClass : entry.kind = .classType
  · cases entry.related.head? with
    | none => simp [isClass, pure, Except.pure]
    | some parent =>
      rw [if_neg (not_not.mpr isClass), except_bind_eq_ok_iff]
      simp only [except_pure_eq_ok_iff, isClass, true_and]
      constructor
      · rintro ⟨kind, known, chosen⟩
        split at chosen
        · rename_i alsoClass
          cases chosen
          exact ⟨rfl, alsoClass ▸ known⟩
        · cases chosen
      · rintro ⟨same, known⟩
        cases same
        exact ⟨.classType, known, if_pos rfl⟩
  · simp [isClass, pure, Except.pure]

theorem Superclass.derives (superclass : types.Superclass type base) : types.Derives type base := by
  obtain ⟨entry, stored, isClass, first, _⟩ := superclass_iff.mp superclass
  exact ⟨entry, stored, by rw [isClass]; rfl, List.mem_of_mem_head? first⟩

/-- The walk along all bases looks at the base class first. -/
theorem Superclass.hasBaseWithin {parent : TypeId} (step : types.Superclass type parent)
    (above : parent = base ∨ types.hasBaseWithin fuel parent base = .ok true) :
    types.hasBaseWithin (fuel + 1) type base = .ok true := by
  obtain ⟨entry, stored, isClass, first, _⟩ := superclass_iff.mp step
  obtain ⟨rest, parents⟩ := List.head?_eq_some_iff.mp first
  have tested : (if parent = base then pure true else types.hasBaseWithin fuel parent base) =
    Except.ok true := by
    split
    · rfl
    · rename_i differs
      exact above.resolve_left differs
  unfold Types.hasBaseWithin
  rw [entry_eq_ok_iff.mpr stored]
  change (if (!entry.kind.isObject) = true then _ else _) = _
  rw [isClass, if_neg (by decide), parents, List.anyM_cons, tested]
  rfl

/-- How the search for a base of another type goes along base classes, within a number of steps. -/
inductive Searches (types : Types) (other : TypeId) : Nat → TypeId → Option TypeId → Prop where
  | here {fuel : Nat} {type : TypeId} (isBase : types.hasBase other type = .ok true) :
      Searches types other fuel type (some type)
  | last {fuel : Nat} {type : TypeId} (fails : types.hasBase other type ≠ .ok true)
      (ends : types.baseClass? type = .ok none) : Searches types other fuel type none
  | further {fuel : Nat} {type parent : TypeId} {answer : Option TypeId}
    (fails : types.hasBase other type ≠ .ok true)
      (step : types.Superclass type parent) (rest : Searches types other fuel parent answer) :
      Searches types other (fuel + 1) type answer

theorem searches_of_find?
    (found : Chain.find? types.baseClass? (fun base =>
      return if ← types.hasBase other base then some base else none)
      (fuel + 1) type = .ok answer) : types.Searches other fuel type answer := by
  induction fuel generalizing type with
  | zero => ?_
  | succ fuel ih => ?_
  all_goals
    obtain ⟨tested, asked, rest⟩ := (except_bind_eq_ok_iff ..).mp found
    obtain ⟨isBase, walked, chosen⟩ := (except_bind_eq_ok_iff ..).mp asked
    cases isBase with
    | true =>
      cases chosen
      cases rest
      exact .here walked
    | false =>
      cases chosen
      have fails : types.hasBase other type ≠ .ok true := by rw [walked]; nofun
      obtain ⟨next, stepped, rest⟩ := (except_bind_eq_ok_iff ..).mp rest
      cases next with
      | none =>
        cases rest
        exact .last fails stepped
      | some parent =>
        first
          | exact .further fails stepped (ih rest)
          | cases rest

theorem Searches.hasBase (searches : types.Searches other fuel type answer)
    (found : answer = some base) :
    (type = base ∨ types.hasBaseWithin fuel type base = .ok true) ∧
    types.hasBase other base = .ok true := by
  induction searches with
  | here isBase =>
    cases found
    exact ⟨.inl rfl, isBase⟩
  | last => cases found
  | further _ step _ ih =>
    obtain ⟨above, isBase⟩ := ih found
    exact ⟨.inr (step.hasBaseWithin above), isBase⟩

theorem hasBase_of_commonBase? (found : types.commonBase? first second = .ok (some base)) :
    types.hasBase first base = .ok true ∧ types.hasBase second base = .ok true := by
  unfold commonBase? at found
  obtain ⟨start, stepped, walked⟩ := (except_bind_eq_ok_iff ..).mp found
  cases start with
  | none => cases walked
  | some start =>
    obtain ⟨above, isBase⟩ := (searches_of_find? walked).hasBase rfl
    have step : types.Superclass first start := stepped
    exact ⟨step.hasBaseWithin above, isBase⟩

theorem Joins.converts (builtins : types.HasBuiltins) {common : TypeId}
    (joins : types.Joins first second (some common)) :
    types.convertsImplicitly first common = .ok true ∧ types.convertsImplicitly second common =
    .ok true := by
  generalize answered : some common = answer at joins
  cases joins with
  | same equal =>
    cases answered
    rw [← equal]
    exact ⟨convertsImplicitly_self _, convertsImplicitly_self _⟩
  | error _ _ =>
    cases answered
    exact ⟨convertsImplicitly_error _, convertsImplicitly_error _⟩
  | forward _ _ converts =>
    cases answered
    exact ⟨converts, convertsImplicitly_self _⟩
  | backward _ converts =>
    cases answered
    exact ⟨convertsImplicitly_self _, converts⟩
  | integer _ left right =>
    cases answered
    exact ⟨builtins.converts_int left, builtins.converts_int right⟩
  | number _ left right _ =>
    cases answered
    exact ⟨builtins.converts_double left, builtins.converts_double right⟩
  | nearest _ _ _ _ found =>
    subst answered
    obtain ⟨left, right⟩ := hasBase_of_commonBase? found
    exact ⟨builtins.converts_of_hasBase left, builtins.converts_of_hasBase right⟩
  | unrelated => cases answered

/-- A common type is one that both types convert to.  Where no type is among its own bases, the
search for it ends. -/
theorem common_type_receives_both (builtins : types.HasBuiltins)
    (acyclic : ∀ type, ¬Relation.TransGen types.Derives type type) (first second : TypeId) :
    (∀ common, types.common? first second = .ok (some common) →
      types.convertsImplicitly first common = .ok true ∧ types.convertsImplicitly second common =
      .ok true) ∧
    ((∀ type base, types.Derives type base → types.Stores base) → types.Stores first →
      types.Stores second →
      Answers (types.common? first second)) := by
  refine ⟨fun common found => (joins_of_common? found).converts builtins, ?_⟩
  intro closed firstStores secondStores
  have ordered : types.Ordered := ⟨fun type base derives => (closed type base derives).exists_get?,
    acyclic⟩
  obtain ⟨_, stored⟩ := firstStores.exists_get?
  obtain ⟨_, alsoStored⟩ := secondStores.exists_get?
  exact ordered.answers_common? stored alsoStored

/-- `Left` and `Right` are classes below `Middle`, which is below `Root`, and `Root` and `Left` have
the interface `Shape`. -/
def siblingCalls : List Call :=
  [.createNamed .interface ⟨0⟩, .createNamed .classType ⟨1⟩, .createNamed .classType ⟨2⟩,
    .createNamed .classType ⟨3⟩,
    .createNamed .classType ⟨4⟩, .setRelated ⟨11⟩ [⟨10⟩], .setRelated ⟨12⟩ [⟨11⟩],
      .setRelated ⟨13⟩ [⟨12⟩, ⟨10⟩],
    .setRelated ⟨14⟩ [⟨12⟩]]

theorem reachable_siblings : Reachable (afterCalls siblingCalls) := .afterCalls (by decide)

theorem older_of_siblings (derives : (afterCalls siblingCalls).Derives type base) :
    base.index < type.index ∧ (afterCalls siblingCalls).Stores base := by
  obtain ⟨entry, stored, _, listed⟩ := derives
  have older : ∀ type entry, (afterCalls siblingCalls).entries.get? type = some entry →
      ∀ base ∈ entry.related, base.index < type.index := by
    decide
  have below := older type entry stored base listed
  exact ⟨below, below.trans (Table.lt_size_of_get? stored)⟩

theorem acyclic_siblings (type : TypeId) :
    ¬Relation.TransGen (afterCalls siblingCalls).Derives type type :=
  acyclic_of_ranks TypeId.index (fun _ _ derives => (older_of_siblings derives).1) type

theorem common_type_receives_both_siblings : (afterCalls siblingCalls).HasBuiltins ∧
      (∀ type, ¬Relation.TransGen (afterCalls siblingCalls).Derives type type) ∧
      (afterCalls siblingCalls).common? ⟨13⟩ ⟨14⟩ = .ok (some ⟨12⟩) ∧
      (afterCalls siblingCalls).convertsImplicitly ⟨13⟩ ⟨12⟩ = .ok true ∧
      (afterCalls siblingCalls).convertsImplicitly ⟨14⟩ ⟨12⟩ = .ok true ∧
      Answers ((afterCalls siblingCalls).common? ⟨14⟩ ⟨10⟩) := by
  have builtins := reachable_siblings.hasBuiltins
  have found : (afterCalls siblingCalls).common? ⟨13⟩ ⟨14⟩ = .ok (some ⟨12⟩) := rfl
  obtain ⟨left, right⟩ := (common_type_receives_both builtins acyclic_siblings ⟨13⟩ ⟨14⟩).1
    ⟨12⟩ found
  refine ⟨builtins, acyclic_siblings, found, left, right, ?_⟩
  exact (common_type_receives_both builtins acyclic_siblings ⟨14⟩ ⟨10⟩).2
    (fun _ _ derives => (older_of_siblings derives).2) (by decide) (by decide)

end Types
end Resolution
