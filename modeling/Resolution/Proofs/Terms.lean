import Resolution.Proofs.HashConsing

/-!
# Types as terms

Function types and instances are built from other types, and all other types are leaves.  Where
every type is built from older ones, each reads as a finite term.  The reading is faithful, because
types are shared: types that read alike are one type.
-/

namespace Resolution

/-- What builds a type from other types. -/
inductive Former where
  /-- A function type, from its result and arguments. -/
  | function
  /-- The definition of a symbol, from type arguments. -/
  | applied (symbol : Option SymbolId)
  deriving DecidableEq, Repr

/-- A type as a tree. -/
inductive Term where
  | leaf (type : TypeId)
  | built (former : Former) (parts : List Term)

namespace Term

/-- A property passes from parts to what is built from them. -/
@[elab_as_elim, induction_eliminator]
theorem inductionOn {motive : Term → Prop} (leaf : ∀ type, motive (.leaf type))
    (built : ∀ former parts, (∀ part ∈ parts, motive part) → motive (.built former parts)) :
    ∀ term, motive term
  | .leaf type => leaf type
  | .built former parts => built former parts fun part _ => inductionOn leaf built part

mutual

/-- Terms can be compared. -/
def decEq : (first second : Term) → Decidable (first = second)
  | .leaf first, .leaf second => decidable_of_iff (first = second) (by simp)
  | .leaf _, .built _ _ => .isFalse nofun
  | .built _ _, .leaf _ => .isFalse nofun
  | .built former parts, .built other others =>
    match decEqAll parts others with
    | .isTrue same => decidable_of_iff (former = other) (by simp [same])
    | .isFalse differ => .isFalse (by simp [differ])

/-- Lists of terms can be compared. -/
def decEqAll : (first second : List Term) → Decidable (first = second)
  | [], [] => .isTrue rfl
  | [], _ :: _ => .isFalse nofun
  | _ :: _, [] => .isFalse nofun
  | first :: rest, second :: others =>
    match decEqAll rest others with
    | .isTrue same => match decEq first second with
        | .isTrue alike => .isTrue (by rw [same, alike])
        | .isFalse differ => .isFalse (by simp [differ])
    | .isFalse differ => .isFalse (by simp [differ])

end

instance : DecidableEq Term := decEq

def leaves : Term → List TypeId
  | .leaf type => [type]
  | .built _ parts => parts.flatMap leaves

/-! ## Replacing several terms at once -/

/-- What a term is replaced by; a missing argument is the error type. -/
def replacement? (term : Term) (parameters arguments : List Term) : Option Term :=
  (parameters.idxOf? term).map fun position => arguments.getD position (.leaf .error)

/-- Replace every occurrence of a parameter by its argument; nothing is replaced inside of
arguments. -/
def replace (parameters arguments : List Term) : Term → Term
  | .leaf type => (replacement? (.leaf type) parameters arguments).getD (.leaf type)
  | .built former parts =>
    (replacement? (.built former parts) parameters arguments).getD
      (.built former (parts.map (replace parameters arguments)))

section Replace

variable {term argument : Term} {type : TypeId} {former : Former}
  {parts parameters arguments : List Term}

theorem replacement?_eq_none (absent : term ∉ parameters) :
    term.replacement? parameters arguments = none := by
  rw [replacement?, List.idxOf?_eq_none_iff.mpr absent, Option.map_none]

theorem replace_of_replacement? (found : term.replacement? parameters arguments = some argument) :
    term.replace parameters arguments = argument := by
  cases term with
  | leaf type => rw [replace, found, Option.getD_some]
  | built former parts => rw [replace, found, Option.getD_some]

theorem replace_leaf (stays : replacement? (.leaf type) parameters arguments = none) :
    replace parameters arguments (.leaf type) = .leaf type := by
  rw [replace, stays, Option.getD_none]

theorem replace_built (stays : replacement? (.built former parts) parameters arguments = none) :
    replace parameters arguments (.built former parts) = .built former
    (parts.map (replace parameters arguments)) := by
  rw [replace, stays, Option.getD_none]

theorem replace_nil (term : Term) (arguments : List Term) : term.replace [] arguments = term := by
  induction term with
  | leaf type => exact replace_leaf (replacement?_eq_none List.not_mem_nil)
  | built former parts ih =>
    rw [replace_built (replacement?_eq_none List.not_mem_nil), List.map_congr_left ih, List.map_id']

/-- Where no argument is missing, the arguments can be changed before or after. -/
theorem replacement?_map (term : Term) (convert : Term → Term)
    (complete : arguments.length = parameters.length) :
    term.replacement? parameters (arguments.map convert) =
    (term.replacement? parameters arguments).map convert := by
  unfold replacement?
  rw [Option.map_map]
  cases found : parameters.idxOf? term with
  | none => rfl
  | some position =>
    obtain ⟨inside, _⟩ := List.findIdx?_eq_some_iff_getElem.mp found
    rw [← complete] at inside
    simp [List.getD_eq_getElem?_getD, inside]

/-- Two replacements are one.  The second one may only replace leaves, so that it replaces nothing
that the first one built, and it replaces no leaf that was there all along. -/
theorem replace_replace {others replacements : List Term}
    (complete : arguments.length = parameters.length)
    (plain : ∀ other ∈ others, ∃ type, other = .leaf type)
    (covered : ∀ type ∈ term.leaves, .leaf type ∈ others → .leaf type ∈ parameters) :
    (term.replace parameters arguments).replace others replacements =
      term.replace parameters (arguments.map (replace others replacements)) := by
  have changed (term : Term) := replacement?_map term (replace others replacements) complete
  induction term with
  | leaf type =>
    specialize changed (.leaf type)
    cases found : replacement? (.leaf type) parameters arguments with
    | some argument =>
      rw [found, Option.map_some] at changed
      rw [replace_of_replacement? found, replace_of_replacement? changed]
    | none =>
      rw [found, Option.map_none] at changed
      -- A leaf that the first replacement left alone is left alone by the second one.
      have kept : .leaf type ∉ others := by
        intro listed
        have covers : (parameters.idxOf? (.leaf type)).isSome :=
          List.isSome_idxOf?.mpr (covered type (by simp [leaves]) listed)
        rw [Option.map_eq_none_iff.mp found] at covers
        cases covers
      rw [replace_leaf found, replace_leaf (replacement?_eq_none kept), replace_leaf changed]
  | built former parts ih =>
    specialize changed (.built former parts)
    cases found : replacement? (.built former parts) parameters arguments with
    | some argument =>
      rw [found, Option.map_some] at changed
      rw [replace_of_replacement? found, replace_of_replacement? changed]
    | none =>
      rw [found, Option.map_none] at changed
      -- What the first replacement built is no leaf.
      have kept : .built former (parts.map (replace parameters arguments)) ∉ others := by
        intro listed
        obtain ⟨type, same⟩ := plain _ listed
        cases same
      rw [replace_built found, replace_built (replacement?_eq_none kept), replace_built changed,
        List.map_map]
      congr 1
      refine List.map_congr_left fun part listed => ih part listed fun type inside => ?_
      exact covered type (by rw [leaves]; exact List.mem_flatMap.mpr ⟨part, listed, inside⟩)

end Replace

end Term

/-! ## Reading types -/

/-- What a type is built by and from; leaves are not built. -/
def TypeEntry.shape? (entry : TypeEntry) : Option (Former × List TypeId) :=
  match entry.kind, entry.arguments with
  | .function, _ => some (.function, entry.related)
  | _, some arguments => some (.applied entry.symbol, arguments)
  | _, none => none

namespace TypeEntry

variable {entry : TypeEntry} {parts : List TypeId}

theorem shape?_of_function (isFunction : entry.kind = .function) :
    entry.shape? = some (.function, entry.related) := by
  simp [shape?, isFunction]

theorem shape?_of_ne_function (noFunction : entry.kind ≠ .function) :
    entry.shape? = entry.arguments.map fun arguments => (.applied entry.symbol, arguments) := by
  unfold shape?
  split
  · exact absurd ‹_› noFunction
  · rename_i applied _
    rw [applied, Option.map_some]
  · rename_i plain _
    rw [plain, Option.map_none]

theorem shape?_eq_function_iff :
    entry.shape? = some (.function, parts) ↔ entry.kind = .function ∧ entry.related = parts := by
  by_cases isFunction : entry.kind = .function
  · simp [shape?_of_function isFunction, isFunction]
  · simp [shape?_of_ne_function isFunction, isFunction]

theorem shape?_eq_applied_iff {symbol : Option SymbolId} :
    entry.shape? = some (.applied symbol, parts) ↔
      entry.kind ≠ .function ∧ entry.symbol = symbol ∧ entry.arguments = some parts := by
  by_cases isFunction : entry.kind = .function
  · simp [shape?_of_function isFunction, isFunction]
  · rw [shape?_of_ne_function isFunction]
    cases entry.arguments <;> simp [isFunction]

theorem shape?_eq_none_iff : entry.shape? = none ↔ entry.kind ≠ .function ∧
    entry.arguments = none := by
  by_cases isFunction : entry.kind = .function
  · simp [shape?_of_function isFunction, isFunction]
  · simp [shape?_of_ne_function isFunction, isFunction]

theorem Keeps.shape? {before after : TypeEntry} (kept : before.Keeps after) :
    after.shape? = before.shape? := by
  by_cases isFunction : before.kind = .function
  · rw [shape?_of_function isFunction, shape?_of_function (kept.kind.trans isFunction),
      kept.related isFunction]
  · have stillNone : after.kind ≠ .function := by
      rw [kept.kind]
      exact isFunction
    rw [shape?_of_ne_function isFunction, shape?_of_ne_function stillNone, kept.arguments]
    cases applied : before.arguments with
    | none => rfl
    | some arguments => rw [kept.symbol (.inr (by rw [applied]; rfl))]

end TypeEntry

namespace Types

variable {entry : TypeEntry} {shape : Former × List TypeId} {first second : TypeId}

def Stores (types : Types) (type : TypeId) : Prop := type.index < types.size

instance (types : Types) (type : TypeId) : Decidable (types.Stores type) :=
  inferInstanceAs (Decidable (type.index < types.size))

/-- What a stored type is built by and from. -/
def shapeOf? (types : Types) (type : TypeId) : Option (Former × List TypeId) :=
  (types.entries.get? type).bind TypeEntry.shape?

/-- A type as a term, unfolded a number of times. -/
def termWithin (types : Types) : Nat → TypeId → Term
  | 0, type => .leaf type
  | fuel + 1, type =>
    match types.shapeOf? type with
    | some (former, parts) => .built former (parts.map (types.termWithin fuel))
    | none => .leaf type

/-- A type as a term; a type is built from older ones, so its position bounds the depth of the term.
-/
def term (types : Types) (type : TypeId) : Term := types.termWithin (type.index + 1) type

/-- Types are shared, they are built from older ones, and an instance has the symbol of its
definition. -/
structure Legible (types : Types) : Prop where
  consed : types.HashConsed
  older : ∀ type former parts, types.shapeOf? type = some (former, parts) → ∀ part ∈ parts,
    part.index < type.index
  definition : ∀ type entry arguments, types.entries.get? type = some entry →
    entry.arguments = some arguments →
    ∃ generic definition, entry.generic = some generic ∧
      types.entries.get? generic = some definition ∧
      definition.symbol = entry.symbol

variable {types before after : Types} {type : TypeId}

theorem stores_of_get? (stored : types.entries.get? type = some entry) : types.Stores type :=
  Table.lt_size_of_get? stored

theorem Stores.exists_get? (stores : types.Stores type) :
    ∃ entry, types.entries.get? type = some entry :=
  Table.exists_get?_of_lt stores

theorem Extends.stores (extended : before.Extends after) (stores : before.Stores type) :
    after.Stores type := by
  obtain ⟨entry, stored⟩ := stores.exists_get?
  obtain ⟨later, found, _⟩ := extended type entry stored
  exact stores_of_get? found

theorem shapeOf?_of_get? (stored : types.entries.get? type = some entry) :
    types.shapeOf? type = entry.shape? := by
  rw [shapeOf?, stored, Option.bind_some]

theorem exists_get?_of_shapeOf? (built : types.shapeOf? type = some shape) :
    ∃ entry, types.entries.get? type = some entry ∧ entry.shape? = some shape :=
  Option.bind_eq_some_iff.mp built

theorem Extends.shapeOf? (extended : before.Extends after) (stores : before.Stores type) :
    after.shapeOf? type = before.shapeOf? type := by
  obtain ⟨entry, stored⟩ := stores.exists_get?
  obtain ⟨later, found, kept⟩ := extended type entry stored
  rw [shapeOf?_of_get? stored, shapeOf?_of_get? found, kept.shape?]

namespace Legible

variable {former : Former} {parts : List TypeId}

theorem stores_part (legible : types.Legible) {parts : List TypeId}
    (built : types.shapeOf? type = some (former, parts)) {part : TypeId} (listed : part ∈ parts) :
    types.Stores part := by
  obtain ⟨entry, stored, _⟩ := exists_get?_of_shapeOf? built
  exact Nat.lt_trans (legible.older type former parts built part listed) (stores_of_get? stored)

/-- Unfolding a type often enough gives one term. -/
theorem termWithin_eq (legible : types.Legible) {first second : Nat} (deep : type.index < first)
    (alsoDeep : type.index < second) :
    types.termWithin first type = types.termWithin second type := by
  induction first generalizing second type with
  | zero => cases deep
  | succ first ih =>
    obtain ⟨second, rfl⟩ := Nat.exists_eq_succ_of_ne_zero (Nat.ne_zero_of_lt alsoDeep)
    unfold termWithin
    cases built : types.shapeOf? type with
    | none => rfl
    | some shape =>
      obtain ⟨former, parts⟩ := shape
      change Term.built _ _ = Term.built _ _
      congr 1
      refine List.map_congr_left fun part listed => ?_
      have less := legible.older type former parts built part listed
      exact ih (by omega) (by omega)

theorem term_of_shape (legible : types.Legible) {parts : List TypeId}
    (built : types.shapeOf? type = some (former, parts)) :
    types.term type = .built former (parts.map types.term) := by
  rw [term, termWithin, built]
  change Term.built _ _ = Term.built _ _
  congr 1
  refine List.map_congr_left fun part listed => ?_
  exact legible.termWithin_eq (legible.older type former parts built part listed)
    (Nat.lt_succ_self _)

end Legible

theorem term_of_leaf (plain : types.shapeOf? type = none) : types.term type = .leaf type := by
  rw [term, termWithin, plain]

theorem Legible.term_error (legible : types.Legible) : types.term .error = .leaf .error := by
  obtain ⟨entry, stored, noFunction, plain⟩ := legible.consed.builtin 0 (by decide)
  exact term_of_leaf ((shapeOf?_of_get? stored).trans
    (TypeEntry.shape?_eq_none_iff.mpr ⟨noFunction, plain⟩))

theorem Legible.eq_of_term_leaf (legible : types.Legible) {leaf : TypeId}
    (reads : types.term type = .leaf leaf) :
    type = leaf := by
  cases built : types.shapeOf? type with
  | none =>
    rw [term_of_leaf built] at reads
    cases reads
    rfl
  | some shape =>
    rw [legible.term_of_shape built] at reads
    cases reads

theorem Legible.exists_shape_of_term (legible : types.Legible) {former : Former} {parts : List Term}
    (reads : types.term type = .built former parts) :
    ∃ sources, types.shapeOf? type = some (former, sources) ∧ parts = sources.map types.term := by
  cases built : types.shapeOf? type with
  | none =>
    rw [term_of_leaf built] at reads
    cases reads
  | some shape =>
    rw [legible.term_of_shape built] at reads
    cases reads
    exact ⟨shape.2, rfl, rfl⟩

theorem HashConsed.shape_unique (consed : types.HashConsed) {shape : Former × List TypeId}
    (built : types.shapeOf? first = some shape) (alike : types.shapeOf? second = some shape) :
    first = second := by
  obtain ⟨one, stored, oneShape⟩ := exists_get?_of_shapeOf? built
  obtain ⟨two, found, twoShape⟩ := exists_get?_of_shapeOf? alike
  obtain ⟨former, parts⟩ := shape
  cases former with
  | function =>
    obtain ⟨isFunction, signature⟩ := TypeEntry.shape?_eq_function_iff.mp oneShape
    obtain ⟨alsoFunction, sameSignature⟩ := TypeEntry.shape?_eq_function_iff.mp twoShape
    exact consed.function_unique stored found isFunction alsoFunction
      (signature.trans sameSignature.symm)
  | applied symbol =>
    obtain ⟨_, declared, applied⟩ := TypeEntry.shape?_eq_applied_iff.mp oneShape
    obtain ⟨_, sameDeclared, sameApplied⟩ := TypeEntry.shape?_eq_applied_iff.mp twoShape
    have isInstance : one.isInstance := by
      rw [TypeEntry.isInstance, applied]
      rfl
    exact consed.instance_unique stored found isInstance (declared.trans sameDeclared.symm)
      (applied.trans sameApplied.symm)

theorem eq_of_map_eq {α β : Type} {convert : α → β} {first second : List α}
    (same : first.map convert = second.map convert)
    (determined : ∀ one ∈ first, ∀ two, convert one = convert two → one = two) :
    first = second := by
  induction first generalizing second with
  | nil => exact (List.map_eq_nil_iff.mp same.symm).symm
  | cons one rest ih =>
    obtain ⟨two, others, rfl, head, tail⟩ := List.map_eq_cons_iff.mp same.symm
    rw [determined one List.mem_cons_self two head.symm,
      ih tail.symm fun one listed => determined one (List.mem_cons_of_mem _ listed)]

theorem Legible.term_injective (legible : types.Legible)
    (same : types.term first = types.term second) : first = second := by
  generalize reads : types.term first = term at same
  induction term generalizing first second with
  | leaf leaf => rw [legible.eq_of_term_leaf reads, legible.eq_of_term_leaf same.symm]
  | built former parts ih =>
    obtain ⟨sources, built, rfl⟩ := legible.exists_shape_of_term reads
    obtain ⟨others, alike, sameParts⟩ := legible.exists_shape_of_term same.symm
    have : sources = others := eq_of_map_eq sameParts fun one listed two equal =>
      ih (types.term one) (List.mem_map_of_mem listed) rfl equal
    rw [this] at built
    exact legible.consed.shape_unique built alike

theorem Extends.term (extended : before.Extends after) (legible : before.Legible)
    (later : after.Legible)
    (stores : before.Stores type) : after.term type = before.term type := by
  generalize reads : before.term type = term
  induction term generalizing type with
  | leaf leaf =>
    cases built : before.shapeOf? type with
    | none =>
      rw [← reads, term_of_leaf built, term_of_leaf ((extended.shapeOf? stores).trans built)]
    | some shape =>
      rw [legible.term_of_shape built] at reads
      cases reads
  | built former parts ih =>
    obtain ⟨sources, built, rfl⟩ := legible.exists_shape_of_term reads
    rw [later.term_of_shape ((extended.shapeOf? stores).trans built)]
    congr 1
    refine List.map_congr_left fun part listed => ?_
    exact ih _ (List.mem_map_of_mem listed) (legible.stores_part built listed) rfl

theorem Extends.map_term (extended : before.Extends after) (legible : before.Legible)
    (later : after.Legible)
    {parts : List TypeId} (stored : ∀ part ∈ parts, before.Stores part) :
    parts.map after.term = parts.map before.term :=
  List.map_congr_left fun part listed => extended.term legible later (stored part listed)

theorem Legible.replacement?_term (legible : types.Legible) (type : TypeId)
    (parameters arguments : List TypeId) :
    (types.term type).replacement? (parameters.map types.term) (arguments.map types.term) =
      (replacement? type parameters arguments).map types.term := by
  have position : (parameters.map types.term).idxOf? (types.term type) =
    parameters.idxOf? type := by
    unfold List.idxOf?
    rw [List.findIdx?_map]
    congr 1
    funext parameter
    exact Bool.eq_iff_iff.mpr (by simpa using ⟨legible.term_injective, congrArg types.term⟩)
  unfold Term.replacement? replacement?
  rw [position, Option.map_map]
  congr 1
  funext position
  simp only [Function.comp_apply, List.getD_eq_getElem?_getD, List.getElem?_map]
  rw [← legible.term_error, Option.getD_map]

end Types
end Resolution
