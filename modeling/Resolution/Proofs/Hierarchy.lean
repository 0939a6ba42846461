import Mathlib.Algebra.Order.BigOperators.Group.List
import Mathlib.Algebra.Order.Group.Nat
import Mathlib.Data.Finset.Card
import Mathlib.Logic.Relation
import Mathlib.Tactic.Choose
import Resolution.Declaration.Object
import Resolution.Proofs.Filling
import Resolution.Proofs.Reading

/-!
# The inheritance hierarchy

Bases are given to definitions one after the other, and only objects whose definition is complete
become bases.  A definition that gets its bases is not complete, so nothing has it as a base yet,
and it can be ranked above all of its bases.  Instances have the bases of their definition with type
arguments in them, which leaves the definitions behind the bases as they are.  So the ranks of
definitions rank all types, and no type is among its own bases.
-/

namespace Resolution
namespace Types

variable {types : Types}

/-! ## Definitions behind types -/

/-- The definition behind a type: of an instance the one that it was made from, else the type
itself. -/
def DefinitionOf (types : Types) (type origin : TypeId) : Prop :=
  ∃ entry, types.entries.get? type = some entry ∧ entry.generic.getD type = origin

/-- The sorts of the bases of an object fit their positions. -/
def LegalBases (types : Types) (kind : TypeKind) (related : List TypeId) : Prop :=
  ∀ position base entry, related[position]? = some base → types.entries.get? base = some entry →
    entry.kind.isLegalBase (kind == .classType) position = true

/-- Definitions whose bases form a hierarchy. -/
structure Inherits (types : Types) : Prop where
  mirrored : ∃ given, types.Mirrored (fun _ => False) given
  unique : ∀ type other entry same symbol, types.entries.get? type = some entry →
    types.entries.get? other = some same → entry.generic = none → same.generic = none →
    entry.symbol = some symbol → same.symbol = some symbol → type = other
  /-- Only built-in types may be without a declaration. -/
  owned : ∀ type entry, types.entries.get? type = some entry → entry.generic = none →
    entry.kind.isObject = true →
    entry.symbol = none → type.index < 10
  parameters : ∀ type entry, types.entries.get? type = some entry → entry.generic = none →
    entry.kind.isObject = true →
    ∀ parameter ∈ entry.parameters, ∃ known, types.entries.get? parameter = some known ∧
      known.kind = .parameter
  legal : ∀ type entry, types.entries.get? type = some entry → entry.generic = none →
    entry.kind.isObject = true →
    types.LegalBases entry.kind entry.related
  bases : ∀ type entry, types.entries.get? type = some entry → entry.generic = none →
    entry.kind.isObject = true →
    ∀ base ∈ entry.related, types.IsBase base
  /-- Definitions are above the definitions behind their bases. -/
  ranked : ∃ rank : TypeId → Nat, ∀ type entry base origin, types.entries.get? type = some entry →
    entry.generic = none → entry.kind.isObject = true → base ∈ entry.related →
      types.DefinitionOf base origin →
    rank origin < rank type
  /-- A complete definition has the names of its bases, except for their constructors. -/
  closed : ∀ type entry base origin source, types.entries.get? type = some entry →
    entry.generic = none →
    entry.kind.isObject = true → entry.complete = true → base ∈ entry.related →
      types.DefinitionOf base origin →
    types.entries.get? origin = some source → ∀ name, name ≠ "new" →
      (source.members.find? name).isSome →
    (entry.members.find? name).isSome

section Steps

variable {before after : Types} {touched : TypeId → Prop} {origin : TypeId} {types : Types}
  {type base : TypeId}

theorem DefinitionOf.unique {other : TypeId} (first : types.DefinitionOf type origin)
    (second : types.DefinitionOf type other) : origin = other := by
  obtain ⟨entry, stored, rfl⟩ := first
  obtain ⟨same, again, rfl⟩ := second
  cases stored.symm.trans again
  rfl

/-- A stored type that is known later had the same definition before. -/
theorem DefinitionOf.earlier {entry : TypeEntry} (known : after.DefinitionOf type origin)
    (stored : before.entries.get? type = some entry) (kept : before.Extends after) :
    before.DefinitionOf type origin := by
  obtain ⟨later, found, same⟩ := kept type entry stored
  have here : after.DefinitionOf type (entry.generic.getD type) :=
    ⟨later, found, by rw [same.generic]⟩
  exact ⟨entry, stored, here.unique known⟩

theorem Mirrored.definition_of_isBase {unfinished : TypeId → Prop} {given : MemberId → Prop}
    (mirrored : types.Mirrored unfinished given) (isBase : types.IsBase base)
    (known : types.DefinitionOf base origin) :
    ∃ source, types.entries.get? origin = some source ∧ source.generic = none ∧
    source.complete = true ∧
      source.kind.isObject = true := by
  obtain ⟨⟨entry, stored, done⟩, same, again, isObject⟩ := isBase
  cases stored.symm.trans again
  obtain ⟨again, there, rfl⟩ := known
  cases stored.symm.trans there
  cases original : entry.generic with
  | none =>
    rw [original] at done
    exact ⟨entry, stored, original, done, isObject⟩
  | some generic =>
    rw [original] at done
    obtain ⟨definition, found, complete⟩ := done
    obtain ⟨source, known, plain, sameKind, _⟩ :=
      mirrored.definition base entry generic stored original
    cases found.symm.trans known
    exact ⟨definition, found, plain, complete, sameKind ▸ isObject⟩

theorem IsBase.steady (isBase : before.IsBase base) (steady : before.Steady touched after)
    (spared : ∀ type entry, before.entries.get? type = some entry → entry.generic = none →
      entry.kind.isObject = true →
      entry.complete = true → ¬touched type)
    (plain : ∀ type entry generic, before.entries.get? type = some entry →
      entry.generic = some generic →
      ∃ definition, before.entries.get? generic = some definition ∧ definition.generic = none ∧
        definition.kind = entry.kind) :
    after.IsBase base := by
  obtain ⟨⟨entry, stored, done⟩, same, again, isObject⟩ := isBase
  cases stored.symm.trans again
  obtain ⟨later, found, kept⟩ := steady.kept base entry stored
  refine ⟨⟨later, found, ?_⟩, later, found, kept.kind ▸ isObject⟩
  rw [kept.generic]
  cases original : entry.generic with
  | none =>
    rw [original] at done
    obtain ⟨waiting, there⟩ := steady.definitions base entry
      (spared base entry stored original isObject done) stored original
    cases found.symm.trans there
    exact done
  | some generic =>
    rw [original] at done
    obtain ⟨definition, known, complete⟩ := done
    obtain ⟨same, again, unapplied, alike⟩ := plain base entry generic stored original
    rw [known] at again
    cases again
    obtain ⟨waiting, there⟩ := steady.definitions generic definition
      (spared generic definition known unapplied (alike ▸ isObject) complete) known unapplied
    exact ⟨_, there, complete⟩

end Steps

/-! ## Bases of instances -/

namespace Inherits

variable {types : Types} {base : TypeId} {entry : TypeEntry}

theorem replaced (inherits : types.Inherits) {parameters arguments : List TypeId} {result : TypeId}
    (declared : ∀ parameter ∈ parameters, ∃ known, types.entries.get? parameter = some known ∧
      known.kind = .parameter)
    (replaced : types.Replaced parameters arguments base result)
    (stored : types.entries.get? base = some entry)
    (isObject : entry.kind.isObject = true) : ∃ made, types.entries.get? result = some made ∧
    made.kind = entry.kind ∧
      ∀ origin, types.DefinitionOf base origin → types.DefinitionOf result origin := by
  obtain ⟨given, mirrored⟩ := inherits.mirrored
  cases replaced with
  | unparameterized => exact ⟨entry, stored, rfl, fun _ known => known⟩
  | parameter replaced =>
    obtain ⟨known, again, isParameter⟩ := declared base (mem_of_replacement? replaced)
    cases stored.symm.trans again
    rw [isParameter] at isObject
    cases isObject
  | function _ again isFunction =>
    cases stored.symm.trans again
    rw [isFunction] at isObject
    cases isObject
  | @applied _ _ _ made _ _ _ again applied found sameSymbol alsoApplied =>
    cases stored.symm.trans again
    obtain ⟨generic, original⟩ := Option.isSome_iff_exists.mp
      ((mirrored.applied base entry stored).mp (by rw [applied]; rfl))
    obtain ⟨other, otherOriginal⟩ :=
      Option.isSome_iff_exists.mp ((mirrored.applied result made found).mp
        (by rw [alsoApplied]; rfl))
    obtain ⟨definition, known, plain, kind, symbol⟩ :=
      mirrored.definition base entry generic stored original
    obtain ⟨same, sameKnown, samePlain, sameKind, alsoSymbol⟩ :=
      mirrored.definition result made other found otherOriginal
    obtain ⟨owner, declares, _⟩ := mirrored.consed.findsInstance base entry _ stored applied
    -- One symbol declares both definitions.
    have one : generic = other := inherits.unique generic other definition same owner known
      sameKnown plain samePlain
      (symbol.trans declares) (alsoSymbol.trans (sameSymbol.trans declares))
    subst one
    cases known.symm.trans sameKnown
    refine ⟨made, found, sameKind.symm.trans kind, ?_⟩
    rintro origin ⟨again, here, rfl⟩
    cases stored.symm.trans here
    exact ⟨made, found, by rw [otherOriginal, original]; rfl⟩
  | plain => exact ⟨entry, stored, rfl, fun _ known => known⟩

theorem base_of_definition (inherits : types.Inherits) {type origin : TypeId} {position : Nat}
    (stored : types.entries.get? type = some entry) (isObject : entry.kind.isObject = true)
    (listed : entry.related[position]? = some base) (known : types.DefinitionOf type origin) :
    ∃ definition original source made, types.entries.get? origin = some definition ∧
    definition.generic = none ∧
      definition.kind = entry.kind ∧ definition.related[position]? = some original ∧
      types.entries.get? original = some source ∧ types.entries.get? base = some made ∧
      made.kind = source.kind ∧
      ∀ root, types.DefinitionOf original root → types.DefinitionOf base root := by
  obtain ⟨given, mirrored⟩ := inherits.mirrored
  obtain ⟨again, here, rfl⟩ := known
  cases stored.symm.trans here
  cases original : entry.generic with
  | none =>
    obtain ⟨_, source, known, _⟩ :=
      inherits.bases type entry stored original isObject base (List.mem_of_getElem? listed)
    exact ⟨entry, base, source, source, stored, original, rfl, listed, known, known, rfl,
      fun _ known => known⟩
  | some generic =>
    obtain ⟨definition, known, plain, kind, _⟩ :=
      mirrored.definition type entry generic stored original
    have complete : entry.complete = true := by
      cases done : entry.complete with
      | true => rfl
      | false =>
        rw [(mirrored.blank type entry stored (by rw [original]; rfl) done).1] at listed
        cases listed
    obtain ⟨length, each⟩ := (mirrored.mirrors type entry generic definition stored original known
      complete).bases
    have inside : position < definition.related.length := by
      rw [length]
      exact (List.getElem?_eq_some_iff.mp listed).1
    have pair : (definition.related[position], base) ∈ definition.related.zip entry.related := by
      refine @List.mem_of_getElem? _ _ position _ ?_
      rw [List.getElem?_zip_eq_some]
      exact ⟨List.getElem?_eq_getElem inside, listed⟩
    have wasObject : definition.kind.isObject = true := by rw [kind, isObject]
    obtain ⟨_, source, sourceKnown, sourceObject⟩ :=
      inherits.bases generic definition known plain wasObject _
      (List.getElem_mem inside)
    obtain ⟨made, found, sameKind, behind⟩ := inherits.replaced
      (inherits.parameters generic definition known plain wasObject) (each _ _ pair) sourceKnown
        sourceObject
    exact ⟨definition, _, source, made, known, plain, kind, List.getElem?_eq_getElem inside,
      sourceKnown, found,
      sameKind, behind⟩

end Inherits

/-! ## The order of types -/

/-- A type has another one among its bases. -/
def Derives (types : Types) (type base : TypeId) : Prop :=
  ∃ entry, types.entries.get? type = some entry ∧ entry.kind.isObject = true ∧ base ∈ entry.related

/-- Bases are stored, and no type is among its own bases. -/
structure Ordered (types : Types) : Prop where
  stored : ∀ type base, types.Derives type base → ∃ entry, types.entries.get? base = some entry
  acyclic : ∀ type, ¬Relation.TransGen types.Derives type type

theorem acyclic_of_ranks (rank : TypeId → Nat)
    (descends : ∀ type base, types.Derives type base → rank base < rank type) (type : TypeId) :
    ¬Relation.TransGen types.Derives type type := by
  intro around
  have below : ∀ other, Relation.TransGen types.Derives type other → rank other < rank type := by
    intro other path
    induction path with
    | single step => exact descends _ _ step
    | tail _ step ih => exact (descends _ _ step).trans ih
  exact lt_irrefl _ (below type around)

/-- Types can be ranked above their bases, by ranks up to the number of types. -/
theorem Ordered.heights (ordered : types.Ordered) :
    ∃ height : TypeId → Nat, (∀ type, height type ≤ types.size) ∧
      ∀ type base, types.Derives type base → height base < height type := by
  classical
  -- The height of a type is the number of types that it has as bases, directly or not.
  let above (type : TypeId) := (Finset.range types.size).filter fun position =>
    Relation.TransGen types.Derives type ⟨position⟩
  refine ⟨fun type => (above type).card, fun type => ?_, fun type base derives => ?_⟩
  · exact (Finset.card_filter_le _ _).trans (by simp)
  · obtain ⟨_, found⟩ := ordered.stored type base derives
    have inside : base.index < types.size := Table.lt_size_of_get? found
    refine Finset.card_lt_card (Finset.ssubset_iff_of_subset ?_ |>.mpr ⟨base.index, ?_, ?_⟩)
    · intro other counted
      obtain ⟨bound, path⟩ := Finset.mem_filter.mp counted
      exact Finset.mem_filter.mpr ⟨bound, .head derives path⟩
    · exact Finset.mem_filter.mpr ⟨Finset.mem_range.mpr inside, .single derives⟩
    · intro counted
      exact ordered.acyclic base (Finset.mem_filter.mp counted).2

namespace Inherits

variable {types : Types} {type : TypeId}

variable (inherits : types.Inherits)

include inherits

theorem legalBases {entry : TypeEntry}
    (stored : types.entries.get? type = some entry) (isObject : entry.kind.isObject = true) :
    types.LegalBases entry.kind entry.related := by
  intro position base baseEntry listed known
  obtain ⟨definition, original, source, made, there, plain, kind, reached, sourceKnown, found,
    sameKind, _⟩ :=
    inherits.base_of_definition stored isObject listed ⟨entry, stored, rfl⟩
  cases known.symm.trans found
  rw [sameKind, ← kind]
  exact inherits.legal _ definition there plain (by rw [kind, isObject]) position original source
    reached sourceKnown

theorem ranks :
    ∃ rank : TypeId → Nat, ∀ type base, types.Derives type base → rank base < rank type := by
  obtain ⟨rank, descends⟩ := inherits.ranked
  refine ⟨fun type => rank ((types.entries.get? type).bind TypeEntry.generic |>.getD type), ?_⟩
  rintro type base ⟨entry, stored, isObject, listed⟩
  obtain ⟨position, _, here⟩ := List.mem_iff_getElem.mp listed
  obtain ⟨definition, original, source, made, there, plain, kind, reached, sourceKnown, found,
    sameKind, behind⟩ :=
    inherits.base_of_definition stored isObject (List.getElem?_eq_some_iff.mpr ⟨_, here⟩)
      ⟨entry, stored, rfl⟩
  have same : made.generic.getD base = source.generic.getD original :=
    DefinitionOf.unique ⟨made, found, rfl⟩ (behind _ ⟨source, sourceKnown, rfl⟩)
  have below := descends _ definition original (source.generic.getD original) there plain
    (by rw [kind, isObject])
    (List.mem_of_getElem? reached) ⟨source, sourceKnown, rfl⟩
  simpa [stored, found, same] using below

theorem base_stored {base : TypeId} (derives : types.Derives type base) :
    ∃ entry, types.entries.get? base = some entry := by
  obtain ⟨entry, stored, isObject, listed⟩ := derives
  obtain ⟨position, _, here⟩ := List.mem_iff_getElem.mp listed
  obtain ⟨_, _, _, made, _, _, _, _, _, found, _⟩ :=
    inherits.base_of_definition stored isObject (List.getElem?_eq_some_iff.mpr ⟨_, here⟩)
      ⟨entry, stored, rfl⟩
  exact ⟨made, found⟩

theorem irreflexive (type : TypeId) : ¬Relation.TransGen types.Derives type type := by
  obtain ⟨rank, descends⟩ := inherits.ranks
  exact acyclic_of_ranks rank descends type

theorem ordered : types.Ordered :=
  ⟨fun _ _ => inherits.base_stored, inherits.irreflexive⟩

end Inherits

/-! ## Walks along the bases -/

section Walks

variable {types : Types} {height : TypeId → Nat} {type : TypeId}

theorem anyM_answers {items : List TypeId} {test : TypeId → Except Fault Bool}
    {holds : TypeId → Prop}
    (each : ∀ item ∈ items, ∃ answer, test item = .ok answer ∧ (answer = true ↔ holds item)) :
    ∃ answer, items.anyM test = .ok answer ∧ (answer = true ↔ ∃ item ∈ items, holds item) := by
  induction items with
  | nil => exact ⟨false, rfl, by simp⟩
  | cons item rest ih =>
    obtain ⟨first, tested, means⟩ := each item List.mem_cons_self
    obtain ⟨others, testedRest, meansRest⟩ := ih fun other listed =>
      each other (List.mem_cons_of_mem item listed)
    cases first with
    | true =>
      refine ⟨true, ?_, iff_of_true rfl ⟨item, List.mem_cons_self, means.mp rfl⟩⟩
      rw [List.anyM_cons, tested]
      rfl
    | false =>
      refine ⟨others, ?_, meansRest.trans ?_⟩
      · rw [List.anyM_cons, tested]
        exact testedRest
      · have fails : ¬holds item := fun here => Bool.false_ne_true (means.mpr here)
        simp [fails]

theorem transGen_derives_iff {base : TypeId} : Relation.TransGen types.Derives type base ↔
      ∃ parent, types.Derives type parent ∧
      (parent = base ∨ Relation.TransGen types.Derives parent base) := by
  rw [Relation.TransGen.head'_iff]
  simp only [Relation.reflTransGen_iff_eq_or_transGen, eq_comm]

theorem hasBaseWithin_answers (stays : ∀ type base, types.Derives type base →
    ∃ entry, types.entries.get? base = some entry)
    (descends : ∀ type base, types.Derives type base → height base < height type) {fuel : Nat}
    {entry : TypeEntry} (stored : types.entries.get? type = some entry) (bound : height type < fuel)
    (base : TypeId) :
    ∃ answer, types.hasBaseWithin fuel type base = .ok answer ∧
      (answer = true ↔ Relation.TransGen types.Derives type base) := by
  induction fuel generalizing type entry with
  | zero => exact absurd bound (Nat.not_lt_zero _)
  | succ fuel ih =>
    have fetched : types.entry type = .ok entry := entry_eq_ok_iff.mpr stored
    unfold hasBaseWithin
    rw [transGen_derives_iff]
    simp only [fetched]
    by_cases isObject : entry.kind.isObject = true
    · have derives (parent : TypeId) : types.Derives type parent ↔ parent ∈ entry.related := by
        refine ⟨?_, fun listed => ⟨entry, stored, isObject, listed⟩⟩
        rintro ⟨same, again, _, listed⟩
        cases stored.symm.trans again
        exact listed
      have each : ∀ parent ∈ entry.related, ∃ answer,
          (if parent = base then pure true else types.hasBaseWithin fuel parent base) =
            Except.ok answer ∧
            (answer = true ↔ parent = base ∨ Relation.TransGen types.Derives parent base) := by
        intro parent listed
        by_cases same : parent = base
        · exact ⟨true, by rw [if_pos same]; rfl, iff_of_true rfl (.inl same)⟩
        · have derived := (derives parent).mpr listed
          obtain ⟨known, there⟩ := stays type parent derived
          obtain ⟨answer, answered, means⟩ := ih there
            (Nat.lt_of_lt_of_le (descends type parent derived) (Nat.le_of_lt_succ bound))
          exact ⟨answer, by rw [if_neg same]; exact answered, by simp [means, same]⟩
      obtain ⟨answer, answered, means⟩ := anyM_answers each
      refine ⟨answer, ?_, ?_⟩
      · rw [← answered]
        simp [isObject, bind, Except.bind]
      · simp only [means, derives]
    · refine ⟨false, ?_, iff_of_false Bool.false_ne_true ?_⟩
      · simp [isObject, bind, Except.bind, pure, Except.pure]
      · rintro ⟨parent, ⟨same, again, wasObject, _⟩, _⟩
        cases stored.symm.trans again
        exact isObject wasObject

end Walks

theorem stored_of_hasBase {type base : TypeId} {answer : Bool}
    (walked : types.hasBase type base = .ok answer) :
    ∃ entry, types.entries.get? type = some entry := by
  unfold hasBase hasBaseWithin at walked
  obtain ⟨entry, fetched, _⟩ := (except_bind_eq_ok_iff ..).mp walked
  exact ⟨entry, entry_eq_ok_iff.mp fetched⟩

namespace Ordered

variable {types : Types} {type : TypeId} {entry : TypeEntry}

/-- The walk along the bases ends, and tells whether there is a way from one type up to the other.
-/
theorem hasBase_answers (ordered : types.Ordered) {entry : TypeEntry}
    (stored : types.entries.get? type = some entry) (base : TypeId) :
    ∃ answer, types.hasBase type base = .ok answer ∧
      (answer = true ↔ Relation.TransGen types.Derives type base) := by
  obtain ⟨height, bounded, descends⟩ := ordered.heights
  exact hasBaseWithin_answers ordered.stored descends stored (Nat.lt_succ_of_le (bounded type)) base

theorem hasBase_iff (ordered : types.Ordered) (type base : TypeId) :
    types.hasBase type base = .ok true ↔ Relation.TransGen types.Derives type base := by
  constructor
  · intro walked
    obtain ⟨entry, stored⟩ := stored_of_hasBase walked
    obtain ⟨_, answered, means⟩ := ordered.hasBase_answers stored base
    cases answered.symm.trans walked
    exact means.mp rfl
  · intro path
    obtain ⟨_, ⟨entry, stored, _⟩, _⟩ := Relation.TransGen.head'_iff.mp path
    obtain ⟨_, answered, means⟩ := ordered.hasBase_answers stored base
    rw [answered, means.mpr path]

end Ordered

/-- A chain that goes down ends. -/
theorem answers_find? {β : Type} {next : TypeId → Except Fault (Option TypeId)}
    {test : TypeId → Except Fault (Option β)}
    {inside : TypeId → Prop} {height : TypeId → Nat} (tests : ∀ type, inside type →
      Answers (test type))
    (descends : ∀ type, inside type → ∃ answer, next type = .ok answer ∧
      ∀ base, answer = some base → inside base ∧ height base < height type)
    {fuel : Nat} {type : TypeId} (start : inside type) (bound : height type < fuel) :
    Answers (Chain.find? next test fuel type) := by
  induction fuel generalizing type with
  | zero => exact absurd bound (Nat.not_lt_zero _)
  | succ fuel ih =>
    refine .bind (tests type start) fun found => ?_
    cases found with
    | some answer => exact answers_pure _
    | none =>
      obtain ⟨there, stepped, below⟩ := descends type start
      dsimp only
      rw [stepped]
      cases there with
      | none => exact answers_pure _
      | some base =>
        obtain ⟨insideBase, lower⟩ := below base rfl
        exact ih insideBase (Nat.lt_of_lt_of_le lower (Nat.le_of_lt_succ bound))

namespace Ordered

variable {types : Types} {entry known : TypeEntry} {type : TypeId}

variable (ordered : types.Ordered)

include ordered

theorem baseClass?_answers (stored : types.entries.get? type = some entry) :
    ∃ answer, types.baseClass? type = .ok answer ∧ ∀ base, answer = some base →
    types.Derives type base := by
  have fetched : types.entry type = .ok entry := entry_eq_ok_iff.mpr stored
  unfold baseClass?
  by_cases isClass : entry.kind = .classType
  · have isObject : entry.kind.isObject = true := by rw [isClass]; rfl
    cases first : entry.related.head? with
    | none =>
      exact ⟨none, by simp [fetched, isClass, first, bind, Except.bind, pure, Except.pure], by simp⟩
    | some base =>
      have derives : types.Derives type base :=
        ⟨entry, stored, isObject, List.mem_of_mem_head? first⟩
      obtain ⟨known, there⟩ := ordered.stored type base derives
      have kind : types.kind base = .ok known.kind := kind_eq_ok_iff.mpr ⟨known, there, rfl⟩
      refine ⟨if known.kind = .classType then some base else none, ?_, ?_⟩
      · simp [fetched, isClass, first, kind, bind, Except.bind, pure, Except.pure]
      · intro other chosen
        split at chosen
        · cases chosen
          exact derives
        · cases chosen
  · exact ⟨none, by simp [fetched, isClass, bind, Except.bind, pure, Except.pure], by simp⟩

theorem answers_commonBase? {other : TypeId}
    (stored : types.entries.get? type = some entry)
    (otherStored : types.entries.get? other = some known) :
    Answers (types.commonBase? type other) := by
  obtain ⟨height, bounded, descends⟩ := ordered.heights
  obtain ⟨first, based, derives⟩ := ordered.baseClass?_answers stored
  unfold commonBase?
  rw [based]
  cases first with
  | none => exact answers_pure none
  | some first =>
    refine answers_find? (fun base _ => ?_)
      (fun here (there : ∃ entry, types.entries.get? here = some entry) => ?_)
      (ordered.stored type first (derives first rfl)) (Nat.lt_succ_of_le (bounded first))
    · obtain ⟨answer, answered, _⟩ := ordered.hasBase_answers otherStored base
      exact .bind ⟨answer, answered⟩ fun _ => answers_pure _
    · obtain ⟨_, there⟩ := there
      obtain ⟨answer, answered, above⟩ := ordered.baseClass?_answers there
      refine ⟨answer, answered, fun base chosen => ?_⟩
      exact ⟨ordered.stored here base (above base chosen), descends here base (above base chosen)⟩

theorem answers_convertsImplicitly {source target : TypeId}
    (stored : types.entries.get? source = some entry)
    (targetStored : types.entries.get? target = some known) :
    Answers (types.convertsImplicitly source target) := by
  obtain ⟨answer, walked, _⟩ := ordered.hasBase_answers stored target
  unfold convertsImplicitly
  refine .ite (answers_pure true) (.ite ?_ (.ite (answers_pure true) ?_))
  · exact answers_isReference targetStored
  · exact .bind (answers_isEnum stored) fun _ => .ite (answers_pure true) ⟨answer, walked⟩

theorem answers_common? {first second : TypeId}
    (stored : types.entries.get? first = some entry)
    (secondStored : types.entries.get? second = some known) :
    Answers (types.common? first second) := by
  have based := ordered.answers_commonBase? stored secondStored
  unfold common?
  refine .ite (answers_pure _) (.ite (answers_pure _) ?_)
  refine .bind (ordered.answers_convertsImplicitly stored secondStored) fun _ =>
    .ite (answers_pure _) ?_
  refine .bind (ordered.answers_convertsImplicitly secondStored stored) fun _ =>
    .ite (answers_pure _) ?_
  have nearest : Answers (do
      if (← types.kind first) = .classType then
        if (← types.kind second) = .classType then
          return ← types.commonBase? first second
      return none) :=
    .bind (answers_kind stored) fun _ =>
      .ite (.bind (answers_kind secondStored) fun _ => .ite based (answers_pure none))
        (answers_pure none)
  refine .bind (answers_isNumberLike stored) fun _ => .ite ?_ nearest
  refine .bind (answers_isNumberLike secondStored) fun _ => .ite ?_ nearest
  refine .bind (answers_isIntegerLike stored) fun _ => .ite ?_ (answers_pure _)
  exact .bind (answers_isIntegerLike secondStored) fun _ => .ite (answers_pure _) (answers_pure _)

end Ordered

namespace Inherits

variable {types : Types} {entry : TypeEntry} {type : TypeId}

theorem hasBase_answers (inherits : types.Inherits) (stored : types.entries.get? type = some entry)
    (base : TypeId) :
    ∃ answer, types.hasBase type base = .ok answer ∧
    (answer = true ↔ Relation.TransGen types.Derives type base) :=
  inherits.ordered.hasBase_answers stored base

theorem answers_common? (inherits : types.Inherits) {first second : TypeId} {known : TypeEntry}
    (stored : types.entries.get? first = some entry)
    (secondStored : types.entries.get? second = some known) :
    Answers (types.common? first second) :=
  inherits.ordered.answers_common? stored secondStored

end Inherits

/-! ## Steps -/

/-- A definition that may have bases: they are legal, their definitions are complete, and a complete
definition has their names. -/
structure Extendable (types : Types) (entry : TypeEntry) : Prop where
  parameters : ∀ parameter ∈ entry.parameters, ∃ known, types.entries.get? parameter = some known ∧
    known.kind = .parameter
  legal : types.LegalBases entry.kind entry.related
  bases : ∀ base ∈ entry.related, types.IsBase base
  closed : entry.complete = true → ∀ base ∈ entry.related, ∀ origin source,
    types.DefinitionOf base origin →
    types.entries.get? origin = some source → ∀ name, name ≠ "new" →
      (source.members.find? name).isSome →
    (entry.members.find? name).isSome

namespace Inherits

variable {before after : Types} {types : Types}

theorem extendable (inherits : types.Inherits) {type : TypeId} {entry : TypeEntry}
    (stored : types.entries.get? type = some entry) (plain : entry.generic = none)
    (isObject : entry.kind.isObject = true) : types.Extendable entry where
  parameters := inherits.parameters type entry stored plain isObject
  legal := inherits.legal type entry stored plain isObject
  bases := inherits.bases type entry stored plain isObject
  closed complete base listed origin source :=
    inherits.closed type entry base origin source stored plain isObject complete listed

/-- Definitions that are not complete are set up further, and everything else stays. -/
theorem develop {touched : TypeId → Prop} (inherits : before.Inherits)
    (mirrored : ∃ given, after.Mirrored (fun _ => False) given)
    (steady : before.Steady touched after)
    (spared : ∀ type entry, before.entries.get? type = some entry → entry.generic = none →
      entry.kind.isObject = true →
      entry.complete = true → ¬touched type)
    (changed : ∀ type entry, touched type → before.entries.get? type = some entry →
      entry.generic = none →
      ∃ later, after.entries.get? type = some later ∧ later.symbol = entry.symbol ∧
        (later.kind.isObject = true → before.Extendable later)) :
    after.Inherits := by
  obtain ⟨given, mirroredBefore⟩ := inherits.mirrored
  obtain ⟨rank, descends⟩ := inherits.ranked
  -- What is a definition afterwards was one before, unless it is a function.
  have origin : ∀ type entry, after.entries.get? type = some entry → entry.generic = none →
      (∃ earlier, before.entries.get? type = some earlier ∧ earlier.generic = none ∧
        entry.kind = earlier.kind ∧
        entry.symbol = earlier.symbol ∧ (entry.kind.isObject = true → before.Extendable entry) ∧
        (¬touched type → entry.related = earlier.related)) ∨
      (entry.symbol = none ∧ entry.kind = .function) := by
    intro type entry stored plain
    cases known : before.entries.get? type with
    | none => exact .inr (steady.functions type entry known stored plain)
    | some earlier =>
      obtain ⟨later, found, kept⟩ := steady.kept type earlier known
      cases stored.symm.trans found
      have wasPlain : earlier.generic = none := kept.generic.symm.trans plain
      refine .inl ⟨earlier, rfl, wasPlain, kept.kind, ?_⟩
      by_cases isTouched : touched type
      · obtain ⟨later, again, symbol, isExtendable⟩ := changed type earlier isTouched known wasPlain
        cases stored.symm.trans again
        exact ⟨symbol, isExtendable, fun apart => absurd isTouched apart⟩
      · obtain ⟨waiting, again⟩ := steady.definitions type earlier isTouched known wasPlain
        cases stored.symm.trans again
        refine ⟨rfl, fun isObject => ?_, fun _ => rfl⟩
        have := inherits.extendable known wasPlain isObject
        exact { this with }
  have allowed : ∀ type entry, after.entries.get? type = some entry → entry.generic = none →
      entry.kind.isObject = true → before.Extendable entry := by
    intro type entry stored plain isObject
    rcases origin type entry stored plain with ⟨_, _, _, _, _, isExtendable, _⟩ | ⟨_, isFunction⟩
    · exact isExtendable isObject
    · rw [isFunction] at isObject
      cases isObject
  -- The definition behind a base is complete, so it is not among those that change.
  have settled : ∀ base root, before.IsBase base → after.DefinitionOf base root →
      before.DefinitionOf base root ∧ ∃ source, before.entries.get? root = some source ∧
        ¬touched root ∧
        ∃ waiting, after.entries.get? root = some { source with waiting } := by
    intro base root isBase known
    have ⟨_, entry, stored, _⟩ := isBase
    have early := known.earlier stored steady.kept
    obtain ⟨source, found, plain, complete, isObject⟩ :=
      mirroredBefore.definition_of_isBase isBase early
    have apart := spared root source found plain isObject complete
    exact ⟨early, source, found, apart, steady.definitions root source apart found plain⟩
  refine ⟨mirrored, ?_, ?_, ?_, ?_, ?_, ?_, ?_⟩
  · intro type other entry same symbol stored also plain alsoPlain declares declaresAlso
    rcases origin type entry stored plain with ⟨one, oneStored, onePlain, _, oneSymbol,
      _⟩ | ⟨nameless, _⟩
    · rcases origin other same also alsoPlain with ⟨two, twoStored, twoPlain, _, twoSymbol,
        _⟩ | ⟨nameless, _⟩
      · exact inherits.unique type other one two symbol oneStored twoStored onePlain twoPlain
          (oneSymbol.symm.trans declares) (twoSymbol.symm.trans declaresAlso)
      · cases nameless.symm.trans declaresAlso
    · cases nameless.symm.trans declares
  · intro type entry stored plain isObject nameless
    rcases origin type entry stored plain with ⟨earlier, found, wasPlain, kind, symbol, _⟩ | ⟨_,
      isFunction⟩
    · exact inherits.owned type earlier found wasPlain (kind ▸ isObject)
        (symbol.symm.trans nameless)
    · rw [isFunction] at isObject
      cases isObject
  · intro type entry stored plain isObject parameter listed
    obtain ⟨known, found, kind⟩ := (allowed type entry stored plain isObject).parameters parameter
      listed
    obtain ⟨later, there, kept⟩ := steady.kept parameter known found
    exact ⟨later, there, kept.kind.trans kind⟩
  · intro type entry stored plain isObject position base known listed there
    have isExtendable := allowed type entry stored plain isObject
    obtain ⟨_, earlier, found, _⟩ := isExtendable.bases base (List.mem_of_getElem? listed)
    obtain ⟨later, again, kept⟩ := steady.kept base earlier found
    cases there.symm.trans again
    rw [kept.kind]
    exact isExtendable.legal position base earlier listed found
  · intro type entry stored plain isObject base listed
    refine ((allowed type entry stored plain isObject).bases base listed).steady steady spared ?_
    intro type entry generic stored original
    obtain ⟨definition, known, plain, kind, _⟩ :=
      mirroredBefore.definition type entry generic stored original
    exact ⟨definition, known, plain, kind⟩
  · -- A definition that gets bases is ranked above all of them.
    have above : ∀ type, ∃ height, ∀ entry base root, after.entries.get? type = some entry →
      base ∈ entry.related →
        after.DefinitionOf base root → rank root < height := by
      intro type
      cases stored : after.entries.get? type with
      | none => exact ⟨0, fun _ _ _ found => by cases found⟩
      | some entry =>
        refine ⟨(entry.related.map fun base =>
          rank (((after.entries.get? base).bind TypeEntry.generic).getD base)).sum + 1,
          ?_⟩
        rintro _ base root ⟨⟩ listed ⟨known, found, rfl⟩
        refine Nat.lt_succ_of_le (List.single_le_sum (fun _ _ => Nat.zero_le _) _
          (List.mem_map.mpr ⟨base, listed, ?_⟩))
        simp [found]
    choose height higher using above
    classical
    refine ⟨fun type => if touched type then height type else rank type, ?_⟩
    intro type entry base root stored plain isObject listed known
    obtain ⟨early, source, _, apart, _⟩ :=
      settled base root ((allowed type entry stored plain isObject).bases base listed) known
    simp only [if_neg apart]
    split
    · exact higher type entry base root stored listed known
    · rename_i untouched
      rcases origin type entry stored plain with ⟨earlier, found, wasPlain, kind, _, _, same⟩ | ⟨_,
        isFunction⟩
      · exact descends type earlier base root found wasPlain (kind ▸ isObject)
          (same untouched ▸ listed) early
      · rw [isFunction] at isObject
        cases isObject
  · intro type entry base root source stored plain isObject complete listed known found name notNew
      named
    have isExtendable := allowed type entry stored plain isObject
    obtain ⟨early, earlier, there, _, waiting, again⟩ :=
      settled base root (isExtendable.bases base listed) known
    cases found.symm.trans again
    exact isExtendable.closed complete base listed root earlier early there name notNew named

/-- Nothing but waiting instances, instances and functions joins. -/
theorem steady (inherits : before.Inherits)
    (mirrored : ∃ given, after.Mirrored (fun _ => False) given)
    (steady : before.Steady (fun _ => False) after) : after.Inherits :=
  inherits.develop mirrored steady (fun _ _ _ _ _ _ => id) fun _ _ isTouched => isTouched.elim

/-- Definitions without bases join, and types get symbols. -/
theorem relabel (inherits : before.Inherits)
    (mirrored : ∃ given, after.Mirrored (fun _ => False) given)
    (kept : ∀ type entry, before.entries.get? type = some entry →
      ∃ symbol, after.entries.get? type = some { entry with symbol })
    (blank : ∀ type entry, before.entries.get? type = none → after.entries.get? type = some entry →
      entry.generic = none → entry.related = [] ∧ entry.parameters = [])
    (unique : ∀ type other entry same symbol, after.entries.get? type = some entry →
      after.entries.get? other = some same → entry.generic = none → same.generic = none →
      entry.symbol = some symbol → same.symbol = some symbol → type = other)
    (owned : ∀ type entry, after.entries.get? type = some entry → entry.generic = none →
      entry.kind.isObject = true →
      entry.symbol = none → type.index < 10) :
    after.Inherits := by
  obtain ⟨rank, descends⟩ := inherits.ranked
  have allowed : ∀ type entry, after.entries.get? type = some entry → entry.generic = none →
      entry.kind.isObject = true → before.Extendable entry := by
    intro type entry stored plain isObject
    cases known : before.entries.get? type with
    | none =>
      obtain ⟨baseless, parameterless⟩ := blank type entry known stored plain
      constructor <;> simp [baseless, parameterless, LegalBases]
    | some earlier =>
      obtain ⟨symbol, found⟩ := kept type earlier known
      cases stored.symm.trans found
      have := inherits.extendable known plain isObject
      exact { this with }
  have behind : ∀ base root entry, before.entries.get? base = some entry →
    after.DefinitionOf base root →
      before.DefinitionOf base root := by
    rintro base root entry stored ⟨later, found, rfl⟩
    obtain ⟨symbol, again⟩ := kept base entry stored
    cases found.symm.trans again
    exact ⟨entry, stored, rfl⟩
  have isBase : ∀ base, before.IsBase base → after.IsBase base := by
    rintro base ⟨⟨entry, stored, done⟩, same, again, isObject⟩
    cases stored.symm.trans again
    obtain ⟨symbol, found⟩ := kept base entry stored
    refine ⟨⟨_, found, ?_⟩, _, found, isObject⟩
    cases original : entry.generic with
    | none => simpa [original] using done
    | some generic =>
      rw [original] at done
      obtain ⟨definition, known, complete⟩ := done
      obtain ⟨symbol, there⟩ := kept generic definition known
      simpa [original] using ⟨_, there, complete⟩
  refine ⟨mirrored, unique, owned, ?_, ?_, ?_, ⟨rank, ?_⟩, ?_⟩
  · intro type entry stored plain isObject parameter listed
    obtain ⟨known, there, isParameter⟩ :=
      (allowed type entry stored plain isObject).parameters parameter listed
    obtain ⟨symbol, later⟩ := kept parameter known there
    exact ⟨_, later, isParameter⟩
  · intro type entry stored plain isObject position base known listed there
    have isExtendable := allowed type entry stored plain isObject
    obtain ⟨_, old, oldStored, _⟩ := isExtendable.bases base (List.mem_of_getElem? listed)
    obtain ⟨symbol, later⟩ := kept base old oldStored
    cases there.symm.trans later
    exact isExtendable.legal position base old listed oldStored
  · intro type entry stored plain isObject base listed
    exact isBase base ((allowed type entry stored plain isObject).bases base listed)
  · intro type entry base root stored plain isObject listed known
    obtain ⟨_, old, oldStored, _⟩ := (allowed type entry stored plain isObject).bases base listed
    cases found : before.entries.get? type with
    | none =>
      rw [(blank type entry found stored plain).1] at listed
      cases listed
    | some earlier =>
      obtain ⟨symbol, again⟩ := kept type earlier found
      cases stored.symm.trans again
      exact descends type earlier base root found plain isObject listed
        (behind base root old oldStored known)
  · intro type entry base root source stored plain isObject complete listed known there name notNew
      named
    have isExtendable := allowed type entry stored plain isObject
    have wasBase := isExtendable.bases base listed
    have ⟨_, old, oldStored, _⟩ := wasBase
    have early := behind base root old oldStored known
    obtain ⟨given, mirroredBefore⟩ := inherits.mirrored
    obtain ⟨definition, rootStored, _⟩ := mirroredBefore.definition_of_isBase wasBase early
    obtain ⟨symbol, later⟩ := kept root definition rootStored
    cases there.symm.trans later
    exact isExtendable.closed complete base listed root definition early rootStored name notNew
      named

/-- A definition joins. -/
theorem push_named (inherits : types.Inherits) {kind : TypeKind} {symbol : SymbolId}
    {complete : Bool}
    (noFunction : kind ≠ .function)
    (undeclared : ∀ type entry, types.entries.get? type = some entry → entry.generic = none →
      entry.symbol ≠ some symbol) :
    Inherits { types with entries := types.entries.push { kind, symbol := some symbol, complete } }
    := by
  obtain ⟨given, mirrored⟩ := inherits.mirrored
  refine inherits.relabel ⟨given, mirrored.push_plain (mirrored.consed.push_named noFunction rfl)
    rfl rfl rfl rfl⟩ ?_ ?_ ?_ ?_
  · intro type entry stored
    exact ⟨entry.symbol, Table.get?_push_of_stored _ stored⟩
  · intro type entry missing found _
    obtain ⟨_, rfl⟩ | ⟨_, stored⟩ := Table.get?_push_cases found
    · exact ⟨rfl, rfl⟩
    · cases missing.symm.trans stored
  · intro type other entry same id found also plain alsoPlain declares declaresAlso
    obtain ⟨rfl, rfl⟩ | ⟨_, stored⟩ := Table.get?_push_cases found <;>
      obtain ⟨rfl, rfl⟩ | ⟨_, alsoStored⟩ := Table.get?_push_cases also
    · rfl
    · cases declares
      exact absurd declaresAlso (undeclared other same alsoStored alsoPlain)
    · cases declaresAlso
      exact absurd declares (undeclared type entry stored plain)
    · exact inherits.unique type other entry same id stored alsoStored plain alsoPlain declares
        declaresAlso
  · intro type entry found plain isObject nameless
    obtain ⟨_, rfl⟩ | ⟨_, stored⟩ := Table.get?_push_cases found
    · cases nameless
    · exact inherits.owned type entry stored plain isObject nameless

theorem new : Types.new.Inherits := by
  have blank : ∀ type entry, Types.new.entries.get? type = some entry →
      entry.symbol = none ∧ entry.related = [] ∧ entry.parameters = [] ∧ type.index < 10 := by
    intro type entry found
    obtain ⟨bound, _, _, _, rfl⟩ := blank_new found
    exact ⟨rfl, rfl, rfl, bound⟩
  refine ⟨⟨_, .new⟩, ?_, fun type entry stored _ _ _ => (blank type entry stored).2.2.2, ?_, ?_, ?_,
    ⟨fun _ => 0, ?_⟩, ?_⟩
  · intro type other entry same symbol stored _ _ _ declares
    rw [(blank type entry stored).1] at declares
    cases declares
  · intro type entry stored _ _ parameter listed
    rw [(blank type entry stored).2.2.1] at listed
    cases listed
  · intro type entry stored _ _ position base _ listed
    rw [(blank type entry stored).2.1] at listed
    cases listed
  · intro type entry stored _ _ base listed
    rw [(blank type entry stored).2.1] at listed
    cases listed
  · intro type entry base origin stored _ _ listed
    rw [(blank type entry stored).2.1] at listed
    cases listed
  · intro type entry base origin source stored _ _ _ listed
    rw [(blank type entry stored).2.1] at listed
    cases listed

end Inherits

end Types
end Resolution
