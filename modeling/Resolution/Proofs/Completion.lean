import Resolution.Proofs.Careful
import Resolution.Proofs.ScannedProgram

/-!
# The types of a resolved program

When a resolution is over, every symbol that declares a class, interface or enum is settled, so
every class and interface is complete.  What held of the hierarchy of types all along is then a
statement about the outcome: the bases form no cycle, and no name of a base is lost.
-/

namespace Resolution

namespace Store

variable {active : List SymbolId}

/-- Every built-in class has a symbol. -/
def Named (store : Store) : Prop :=
  ∀ type entry, store.types.entries.get? type = some entry → type.index < 10 →
    entry.kind.isObject = true → store.Bound type

theorem Named.follow {before after : Store} (named : before.Named)
    (consistent : before.Consistent active) (follows : before.Follows active after) :
    after.Named := by
  intro type entry found builtin isObject
  obtain ⟨given, mirrored⟩ := consistent.inherits.mirrored
  obtain ⟨earlier, stored, _, unapplied⟩ := mirrored.consed.builtin type.index builtin
  obtain ⟨later, there, kept⟩ := follows.types type earlier stored
  cases found.symm.trans there
  obtain ⟨same, id, again, owner⟩ :=
    named type earlier stored builtin (by rw [← kept.kind, isObject])
  obtain rfl : earlier = same := Option.some.inj (stored.symm.trans again)
  have plain : earlier.generic = none := by
    have := mirrored.applied type earlier stored
    simpa [unapplied] using this
  obtain ⟨last, known, _, declares⟩ := follows.declares id type earlier ⟨stored, plain, owner⟩
  exact ⟨last, id, known, declares⟩

/-- Every class and interface that is no instance is complete. -/
def Finished (store : Store) : Prop :=
  ∀ type entry, store.types.entries.get? type = some entry → entry.generic = none →
    entry.kind.isObject = true →
    entry.complete = true

theorem Consistent.finished {store : Store} (consistent : store.Consistent active)
    (named : store.Named)
    (settled : ∀ id symbol, store.symbols.get? id = some symbol → symbol.kind.isBuilt = true →
      symbol.progress = .settled) :
    store.Finished := by
  intro type entry stored plain isObject
  have isBuilt := TypeKind.isBuilt_of_isObject isObject
  cases declares : entry.symbol with
  | none =>
    obtain ⟨same, id, again, owner⟩ := named type entry stored
      (consistent.inherits.owned type entry stored plain isObject declares) isObject
    cases stored.symm.trans again
    cases declares.symm.trans owner
  | some id =>
    obtain ⟨symbol, known, sort⟩ := consistent.named id type entry ⟨stored, plain, declares⟩
    refine consistent.settled id symbol type entry known (settled id symbol known ?_)
      ⟨stored, plain, declares⟩ isBuilt
    rw [← SymbolKind.isBuilt_of_typeKind? sort, isBuilt]

end Store

namespace Resolve

variable {site : Surroundings} {store : Store} [Resolver] [careful : Resolver.Careful]
  {fuel position : Nat} {inside : Prop} {busy : List SymbolId}

theorem returns_settleEach (idle : site.active = []) (consistent : store.Consistent [])
    (past : ∀ id : SymbolId, id.index < position → store.Settled id) :
    Returns (forEachSymbol Resolver.settle fuel position) site store fun _ after =>
    store.Evolves [] after ∧
        ∀ id symbol, after.symbols.get? id = some symbol → symbol.progress = .settled := by
  induction fuel generalizing store position with
  | zero => exact ensures_throw
  | succ fuel ih =>
    rw [forEachSymbol]
    refine ensures_bind.mpr (ensures_get.mpr ?_)
    split
    · refine Runs.bind (careful.settle ⟨position⟩ site store (idle ▸ consistent)) ?_
      rintro _ middle ⟨kept, one, done⟩
      rw [idle] at kept one done
      have here : middle.Settled ⟨position⟩ := by
        rcases done with settled | ⟨inner, inside, _⟩
        · exact settled
        · cases inside
      refine (ih kept fun id before => ?_).weaken ?_
      · rcases Nat.lt_succ_iff_lt_or_eq.mp before with earlier | same
        · exact one.isSettled (past id earlier)
        · obtain ⟨index⟩ := id
          cases same
          exact here
      · rintro _ after ⟨⟨keptAfter, two⟩, settled⟩
        exact ⟨⟨keptAfter, one.trans two⟩, settled⟩
    · rename_i last
      refine .pure ⟨⟨consistent, .refl _ _⟩, fun id symbol stored => ?_⟩
      obtain ⟨same, again, done⟩ := past id (Nat.lt_of_lt_of_le (Table.lt_size_of_get? stored)
        (Nat.le_of_not_lt last))
      cases stored.symm.trans again
      exact done

instance (symbol : SymbolId) : Safe inside busy (outerBody symbol) := by
  unfold outerBody
  refine .after fun entry => ?_
  split <;> infer_instance

instance {step : SymbolId → Resolve Unit}
    [each : ∀ symbol, Safe inside busy (step symbol)] :
    Safe inside busy (forEachSymbol step fuel position) := by
  induction fuel generalizing position with
  | zero => exact inferInstanceAs (Safe inside busy (throw .outOfFuel : Resolve Unit))
  | succ fuel ih =>
    rw [forEachSymbol]
    refine .after fun store => ?_
    split
    · exact safe_bind (each _) fun _ => ih
    · infer_instance

/-- When every symbol is settled and every body resolved, all classes and interfaces are complete.
-/
theorem returns_settleAll (idle : site.active = []) (consistent : store.Consistent [])
    (named : store.Named) :
    Returns settleAll site store fun _ after => after.types.Inherits ∧ after.Finished := by
  unfold settleAll
  refine (returns_settleEach idle consistent fun _ before => absurd before (Nat.not_lt_zero _)).bind
    ?_
  rintro _ middle ⟨⟨kept, one⟩, settled⟩
  refine (Safe.returns inferInstance (idle ▸ kept)).weaken ?_
  rintro _ after ⟨keptAfter, two⟩
  rw [idle] at keptAfter two
  refine ⟨keptAfter.inherits, keptAfter.finished (named.follow consistent (one.trans two))
    fun id symbol stored isBuilt => ?_⟩
  cases known : middle.symbols.get? id with
  | none =>
    rw [two.unbuilt id symbol known stored] at isBuilt
    cases isBuilt
  | some earlier =>
    obtain ⟨later, found, _, stays⟩ := two.symbols id earlier known
    cases stored.symm.trans found
    exact stays (settled id earlier known)

/-- The types of a resolved program form a hierarchy of complete classes and interfaces. -/
theorem returns_program {source : Source} {requireEntryPoint : Bool} {root : NodeId}
    (idle : site.active = [])
    (sheltered : source.tree.Sheltered) :
    Returns (program requireEntryPoint root) site (.initial source) fun _ after =>
      after.types.Inherits ∧ after.Finished := by
  unfold program
  refine (returns_addPrelude sheltered).bind ?_
  rintro prelude joined ⟨⟨symbols, types, scopes⟩, block, classes, rest, files, node, holds, stored,
    isRoot, once⟩
  obtain ⟨consistent, _⟩ := (Store.consistent_initial source).elsewhere types symbols scopes
  have initial := Store.unsettled_initial source
  have unsettled : joined.Unsettled :=
    ⟨symbols ▸ initial.untouched, types ▸ initial.unapplied, types ▸ initial.incomplete⟩
  have vacant : joined.Vacant Prelude.classTypes := by
    unfold Store.Vacant
    rw [scopes]
    exact Store.vacant_initial source _
  refine (returns_fileBlocks holds.guarded stored isRoot once).bind ?_
  rintro _ joined ⟨rfl, others, rfl, apart⟩
  refine (returns_scan idle consistent unsettled holds apart vacant ?_).bind ?_
  · rw [types]
    exact fun type listed => Types.exists_new_of_mem_classTypes listed
  rintro _ scanned ⟨one, bound⟩
  have named : scanned.Named := by
    intro type entry found builtin isObject
    obtain ⟨given, mirrored⟩ := consistent.inherits.mirrored
    obtain ⟨earlier, known, _⟩ := mirrored.consed.builtin type.index builtin
    obtain ⟨later, there, kind, _⟩ := one.spares.types type earlier known
    cases found.symm.trans there
    rw [types] at known
    exact bound type ((Types.entries_new known).2.2.2 (by rw [← kind, isObject]))
  refine looks_mathType?.bind fun math => ?_
  have inner : ({ site with math } : Surroundings).active = [] := idle
  refine ensures_bind.mpr (ensures_withMath.mpr
    ((returns_settleAll inner one.consistent named).weaken ?_))
  intro _ settled done
  refine (looks_checkEntryPoint _ _).bind fun _ => .pure done

end Resolve

/-- Every outcome of a resolution has a hierarchy of complete classes and interfaces. -/
theorem inherits_of_resolve {fuel : Nat} {options : Options} {source : Source} {root : NodeId}
    {outcome : Outcome}
    (sheltered : source.tree.Sheltered) (resolved : resolve fuel options source root =
      .ok outcome) :
    outcome.types.Inherits ∧ outcome.toStore.Finished := by
  let := Resolver.within fuel
  have := Resolver.careful_within fuel
  obtain ⟨reports, run, -⟩ := resolve_eq_ok_iff.mp resolved
  exact Resolve.returns_program rfl sheltered outcome.prelude reports outcome.toStore run False.elim

/-! ## A small program -/

namespace Sample

/-- An interface with a type parameter and a class that extends an instance of it; two constants on
a cycle. -/
def build : Build NodeId := do
  let shape ← Build.header "Shape"
  let parameter ← Build.name "T"
  let declared ← Build.function (← Build.header "area") [] [] (some parameter) none
  let shape ← Build.object .interface shape ["T"] [] [declared]
  let square ← Build.header "Square"
  let base ← Build.generic "Shape" [← Build.name "double"]
  let area ← Build.header "area"
  let result ← Build.name "double"
  let value ← Build.node (.returnStmt (some (← Build.node (.int 4))))
  let area ← Build.function (area.withModifier .isOverride) [] [] (some result) (some [value])
  let square ← Build.object .classType square [] [base] [area]
  let first ← Build.header "a"
  let first ← Build.node (.variableDecl (first.withModifier .isConst) none
    (some (← Build.name "b")))
  let second ← Build.header "b"
  let second ← Build.node (.variableDecl (second.withModifier .isConst) none
    (some (← Build.name "a")))
  Build.node (.program [← Build.file [shape, square, first, second]])

/-- The source of the program and its root. -/
def program : Source × NodeId :=
  match build { toSource := .new, file := 0 } with
  | .ok root draft => (draft.toSource, root)
  | .error _ draft => (draft.toSource, ⟨0⟩)

/-- Type of the class. -/
def square : TypeId := ⟨16⟩

/-- The instance of the interface. -/
def shape : TypeId := ⟨24⟩

/-- The class extends the instance, which has the function of its definition, and both constants are
on the cycle. -/
def describes (outcome : Outcome) : Bool :=
  (outcome.types.entries.get? square).any (fun entry => entry.kind.isObject && entry.related ==
    [shape]) &&
    (outcome.types.entries.get? shape).any (fun entry => (entry.members.find? "area").isSome) &&
      outcome.cyclic == [⟨11⟩, ⟨10⟩]

theorem run_describes : (match resolve 60 {} program.1 program.2 with
      | .ok outcome => describes outcome
      | .error _ => false) = true := by
  decide +kernel

theorem resolved : ∃ outcome, resolve 60 {} program.1 program.2 = .ok outcome ∧
    describes outcome = true := by
  have run := run_describes
  split at run
  · rename_i outcome answer
    exact ⟨outcome, answer, run⟩
  · cases run

theorem sheltered : program.1.tree.Sheltered := by
  decide +kernel

theorem extends_shape {outcome : Outcome} (described : describes outcome = true) :
    ∃ entry above, outcome.types.entries.get? square = some entry ∧ entry.kind.isObject = true ∧
      entry.related = [shape] ∧ outcome.types.entries.get? shape = some above ∧
      (above.members.find? "area").isSome := by
  simp only [describes, Bool.and_eq_true, Option.any_eq_true, beq_iff_eq] at described
  obtain ⟨⟨⟨entry, stored, isObject, related⟩, above, found, named⟩, _⟩ := described
  exact ⟨entry, above, stored, isObject, related, found, named⟩

end Sample

/-! ## Bases -/

namespace Types

variable {types : Types}

namespace Inherits

theorem hasBase_iff_derives (inherits : types.Inherits) (type base : TypeId) :
    types.hasBase type base = .ok true ↔ Relation.TransGen types.Derives type base :=
  inherits.ordered.hasBase_iff type base

/-- A class has at most one class among its bases, which comes first, and an interface has none. -/
theorem base_kind (inherits : types.Inherits) {type base : TypeId} {entry : TypeEntry}
    {position : Nat}
    (stored : types.entries.get? type = some entry) (isObject : entry.kind.isObject = true)
    (listed : entry.related[position]? = some base) :
    ∃ above, types.entries.get? base = some above ∧
      (above.kind = .interface ∨ above.kind = .classType ∧ entry.kind = .classType ∧
        position = 0) := by
  obtain ⟨above, found⟩ := inherits.base_stored ⟨entry, stored, isObject,
    List.mem_of_getElem? listed⟩
  refine ⟨above, found, ?_⟩
  have legal := inherits.legalBases stored isObject position base above listed found
  unfold TypeKind.isLegalBase at legal
  split at legal
  · rename_i isClass
    have ⟨sort, first⟩ : entry.kind = .classType ∧ position = 0 := by simpa using legal
    exact .inr ⟨isClass, sort, first⟩
  · rename_i isInterface
    exact .inl isInterface
  · cases legal

end Inherits

end Types

/-- The bases of classes and interfaces, instances among them, form a hierarchy: bases fit their
positions, no type is above itself, the walk along the bases decides a strict order, and this walk
and the search for a common type end. -/
theorem hierarchy_of_resolve {fuel : Nat} {options : Options} {source : Source} {root : NodeId}
    {outcome : Outcome}
    (sheltered : source.tree.Sheltered) (resolved : resolve fuel options source root =
      .ok outcome) :
    (∀ type entry position base, outcome.types.entries.get? type = some entry →
      entry.kind.isObject = true →
      entry.related[position]? = some base → ∃ above, outcome.types.entries.get? base = some above ∧
        (above.kind = .interface ∨ above.kind = .classType ∧ entry.kind = .classType ∧
          position = 0)) ∧
      (∀ type, ¬Relation.TransGen outcome.types.Derives type type) ∧
      (∀ type base, outcome.types.hasBase type base = .ok true ↔
        Relation.TransGen outcome.types.Derives type base) ∧
      (∀ type, outcome.types.hasBase type type ≠ .ok true) ∧
      (∀ first second third, outcome.types.hasBase first second = .ok true →
        outcome.types.hasBase second third = .ok true → outcome.types.hasBase first third =
        .ok true) ∧
      ∀ first second entry other, outcome.types.entries.get? first = some entry →
        outcome.types.entries.get? second = some other →
        Answers (outcome.types.hasBase first second) ∧
        Answers (outcome.types.common? first second) := by
  obtain ⟨inherits, _⟩ := inherits_of_resolve sheltered resolved
  have walks := inherits.hasBase_iff_derives
  refine ⟨fun _ _ _ _ => inherits.base_kind, inherits.irreflexive, walks, fun type walked => ?_,
    fun first second third one two => ?_, fun first second entry other stored alsoStored =>
      ⟨?_, ?_⟩⟩
  · exact inherits.irreflexive type ((walks type type).mp walked)
  · exact (walks first third).mpr (((walks first second).mp one).trans
      ((walks second third).mp two))
  · obtain ⟨answer, answered, _⟩ := inherits.hasBase_answers stored second
    exact ⟨answer, answered⟩
  · exact inherits.answers_common? stored alsoStored

/-- The class of the small program is below the instance that it extends, and the instance is not
below the class. -/
theorem hierarchy_of_sample : ∃ outcome, Sample.program.1.tree.Sheltered ∧
    resolve 60 {} Sample.program.1 Sample.program.2 = .ok outcome ∧
      outcome.types.hasBase Sample.square Sample.shape = .ok true ∧
      outcome.types.hasBase Sample.shape Sample.square ≠ .ok true := by
  obtain ⟨outcome, resolved, described⟩ := Sample.resolved
  obtain ⟨entry, above, stored, isObject, related, _⟩ := Sample.extends_shape described
  obtain ⟨_, _, walks, irreflexive, transitive, _⟩ := hierarchy_of_resolve Sample.sheltered resolved
  have below := (walks Sample.square Sample.shape).mpr
    (.single ⟨entry, stored, isObject, by simp [related]⟩)
  exact ⟨outcome, Sample.sheltered, resolved, below, fun back =>
    irreflexive _ (transitive _ _ _ below back)⟩

/-! ## Names -/

namespace Types

variable {types : Types} {type : TypeId} {entry : TypeEntry}

theorem Mirrored.names_of_definition {given : MemberId → Prop}
    (mirrored : types.Mirrored (fun _ => False) given)
    {origin : TypeId} {definition : TypeEntry} (stored : types.entries.get? type = some entry)
    (known : types.DefinitionOf type origin) (found : types.entries.get? origin = some definition)
    (complete : definition.complete = true) :
    entry.complete = true ∧ ∀ name, (entry.members.find? name).isSome ↔
    (definition.members.find? name).isSome := by
  obtain ⟨same, again, rfl⟩ := known
  cases stored.symm.trans again
  cases original : entry.generic with
  | none =>
    rw [original, Option.getD_none, stored] at found
    cases found
    exact ⟨complete, fun _ => .rfl⟩
  | some generic =>
    rw [original, Option.getD_some] at found
    have filled : entry.complete = true := by
      have nothing := mirrored.attended generic definition found complete
      simpa [nothing] using mirrored.filled type entry generic definition stored original found
    have mirrors := mirrored.mirrors type entry generic definition stored original found filled
    refine ⟨filled, fun name => ⟨fun named => ?_, fun named => ?_⟩⟩
    · obtain ⟨copy, bound⟩ := Option.isSome_iff_exists.mp named
      obtain ⟨_, source, defined⟩ := mirrors.names name copy bound
      rw [defined]
      rfl
    · obtain ⟨source, defined⟩ := Option.isSome_iff_exists.mp named
      obtain ⟨copy, bound, _⟩ := mirrors.copies name source defined
      rw [bound]
      rfl

theorem Inherits.names_of_base (inherits : types.Inherits)
    (finished : ∀ type entry, types.entries.get? type = some entry → entry.generic = none →
      entry.kind.isObject = true →
      entry.complete = true)
    {base : TypeId} {above : TypeEntry} (stored : types.entries.get? type = some entry)
    (isObject : entry.kind.isObject = true) (listed : base ∈ entry.related)
    (found : types.entries.get? base = some above)
    {name : String} (notNew : name ≠ "new") (named : (above.members.find? name).isSome) :
    (entry.members.find? name).isSome := by
  obtain ⟨given, mirrored⟩ := inherits.mirrored
  obtain ⟨position, _, here⟩ := List.mem_iff_getElem.mp listed
  have behind : types.DefinitionOf type (entry.generic.getD type) := ⟨entry, stored, rfl⟩
  obtain ⟨definition, original, source, made, known, plain, kind, reached, sourceKnown, there, _,
    root⟩ :=
    inherits.base_of_definition stored isObject (List.getElem?_eq_some_iff.mpr ⟨_, here⟩) behind
  cases found.symm.trans there
  have wasObject : definition.kind.isObject = true := by rw [kind, isObject]
  have complete := finished _ definition known plain wasObject
  have listedThere := List.mem_of_getElem? reached
  have isBase := inherits.bases _ definition known plain wasObject original listedThere
  have origin : types.DefinitionOf original (source.generic.getD original) :=
    ⟨source, sourceKnown, rfl⟩
  obtain ⟨bottom, bottomKnown, _, bottomComplete, _⟩ := mirrored.definition_of_isBase isBase origin
  have below := ((mirrored.names_of_definition found (root _ origin) bottomKnown bottomComplete).2
    name).mp named
  have inherited := inherits.closed _ definition original _ bottom known plain wasObject complete
    listedThere origin
    bottomKnown name notNew below
  exact ((mirrored.names_of_definition stored behind known complete).2 name).mpr inherited

end Types

/-- Every class and interface of a resolved program is complete and has the names of all its bases,
except for their constructors; an instance has the names of its definition. -/
theorem members_of_resolve {fuel : Nat} {options : Options} {source : Source} {root : NodeId}
    {outcome : Outcome}
    (sheltered : source.tree.Sheltered) (resolved : resolve fuel options source root = .ok outcome)
    {type : TypeId}
    {entry : TypeEntry} (stored : outcome.types.entries.get? type = some entry)
    (isObject : entry.kind.isObject = true) :
    entry.complete = true ∧
      (∀ base ∈ entry.related, ∃ above, outcome.types.entries.get? base = some above ∧
        ∀ name, name ≠ "new" → (above.members.find? name).isSome →
        (entry.members.find? name).isSome) ∧
      ∀ generic, entry.generic = some generic → ∃ definition, outcome.types.entries.get? generic =
      some definition ∧
        ∀ name, (entry.members.find? name).isSome ↔ (definition.members.find? name).isSome := by
  obtain ⟨inherits, finished⟩ := inherits_of_resolve sheltered resolved
  obtain ⟨given, mirrored⟩ := inherits.mirrored
  have instances : ∀ generic, entry.generic = some generic → ∃ definition,
      outcome.types.entries.get? generic = some definition ∧ entry.complete = true ∧
        ∀ name, (entry.members.find? name).isSome ↔ (definition.members.find? name).isSome := by
    intro generic original
    obtain ⟨definition, known, plain, kind, _⟩ :=
      mirrored.definition type entry generic stored original
    have complete := finished generic definition known plain (by rw [kind, isObject])
    exact ⟨definition, known, mirrored.names_of_definition stored
      ⟨entry, stored, by rw [original]; rfl⟩ known complete⟩
  refine ⟨?_, fun base listed => ?_, fun generic original => ?_⟩
  · cases original : entry.generic with
    | none => exact finished type entry stored original isObject
    | some generic =>
      obtain ⟨_, _, complete, _⟩ := instances generic original
      exact complete
  · obtain ⟨above, found⟩ := inherits.base_stored ⟨entry, stored, isObject, listed⟩
    exact ⟨above, found, fun name => inherits.names_of_base finished stored isObject listed found⟩
  · obtain ⟨definition, known, _, names⟩ := instances generic original
    exact ⟨definition, known, names⟩

/-- The class of the small program is complete and has the function of the instance that it extends.
-/
theorem members_of_sample : ∃ outcome entry, Sample.program.1.tree.Sheltered ∧
    resolve 60 {} Sample.program.1 Sample.program.2 = .ok outcome ∧
      outcome.types.entries.get? Sample.square = some entry ∧ entry.kind.isObject = true ∧
      entry.complete = true ∧
      entry.related = [Sample.shape] ∧ (entry.members.find? "area").isSome := by
  obtain ⟨outcome, resolved, described⟩ := Sample.resolved
  obtain ⟨entry, above, stored, isObject, related, found, named⟩ := Sample.extends_shape described
  obtain ⟨complete, bases, _⟩ := members_of_resolve Sample.sheltered resolved stored isObject
  obtain ⟨same, again, names⟩ := bases Sample.shape (by simp [related])
  rw [found] at again
  cases again
  exact ⟨outcome, entry, Sample.sheltered, resolved, stored, isObject, complete, related,
    names "area" (by decide) named⟩

end Resolution
