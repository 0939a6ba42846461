import Resolution.Proofs.Sharing

/-!
# How types grow

Substitution rebuilds the types that change; what it builds is stored, and an instance is filled,
which substitutes again.  Building an instance may ask for further instances while the first one is
unfinished.  `Regime` is what such a recursion relies on, and `Growth` adds what the operations do
to the types one step at a time.  What follows holds of every growth: types only join, and the
answer of a substitution is the type with its parameters replaced.
-/

namespace Resolution
namespace Types

/-! ## Substitution as a relation -/

/-- What a type becomes when type arguments replace type parameters: parameters are replaced,
function types and instances are replaced part by part, and everything else stays. -/
inductive Replaced (types : Types) (parameters arguments : List TypeId) :
    TypeId → TypeId → Prop where
  | unparameterized {type : TypeId} (blank : parameters = []) :
    Replaced types parameters arguments type type
  | parameter {type result : TypeId} (replaced : replacement? type parameters arguments =
    some result) :
      Replaced types parameters arguments type result
  | function {type result : TypeId} {entry made : TypeEntry}
    (stays : replacement? type parameters arguments = none)
      (stored : types.entries.get? type = some entry) (isFunction : entry.kind = .function)
      (found : types.entries.get? result = some made) (alsoFunction : made.kind = .function)
      (length : entry.related.length = made.related.length)
      (parts : ∀ part replaced, (part, replaced) ∈ entry.related.zip made.related →
        Replaced types parameters arguments part replaced) :
      Replaced types parameters arguments type result
  | applied {type result : TypeId} {entry made : TypeEntry} {before after : List TypeId}
      (stays : replacement? type parameters arguments = none)
      (stored : types.entries.get? type = some entry) (applied : entry.arguments = some before)
      (found : types.entries.get? result = some made) (sameSymbol : made.symbol = entry.symbol)
      (alsoApplied : made.arguments = some after) (length : before.length = after.length)
      (parts : ∀ part replaced, (part, replaced) ∈ before.zip after →
        Replaced types parameters arguments part replaced) :
      Replaced types parameters arguments type result
  | plain {type : TypeId} {entry : TypeEntry} (stays : replacement? type parameters arguments =
    none)
      (stored : types.entries.get? type = some entry) (noFunction : entry.kind ≠ .function)
      (unapplied : entry.arguments = none) : Replaced types parameters arguments type type

theorem mem_of_replacement? {type argument : TypeId} {parameters arguments : List TypeId}
    (replaced : replacement? type parameters arguments = some argument) : type ∈ parameters := by
  unfold replacement? at replaced
  obtain ⟨position, found, _⟩ := Option.map_eq_some_iff.mp replaced
  obtain ⟨inside, here, _⟩ := List.findIdx?_eq_some_iff_getElem.mp found
  have same : parameters[position] = type := by simpa using here
  exact same ▸ List.getElem_mem inside

/-- What several types become, one by one. -/
def ReplacedAll (types : Types) (parameters arguments before after : List TypeId) : Prop :=
  before.length = after.length ∧
    ∀ part replaced, (part, replaced) ∈ before.zip after →
      types.Replaced parameters arguments part replaced

section Replaced

variable {before after : Types} {parameters arguments : List TypeId} {type result : TypeId}
  {results : List TypeId}

/-- Operations keep what makes a type the same, so what a type becomes stays. -/
theorem Replaced.keep (replaced : before.Replaced parameters arguments type result)
    (kept : before.Extends after) : after.Replaced parameters arguments type result := by
  induction replaced with
  | unparameterized blank => exact .unparameterized blank
  | parameter replaced => exact .parameter replaced
  | function stays stored isFunction found alsoFunction length parts ih =>
    obtain ⟨later, there, same⟩ := kept _ _ stored
    obtain ⟨built, here, alike⟩ := kept _ _ found
    have sameParts := same.related isFunction
    have alikeParts := alike.related alsoFunction
    refine .function stays there (same.kind.trans isFunction) here (alike.kind.trans alsoFunction)
      ?_ ?_
    · rw [sameParts, alikeParts, length]
    · rw [sameParts, alikeParts]
      exact ih
  | applied stays stored applied found sameSymbol alsoApplied length parts ih =>
    obtain ⟨later, there, same⟩ := kept _ _ stored
    obtain ⟨built, here, alike⟩ := kept _ _ found
    refine .applied stays there (same.arguments.trans applied) here ?_
      (alike.arguments.trans alsoApplied) length ih
    rw [alike.symbol (.inr (by rw [alsoApplied]; rfl)), same.symbol (.inr (by rw [applied]; rfl)),
      sameSymbol]
  | plain stays stored noFunction unapplied =>
    obtain ⟨later, there, same⟩ := kept _ _ stored
    exact .plain stays there (by rw [same.kind]; exact noFunction) (same.arguments.trans unapplied)

theorem ReplacedAll.keep {types : List TypeId}
    (replaced : before.ReplacedAll parameters arguments types results)
    (kept : before.Extends after) :
    after.ReplacedAll parameters arguments types results :=
  ⟨replaced.1, fun part result listed => (replaced.2 part result listed).keep kept⟩

theorem ReplacedAll.nil (types : Types) : types.ReplacedAll parameters arguments [] [] :=
  ⟨rfl, fun _ _ listed => absurd listed List.not_mem_nil⟩

theorem ReplacedAll.cons {types : Types} {rest : List TypeId}
    (first : types.Replaced parameters arguments type result)
    (others : types.ReplacedAll parameters arguments rest results) :
    types.ReplacedAll parameters arguments (type :: rest) (result :: results) := by
  refine ⟨congrArg (· + 1) others.1, fun part replaced listed => ?_⟩
  rcases List.mem_cons.mp listed with same | later
  · cases same
    exact first
  · exact others.2 part replaced later

end Replaced

/-! ## Rebuilding a type -/

/-- What a substitution relies on while types join, where it leads, and which types it may be given.
-/
structure Regime where
  fits : Types → Prop
  leads : Types → Types → Prop
  knows : Types → TypeId → Prop
  /-- Instances have the symbols of their definitions. -/
  declared : Prop
  consed : ∀ {types}, fits types → types.HashConsed
  refl : ∀ {types}, fits types → leads types types
  trans : ∀ {first second third}, leads first second → leads second third → leads first third
  reached : ∀ {before after}, leads before after → fits after
  extended : ∀ {before after}, leads before after → before.Extends after
  lasting : ∀ {before after type}, leads before after → knows before type → knows after type
  stored : ∀ {types type entry}, fits types → types.entries.get? type = some entry →
    knows types type
  replaced : ∀ {types type parameters arguments argument}, fits types →
    (∀ argument ∈ arguments, knows types argument) → replacement? type parameters arguments =
      some argument →
    knows types argument
  signature : ∀ {types type entry}, fits types → types.entries.get? type = some entry →
    entry.kind = .function →
    ∀ part ∈ entry.related, knows types part
  applied : ∀ {types type entry arguments}, fits types → types.entries.get? type = some entry →
    entry.kind ≠ .function → entry.arguments = some arguments → ∀ part ∈ arguments, knows types part
  definition : declared → ∀ {types type entry arguments}, fits types →
    types.entries.get? type = some entry →
    entry.arguments = some arguments → ∃ generic definition, entry.generic = some generic ∧
      types.entries.get? generic = some definition ∧ definition.symbol = entry.symbol
  declares : declared → ∀ {before after type entry later}, leads before after →
    before.entries.get? type = some entry → after.entries.get? type = some later →
      later.symbol = entry.symbol

namespace Regime

/-- What a substitution answers. -/
structure Answers (regime : Regime) (before : Types) (parameters arguments : List TypeId)
    (type result : TypeId)
    (after : Types) : Prop where
  leads : regime.leads before after
  known : regime.knows before type → regime.knows after result
  replaced : regime.declared → after.Replaced parameters arguments type result

/-- What a substitution answers for several types, one after the other. -/
structure AnswersAll (regime : Regime) (before : Types)
    (parameters arguments parts answers : List TypeId) (after : Types) :
    Prop where
  leads : regime.leads before after
  length : answers.length = parts.length
  known : (∀ part ∈ parts, regime.knows before part) → ∀ answer ∈ answers, regime.knows after answer
  replaced : regime.declared → after.ReplacedAll parameters arguments parts answers

/-- A substitution that keeps to the regime, whatever it builds on the way. -/
def Moves (regime : Regime) (substitution : Substitution) : Prop :=
  ∀ types type parameters arguments, regime.fits types →
    (∀ argument ∈ arguments, regime.knows types argument) →
    (substitution type parameters arguments).Ensures types
      (regime.Answers types parameters arguments type)

/-- A function type that is answered has the signature that was asked for. -/
def BuildsFunctions (regime : Regime) : Prop :=
  ∀ types result arguments, regime.fits types →
    (∀ part ∈ result :: arguments, regime.knows types part) →
    (functionType result arguments).Ensures types fun type after =>
      regime.leads types after ∧ ∃ entry, after.entries.get? type = some entry ∧
        entry.kind = .function ∧ entry.related = result :: arguments

/-- An instance that is answered has the symbol of its definition and the type arguments that were
asked for. -/
def IsInstance (before : Types) (generic : TypeId) (arguments : List TypeId) (type : TypeId)
    (after : Types) : Prop :=
  arguments ≠ [] → ∃ definition entry, before.entries.get? generic = some definition ∧
    after.entries.get? type = some entry ∧ entry.symbol = definition.symbol ∧
      entry.arguments = some arguments

/-- Further instances can be asked for. -/
def BuildsInstances (regime : Regime) (substitution : Substitution) : Prop :=
  ∀ types generic arguments, regime.fits types →
    (∀ argument ∈ arguments, regime.knows types argument) →
    (∃ type entry, types.entries.get? type = some entry ∧ entry.generic = some generic) →
    (parameterizeVia substitution generic arguments).Ensures types fun type after =>
      regime.leads types after ∧ IsInstance types generic arguments type after

variable {regime : Regime} {types : Types} {substitution : Substitution}

theorem Moves.each (moves : regime.Moves substitution) {parts parameters arguments : List TypeId}
    (fits : regime.fits types)
    (given : ∀ argument ∈ arguments, regime.knows types argument) :
    (parts.mapM fun part => substitution part parameters arguments).Ensures types
      (regime.AnswersAll types parameters arguments parts) := by
  induction parts generalizing types with
  | nil => exact .pure ⟨regime.refl fits, rfl, fun _ => nofun, fun _ => .nil types⟩
  | cons part rest ih =>
    rw [List.mapM_cons]
    refine .bind (moves types part parameters arguments fits given) ?_
    intro answer middle first
    refine .bind (ih (regime.reached first.leads) fun argument listed =>
      regime.lasting first.leads (given argument listed)) ?_
    intro answers after others
    refine .pure ⟨regime.trans first.leads others.leads, congrArg (· + 1) others.length,
      fun stored => ?_, fun declared => ?_⟩
    · obtain ⟨head, tail⟩ := List.forall_mem_cons.mp stored
      exact List.forall_mem_cons.mpr ⟨regime.lasting others.leads (first.known head),
        others.known fun part listed => regime.lasting first.leads (tail part listed)⟩
    · exact .cons ((first.replaced declared).keep (regime.extended others.leads))
        (others.replaced declared)

/-- Substitution keeps to the regime at every number of steps: what it builds re-enters it with
fewer steps. -/
theorem moves_substitute (functions : regime.BuildsFunctions)
    (instances : ∀ substitution, regime.Moves substitution → regime.BuildsInstances substitution)
    (fuel : Nat) :
    regime.Moves (substitute fuel) := by
  induction fuel with
  | zero =>
    intro types type parameters arguments _ _
    exact .throw
  | succ fuel ih =>
    intro types type parameters arguments fits given
    unfold substitute
    split
    · rename_i isEmpty
      exact .pure ⟨regime.refl fits, id, fun _ => .unparameterized (List.isEmpty_iff.mp isEmpty)⟩
    cases replaces : replacement? type parameters arguments with
    | some argument =>
      exact .pure ⟨regime.refl fits, fun _ => regime.replaced fits given replaces, fun _ =>
        .parameter replaces⟩
    | none =>
      refine .get ?_
      refine .fetch fun entry stored => ?_
      split
      · rename_i isFunction
        refine .bind (ih.each fits given) ?_
        intro parts middle each
        obtain ⟨here, found, kept⟩ := regime.extended each.leads type entry stored
        have sameParts := kept.related isFunction
        split
        · rename_i unchanged
          refine .pure ⟨each.leads, regime.lasting each.leads, fun declared => ?_⟩
          have replaced := each.replaced declared
          rw [unchanged, ← sameParts] at replaced
          exact .function replaces found (kept.kind.trans isFunction) found
            (kept.kind.trans isFunction) rfl replaced.2
        split
        · rename_i result rest _
          refine (functions middle result rest (regime.reached each.leads)
            (each.known (regime.signature fits stored isFunction))).weaken ?_
          rintro function after ⟨further, made, there, kind, signature⟩
          obtain ⟨later, hereAfter, keptAfter⟩ := regime.extended further type here found
          have wholly := kept.trans keptAfter
          refine ⟨regime.trans each.leads further, fun _ =>
            regime.stored (regime.reached further) there, fun declared => ?_⟩
          have final := (each.replaced declared).keep (regime.extended further)
          rw [← signature, ← wholly.related isFunction] at final
          exact .function replaces hereAfter (wholly.kind.trans isFunction) there kind final.1
            final.2
        · exact .throw
      · rename_i existing applied noFunction
        refine .bind (ih.each fits given) ?_
        intro parts middle each
        obtain ⟨here, found, kept⟩ := regime.extended each.leads type entry stored
        split
        · rename_i unchanged
          refine .pure ⟨each.leads, regime.lasting each.leads, fun declared => ?_⟩
          have replaced := each.replaced declared
          rw [unchanged] at replaced
          have appliedStill := kept.arguments.trans applied
          exact .applied replaces found appliedStill found rfl appliedStill rfl replaced.2
        rename_i differs
        split
        · rename_i generic original
          have notEmpty : parts ≠ [] := by
            rintro rfl
            exact differs (List.length_eq_zero_iff.mp each.length.symm).symm
          refine (instances _ ih middle generic parts (regime.reached each.leads)
            (each.known (regime.applied fits stored noFunction applied))
            ⟨type, here, found, kept.generic.trans original⟩).weaken ?_
          rintro answer after ⟨further, finds⟩
          obtain ⟨definitionStill, made, knownStill, there, madeOf, madeWith⟩ := finds notEmpty
          obtain ⟨later, hereAfter, keptAfter⟩ := regime.extended further type here found
          have wholly := kept.trans keptAfter
          refine ⟨regime.trans each.leads further, fun _ =>
            regime.stored (regime.reached further) there, fun declared => ?_⟩
          -- The new instance is one of the definition, so it has the symbol of the old one.
          obtain ⟨other, definition, same, known, sameSymbol⟩ :=
            regime.definition declared fits stored applied
          cases original.symm.trans same
          have final := (each.replaced declared).keep (regime.extended further)
          refine .applied replaces hereAfter (wholly.arguments.trans applied) there ?_ madeWith
            final.1 final.2
          rw [madeOf, regime.declares declared each.leads known knownStill, sameSymbol,
            wholly.symbol (.inr (by rw [applied]; rfl))]
        · rename_i undeclared
          refine .pure ⟨each.leads, regime.lasting each.leads, fun declared => ?_⟩
          obtain ⟨_, _, same, _⟩ := regime.definition declared fits stored applied
          cases undeclared.symm.trans same
      · rename_i unapplied noFunction
        exact .pure ⟨regime.refl fits, id, fun _ => .plain replaces stored noFunction unapplied⟩

end Regime

/-! ## Growth, step by step -/

/-- The stored entry of an instance, before it is filled. -/
abbrev instanceEntry (definition : TypeEntry) (symbol : SymbolId) (arguments : List TypeId)
    (generic : TypeId) :
    TypeEntry :=
  { kind := definition.kind, symbol := some symbol, arguments := some arguments,
    generic := some generic }

/-- The name is one of the table, or it leads to a stored member. -/
def Lists (types : Types) (table : NameTable) (named : String × MemberId) : Prop :=
  named ∈ table.entries ∨ named.2.index < types.members.size

theorem lists_set {types : Types} {table : NameTable} {name : String} {member : MemberId}
    {named : String × MemberId}
    (stored : member.index < types.members.size)
    (listed : named ∈ (table.set name member).entries) :
    types.Lists table named := by
  refine (NameTable.mem_of_mem_set listed).imp_right ?_
  rintro rfl
  exact stored

/-- A regime together with what the operations do, one step at a time. -/
structure Growth extends Regime where
  /-- Member tables name stored members only. -/
  listed : Prop := False
  modify : ∀ {types type} {change : TypeEntry → TypeEntry}, fits types →
    (∀ entry, types.entries.get? type = some entry → entry.Keeps (change entry)) →
    (∀ entry, (change entry).symbol = entry.symbol) →
      (∀ entry, (change entry).parameters = entry.parameters) →
    (listed → ∀ entry, types.entries.get? type = some entry →
      ∀ named ∈ (change entry).members.entries,
      types.Lists entry.members named) →
    leads types { types with entries := types.entries.modify type change }
  pushFunction : ∀ {types result arguments}, fits types →
    (∀ part ∈ result :: arguments, knows types part) →
    types.interned? (.function (result :: arguments)) = none →
    leads types { types with
      entries := types.entries.push
        { kind := .function, related := result :: arguments, complete := true }
      interned := (.function (result :: arguments), types.entries.next) :: types.interned }
  pushInstance : ∀ {types generic definition symbol arguments}, fits types →
    (∀ part ∈ arguments, knows types part) →
    types.entries.get? generic = some definition → definition.symbol = some symbol →
      definition.kind ≠ .function →
    types.interned? (.applied symbol arguments) = none →
    leads types { types with
      entries := types.entries.push (instanceEntry definition symbol arguments generic)
      interned := (.applied symbol arguments, types.entries.next) :: types.interned }
  pushMember : ∀ {types source member} context, fits types →
    types.members.get? source = some member →
    leads types { types with
                  members := types.members.push (.dependent member.symbol source context) }

/-- Asking a member for its type substitutes, and a member may learn its type. -/
theorem ensures_memberType_keeping {keeps : Types → Prop}
    (substitutes : ∀ now fuel context base pair, keeps now → now.substitutionOf context = .ok pair →
      (substitute fuel base pair.1 pair.2).Ensures now fun _ => keeps)
    (learns : ∀ now id type, keeps now →
      keeps { now with
              members := now.members.modify id fun member => { member with type := some type } })
    (symbols : Symbols) (fuel : Nat) (id : MemberId) {types : Types} (kept : keeps types) :
    (memberType symbols fuel id).Ensures types fun _ => keeps := by
  induction fuel generalizing id types with
  | zero => exact .throw
  | succ fuel ih =>
    unfold memberType
    refine .get ?_
    refine .ask fun member _ => ?_
    split
    · exact .pure kept
    extract_lets finish
    have finished : ∀ base middle, keeps middle → (finish base).Ensures middle fun _ => keeps := by
      intro base middle reached
      unfold finish
      extract_lets store
      have stored : ∀ type after, keeps after → (store type).Ensures after fun _ => keeps := by
        intro type after further
        refine .ask fun symbol _ => ?_
        split
        · exact Action.ensures_bind.mpr (.updateIn fun _ => .pure (learns after id type further))
        · exact .pure further
      split
      · refine .get ?_
        refine .ask fun pair applies => ?_
        exact .bind (substitutes middle fuel _ base pair reached applies) stored
      · exact Action.ensures_bind.mpr (.pure (stored base middle reached))
    split
    · exact .bind (ih _ kept) finished
    · refine .ask fun _ _ => ?_
      exact Action.ensures_bind.mpr (.pure (finished _ _ kept))

namespace Growth

variable (growth : Growth) {types : Types} {type : TypeId} {arguments : List TypeId}

theorem ensures_update (fits : growth.fits types) {change : TypeEntry → TypeEntry}
    (keeps : ∀ entry, types.entries.get? type = some entry → entry.Keeps (change entry))
    (symbol : ∀ entry, (change entry).symbol = entry.symbol)
    (parameters : ∀ entry, (change entry).parameters = entry.parameters)
    (members : growth.listed → ∀ entry, types.entries.get? type = some entry →
      ∀ named ∈ (change entry).members.entries,
      types.Lists entry.members named) :
    (update type change).Ensures types fun _ => growth.leads types :=
  .updateIn fun _ => growth.modify fits keeps symbol parameters members

section Members

variable {member : MemberId} (stored : growth.listed → member.index < types.members.size)
include stored

theorem ensures_setMember (fits : growth.fits types) (type : TypeId) (name : String) :
    (setMember type name member).Ensures types fun _ => growth.leads types := by
  refine growth.ensures_update fits (fun _ _ => ⟨rfl, rfl, rfl, fun _ => rfl, fun _ => rfl⟩)
    (fun _ => rfl) (fun _ => rfl) ?_
  exact fun isListed _ _ _ => lists_set (stored isListed)

theorem ensures_insertMember (fits : growth.fits types) (type : TypeId) (name : String) :
    (insertMember type name member).Ensures types fun _ => growth.leads types := by
  unfold insertMember
  refine .get ?_
  refine .fetch fun entry known => ?_
  split
  · exact .pure (growth.refl fits)
  · rename_i members inserted
    have written : (update type fun entry => { entry with members }).Ensures types fun _ =>
      growth.leads types := by
      refine growth.ensures_update fits (fun _ _ => ⟨rfl, rfl, rfl, fun _ => rfl, fun _ => rfl⟩)
        (fun _ => rfl)
        (fun _ => rfl) ?_
      intro isListed same found named listed
      cases known.symm.trans found
      exact lists_set (stored isListed) ((NameTable.eq_set_of_insert inserted).2 ▸ listed)
    exact Action.ensures_bind.mpr (written.weaken fun _ _ reached => .pure reached)

end Members

theorem ensures_setRelated (fits : growth.fits types) (related : List TypeId)
    (noFunction : ∀ entry, types.entries.get? type = some entry → entry.kind ≠ .function) :
    (setRelated type related).Ensures types fun _ => growth.leads types :=
  growth.ensures_update fits (fun entry stored => keeps_of_setRelated (noFunction entry stored))
    (fun _ => rfl)
    (fun _ => rfl) fun _ _ _ _ => .inl

theorem buildsFunctions : growth.BuildsFunctions := by
  intro types result arguments fits given
  unfold functionType
  refine .get ?_
  cases interned : types.interned? (.function (result :: arguments)) with
  | some type => exact .pure ⟨growth.refl fits, (growth.consed fits).foundFunction _ type interned⟩
  | none =>
    refine Action.ensures_bind.mpr (ensures_push.mpr ?_)
    refine Action.ensures_bind.mpr (ensures_remember.mpr (.pure ?_))
    exact ⟨growth.pushFunction fits given interned, _, Table.get?_push_next _ _, rfl, rfl⟩

theorem ensures_copyMembers (type : TypeId) (members : List (String × MemberId))
    (fits : growth.fits types) :
    (copyMembers type members).Ensures types fun _ => growth.leads types := by
  induction members generalizing types with
  | nil => exact .pure (growth.refl fits)
  | cons entry rest ih =>
    obtain ⟨name, source⟩ := entry
    unfold copyMembers
    refine .get ?_
    refine .ask fun member fetched => ?_
    have created := growth.pushMember (some type) fits ((Table.fetch_eq_ok_iff _ _ _).mp fetched)
    refine Action.ensures_bind.mpr (ensures_createMember.mpr ?_)
    refine .bind (growth.ensures_setMember
      (fun _ => Table.lt_size_of_get? (Table.get?_push_next _ _)) (growth.reached created) type
      name) ?_
    intro _ named set
    exact (ih (growth.reached set)).weaken fun _ _ copied =>
      growth.trans created (growth.trans set copied)

/-- The type arguments that apply inside an instance may be passed on. -/
theorem knows_of_substitutionOf (fits : growth.fits types) {context : List TypeId × List TypeId}
    (applies : types.substitutionOf type = .ok context) :
    ∀ argument ∈ context.2, growth.knows types argument := by
  obtain ⟨entry, fetched, rest⟩ := (except_bind_eq_ok_iff ..).mp applies
  have stored := (Table.fetch_eq_ok_iff _ _ _).mp fetched
  split at rest
  · rename_i generic arguments original applied
    obtain ⟨_, _, rest⟩ := (except_bind_eq_ok_iff ..).mp rest
    cases rest
    exact growth.applied fits stored ((growth.consed fits).kind_ne_of_generic stored original)
      applied
  · cases rest
    exact nofun

variable {substitution : Substitution} (moves : growth.Moves substitution)
include moves

theorem ensures_instantiate (type : TypeId) (fits : growth.fits types) :
    (instantiate substitution type).Ensures types fun _ => growth.leads types := by
  unfold instantiate
  refine .get ?_
  refine .fetch fun entry stored => ?_
  cases original : entry.generic with
  | none => exact .pure (growth.refl fits)
  | some generic =>
    refine .ask fun context applies => ?_
    refine .ask fun definition _ => ?_
    refine .bind (moves.each fits (growth.knows_of_substitutionOf fits applies)) ?_
    intro related substituted each
    -- The instance is unfinished while its bases are built, but it stays an instance, so its bases
    -- may be set.
    have noFunction : ∀ here, substituted.entries.get? type = some here →
      here.kind ≠ .function := by
      intro here found
      obtain ⟨later, laterFound, kept⟩ := growth.extended each.leads type entry stored
      cases found.symm.trans laterFound
      rw [kept.kind]
      exact (growth.consed fits).kind_ne_of_generic stored original
    refine .bind (growth.ensures_setRelated (growth.reached each.leads) related noFunction) ?_
    intro _ based second
    refine .get ?_
    refine .ask fun members _ => ?_
    refine .bind (growth.ensures_copyMembers type members (growth.reached second)) ?_
    intro _ copied third
    have filling : (update type fun entry => { entry with complete := true }).Ensures copied
        fun _ => growth.leads copied :=
      growth.ensures_update (growth.reached third) (fun _ _ =>
        ⟨rfl, rfl, rfl, fun _ => rfl, fun _ => rfl⟩)
        (fun _ => rfl) (fun _ => rfl) fun _ _ _ _ => .inl
    exact filling.weaken fun _ _ filled =>
      growth.trans each.leads (growth.trans second (growth.trans third filled))

theorem ensures_parameterizeVia (generic : TypeId) (fits : growth.fits types)
    (given : ∀ argument ∈ arguments, growth.knows types argument) :
    (parameterizeVia substitution generic arguments).Ensures types fun type after =>
      growth.leads types after ∧ Regime.IsInstance types generic arguments type after := by
  unfold parameterizeVia
  split
  · rename_i blank
    exact .pure ⟨growth.refl fits, fun notBlank => absurd (List.isEmpty_iff.mp blank) notBlank⟩
  refine .get ?_
  refine .fetch fun definition stored => ?_
  cases declared : definition.symbol with
  | none => exact .throw
  | some symbol =>
    refine .get ?_
    cases interned : types.interned? (.applied symbol arguments) with
    | some type =>
      obtain ⟨entry, found, owner, applied⟩ :=
        (growth.consed fits).foundInstance symbol arguments type interned
      exact .pure ⟨growth.refl fits, fun _ =>
        ⟨definition, entry, stored, found, owner.trans declared.symm, applied⟩⟩
    | none =>
      refine Action.ensures_bind.mpr (ensures_push.mpr ?_)
      refine Action.ensures_bind.mpr (ensures_remember.mpr ?_)
      -- From here on the instance is stored and remembered, and only then filled.
      have joins := growth.pushInstance fits given stored declared
        ((growth.consed fits).kind_ne_of_symbol stored declared) interned
      have answered {joined after : Types} (joins : growth.leads types joined)
          (isNew : joined.entries.get? types.entries.next =
            some (instanceEntry definition symbol arguments generic))
          (further : growth.leads joined after) : growth.leads types after ∧
            Regime.IsInstance types generic arguments types.entries.next after := by
        obtain ⟨later, laterFound, kept⟩ := growth.extended further types.entries.next _ isNew
        exact ⟨growth.trans joins further, fun _ =>
          ⟨definition, later, stored,
            laterFound, by rw [kept.symbol (.inr rfl), declared], kept.arguments⟩⟩
      split
      · refine .bind (ensures_instantiate growth moves _ (growth.reached joins)) ?_
        exact fun _ after further => .pure (answered joins (Table.get?_push_next _ _) further)
      · refine .bind (growth.ensures_update (growth.reached joins)
          (fun _ _ => ⟨rfl, rfl, rfl, fun _ => rfl, fun _ => rfl⟩) (fun _ => rfl)
            (fun _ => rfl) fun _ _ _ _ => .inl) ?_
        exact fun _ after further => .pure (answered joins (Table.get?_push_next _ _) further)

omit moves

theorem moves_substitute (fuel : Nat) : growth.Moves (substitute fuel) :=
  Regime.moves_substitute growth.buildsFunctions
    (fun _ moves _ generic _ fits given _ =>
      growth.ensures_parameterizeVia moves generic fits given) fuel

theorem ensures_parameterize (fuel : Nat) (generic : TypeId) (fits : growth.fits types)
    (given : ∀ argument ∈ arguments, growth.knows types argument) :
    (parameterize fuel generic arguments).Ensures types fun type after =>
      growth.leads types after ∧ Regime.IsInstance types generic arguments type after :=
  growth.ensures_parameterizeVia (growth.moves_substitute fuel) generic fits given

theorem ensures_complete (fuel : Nat) (type : TypeId) (fits : growth.fits types) :
    (complete fuel type).Ensures types fun _ => growth.leads types := by
  unfold complete
  refine .get ?_
  refine .ask fun entry _ => ?_
  have marked : (update type fun entry => { entry with complete := true, waiting := [] }).Ensures
    types
      fun _ => growth.leads types :=
    growth.ensures_update fits (fun _ _ => ⟨rfl, rfl, rfl, fun _ => rfl, fun _ => rfl⟩)
      (fun _ => rfl) (fun _ => rfl)
      fun _ _ _ _ => .inl
  refine Action.ensures_bind.mpr (marked.weaken fun _ after reached => ?_)
  refine Action.ensures_forM reached ?_
  intro waiting _ here further
  exact (growth.ensures_instantiate (growth.moves_substitute fuel) waiting
    (growth.reached further)).weaken
    fun _ _ filled => growth.trans further filled

theorem ensures_memberType (learns : ∀ types id type, growth.fits types → growth.leads types
      { types with
        members := types.members.modify id fun member => { member with type := some type } })
    (symbols : Symbols) (fuel : Nat) (member : MemberId) (fits : growth.fits types) :
    (memberType symbols fuel member).Ensures types fun _ => growth.leads types := by
  refine ensures_memberType_keeping (fun now fuel context base pair reached applies => ?_)
    (fun now id type reached => ?_)
    symbols fuel member (growth.refl fits)
  · have given := growth.knows_of_substitutionOf (growth.reached reached) applies
    exact (growth.moves_substitute fuel now base pair.1 pair.2 (growth.reached reached)
      given).weaken fun _ _ built =>
      growth.trans reached built.leads
  · exact growth.trans reached (learns now id type (growth.reached reached))

end Growth

end Types
end Resolution
