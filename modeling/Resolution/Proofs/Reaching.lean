import Mathlib.Data.Finite.Prod
import Mathlib.Data.Set.Finite.Lattice
import Resolution.Proofs.Composing

/-!
# Substitution returns

Substitution makes the types that are missing, and filling a new instance may ask for more of them.
Where nothing is being filled, this comes to an end.  The table holds the bases of each of its
instances, so whatever is asked for on the way is a type of the table in which some parameters are
replaced, and there are finitely many terms of this form.  While new types are made these become
fewer, and while none is made types get smaller.  So every member can be asked for its type, and
members can be asked one after the other, in any order.
-/

namespace Resolution

/-! ## Terms in which some parameters are replaced -/

namespace Term

variable {parameters arguments : List Term}

/-- Some occurrences of parameters in the first term may be replaced in the second one. -/
inductive Varies (parameters arguments : List Term) : Term → Term → Prop where
  | same (term : Term) : Varies parameters arguments term term
  | replaced {term argument : Term} (found : term.replacement? parameters arguments =
    some argument) :
      Varies parameters arguments term argument
  | built {former : Former} {parts others : List Term}
    (each : List.Forall₂ (Varies parameters arguments) parts others) :
      Varies parameters arguments (.built former parts) (.built former others)

theorem finite_forall₂ {α β : Type} {relation : α → β → Prop} {items : List α}
    (each : ∀ item ∈ items, {other | relation item other}.Finite) :
    {others | List.Forall₂ relation items others}.Finite := by
  induction items with
  | nil => simp
  | cons item rest ih =>
    have ⟨first, others⟩ := List.forall_mem_cons.mp each
    refine (Set.Finite.image2 List.cons first (ih others)).subset ?_
    rintro _ (_ | ⟨here, there⟩)
    exact ⟨_, here, _, there, rfl⟩

theorem finite_varies (parameters arguments : List Term) (term : Term) :
    {other | Varies parameters arguments term other}.Finite := by
  have replaced (term : Term) :
    {argument | term.replacement? parameters arguments = some argument}.Finite :=
    Set.Subsingleton.finite fun one found other also => Option.some.inj (found.symm.trans also)
  induction term with
  | leaf type =>
    refine ((Set.finite_singleton (.leaf type)).union (replaced (.leaf type))).subset ?_
    rintro _ (_ | found)
    · exact .inl rfl
    · exact .inr found
  | built former parts ih =>
    refine (((Set.finite_singleton (.built former parts)).union
      (replaced (.built former parts))).union
      ((finite_forall₂ ih).image (.built former))).subset ?_
    rintro _ (_ | found | each)
    · exact .inl (.inl rfl)
    · exact .inl (.inr found)
    · exact .inr ⟨_, each, rfl⟩

theorem varies_replace (term : Term) :
    Varies parameters arguments term (term.replace parameters arguments) := by
  induction term with
  | leaf type =>
    cases found : replacement? (.leaf type) parameters arguments with
    | some argument =>
      rw [replace_of_replacement? found]
      exact .replaced found
    | none =>
      rw [replace_leaf found]
      exact .same _
  | built former parts ih =>
    cases found : replacement? (.built former parts) parameters arguments with
    | some argument =>
      rw [replace_of_replacement? found]
      exact .replaced found
    | none =>
      rw [replace_built found]
      exact .built (List.forall₂_map_right_iff.mpr (List.forall₂_same.mpr ih))

/-- What is put in place of other parameters may vary. -/
theorem Varies.replace {one other : List Term}
    (each : List.Forall₂ (Varies parameters arguments) one other)
    (places : List Term) (term : Term) :
    Varies parameters arguments (term.replace places one) (term.replace places other) := by
  have given (position : Nat) :
      Varies parameters arguments (one.getD position (.leaf .error))
        (other.getD position (.leaf .error)) := by
    induction each generalizing position with
    | nil => exact .same _
    | cons first _ ih =>
      cases position with
      | zero => exact first
      | succ position => exact ih position
  induction term with
  | leaf type =>
    unfold Term.replace replacement?
    cases places.idxOf? (.leaf type) with
    | some position => exact given position
    | none => exact .same _
  | built former parts ih =>
    unfold Term.replace replacement?
    cases places.idxOf? (.built former parts) with
    | some position => exact given position
    | none =>
      exact .built (List.forall₂_map_left_iff.mpr
        (List.forall₂_map_right_iff.mpr (List.forall₂_same.mpr ih)))

end Term

namespace Types

variable {α β : Type} {definition entry : TypeEntry} {generic : TypeId} {symbol : SymbolId}

/-! ## Computations that return -/

/-- Given enough steps, the computation returns with an answer and a final table that no longer
depend on their number. -/
def Reaches (action : Nat → Action Types α) (types : Types) (post : α → Types → Prop) : Prop :=
  ∃ answer after, (∃ least, ∀ fuel, least ≤ fuel → action fuel types = .ok answer after) ∧
    post answer after

namespace Reaches

variable {types : Types} {post : α → Types → Prop} {action : Nat → Action Types α}
  {last : β → Types → Prop}

theorem weaken (reaches : Reaches action types post) {weaker : α → Types → Prop}
    (weakens : ∀ answer after, post answer after → weaker answer after) :
    Reaches action types weaker := by
  obtain ⟨answer, after, runs, holds⟩ := reaches
  exact ⟨answer, after, runs, weakens answer after holds⟩

/-- What is ensured at every number of steps holds at the end. -/
theorem ensured (reaches : Reaches action types post) {also : α → Types → Prop}
    (ensures : ∀ fuel, (action fuel).Ensures types also) :
    Reaches action types fun answer after => post answer after ∧ also answer after := by
  obtain ⟨answer, after, ⟨least, runs⟩, holds⟩ := reaches
  exact ⟨answer, after, ⟨least, runs⟩, holds, ensures least answer after
    (runs least (Nat.le_refl least))⟩

/-- What is reached is what some run returns. -/
theorem ran (reaches : Reaches action types post) :
    Reaches action types fun answer after => post answer after ∧
    ∃ fuel, action fuel types = .ok answer after :=
  reaches.ensured fun fuel _ _ run => ⟨fuel, run⟩

theorem of_eq {other : Nat → Action Types α} (same : ∀ fuel, action fuel types = other fuel types)
    (reaches : Reaches other types post) : Reaches action types post := by
  obtain ⟨answer, after, ⟨least, runs⟩, holds⟩ := reaches
  exact ⟨answer, after, ⟨least, fun fuel enough => (same fuel).trans (runs fuel enough)⟩, holds⟩

/-- A computation that uses up one step before it starts. -/
theorem of_succ (reaches : Reaches (fun fuel => action (fuel + 1)) types post) :
    Reaches action types post := by
  obtain ⟨answer, after, ⟨least, runs⟩, holds⟩ := reaches
  refine ⟨answer, after, ⟨least + 1, fun fuel enough => ?_⟩, holds⟩
  obtain ⟨fewer, rfl⟩ := Nat.exists_eq_add_of_le' (Nat.one_le_of_lt enough)
  exact runs fewer (Nat.le_of_succ_le_succ enough)

theorem pure {value : α} (holds : post value types) :
    Reaches (fun _ => Pure.pure value) types post :=
  ⟨value, types, ⟨0, fun _ _ => rfl⟩, holds⟩

theorem bind {next : Nat → α → Action Types β}
    (first : Reaches action types fun answer middle =>
      Reaches (fun fuel => next fuel answer) middle last) :
    Reaches (fun fuel => action fuel >>= next fuel) types last := by
  obtain ⟨answer, middle, ⟨least, runs⟩, final, after, ⟨more, continues⟩, holds⟩ := first
  refine ⟨final, after, ⟨max least more, fun fuel enough => ?_⟩, holds⟩
  exact (Action.bind_eq_ok_iff ..).mpr ⟨answer, middle, runs fuel (by omega),
    continues fuel (by omega)⟩

theorem get {next : Nat → Types → Action Types β}
    (continues : Reaches (fun fuel => next fuel types) types last) :
    Reaches (fun fuel => MonadState.get >>= next fuel) types last := continues

theorem ask {question : Except Fault α} {value : α} {next : Nat → α → Action Types β}
    (heard : question = .ok value) (continues : Reaches (fun fuel => next fuel value) types last) :
    Reaches (fun fuel => Action.ofExcept question >>= next fuel) types last := by
  subst heard
  exact continues

theorem push {entry : TypeEntry} {next : Nat → TypeId → Action Types β}
    (continues : Reaches (fun fuel => next fuel types.entries.next)
      { types with entries := types.entries.push entry }
      last) :
    Reaches (fun fuel => Types.push entry >>= next fuel) types last := continues

theorem remember {key : TypeKey} {type : TypeId} {next : Nat → Unit → Action Types β}
    (continues : Reaches (fun fuel => next fuel ())
      { types with interned := (key, type) :: types.interned } last) :
    Reaches (fun fuel => Types.remember key type >>= next fuel) types last := continues

theorem createMember {member : Member} {next : Nat → MemberId → Action Types β}
    (continues : Reaches (fun fuel => next fuel types.members.next)
      { types with members := types.members.push member }
      last) :
    Reaches (fun fuel => Types.createMember member >>= next fuel) types last := continues

theorem update {type : TypeId} {change : TypeEntry → TypeEntry} {last : Unit → Types → Prop}
    (stored : types.Stores type)
    (holds : last () { types with entries := types.entries.modify type change }) :
    Reaches (fun _ => Types.update type change) types last := by
  refine ⟨(), _, ⟨0, fun _ _ => ?_⟩, holds⟩
  simp only [Types.update, Action.zoom, Table.update,
    if_pos (show Handle.index type < types.entries.size from stored)]

end Reaches

variable {start now before after : Types} {among : Term → Prop}
  {parameters arguments parts : List TypeId}
  {type : TypeId} {former : Former}

/-! ## Tables on the way -/

/-- What definitions refer to is stored, and a symbol has one definition. -/
structure Founded (types : Types) : Prop where
  parameters : ∀ type entry, types.entries.get? type = some entry → entry.generic = none →
    ∀ parameter ∈ entry.parameters, types.Stores parameter
  bases : ∀ type entry, types.entries.get? type = some entry → entry.generic = none →
    ∀ base ∈ entry.related, types.Stores base
  members : ∀ type entry, types.entries.get? type = some entry → entry.generic = none →
    ∀ named ∈ entry.members.sorted, ∃ member, types.members.get? named.2 = some member
  single : ∀ first second one other symbol, types.entries.get? first = some one →
    types.entries.get? second = some other →
    one.generic = none → other.generic = none → one.symbol = some symbol →
      other.symbol = some symbol → first = second

/-- The same of the definitions that a symbol declares. -/
structure Furnished (types : Types) : Prop where
  parameters : ∀ type entry symbol, types.entries.get? type = some entry → entry.generic = none →
    entry.symbol = some symbol → ∀ parameter ∈ entry.parameters, types.Stores parameter
  bases : ∀ type entry symbol, types.entries.get? type = some entry → entry.generic = none →
    entry.symbol = some symbol → ∀ base ∈ entry.related, types.Stores base
  members : ∀ type entry symbol, types.entries.get? type = some entry → entry.generic = none →
    entry.symbol = some symbol → ∀ named ∈ entry.members.sorted, ∃ member,
      types.members.get? named.2 = some member
  single : ∀ first second one other symbol, types.entries.get? first = some one →
    types.entries.get? second = some other →
    one.generic = none → other.generic = none → one.symbol = some symbol →
      other.symbol = some symbol → first = second

theorem Founded.furnished (founded : start.Founded) : start.Furnished where
  parameters type entry _ stored plain _ := founded.parameters type entry stored plain
  bases type entry _ stored plain _ := founded.bases type entry stored plain
  members type entry _ stored plain _ := founded.members type entry stored plain
  single := founded.single

/-- Finitely many terms that hold whatever is asked for: with a term its parts, and with an instance
of a complete definition its bases. -/
structure Closed (start : Types) (among : Term → Prop) : Prop where
  furnished : start.Furnished
  legible : start.Legible
  finite : {term | among term}.Finite
  parts : ∀ former parts, among (.built former parts) → ∀ part ∈ parts, among part
  bases : ∀ type source symbol arguments, start.entries.get? type = some source →
    source.generic = none →
    source.symbol = some symbol → source.complete = true →
      among (.built (.applied (some symbol)) arguments) →
    ∀ base ∈ source.related, among
      ((start.term base).replace (source.parameters.map start.term) arguments)

/-- Whatever is stored in a table is among some terms. -/
def Covered (among : Term → Prop) (types : Types) : Prop := ∀ type, types.Stores type →
    among (types.term type)

/-- A table that was made from a start. -/
structure Approaches (start : Types) (among : Term → Prop) (now : Types) : Prop where
  steady : start.Steady (fun _ => False) now
  legible : now.Legible
  mirrored : ∃ unfinished given, now.Mirrored unfinished given
  stocked : ∀ id member, start.members.get? id = some member → ∃ later, now.members.get? id =
    some later
  covered : Covered among now

/-- A type whose parameters can be replaced: everything is stored, and the answer is among some
terms. -/
structure Answered (among : Term → Prop) (now : Types) (parameters arguments : List TypeId)
    (type : TypeId) : Prop where
  stored : now.Stores type
  known : ∀ parameter ∈ parameters, now.Stores parameter
  given : ∀ argument ∈ arguments, now.Stores argument
  held : among ((now.term type).replace (parameters.map now.term) (arguments.map now.term))

/-- Stored types are different terms, so there are at most as many types as terms. -/
theorem Covered.size_le (covered : Covered among now) (legible : now.Legible)
    (finite : {term | among term}.Finite) :
    now.size ≤ finite.toFinset.card := by
  have distinct : Set.InjOn (fun position => now.term ⟨position⟩) (Finset.range now.size) := by
    intro first _ second _ same
    exact congrArg TypeId.index (legible.term_injective same)
  rw [← Finset.card_range now.size, ← Finset.card_image_of_injOn distinct]
  refine Finset.card_le_card fun term listed => finite.mem_toFinset.mpr ?_
  obtain ⟨position, inside, rfl⟩ := Finset.mem_image.mp listed
  exact covered ⟨position⟩ (Finset.mem_range.mp inside)

theorem Covered.develop (covered : Covered among before) (legible : before.Legible)
    (develops : before.Develops after)
    (isNew : ∀ type, after.Stores type → ¬before.Stores type → among (after.term type)) :
    Covered among after := by
  intro type stored
  by_cases old : before.Stores type
  · rw [develops.extended.term legible develops.legible old]
    exact covered type old
  · exact isNew type stored old

theorem Covered.resize (covered : Covered among before) (legible : before.Legible)
    (develops : before.Develops after)
    (size : after.size = before.size) : Covered among after :=
  covered.develop legible develops fun type stored isNew =>
    absurd (by rwa [Stores, size] at stored) isNew

theorem Develops.size_le (develops : before.Develops after) : before.size ≤ after.size := by
  by_contra smaller
  have stored : before.Stores ⟨after.size⟩ := by
    change after.size < before.size
    omega
  exact absurd (develops.extended.stores stored) (Nat.lt_irrefl after.size)

/-- A step that leaves alone what exists leads on. -/
theorem Approaches.step {unfinished : TypeId → Prop} {given : MemberId → Prop}
    (approaches : Approaches start among before)
    (sprouts : before.Sprouts (fun _ => False) after) (mirrored : after.Mirrored unfinished given)
    (legible : after.Legible) (covered : Covered among after) : Approaches start among after where
  steady := approaches.steady.trans (.of_sprouts sprouts)
  legible := legible
  mirrored := ⟨unfinished, given, mirrored⟩
  stocked id member stored := by
    obtain ⟨middle, between⟩ := approaches.stocked id member stored
    exact ⟨middle, sprouts.members id middle between⟩
  covered := covered

theorem Answered.keep (answered : Answered among before parameters arguments type)
    (legible : before.Legible)
    (develops : before.Develops after) : Answered among after parameters arguments type where
  stored := develops.extended.stores answered.stored
  known parameter listed := develops.extended.stores (answered.known parameter listed)
  given argument listed := develops.extended.stores (answered.given argument listed)
  held := by
    rw [develops.extended.term legible develops.legible answered.stored,
      develops.extended.map_term legible develops.legible answered.known,
      develops.extended.map_term legible develops.legible answered.given]
    exact answered.held

theorem Answered.built (answered : Answered among now parameters arguments type)
    (legible : now.Legible) (stays : replacement? type parameters arguments = none)
    (shape : now.shapeOf? type = some (former, parts)) : among (.built former (parts.map fun part =>
      (now.term part).replace (parameters.map now.term) (arguments.map now.term))) := by
  have unreplaced := legible.replacement?_term type parameters arguments
  rw [stays, Option.map_none, legible.term_of_shape shape] at unreplaced
  have held := answered.held
  rw [legible.term_of_shape shape, Term.replace_built unreplaced, List.map_map] at held
  exact held

theorem Answered.part {part : TypeId}
    (answered : Answered among now parameters arguments type) (legible : now.Legible)
    (closed : Closed start among)
    (stays : replacement? type parameters arguments = none)
    (shape : now.shapeOf? type = some (former, parts))
    (listed : part ∈ parts) : Answered among now parameters arguments part where
  stored := legible.stores_part shape listed
  known := answered.known
  given := answered.given
  held := closed.parts former _ (answered.built legible stays shape) _ (List.mem_map_of_mem listed)

/-! ## What a new instance asks for -/

theorem Replaced.reads {types : Types} {result : TypeId}
    (replaced : types.Replaced parameters arguments type result)
    (rooted : types.Rooted) (legible : types.Legible) (stored : types.Stores type)
    (known : ∀ parameter ∈ parameters, types.Stores parameter) (given : ∀ argument ∈ arguments,
      types.Stores argument) :
    types.Stores result ∧
      types.term result = (types.term type).replace (parameters.map types.term)
      (arguments.map types.term) := by
  obtain ⟨least, stable⟩ := rooted.stable replaced
  have replaces := substitute_faithful least types type parameters arguments legible given result
    types
    (stable least (Nat.le_refl least) types.members)
  exact ⟨replaces.stores stored, replaces.term known stored⟩

theorem exists_mem_zip {first : α} {firsts : List α} {seconds : List β}
    (length : firsts.length = seconds.length)
    (listed : first ∈ firsts) : ∃ second, (first, second) ∈ firsts.zip seconds := by
  obtain ⟨position, inside, rfl⟩ := List.mem_iff_getElem.mp listed
  refine ⟨seconds[position], List.mem_iff_getElem.mpr ⟨position, ?_, List.getElem_zip⟩⟩
  rw [List.length_zip, ← length, Nat.min_self]
  exact inside

/-- A definition with a symbol was there at the start, and nothing but its queue has changed. -/
theorem Steady.definition_of_symbol (steady : start.Steady (fun _ => False) now)
    (stored : now.entries.get? type = some definition) (plain : definition.generic = none)
    (declared : definition.symbol = some symbol) :
    ∃ source waiting, start.entries.get? type = some source ∧ source.generic = none ∧
    source.symbol = some symbol ∧
      definition = { source with waiting } := by
  cases original : start.entries.get? type with
  | none =>
    rw [(steady.functions type definition original stored plain).1] at declared
    cases declared
  | some source =>
    obtain ⟨later, found, kept⟩ := steady.kept type source original
    cases stored.symm.trans found
    have sourcePlain : source.generic = none := kept.generic.symm.trans plain
    obtain ⟨waiting, same⟩ := steady.definitions type source id original sourcePlain
    cases stored.symm.trans same
    exact ⟨source, waiting, rfl, plain, declared, rfl⟩

theorem Approaches.exists_source (approaches : Approaches start among now) {generic : TypeId}
    (stored : now.entries.get? type = some entry) (original : entry.generic = some generic)
    (known : now.entries.get? generic = some definition) :
    ∃ symbol arguments source waiting, entry.arguments = some arguments ∧
      now.shapeOf? type = some (.applied (some symbol), arguments) ∧
      start.entries.get? generic = some source ∧
      source.generic = none ∧ source.symbol = some symbol ∧
      definition = { source with waiting } := by
  obtain ⟨_, _, mirrored⟩ := approaches.mirrored
  obtain ⟨arguments, applied⟩ : ∃ arguments, entry.arguments = some arguments := by
    refine Option.isSome_iff_exists.mp ((mirrored.applied type entry stored).mpr ?_)
    rw [original]
    rfl
  obtain ⟨symbol, isSymbol, _⟩ := mirrored.consed.findsInstance type entry arguments stored applied
  obtain ⟨_, again, plain, _, sameSymbol⟩ := mirrored.definition type entry generic stored original
  cases known.symm.trans again
  obtain ⟨source, waiting, first, sourcePlain, declared, same⟩ :=
    approaches.steady.definition_of_symbol known plain (sameSymbol.trans isSymbol)
  have shape : now.shapeOf? type = some (.applied (some symbol), arguments) :=
    (shapeOf?_of_get? stored).trans (TypeEntry.shape?_eq_applied_iff.mpr
      ⟨mirrored.consed.kind_ne_of_generic stored original, isSymbol, applied⟩)
  exact ⟨symbol, arguments, source, waiting, applied, shape, first, sourcePlain, declared, same⟩

/-- The bases of a complete definition can be replaced for every instance of it. -/
theorem Closed.answered_base (closed : Closed start among) (approaches : Approaches start among now)
    {base : TypeId} {source : TypeEntry} (stored : now.Stores type)
    (shape : now.shapeOf? type = some (.applied (some symbol), arguments))
    (original : start.entries.get? generic = some source) (plain : source.generic = none)
    (declared : source.symbol = some symbol) (complete : source.complete = true)
    (listed : base ∈ source.related) :
    Answered among now source.parameters arguments base := by
  have knownStart := closed.furnished.parameters generic source symbol original plain declared
  have baseStart := closed.furnished.bases generic source symbol original plain declared base listed
  have kept := approaches.steady.kept
  refine ⟨kept.stores baseStart, fun parameter listed => kept.stores (knownStart parameter listed),
    fun argument listed => approaches.legible.stores_part shape listed, ?_⟩
  have covered := approaches.covered type stored
  rw [approaches.legible.term_of_shape shape] at covered
  rw [kept.term closed.legible approaches.legible baseStart,
    kept.map_term closed.legible approaches.legible knownStart]
  exact closed.bases generic source symbol _ original plain declared complete covered base listed

/-! ## Substitution -/

/-- In every table on the way with so many types, the parameters of a type are replaced. -/
def Serves (start : Types) (among : Term → Prop) (size : Nat) (parameters arguments : List TypeId)
    (type : TypeId) : Prop :=
  ∀ later, Approaches start among later → size ≤ later.size →
    Answered among later parameters arguments type →
    Reaches (fun fuel => substitute fuel type parameters arguments) later fun _ =>
      Approaches start among

theorem substituteEach_reaches (approaches : Approaches start among now)
    (answered : ∀ part ∈ parts, Answered among now parameters arguments part)
    (each : ∀ part ∈ parts, Serves start among now.size parameters arguments part) :
    Reaches (fun fuel => parts.mapM fun part => substitute fuel part parameters arguments) now
      fun _ => Approaches start among := by
  induction parts generalizing now with
  | nil => exact .pure approaches
  | cons part rest ih =>
    have ⟨head, tail⟩ := List.forall_mem_cons.mp answered
    simp only [List.mapM_cons]
    refine .bind (((each part List.mem_cons_self now approaches (Nat.le_refl _) head).ensured
      fun fuel =>
      substitute_faithful fuel now part parameters arguments approaches.legible head.given).weaken
        ?_)
    rintro answer middle ⟨reached, replaces⟩
    have grown := replaces.develops
    refine .bind
      ((ih reached (fun other listed => (tail other listed).keep approaches.legible grown)
      ?_).weaken ?_)
    · intro other listed later approachesLater larger
      exact each other (List.mem_cons_of_mem part listed) later approachesLater
        (Nat.le_trans grown.size_le larger)
    · exact fun answers after final => .pure final

theorem copyMembers_reaches {sources : List (String × MemberId)} (stored : now.Stores type)
    (known : ∀ named ∈ sources, ∃ member, now.members.get? named.2 = some member) :
    Reaches (fun _ => copyMembers type sources) now fun _ after => after.size = now.size := by
  induction sources generalizing now with
  | nil => exact .pure rfl
  | cons named rest ih =>
    obtain ⟨name, source⟩ := named
    have ⟨⟨member, found⟩, others⟩ := List.forall_mem_cons.mp known
    unfold copyMembers
    refine .get (.ask ((Table.fetch_eq_ok_iff ..).mpr found)
      (.createMember (.bind (.update stored ?_))))
    refine (ih ?_ ?_).weaken fun _ after size => ?_
    · simpa [Stores, size] using stored
    · intro other listed
      obtain ⟨here, there⟩ := others other listed
      exact ⟨here, Table.get?_push_of_stored _ there⟩
    · simpa [Types.size] using size

/-- Once the bases of an instance are made, it is filled without a further type. -/
theorem fill_reaches (related : List TypeId) (legible : now.Legible)
    (covered : Covered among now) (stored : now.entries.get? type = some entry)
    (noFunction : entry.kind ≠ .function)
    (known : now.entries.get? generic = some definition)
    (sources : ∀ named ∈ definition.members.sorted, ∃ member, now.members.get? named.2 =
      some member) : Reaches (fun _ => do
        setRelated type related
        copyMembers type (← Action.ofExcept ((← get).membersOf generic))
        update type fun entry => { entry with complete := true }) now fun _ => Covered among := by
  have based :
    now.Develops
    { now with entries := now.entries.modify type fun entry => { entry with related } } := by
    refine legible.modify (fun here found => keeps_of_setRelated ?_) fun _ => rfl
    cases stored.symm.trans found
    exact noFunction
  have listed :
    (membersOf { now with entries := now.entries.modify type fun entry => { entry with related } }
    generic) =
      .ok definition.members.sorted := by
    have found : ∃ here, (now.entries.modify type fun entry => { entry with related }).get?
      generic = some here ∧
        here.members = definition.members := by
      rw [Table.get?_modify, known]
      split
      · exact ⟨_, rfl, rfl⟩
      · exact ⟨_, rfl, rfl⟩
    obtain ⟨here, there, same⟩ := found
    simp only [membersOf, Types.entry, (Table.fetch_eq_ok_iff _ _ _).mpr there, same, bind,
      Except.bind, pure, Except.pure]
  have inside := based.extended.stores (stores_of_get? stored)
  refine .bind (.update (stores_of_get? stored) (.get (.ask listed ?_)))
  refine .bind (((copyMembers_reaches inside sources).ensured fun _ =>
    Growth.legible.ensures_copyMembers type definition.members.sorted based.legible).weaken ?_)
  rintro _ copied ⟨size, copies⟩
  have filled : copied.Develops
      { copied with
        entries := copied.entries.modify type fun entry => { entry with complete := true } } :=
    copies.legible.modify (fun _ _ => ⟨rfl, rfl, rfl, fun _ => rfl, fun _ => rfl⟩) fun _ => rfl
  refine .update (copies.extended.stores inside)
    (covered.resize legible (based.trans (copies.trans filled)) ?_)
  simpa [Types.size] using size

/-- The bases of an instance are made, and then it is filled. -/
theorem instantiate_reaches (closed : Closed start among) (approaches : Approaches start among now)
    (stored : now.entries.get? type = some entry)
    (original : entry.generic = some generic) (known : now.entries.get? generic = some definition)
    (complete : definition.complete = true)
    (each : ∀ part parameters arguments, Serves start among now.size parameters arguments part) :
    Reaches (fun fuel => instantiate (substitute fuel) type) now fun _ => Covered among := by
  obtain ⟨symbol, arguments, source, waiting, applied, shape, first, plain, declared, rfl⟩ :=
    approaches.exists_source stored original known
  have context : now.substitutionOf type = .ok (source.parameters, arguments) := by
    simp only [substitutionOf, Types.entry, (Table.fetch_eq_ok_iff _ _ _).mpr stored,
      (Table.fetch_eq_ok_iff _ _ _).mpr known, original, applied, bind, Except.bind, pure,
        Except.pure]
  obtain ⟨unfinished, given, mirrored⟩ := approaches.mirrored
  unfold instantiate
  refine .get (.ask ((Table.fetch_eq_ok_iff ..).mpr stored) ?_)
  simp only [original]
  refine .ask context (.ask ((Table.fetch_eq_ok_iff ..).mpr known) ?_)
  have based := substituteEach_reaches approaches (fun base listed =>
    closed.answered_base approaches (stores_of_get? stored) shape first plain declared complete
      listed)
    fun part _ => each part _ _
  refine .bind ((based.ensured fun fuel =>
    ensures_substituteEach_replaces (moves_substitute_mirrors fuel) mirrored).weaken ?_)
  rintro related middle ⟨reached, _, sprouts, _⟩
  obtain ⟨_, here⟩ := sprouts.entries type entry id stored
  obtain ⟨_, there⟩ := sprouts.entries generic _ id known
  have noFunction := mirrored.consed.kind_ne_of_generic stored original
  refine fill_reaches related reached.legible reached.covered here noFunction there
    fun named listed => ?_
  obtain ⟨member, found⟩ := closed.furnished.members generic source symbol first plain declared
    named listed
  exact reached.stocked named.2 member found

/-- An instance may join. -/
theorem Approaches.push_instance (approaches : Approaches start among now) {generic : TypeId}
    (known : now.entries.get? generic = some definition) (plain : definition.generic = none)
    (declared : definition.symbol = some symbol)
    (fresh : now.interned? (.applied symbol arguments) = none)
    (given : ∀ argument ∈ arguments, now.Stores argument)
    (held : among (.built (.applied (some symbol)) (arguments.map now.term))) :
    Approaches start among
      { now with
        entries := now.entries.push (instanceEntry definition symbol arguments generic)
        interned := (.applied symbol arguments, now.entries.next) :: now.interned } := by
  obtain ⟨unfinished, owned, mirrored⟩ := approaches.mirrored
  have noFunction : definition.kind ≠ .function := by
    intro isFunction
    rw [(mirrored.consed.anonymous generic definition known isFunction).1] at declared
    cases declared
  generalize made : instanceEntry definition symbol arguments generic = entry
  have built : entry.shape? = some (.applied (some symbol), arguments) := by
    subst made
    exact TypeEntry.shape?_eq_applied_iff.mpr ⟨noFunction, rfl, rfl⟩
  have joined := mirrored.push_instance known plain declared fresh
  rw [made] at joined
  have develops : now.Develops
      { now with
        entries := now.entries.push entry
        interned := (.applied symbol arguments, now.entries.next) :: now.interned } := by
    refine approaches.legible.push joined.consed ?_ fun _ _ => ?_
    · intro former parts shape
      cases built.symm.trans shape
      exact given
    · subst made
      exact ⟨generic, definition, rfl, known, declared⟩
  refine approaches.step (.push (made ▸ nofun)) joined develops.legible
    (approaches.covered.develop approaches.legible develops fun type stored isNew => ?_)
  obtain ⟨here, found⟩ := stored.exists_get?
  obtain ⟨rfl, rfl⟩ | ⟨_, older⟩ := Table.get?_push_cases found
  · rw [develops.legible.term_of_shape ((shapeOf?_of_get? found).trans built),
      develops.extended.map_term approaches.legible develops.legible given]
    exact held
  · exact absurd (stores_of_get? older) isNew

/-- A new instance joins, and it is filled or waits. -/
theorem parameterizeVia_reaches (closed : Closed start among)
    (approaches : Approaches start among now) {symbol : SymbolId}
    (known : now.entries.get? generic = some definition) (plain : definition.generic = none)
    (declared : definition.symbol = some symbol) (given : ∀ argument ∈ arguments,
      now.Stores argument)
    (held : among (.built (.applied (some symbol)) (arguments.map now.term)))
    (each : ∀ part parameters arguments, Serves start among (now.size + 1) parameters arguments
      part) :
    Reaches (fun fuel => parameterizeVia (substitute fuel) generic arguments) now fun _ =>
    Approaches start among := by
  obtain ⟨unfinished, owned, mirrored⟩ := approaches.mirrored
  have covers : Reaches (fun fuel => parameterizeVia (substitute fuel) generic arguments) now
    fun _ => Covered among := by
    unfold parameterizeVia
    by_cases blank : arguments.isEmpty = true
    · simp only [if_pos blank]
      exact .pure approaches.covered
    simp only [if_neg blank]
    refine .get (.ask ((Table.fetch_eq_ok_iff ..).mpr known) ?_)
    simp only [declared]
    refine .get ?_
    cases interned : now.interned? (.applied symbol arguments) with
    | some type => exact .pure approaches.covered
    | none =>
      have joined := approaches.push_instance known plain declared interned given held
      refine .push (.remember ?_)
      have isNew := Table.get?_push_next now.entries
        (instanceEntry definition symbol arguments generic)
      have remains := Table.get?_push_of_stored (instanceEntry definition symbol arguments generic)
        known
      by_cases complete : definition.complete = true
      · simp only [if_pos complete]
        refine .bind ((instantiate_reaches closed joined isNew rfl remains complete ?_).weaken ?_)
        · intro part parameters arguments later approachesLater larger
          refine each part parameters arguments later approachesLater (Nat.le_trans ?_ larger)
          simp [Types.size]
        · exact fun _ after covered => .pure covered
      · simp only [if_neg complete]
        refine .bind (.update (stores_of_get? remains) (.pure ?_))
        refine joined.covered.resize joined.legible (joined.legible.modify ?_ fun _ => rfl)
          (by simp [Types.size])
        exact fun _ _ => ⟨rfl, rfl, rfl, fun _ => rfl, fun _ => rfl⟩
  refine ((covers.ensured fun fuel =>
    ensures_parameterizeVia_mirrors (moves_substitute_mirrors fuel) mirrored ?_).ensured
    fun fuel => Growth.legible.ensures_parameterize fuel generic approaches.legible given).weaken ?_
  · intro entry stored
    cases known.symm.trans stored
    exact plain
  · rintro type after ⟨⟨covered, mirroredAfter, sprouts, _⟩, develops, _⟩
    exact approaches.step sprouts mirroredAfter develops.legible covered

theorem functionType_reaches (approaches : Approaches start among now) {result : TypeId}
    {rest : List TypeId}
    (stored : ∀ part ∈ result :: rest, now.Stores part)
    (held : among (.built .function ((result :: rest).map now.term))) :
    Reaches (fun _ => functionType result rest) now fun _ => Approaches start among := by
  obtain ⟨unfinished, owned, mirrored⟩ := approaches.mirrored
  have covers : Reaches (fun _ => functionType result rest) now fun _ after => now.Develops after →
    Covered among after := by
    unfold functionType
    refine .get ?_
    cases interned : now.interned? (.function (result :: rest)) with
    | some type => exact .pure fun _ => approaches.covered
    | none =>
      refine .push (.remember (.pure fun develops => ?_))
      refine approaches.covered.develop approaches.legible develops fun type stored isNew => ?_
      obtain ⟨here, found⟩ := stored.exists_get?
      obtain ⟨rfl, rfl⟩ | ⟨_, older⟩ := Table.get?_push_cases found
      · rw [develops.legible.term_of_shape ((shapeOf?_of_get? found).trans rfl),
          develops.extended.map_term approaches.legible develops.legible ‹_›]
        exact held
      · exact absurd (stores_of_get? older) isNew
  refine ((covers.ensured fun _ => ensures_functionType_mirrors mirrored).ensured fun _ =>
    ensures_functionType_develops approaches.legible stored).weaken ?_
  rintro type after ⟨⟨covered, mirroredAfter, sprouts, _⟩, develops, _⟩
  exact approaches.step sprouts mirroredAfter develops.legible (covered develops)

theorem substituteParts_reaches (approaches : Approaches start among now)
    (closed : Closed start among)
    (answered : Answered among now parameters arguments type)
    (stays : replacement? type parameters arguments = none)
    (shape : now.shapeOf? type = some (former, parts))
    (older : ∀ part ∈ parts, Serves start among now.size parameters arguments part) :
    Reaches (fun fuel => parts.mapM fun part => substitute fuel part parameters arguments) now
    fun replaced middle =>
      Approaches start among middle ∧ now.Develops middle ∧ replaced.length = parts.length ∧
      (∀ part ∈ replaced, middle.Stores part) ∧
      among (.built former (replaced.map middle.term)) := by
  have stored : ∀ part ∈ parts, now.Stores part := fun part listed =>
    approaches.legible.stores_part shape listed
  refine ((substituteEach_reaches approaches (fun part listed =>
    answered.part approaches.legible closed stays shape listed) older).ensured fun fuel =>
    ensures_substituteEach_faithful fuel approaches.legible answered.given).weaken ?_
  rintro replaced middle ⟨reached, replaces⟩
  refine ⟨reached, replaces.develops, replaces.length, replaces.stores stored, ?_⟩
  rw [replaces.terms answered.known stored]
  exact answered.built approaches.legible stays shape

theorem substitute_reaches_step (closed : Closed start among)
    (approaches : Approaches start among now)
    (answered : Answered among now parameters arguments type)
    (older : ∀ former parts, now.shapeOf? type = some (former, parts) →
      ∀ part ∈ parts, Serves start among now.size parameters arguments part)
    (larger : ∀ part parameters arguments, Serves start among (now.size + 1) parameters arguments
      part) :
    Reaches (fun fuel => substitute fuel type parameters arguments) now fun _ =>
    Approaches start among := by
  refine .of_succ ?_
  simp only [substitute]
  by_cases blank : parameters.isEmpty = true
  · simp only [if_pos blank]
    exact .pure approaches
  simp only [if_neg blank]
  cases stays : replacement? type parameters arguments with
  | some argument => exact .pure approaches
  | none =>
    obtain ⟨entry, stored⟩ := answered.stored.exists_get?
    refine .get (.ask ((Table.fetch_eq_ok_iff ..).mpr stored) ?_)
    split
    · rename_i isFunction
      have shape := (shapeOf?_of_get? stored).trans (TypeEntry.shape?_of_function isFunction)
      refine .bind ((substituteParts_reaches approaches closed answered stays shape
        (older _ _ shape)).weaken ?_)
      rintro replaced middle ⟨reached, _, length, here, held⟩
      by_cases same : replaced = entry.related
      · simp only [if_pos same]
        exact .pure reached
      simp only [if_neg same]
      cases replaced with
      | nil => exact absurd (List.length_eq_zero_iff.mp length.symm).symm same
      | cons result rest => exact functionType_reaches reached here held
    · rename_i existing applied noFunction
      obtain ⟨unfinished, owned, mirrored⟩ := approaches.mirrored
      obtain ⟨symbol, isSymbol, _⟩ :=
        mirrored.consed.findsInstance type entry existing stored applied
      have shape := (shapeOf?_of_get? stored).trans
        (TypeEntry.shape?_eq_applied_iff.mpr ⟨noFunction, isSymbol, applied⟩)
      refine .bind ((substituteParts_reaches approaches closed answered stays shape
        (older _ _ shape)).weaken ?_)
      rintro replaced middle ⟨reached, develops, _, here, held⟩
      by_cases same : replaced = existing
      · simp only [if_pos same]
        exact .pure reached
      obtain ⟨generic, original⟩ := Option.isSome_iff_exists.mp
        ((mirrored.applied type entry stored).mp (by rw [applied]; rfl))
      obtain ⟨definition, known, plain, _, sameSymbol⟩ :=
        mirrored.definition type entry generic stored original
      obtain ⟨later, found, kept, declared⟩ := develops.entries generic definition known
      simp only [if_neg same, original]
      refine parameterizeVia_reaches closed reached found (kept.generic.trans plain)
        (declared.trans (sameSymbol.trans isSymbol)) here held
          fun part parameters arguments after approachesAfter grown =>
          ?_
      exact larger part parameters arguments after approachesAfter
        (Nat.le_trans (Nat.succ_le_succ develops.size_le) grown)
    · exact .pure approaches

/-- Substitution returns, and everything it makes is among the terms.  The table can grow only until
it has all of them, and while it does not grow, types get smaller. -/
theorem substitute_reaches {now : Types} {parameters arguments : List TypeId} {type : TypeId}
    (closed : Closed start among) (approaches : Approaches start among now)
    (answered : Answered among now parameters arguments type) :
    Reaches (fun fuel => substitute fuel type parameters arguments) now fun _ =>
    Approaches start among := by
  refine substitute_reaches_step closed approaches answered ?_ ?_
  · intro former parts shape part listed later approachesLater grown answeredLater
    exact substitute_reaches closed approachesLater answeredLater
  · intro part parameters arguments later approachesLater grown answeredLater
    exact substitute_reaches closed approachesLater answeredLater
termination_by (closed.finite.toFinset.card - now.size, type.index)
decreasing_by
  · have smaller := approaches.legible.older type former parts shape part listed
    rw [Prod.lex_def]
    omega
  · have room := approachesLater.covered.size_le approachesLater.legible closed.finite
    rw [Prod.lex_def]
    omega

/-! ## Variants -/

/-- The terms of a table in which some parameters are replaced. -/
def Varied (types : Types) (parameters arguments : List TypeId) (term : Term) : Prop :=
  ∃ type, types.Stores type ∧ Term.Varies (parameters.map types.term) (arguments.map types.term)
    (types.term type) term

section Closed

variable {types : Types} {given : MemberId → Prop}

/-- An instance of a complete definition has its bases in the table. -/
theorem Mirrored.exists_base (mirrored : types.Mirrored (fun _ => False) given)
    (furnished : types.Furnished)
    (rooted : types.Rooted) (legible : types.Legible) {symbol : SymbolId} {parts : List Term}
    {generic base : TypeId}
    {source : TypeEntry} (reads : types.term type = .built (.applied (some symbol)) parts)
    (known : types.entries.get? generic = some source) (plain : source.generic = none)
    (declared : source.symbol = some symbol) (complete : source.complete = true)
    (listed : base ∈ source.related) :
    ∃ held, types.Stores held ∧ types.term held = (types.term base).replace
    (source.parameters.map types.term) parts := by
  obtain ⟨arguments, shape, rfl⟩ := legible.exists_shape_of_term reads
  obtain ⟨entry, stored, built⟩ := exists_get?_of_shapeOf? shape
  obtain ⟨_, isSymbol, applied⟩ := TypeEntry.shape?_eq_applied_iff.mp built
  obtain ⟨home, isInstance⟩ := Option.isSome_iff_exists.mp
    ((mirrored.applied type entry stored).mp (by rw [applied]; rfl))
  obtain ⟨definition, found, plainHome, _, sameSymbol⟩ :=
    mirrored.definition type entry home stored isInstance
  obtain rfl := furnished.single home generic definition source symbol found known plainHome plain
    (sameSymbol.trans isSymbol) declared
  obtain rfl : definition = source := Option.some.inj (found.symm.trans known)
  have filled : entry.complete = true := by
    rcases mirrored.filled type entry home _ stored isInstance known with
      filled | unfinished | waits
    · exact filled
    · exact unfinished.elim
    · rw [mirrored.attended home _ known complete] at waits
      cases waits
  obtain ⟨length, each⟩ := (mirrored.mirrors type entry home _ stored isInstance known filled).bases
  obtain ⟨held, paired⟩ := exists_mem_zip length listed
  rw [applied] at each
  exact ⟨held, (each base held paired).reads rooted legible
    (furnished.bases home _ symbol known plain declared base listed)
    (furnished.parameters home _ symbol known plain declared) fun part listed =>
      legible.stores_part shape listed⟩

theorem Legible.exists_of_varied (legible : types.Legible) (supplied : ∀ argument ∈ arguments,
    types.Stores argument) {parts : List Term}
    (varied : types.Varied parameters arguments (.built former parts)) :
    ∃ type sources, types.Stores type ∧ types.term type = .built former sources ∧
      List.Forall₂ (Term.Varies (parameters.map types.term) (arguments.map types.term)) sources
      parts := by
  obtain ⟨type, stored, varies⟩ := varied
  have unchanged := List.forall₂_same.mpr fun part (_ : part ∈ parts) =>
    @Term.Varies.same (parameters.map types.term) (arguments.map types.term) part
  generalize reads : types.term type = term at varies
  cases varies with
  | same => exact ⟨type, parts, stored, reads, unchanged⟩
  | replaced found =>
    rw [← reads, legible.replacement?_term] at found
    obtain ⟨argument, isArgument, readsArgument⟩ := Option.map_eq_some_iff.mp found
    exact ⟨argument, parts, legible.stores_replacement supplied isArgument, readsArgument,
      unchanged⟩
  | built each => exact ⟨type, _, stored, reads, each⟩

/-- What varies a table is closed: a variant of an instance has variants of its bases. -/
theorem Mirrored.closed (mirrored : types.Mirrored (fun _ => False) given)
    (furnished : types.Furnished)
    (rooted : types.Rooted) (legible : types.Legible) (supplied : ∀ argument ∈ arguments,
      types.Stores argument) :
    Closed types (types.Varied parameters arguments) where
  furnished := furnished
  legible := legible
  finite := by
    refine ((Set.finite_lt_nat types.size).biUnion fun position _ =>
      Term.finite_varies (parameters.map types.term)
      (arguments.map types.term) (types.term ⟨position⟩)).subset ?_
    rintro term ⟨type, stored, varies⟩
    exact Set.mem_biUnion stored varies
  parts former parts varied part listed := by
    obtain ⟨type, _, _, reads, each⟩ := legible.exists_of_varied supplied varied
    obtain ⟨sources, shape, rfl⟩ := legible.exists_shape_of_term reads
    obtain ⟨position, inside, rfl⟩ := List.mem_iff_getElem.mp listed
    rw [List.forall₂_map_left_iff, List.forall₂_iff_get] at each
    exact ⟨sources[position], legible.stores_part shape (List.getElem_mem _),
      each.2 position (each.1 ▸ inside) inside⟩
  bases generic source symbol parts known plain declared complete varied base listed := by
    obtain ⟨type, _, _, reads, each⟩ := legible.exists_of_varied supplied varied
    obtain ⟨held, stored, same⟩ :=
      mirrored.exists_base furnished rooted legible reads known plain declared complete listed
    exact ⟨held, stored, same ▸ Term.Varies.replace each _ _⟩

end Closed

/-! ## Members -/

section Members

variable {symbols : Symbols} {id : MemberId} {owner : SymbolId} {contexts : List TypeId}
  {symbol : Symbol}
  {base result : TypeId} {types : Types} {fuel : Nat}

/-- What is stored stays, up to the instances that wait for it. -/
def Retains (before after : Types) : Prop :=
  ∀ type entry, before.entries.get? type = some entry → ∃ waiting, after.entries.get? type =
    some { entry with waiting }

theorem Retains.refl (types : Types) : types.Retains types := fun _ entry stored =>
    ⟨entry.waiting, stored⟩

theorem Retains.trans {first second third : Types} (one : first.Retains second)
    (two : second.Retains third) :
    first.Retains third := by
  intro type entry stored
  obtain ⟨_, between⟩ := one type entry stored
  obtain ⟨waiting, found⟩ := two type _ between
  exact ⟨waiting, found⟩

/-- Types and symbols at a time when nothing is being filled. -/
structure Reliable (types : Types) (symbols : Symbols) : Prop extends Trusted types symbols where
  furnished : types.Furnished
  mirrored : ∃ given, types.Mirrored (fun _ => False) given

/-- Every type can be written: function types have a result, and the symbols of types are known. -/
structure Writable (types : Types) (symbols : Symbols) : Prop where
  signed : ∀ type entry, types.entries.get? type = some entry → entry.kind = .function →
    entry.related ≠ []
  named : ∀ type entry symbol, types.entries.get? type = some entry → entry.symbol = some symbol →
    ∃ known, symbols.get? symbol = some known

theorem Writable.modify (writable : types.Writable symbols) {change : TypeEntry → TypeEntry}
    (stays : ∀ entry, types.entries.get? type = some entry → entry.Stays (change entry)) :
    Writable { types with entries := types.entries.modify type change } symbols where
  signed other later found isFunction := by
    obtain ⟨before, stored, stays⟩ := Table.origin_of_modify .refl stays found
    have same := stays.kind.symm.trans isFunction
    rw [stays.related same]
    exact writable.signed other before stored same
  named other later symbol found declared := by
    obtain ⟨before, stored, stays⟩ := Table.origin_of_modify .refl stays found
    exact writable.named other before symbol stored (stays.declarer.symm.trans declared)

theorem Writable.push (writable : types.Writable symbols) {entry : TypeEntry}
    {interned : List (TypeKey × TypeId)}
    (signed : entry.kind = .function → entry.related ≠ [])
    (named : ∀ symbol, entry.symbol = some symbol → ∃ known, symbols.get? symbol = some known) :
    Writable { types with entries := types.entries.push entry, interned } symbols where
  signed other later found := by
    obtain ⟨_, rfl⟩ | ⟨_, stored⟩ := Table.get?_push_cases found
    · exact signed
    · exact writable.signed other later stored
  named other later symbol found := by
    obtain ⟨_, rfl⟩ | ⟨_, stored⟩ := Table.get?_push_cases found
    · exact named symbol
    · exact writable.named other later symbol stored

/-- Types that grow, and can be written if they could before. -/
abbrev Growth.writing (symbols : Symbols) : Growth where
  __ := Growth.sharing
  leads before after := before.Advances after ∧ (before.Writable symbols → after.Writable symbols)
  refl consed := ⟨.refl consed, fun writable => writable⟩
  trans one two := ⟨one.1.trans two.1, two.2 ∘ one.2⟩
  reached leads := leads.1.1
  extended leads := leads.1.2
  lasting _ _ := trivial
  declares := nofun
  modify consed keeps symbol parameters _ :=
    ⟨Growth.sharing.modify consed keeps symbol parameters nofun, fun writable =>
    writable.modify fun entry stored => ⟨keeps entry stored, symbol entry, parameters entry⟩⟩
  pushFunction consed given fresh :=
    ⟨Growth.sharing.pushFunction consed given fresh, fun writable =>
    writable.push (fun _ => nofun) nofun⟩
  pushInstance consed given stored declared noFunction fresh :=
    ⟨Growth.sharing.pushInstance consed given stored declared noFunction fresh, fun writable =>
      writable.push (fun isFunction => absurd isFunction noFunction) fun _ same =>
        writable.named _ _ _ stored (declared.trans same)⟩
  pushMember context consed stored :=
    ⟨Growth.sharing.pushMember context consed stored, fun writable => ⟨writable.1, writable.2⟩⟩

/-- A later time of this kind. -/
structure Proceeds (symbols : Symbols) (before after : Types) : Prop where
  reliable : Reliable after symbols
  upholds : before.Upholds after
  develops : before.Develops after
  steady : before.Steady (fun _ => False) after
  retains : before.Retains after
  writes : before.Writable symbols → after.Writable symbols

theorem Proceeds.refl (reliable : Reliable now symbols) : Proceeds symbols now now :=
  ⟨reliable, .refl now, .refl reliable.legible, .refl now, .refl now, fun writable => writable⟩

theorem Proceeds.trans {first second third : Types} (one : Proceeds symbols first second)
    (two : Proceeds symbols second third) : Proceeds symbols first third :=
  ⟨two.reliable, one.upholds.trans two.upholds, one.develops.trans two.develops,
    one.steady.trans two.steady,
    one.retains.trans two.retains, two.writes ∘ one.writes⟩

theorem Furnished.keep (furnished : before.Furnished)
    (steady : before.Steady (fun _ => False) after)
    (stocked : ∀ id member, before.members.get? id = some member → ∃ later, after.members.get? id =
      some later) :
    after.Furnished where
  parameters type entry symbol stored plain declared parameter listed := by
    obtain ⟨source, _, first, sourcePlain, sourceDeclared, rfl⟩ :=
      steady.definition_of_symbol stored plain declared
    exact steady.kept.stores (furnished.parameters type source symbol first sourcePlain
      sourceDeclared parameter listed)
  bases type entry symbol stored plain declared base listed := by
    obtain ⟨source, _, first, sourcePlain, sourceDeclared, rfl⟩ :=
      steady.definition_of_symbol stored plain declared
    exact steady.kept.stores (furnished.bases type source symbol first sourcePlain sourceDeclared
      base listed)
  members type entry symbol stored plain declared named listed := by
    obtain ⟨source, _, first, sourcePlain, sourceDeclared, rfl⟩ :=
      steady.definition_of_symbol stored plain declared
    obtain ⟨member, found⟩ := furnished.members type source symbol first sourcePlain sourceDeclared
      named listed
    exact stocked named.2 member found
  single first second one other symbol stored also plain alsoPlain declared alsoDeclared := by
    obtain ⟨source, _, oneFirst, onePlain, oneDeclared, _⟩ :=
      steady.definition_of_symbol stored plain declared
    obtain ⟨sourceAlso, _, twoFirst, twoPlain, twoDeclared, _⟩ :=
      steady.definition_of_symbol also alsoPlain alsoDeclared
    exact furnished.single first second source sourceAlso symbol oneFirst twoFirst onePlain twoPlain
      oneDeclared twoDeclared

/-- Where nothing is being filled, parameters are replaced, and then nothing is being filled. -/
theorem Reliable.substitute_reaches (reliable : Reliable now symbols) (stored : now.Stores type)
    (known : ∀ parameter ∈ parameters, now.Stores parameter) (given : ∀ argument ∈ arguments,
      now.Stores argument) :
    Reaches (fun fuel => substitute fuel type parameters arguments) now fun result after =>
      Proceeds symbols now after ∧ after.Stores result := by
  obtain ⟨owned, mirrored⟩ := reliable.mirrored
  have closed : Closed now (now.Varied parameters arguments) :=
    mirrored.closed reliable.furnished reliable.rooted reliable.legible given
  have approaches : Approaches now (now.Varied parameters arguments) now :=
    ⟨.refl now, reliable.legible, ⟨_, owned, mirrored⟩, fun _ member stored => ⟨member, stored⟩,
      fun type stored => ⟨type, stored, .same _⟩⟩
  refine (((((Types.substitute_reaches closed approaches ⟨stored, known, given, type, stored,
    Term.varies_replace _⟩).ensured
    fun fuel => substitute_grows fuel now type parameters arguments reliable.rooted).ensured
    fun fuel => substitute_faithful fuel now type parameters arguments reliable.legible
      given).ensured
    fun fuel => substitute_replaces fuel _ _ now type parameters arguments mirrored).ensured
    fun fuel => (Growth.writing symbols).moves_substitute fuel now type parameters arguments
      reliable.legible.consed
      fun _ _ => trivial).weaken ?_
  rintro result after ⟨⟨⟨⟨reached, grows, _⟩, replaces⟩, mirroredAfter, sprouts, _⟩, writes⟩
  have develops := replaces.develops
  refine ⟨⟨⟨⟨grows.rooted, develops.legible, reliable.remembered.grows grows (.refl symbols), ?_⟩,
    ?_, owned, mirroredAfter⟩,
    grows.recalls.upholds, develops, .of_sprouts sprouts, fun type entry stored => ?_, writes.1.2⟩,
      replaces.stores stored⟩
  · exact fun id symbol type known typed =>
      develops.extended.stores (reliable.typed id symbol type known typed)
  · exact reliable.furnished.keep (.of_sprouts sprouts) fun id member stored =>
      ⟨member, sprouts.members id member stored⟩
  · obtain ⟨waiting, found⟩ := sprouts.entries type entry id stored
    exact ⟨_, found⟩

theorem Reliable.substituteAlong_reaches (reliable : Reliable now symbols)
    (grounded : now.Grounded contexts)
    (stored : now.Stores base) :
    Reaches (fun fuel => substituteAlong fuel contexts base) now fun _ after =>
    Proceeds symbols now after := by
  induction contexts generalizing now base with
  | nil => exact .pure (.refl reliable)
  | cons context rest ih =>
    have ⟨⟨parameters, arguments, substitutes, known⟩, others⟩ := List.forall_mem_cons.mp grounded
    refine .get (.ask substitutes (.bind ?_))
    refine (reliable.substitute_reaches stored known
      (Growth.legible.knows_of_substitutionOf reliable.legible substitutes)).weaken ?_
    rintro answer middle ⟨proceeds, answerStored⟩
    refine (ih proceeds.reliable (Grounded.keep others proceeds.upholds) answerStored).weaken ?_
    exact fun _ after further => proceeds.trans further

/-- The last part of the calculation of a member type returns. -/
theorem Reliable.concluded_reaches (reliable : Reliable now symbols) {context : Option TypeId}
    (grounded : now.Grounded context.toList) (known : symbols.get? owner = some symbol)
    {member : Member}
    (stored : now.members.get? id = some member) (baseStored : now.Stores base) :
    Reaches (fun fuel => concluded symbols fuel id owner context base) now fun _ =>
    now.Retains := by
  simp only [concluded_eq]
  refine .bind ((reliable.substituteAlong_reaches grounded baseStored).weaken
    fun answer after proceeds => ?_)
  obtain ⟨learned, found⟩ := proceeds.upholds.members id member stored
  refine .ask ((Table.fetch_eq_ok_iff ..).mpr known) ?_
  split
  · refine ⟨answer,
      { after with
        members := after.members.modify id fun member => { member with type := some answer } },
      ⟨0, fun _ _ => (Action.bind_eq_ok_iff ..).mpr ⟨(), _, ?_, rfl⟩⟩, proceeds.retains⟩
    simp only [updateMember, Action.zoom, Table.update, if_pos (Table.lt_size_of_get? found)]
  · exact .pure proceeds.retains

theorem Chain.exists_member (chain : types.Chain id owner contexts) :
    ∃ member, types.members.get? id = some member := by
  cases chain with
  | own stored => exact ⟨_, stored⟩
  | taken stored => exact ⟨_, stored⟩

/-- After a member was asked for its type, everything can be trusted as before. -/
theorem Trusted.asked (trusted : Trusted types symbols) (run : memberType symbols fuel id types =
    .ok result after) :
    Trusted after symbols ∧ types.Upholds after ∧ types.Develops after := by
  obtain ⟨rooted, remembered, recalls, _⟩ :=
    ensures_memberType_remembers symbols fuel id trusted.rooted trusted.remembered result after run
  have develops := ensures_memberType_develops symbols fuel id trusted.legible result after run
  refine ⟨⟨rooted, develops.legible, remembered, fun owner symbol type known typed => ?_⟩,
    recalls.upholds, develops⟩
  exact develops.extended.stores (trusted.typed owner symbol type known typed)

theorem Trusted.through_of_memberType (trusted : Trusted types symbols)
    (chain : types.Chain id owner contexts) (known : symbols.get? owner = some symbol)
    (run : memberType symbols fuel id types = .ok result after) :
    after.Through contexts symbol.typeOrError result := by
  obtain ⟨more, final, substituted, alike⟩ :=
    (trusted.memberType_iff chain known after).mp ⟨fuel, after, run, .refl after⟩
  exact (ensures_substituteAlong more contexts trusted.rooted result final substituted).2.keep
    alike.upholds

/-- What a type becomes through instances is stored, and its term is that of the type inside the
instances. -/
theorem Through.reads (through : now.Through contexts base result) (rooted : now.Rooted)
    (legible : now.Legible)
    (grounded : now.Grounded contexts) (stored : now.Stores base) :
    now.Stores result ∧ now.term result = contexts.foldl now.inside (now.term base) := by
  induction contexts generalizing base with
  | nil =>
    obtain rfl : result = base := through
    exact ⟨stored, rfl⟩
  | cons context rest ih =>
    have ⟨⟨_, _, substitutes, known⟩, others⟩ := List.forall_mem_cons.mp grounded
    obtain ⟨middle, ⟨_, _, also, replaced⟩, through⟩ := through
    cases substitutes.symm.trans also
    obtain ⟨middleStored, reads⟩ := replaced.reads rooted legible stored known
      (Growth.legible.knows_of_substitutionOf legible substitutes)
    rw [List.foldl_cons, inside, substitutes]
    change _ ∧ _ = rest.foldl now.inside (Term.replace _ _ (now.term base))
    rw [← reads]
    exact ih through others middleStored

theorem Trusted.stores_of_memberType (trusted : Trusted types symbols)
    (chain : types.Chain id owner contexts) (known : symbols.get? owner = some symbol)
    (grounded : types.Grounded contexts)
    (run : memberType symbols fuel id types = .ok result after) : after.Stores result := by
  obtain ⟨trustedAfter, upholds, _⟩ := trusted.asked run
  exact ((trusted.through_of_memberType chain known run).reads trustedAfter.rooted
    trustedAfter.legible
    (grounded.keep upholds) (trustedAfter.stores_typeOrError known)).1

theorem Reliable.asked (reliable : Reliable now symbols) (run : memberType symbols fuel id now =
    .ok result after) :
    Reliable after symbols ∧ now.Steady (fun _ => False) after := by
  obtain ⟨given, mirrored⟩ := reliable.mirrored
  obtain ⟨trusted, upholds, _⟩ := reliable.toTrusted.asked run
  obtain ⟨mirroredStill, steady⟩ := ensures_memberType_mirrors symbols fuel id mirrored result after
    run
  refine ⟨⟨trusted, reliable.furnished.keep steady fun id member stored =>
    ?_, given, mirroredStill⟩, steady⟩
  obtain ⟨learned, found⟩ := upholds.members id member stored
  exact ⟨_, found⟩

theorem Chain.memberType_reaches (chain : now.Chain id owner contexts)
    (reliable : Reliable now symbols)
    (known : symbols.get? owner = some symbol) (grounded : now.Grounded contexts) :
    Reaches (fun fuel => memberType symbols fuel id) now fun _ => now.Retains := by
  have typed := reliable.stores_typeOrError known
  induction chain with
  | @own id member stored plain =>
    refine .of_succ ?_
    cases learned : member.type with
    | some type =>
      exact .of_eq (fun fuel => run_memberType_learned stored learned) (.pure (.refl now))
    | none =>
      refine .of_eq (fun fuel => run_memberType_unlearned stored learned) (.bind ?_)
      simp only [startOf, plain]
      exact .ask ((Table.fetch_eq_ok_iff ..).mpr known)
        (.pure (reliable.concluded_reaches grounded known stored typed))
  | @taken id original member owner contexts stored depends source ih =>
    refine .of_succ ?_
    cases learned : member.type with
    | some type =>
      exact .of_eq (fun fuel => run_memberType_learned stored learned) (.pure (.refl now))
    | none =>
      have groundedFirst : now.Grounded contexts := fun context listed =>
        grounded context (List.mem_append_left _ listed)
      have groundedLast : now.Grounded member.instanceType.toList := fun context listed =>
        grounded context (List.mem_append_right _ listed)
      have owned : symbols.get? member.symbol = some symbol := by
        rw [(Chain.taken stored depends source).symbol_eq reliable.rooted stored]
        exact known
      refine .of_eq (fun fuel => run_memberType_unlearned stored learned) (.bind ?_)
      simp only [startOf, depends]
      refine (ih known groundedFirst).ran.weaken ?_
      rintro base middle ⟨retains, fuel, run⟩
      obtain ⟨_, upholds, _⟩ := reliable.toTrusted.asked run
      obtain ⟨_, still⟩ := upholds.members id member stored
      refine ((reliable.asked run).1.concluded_reaches (groundedLast.keep upholds) owned still
        (reliable.toTrusted.stores_of_memberType source known groundedFirst run)).weaken ?_
      exact fun _ after further => retains.trans further

theorem Chain.memberType_reads (chain : now.Chain id owner contexts)
    (reliable : Reliable now symbols)
    (known : symbols.get? owner = some symbol) (grounded : now.Grounded contexts) :
    Reaches (fun fuel => memberType symbols fuel id) now fun type after =>
    Proceeds symbols now after ∧ after.Stores type ∧
      after.term type = contexts.foldl now.inside (now.term symbol.typeOrError) := by
  refine (chain.memberType_reaches reliable known grounded).ran.weaken ?_
  rintro type after ⟨retains, fuel, run⟩
  obtain ⟨_, upholds, develops⟩ := reliable.toTrusted.asked run
  obtain ⟨reliableAfter, steady⟩ := reliable.asked run
  have writes := (Growth.writing symbols).ensures_memberType (fun _ _ _ consed =>
    ⟨consed.members _, fun writable =>
    ⟨writable.1, writable.2⟩⟩) symbols fuel id reliable.legible.consed type after run
  exact ⟨⟨reliableAfter, upholds, develops, steady, retains, writes.2⟩,
    reliable.toTrusted.stores_of_memberType chain known grounded run,
    reliable.toTrusted.term_of_memberType chain known grounded run⟩

end Members

end Types
end Resolution
