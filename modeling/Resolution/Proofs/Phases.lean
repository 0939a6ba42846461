import Resolution.Program
import Resolution.Proofs.Advancing
import Resolution.Proofs.HashConsing
import Resolution.Proofs.Remembering

/-!
# Phases of a run

While everything is declared, types still get their symbols and type parameters, but there are no
instances yet and no member has learned its type.  From then on types grow only, and what a member
remembers is what the calculation gives.  `Store.Sound` is what holds in a phase; the classes and
interfaces that wait to be settled have types of their own, which their bases may be written to.
-/

namespace Resolution
namespace Types

variable {phase : Phase} {types before after : Types} {type : TypeId} {bound : Nat}

/-- The type is stored and is no function. -/
def Plain (types : Types) (type : TypeId) : Prop :=
  ∃ entry, types.entries.get? type = some entry ∧ entry.kind ≠ .function

theorem Plain.grown (plain : before.Plain type) (grown : before.Extends after) :
    after.Plain type := by
  obtain ⟨entry, stored, noFunction⟩ := plain
  obtain ⟨later, found, keeps⟩ := grown type entry stored
  exact ⟨later, found, keeps.kind ▸ noFunction⟩

theorem Rooted.plain_builtin (rooted : types.Rooted) (builtin : type.index < 10) :
    types.Plain type := by
  obtain ⟨entry, stored, noFunction, _⟩ := rooted.consed.builtin type.index builtin
  exact ⟨entry, stored, noFunction⟩

theorem plain_push {entry : TypeEntry} {interned : List (TypeKey × TypeId)}
    (noFunction : entry.kind ≠ .function) :
    Plain { types with entries := types.entries.push entry, interned } types.entries.next :=
  ⟨entry, Table.get?_push_next _ _, noFunction⟩

/-- There are no instances, and no member has learned its type. -/
structure Raw (types : Types) : Prop where
  generic : ∀ type entry, types.entries.get? type = some entry → entry.generic = none
  type : ∀ id member, types.members.get? id = some member → member.type = none

theorem raw_new : Types.new.Raw where
  generic _ _ stored := by
    obtain ⟨_, _, _, _, rfl⟩ := blank_new stored
    rfl
  type _ _ stored := by cases get?_members_new.symm.trans stored

theorem Raw.remembered (raw : types.Raw) (symbols : Symbols) : types.Remembered symbols := by
  intro id member type stored known
  rw [raw.type id member stored] at known
  cases known

/-- Names of member tables lead to members, and members to symbols below a bound. -/
structure Bounded (bound : Nat) (types : Types) : Prop where
  named : ∀ type entry, types.entries.get? type = some entry → ∀ named ∈ entry.members.entries,
    named.2.index < types.members.size
  symbol : ∀ id member, types.members.get? id = some member → member.symbol.index < bound

theorem bounded_new : Types.new.Bounded bound where
  named _ _ stored _ listed := by
    obtain ⟨_, _, _, _, rfl⟩ := blank_new stored
    cases listed
  symbol _ _ stored := by cases get?_members_new.symm.trans stored

section Bounded

variable {bound : Nat} (bounded : types.Bounded bound)
include bounded

theorem Bounded.modify {change : TypeEntry → TypeEntry} (names : ∀ entry, types.entries.get? type =
    some entry →
      ∀ named ∈ (change entry).members.entries, types.Lists entry.members named) :
    Bounded bound { types with entries := types.entries.modify type change } where
  named other later found named listed := by
    obtain ⟨entry, stored, ⟨rfl, rfl⟩ | ⟨_, rfl⟩⟩ := Table.get?_modify_cases found
    · exact (names entry stored named listed).elim (bounded.named other entry stored named) id
    · exact bounded.named other later stored named listed
  symbol := bounded.symbol

theorem Bounded.push {entry : TypeEntry} {interned : List (TypeKey × TypeId)}
    (nameless : entry.members.entries = []) :
    Bounded bound { types with entries := types.entries.push entry, interned } where
  named other later found named listed := by
    obtain ⟨_, rfl⟩ | ⟨_, stored⟩ := Table.get?_push_cases found
    · rw [nameless] at listed
      cases listed
    · exact bounded.named other later stored named listed
  symbol := bounded.symbol

theorem Bounded.push_member {member : Member} (below : member.symbol.index < bound) :
    Bounded bound { types with members := types.members.push member } where
  named type entry stored named listed := by
    rw [Table.size_push]
    exact Nat.lt_succ_of_lt (bounded.named type entry stored named listed)
  symbol id later found := by
    obtain ⟨_, rfl⟩ | ⟨_, stored⟩ := Table.get?_push_cases found
    · exact below
    · exact bounded.symbol id later stored

theorem Bounded.learn (id : MemberId) (type : TypeId) :
    Bounded bound
    { types with
      members := types.members.modify id fun member => { member with type := some type } } where
  named other entry stored named listed := by
    rw [Table.size_modify]
    exact bounded.named other entry stored named listed
  symbol other later found := by
    obtain ⟨member, stored, ⟨rfl, rfl⟩ | ⟨_, rfl⟩⟩ := Table.get?_modify_cases found
    · exact bounded.symbol other member stored
    · exact bounded.symbol other later stored

end Bounded

/-- Types that grow within a bound. -/
abbrev Growth.within (bound : Nat) : Growth where
  fits types := types.HashConsed ∧ types.Bounded bound
  leads before after := before.Advances after ∧ after.Bounded bound
  knows _ _ := True
  declared := False
  consed fits := fits.1
  refl fits := ⟨.refl fits.1, fits.2⟩
  trans one two := ⟨one.1.trans two.1, two.2⟩
  reached leads := ⟨leads.1.1, leads.2⟩
  extended leads := leads.1.2
  lasting _ _ := trivial
  stored _ _ := trivial
  replaced _ _ _ := trivial
  signature _ _ _ _ _ := trivial
  applied _ _ _ _ _ _ := trivial
  definition := False.elim
  declares := False.elim
  listed := True
  modify fits keeps symbol parameters names :=
    ⟨Growth.sharing.modify fits.1 keeps symbol parameters False.elim, fits.2.modify (names trivial)⟩
  pushFunction fits given fresh :=
    ⟨Growth.sharing.pushFunction fits.1 given fresh, fits.2.push rfl⟩
  pushInstance fits given stored declared noFunction fresh :=
    ⟨Growth.sharing.pushInstance fits.1 given stored declared noFunction fresh, fits.2.push rfl⟩
  pushMember context fits stored :=
    have below := fits.2.symbol _ _ stored
    ⟨Growth.sharing.pushMember context fits.1 stored, fits.2.push_member below⟩

/-- What a step of a phase does to types. -/
structure Steps (phase : Phase) (bound : Nat) (before after : Types) : Prop where
  rooted : after.Rooted
  grown : before.Extends after
  raw : phase = .scanning → after.Raw
  grows : phase = .settling → before.Grows after
  members : ∀ id member, before.members.get? id = some member →
    ∃ later, after.members.get? id = some later ∧ later.symbol = member.symbol
  bounded : before.Bounded bound → after.Bounded bound

theorem Recalls.members_symbol (recalls : before.Recalls after) (id : MemberId) (member : Member)
    (stored : before.members.get? id = some member) :
    ∃ later, after.members.get? id = some later ∧ later.symbol = member.symbol := by
  obtain ⟨later, found, stays⟩ := recalls.members id member stored
  exact ⟨later, found, stays.symbol⟩

/-- Types that grow without a new instance are raw if they were. -/
theorem Grows.steps (grows : before.Grows after) (raw : phase = .scanning → before.Raw)
    (bounded : before.Bounded bound → after.Bounded bound)
    (generic : ∀ type entry, after.entries.get? type = some entry →
      entry.generic = none ∨ ∃ earlier, before.entries.get? type = some earlier ∧
      entry.generic = earlier.generic) :
    before.Steps phase bound after where
  rooted := grows.rooted
  grown := grows.recalls.grown
  members := grows.recalls.members_symbol
  bounded := bounded
  raw scanning := by
    refine ⟨fun type entry stored => ?_, fun id member stored => ?_⟩
    · rcases generic type entry stored with plain | ⟨earlier, known, same⟩
      · exact plain
      · exact same.trans ((raw scanning).generic type earlier known)
    · refine Option.eq_none_iff_forall_not_mem.mpr fun type learned => ?_
      obtain ⟨earlier, known, remembers⟩ := grows.unlearned id member type stored learned
      rw [(raw scanning).type id earlier known] at remembers
      cases remembers
  grows _ := grows

end Types

/-- The action does what a step of the phase may do to types. -/
class Action.Sustains {α : Type} (phase : Phase) (action : Action Types α) : Prop where
  steps : ∀ (types : Types) bound, types.Rooted → (phase = .scanning → types.Raw) →
    action.Ensures types fun _ => types.Steps phase bound

namespace Types

variable {phase : Phase} {types : Types} {type : TypeId} {change : TypeEntry → TypeEntry}
  {arguments : List TypeId}
  {fuel bound : Nat} {name : String} {member : MemberId} {parameters : List TypeId}

/-! ## Steps of both phases -/

theorem steps_modify (rooted : types.Rooted) (raw : phase = .scanning → types.Raw)
    (stays : ∀ entry, types.entries.get? type = some entry → entry.Stays (change entry))
    (names : ∀ entry, types.entries.get? type = some entry →
      ∀ named ∈ (change entry).members.entries,
      types.Lists entry.members named) :
    types.Steps phase bound { types with entries := types.entries.modify type change } := by
  refine (rooted.modify stays).steps raw (fun bounded => bounded.modify names)
    fun other later found => .inr ?_
  obtain ⟨entry, stored, stay⟩ := Table.origin_of_modify .refl stays found
  exact ⟨entry, stored, stay.generic⟩

instance : (update type fun entry => { entry with complete := true }).Sustains phase where
  steps _ _ rooted raw :=
    .updateIn fun _ => steps_modify rooted raw (fun entry _ => { TypeEntry.Stays.refl entry with })
      fun _ _ _ => .inl

theorem Steps.refl (rooted : types.Rooted) (raw : phase = .scanning → types.Raw) :
    types.Steps phase bound types :=
  (Grows.refl rooted).steps raw id fun _ entry stored => .inr ⟨entry, stored, rfl⟩

section Names

variable (rooted : types.Rooted) (raw : phase = .scanning → types.Raw)
  (known : member.index < types.members.size)
include rooted raw known

theorem steps_setMember : (setMember type name member).Ensures types fun _ =>
    types.Steps phase bound :=
  .updateIn fun _ => steps_modify rooted raw (fun entry _ => { TypeEntry.Stays.refl entry with })
    fun _ _ _ => lists_set known

theorem steps_insertMember : (insertMember type name member).Ensures types fun _ =>
    types.Steps phase bound := by
  unfold insertMember
  refine .get ?_
  refine .fetch fun entry stored => ?_
  split
  · exact .pure (.refl rooted raw)
  · rename_i members inserted
    refine Action.ensures_bind.mpr (.updateIn fun _ => .pure ?_)
    refine steps_modify rooted raw (fun entry _ => { TypeEntry.Stays.refl entry with })
      fun same found named listed => ?_
    cases stored.symm.trans found
    exact lists_set known ((NameTable.eq_set_of_insert inserted).2 ▸ listed)

end Names

theorem sustains_createNamed {kind : TypeKind} (noFunction : kind ≠ .function) (symbol : SymbolId) :
    (createNamed kind symbol).Sustains phase where
  steps types _ rooted raw := by
    have grows :
      types.Grows { types with entries := types.entries.push { kind, symbol := some symbol } } :=
      rooted.push (rooted.consed.push_named noFunction rfl) Iff.rfl nofun
    refine ensures_push.mpr (grows.steps raw (fun bounded => bounded.push rfl)
      fun type entry found => ?_)
    obtain ⟨_, rfl⟩ | ⟨_, stored⟩ := Table.get?_push_cases found
    · exact .inl rfl
    · exact .inr ⟨entry, stored, rfl⟩

theorem steps_createMember {member : Member} (rooted : types.Rooted) (raw : phase = .scanning →
    types.Raw)
    (unlearned : member.type = none) (origin : ∀ original, member.dependency = some original →
      ∃ source, types.members.get? original = some source ∧ source.symbol = member.symbol)
    (below : types.Bounded bound → member.symbol.index < bound) :
    (createMember member).Ensures types fun _ => types.Steps phase bound := by
  refine ensures_createMember.mpr ((rooted.push_member unlearned origin).steps raw
    (fun bounded => bounded.push_member (below bounded)) fun _ entry stored =>
      .inr ⟨entry, stored, rfl⟩)

/-! ## Steps of the scan -/

/-- Without instances, a type may get another symbol and other type parameters. -/
theorem Raw.modify (raw : types.Raw) (rooted : types.Rooted)
    (keeps : ∀ entry, types.entries.get? type = some entry → entry.Keeps (change entry))
    (members : ∀ entry, (change entry).members = entry.members) :
    types.Steps .scanning bound { types with entries := types.entries.modify type change } := by
  have origin : ∀ other later, (types.entries.modify type change).get? other = some later →
      later.generic = none ∧ later.arguments.isSome = later.generic.isSome := by
    intro other later found
    obtain ⟨entry, stored, kept⟩ := Table.origin_of_modify .refl keeps found
    rw [kept.generic, kept.arguments]
    exact ⟨raw.generic other entry stored, Bool.eq_iff_iff.mpr (rooted.applied other entry stored)⟩
  refine ⟨⟨rooted.consed.modify keeps, fun other later found =>
    ?_, fun other later generic found applied => ?_,
    rooted.origin⟩, extends_modify keeps, fun _ =>
      ⟨fun other later found => (origin other later found).1, raw.type⟩, nofun,
    fun _ member stored => ⟨member, stored, rfl⟩, fun bounded =>
      bounded.modify fun entry _ _ listed => .inl (members entry ▸ listed)⟩
  · rw [(origin other later found).2]
  · rw [(origin other later found).1] at applied
    cases applied

theorem sustains_bindBuiltin (builtin : type.index < 10) (symbol : SymbolId) :
    (bindBuiltin type symbol).Sustains .scanning where
  steps _ _ rooted raw :=
    .updateIn fun _ => (raw rfl).modify rooted (rooted.consed.keeps_of_bindBuiltin builtin symbol)
      fun _ => rfl

instance : (setParameters type parameters).Sustains .scanning where
  steps _ _ rooted raw := by
    refine .updateIn fun _ => (raw rfl).modify rooted (fun _ _ => ?_) fun _ => rfl
    exact ⟨rfl, rfl, rfl, fun _ => rfl, fun _ => rfl⟩

/-! ## Steps of the settling -/

/-- What leads on in every growth is a step. -/
theorem ensures_steps {α : Type} {action : Action Types α} (rooted : types.Rooted)
    (leads : ∀ growth : Growth, (∀ type, growth.knows types type) → growth.fits types →
      action.Ensures types fun _ => growth.leads types) : action.Ensures types fun _ =>
      types.Steps .settling bound := by
  intro value after run
  have grows := leads .rooted (fun _ => trivial) rooted value after run
  exact ⟨grows.rooted, grows.recalls.grown, nofun, fun _ => grows, grows.recalls.members_symbol,
    fun bounded => (leads (.within bound) (fun _ => trivial) ⟨rooted.consed, bounded⟩ value after
      run).2⟩

instance {result : TypeId} : (functionType result arguments).Sustains .settling where
  steps types _ rooted _ := ensures_steps rooted fun growth knows fits =>
    (growth.buildsFunctions types result arguments fits fun part _ => knows part).weaken
      fun _ _ made => made.1

instance {generic : TypeId} : (parameterize fuel generic arguments).Sustains .settling where
  steps _ _ rooted _ := ensures_steps rooted fun growth knows fits =>
    (growth.ensures_parameterize fuel generic fits fun part _ => knows part).weaken fun _ _ made =>
      made.1

instance : (substitute fuel type parameters arguments).Sustains .settling where
  steps types _ rooted _ := ensures_steps rooted fun growth knows fits =>
    (growth.moves_substitute fuel types type parameters arguments fits fun part _ =>
      knows part).weaken
      fun _ _ made => made.leads

instance : (complete fuel type).Sustains .settling where
  steps _ _ rooted _ := ensures_steps rooted fun growth _ fits =>
    growth.ensures_complete fuel type fits

end Types

/-- A chain that leads to lower and lower handles ends. -/
theorem Chain.exists_last {κ : Type} {next : κ → Except Fault (Option κ)} {rank : κ → Nat}
    {bound fuel : Nat} {here : κ}
    (falls : ∀ here, rank here < bound → ∃ link, next here = .ok link ∧ ∀ there ∈ link,
      rank there < rank here)
    (inside : rank here < bound) (enough : rank here < fuel) :
    ∃ final, last next fuel here = .ok final ∧ rank final ≤ rank here := by
  induction fuel generalizing here with
  | zero => exact absurd enough (Nat.not_lt_zero _)
  | succ fuel ih =>
    obtain ⟨link, leads, lower⟩ := falls here inside
    rw [last, leads]
    cases link with
    | none => exact ⟨here, rfl, Nat.le_refl _⟩
    | some there =>
      have below := lower there rfl
      obtain ⟨final, reached, least⟩ := ih (Nat.lt_trans below inside) (by omega)
      exact ⟨final, reached, Nat.le_of_lt (Nat.lt_of_le_of_lt least below)⟩

/-! ## Sound stores -/

/-- Where a symbol leads: to the symbol around it, to the one that it stands for, and to its
candidates. -/
def Symbol.links (symbol : Symbol) : Option SymbolId × Option SymbolId × List MemberId :=
  (symbol.enclosing, symbol.forwardedTo, symbol.candidates)

/-- The symbol leads to older ones. -/
def Symbol.Descends (symbol : Symbol) (members : Table MemberId Member) (id : SymbolId) : Prop :=
  (∀ around ∈ symbol.links.1, around.index < id.index) ∧
    (∀ target ∈ symbol.links.2.1, target.index < id.index) ∧
    ∀ candidate ∈ symbol.links.2.2, ∃ member, members.get? candidate = some member ∧
      member.symbol.index < id.index

theorem Symbol.Descends.keep {symbol : Symbol} {before after : Table MemberId Member}
    {id : SymbolId}
    (descends : symbol.Descends before id) (kept : ∀ candidate member, before.get? candidate =
      some member →
      ∃ later, after.get? candidate = some later ∧ later.symbol = member.symbol) :
      symbol.Descends after id := by
  refine ⟨descends.1, descends.2.1, fun candidate listed => ?_⟩
  obtain ⟨member, stored, older⟩ := descends.2.2 candidate listed
  obtain ⟨later, found, same⟩ := kept candidate member stored
  exact ⟨later, found, same ▸ older⟩

theorem Symbol.Descends.relink {symbol later : Symbol} {members : Table MemberId Member}
    {id : SymbolId}
    (descends : symbol.Descends members id) (links : later.links = symbol.links) :
    later.Descends members id := by
  rwa [Descends, links]

namespace Store

variable {phase : Phase} {store before middle after : Store} {id : SymbolId}

/-- What holds throughout a phase.  Symbols lead to older ones. -/
structure Sound (phase : Phase) (store : Store) : Prop where
  rooted : store.types.Rooted
  plain : ∀ id symbol, store.symbols.get? id = some symbol →
    phase = .scanning ∨ symbol.progress = .untouched ∧ symbol.kind.isObject = true →
      store.types.Plain symbol.typeOrError
  remembered : store.types.Remembered store.symbols
  raw : phase = .scanning → store.types.Raw
  descends : ∀ id symbol, store.symbols.get? id = some symbol →
    symbol.Descends store.types.members id
  bounded : store.types.Bounded store.symbols.size

/-- What stands for a symbol is no younger. -/
theorem Sound.exists_target (sound : store.Sound phase) (inside : id.index < store.symbols.size) :
    ∃ target, store.symbols.target id = .ok target ∧ target.index ≤ id.index := by
  refine Chain.exists_last (fun here within => ?_) inside (Nat.lt_succ_of_lt inside)
  obtain ⟨symbol, known⟩ := Table.exists_get?_of_lt (show Handle.index here < _ from within)
  have fetched : store.symbols.fetch here = .ok symbol := (Table.fetch_eq_ok_iff _ _ _).mpr known
  refine ⟨_, by rw [Symbols.forwardingOf, fetched]; rfl, fun there linked => ?_⟩
  exact (sound.descends here symbol known).2.1 there (Option.mem_filter_iff.mp linked).1

theorem sound_initial (source : Source) : (Store.initial source).Sound .scanning where
  rooted := Types.rooted_new
  plain _ _ known := by cases known
  remembered := Types.raw_new.remembered _
  raw _ := Types.raw_new
  descends _ _ known := by cases known
  bounded := Types.bounded_new

/-- What the scan leaves behind is a start for settling. -/
theorem Sound.settling (sound : store.Sound .scanning) : store.Sound .settling where
  rooted := sound.rooted
  plain id symbol known _ := sound.plain id symbol known (.inl rfl)
  remembered := sound.remembered
  raw := nofun
  descends := sound.descends
  bounded := sound.bounded

theorem Sound.of_eq (sound : before.Sound phase) (symbols : after.symbols = before.symbols)
    (types : after.types = before.types) : after.Sound phase where
  rooted := types ▸ sound.rooted
  plain := by
    rw [symbols, types]
    exact sound.plain
  remembered := by
    rw [symbols, types]
    exact sound.remembered
  raw := types ▸ sound.raw
  descends := by
    rw [symbols, types]
    exact sound.descends
  bounded := by
    rw [symbols, types]
    exact sound.bounded

theorem Sound.types (sound : before.Sound phase) (symbols : after.symbols = before.symbols)
    (steps : before.types.Steps phase before.symbols.size after.types) : after.Sound phase where
  rooted := steps.rooted
  plain id symbol known state := (sound.plain id symbol (symbols ▸ known) state).grown steps.grown
  remembered := by
    rw [symbols]
    cases phase with
    | scanning => exact (steps.raw rfl).remembered _
    | settling => exact sound.remembered.grows (steps.grows rfl) (.refl _)
  raw := steps.raw
  descends id symbol known := (sound.descends id symbol (symbols ▸ known)).keep steps.members
  bounded := symbols ▸ steps.bounded sound.bounded

/-- Symbols change; what settled ones publish stands, those that count keep a plain type, and all
lead to older ones. -/
theorem Sound.symbols (sound : before.Sound phase) (types : after.types = before.types)
    (size : before.symbols.size ≤ after.symbols.size)
    (descends : ∀ id symbol, after.symbols.get? id = some symbol →
      symbol.Descends before.types.members id)
    (stand : Types.SymbolsStand before.symbols after.symbols)
    (plain : ∀ id symbol, after.symbols.get? id = some symbol →
      phase = .scanning ∨ symbol.progress = .untouched ∧ symbol.kind.isObject = true →
        before.types.Plain symbol.typeOrError) : after.Sound phase where
  rooted := types ▸ sound.rooted
  plain := types ▸ plain
  remembered := types ▸ sound.remembered.grows (.refl sound.rooted) stand
  raw := types ▸ sound.raw
  descends := types ▸ descends
  bounded := types ▸ ⟨sound.bounded.named, fun id member known =>
    Nat.lt_of_lt_of_le (sound.bounded.symbol id member known) size⟩

theorem Advances.stand (advances : before.Advances after) :
    Types.SymbolsStand before.symbols after.symbols := by
  intro id symbol known settled
  obtain ⟨later, found, advanced⟩ := advances.symbol id symbol known
  exact ⟨later, found, advanced.isSettled settled, congrArg (·.2.1) (advanced.published settled)⟩

/-- A step of a phase: what is sound stays sound, and once everything is declared, types are only
added to. -/
def Sustains (phase : Phase) (before after : Store) : Prop :=
  before.Sound phase → after.Sound phase ∧ (phase = .settling → before.types.Recalls after.types)

theorem Sustains.refl (phase : Phase) (store : Store) : store.Sustains phase store :=
  fun sound => ⟨sound, fun _ => .refl _⟩

theorem Sustains.trans (one : before.Sustains phase middle) (two : middle.Sustains phase after) :
    before.Sustains phase after := by
  intro sound
  obtain ⟨between, recalls⟩ := one sound
  obtain ⟨last, further⟩ := two between
  exact ⟨last, fun settling => (recalls settling).trans (further settling)⟩

theorem Sustains.of_eq (symbols : after.symbols = before.symbols)
    (types : after.types = before.types) :
    before.Sustains phase after :=
  fun sound => ⟨sound.of_eq symbols types, fun _ => types ▸ .refl _⟩

/-- If the run `settles` what was soundly declared, the store is sound and the function around
exists. -/
def Ready (settles : Prop) (phase : Phase) (site : Surroundings) (store : Store) : Prop :=
  settles → store.Sound phase ∧ store.Houses site.function

theorem Ready.next {settles : Prop} {site : Surroundings} (ready : before.Ready settles phase site)
    (keeps : before.Keeps phase after) (sustains : settles → before.Sustains phase after) :
    after.Ready settles phase site :=
  fun holds => ⟨(sustains holds (ready holds).1).1, keeps.advances.houses (ready holds).2⟩

theorem Sustains.of_steps (symbols : after.symbols = before.symbols)
    (steps : before.Sound phase → before.types.Steps phase before.symbols.size after.types) :
    before.Sustains phase after :=
  fun sound => ⟨sound.types symbols (steps sound), fun settling =>
    ((steps sound).grows settling).recalls⟩

/-- A symbol that may be written to changes in every respect, and any symbol in what it has not
published, as long as no object arises while settling and its type is plain during the scan. -/
theorem sustains_modify {change : Symbol → Symbol}
    (keeps : store.Keeps phase { store with symbols := store.symbols.modify id change })
    (published : store.Open phase id ∨ ∀ symbol, (change symbol).published = symbol.published)
    (typed : phase = .scanning → store.Sound phase → ∀ symbol, store.symbols.get? id = some symbol →
      store.types.Plain (change symbol).typeOrError)
    (descends : store.Sound phase → ∀ symbol, store.symbols.get? id = some symbol →
      (change symbol).Descends store.types.members id) :
    store.Sustains phase { store with symbols := store.symbols.modify id change } := by
  refine fun sound => ⟨sound.symbols rfl (Nat.le_of_eq (Table.size_modify ..).symm)
    (fun other later found => ?_)
    keeps.advances.stand ?_, fun _ => .refl _⟩
  · obtain ⟨symbol, known, ⟨rfl, rfl⟩ | ⟨_, rfl⟩⟩ := Table.get?_modify_cases found
    · exact descends sound symbol known
    · exact sound.descends other later known
  intro other later found state
  obtain ⟨symbol, known, ⟨rfl, rfl⟩ | ⟨_, rfl⟩⟩ := Table.get?_modify_cases found
  · rcases state with scanning | ⟨untouched, isObject⟩
    · exact typed scanning sound symbol known
    cases phase with
    | scanning => exact typed rfl sound symbol known
    | settling =>
      obtain ⟨_, again, kept⟩ := keeps.symbol other symbol known
      dsimp only at again
      cases found.symm.trans again
      rcases published with ⟨_, there, _, noObject⟩ | kept'
      · cases known.symm.trans there
        rw [kept.sort rfl (noObject rfl (kept.progress ▸ untouched))] at isObject
        cases isObject
      · have sameKind : (change symbol).kind = symbol.kind := congrArg (·.1) (kept' symbol)
        have sameType : (change symbol).type = symbol.type := congrArg (·.2.1) (kept' symbol)
        rw [Symbol.typeOrError, sameType]
        exact sound.plain other symbol known (.inr ⟨kept.progress ▸ untouched, sameKind ▸ isObject⟩)
  · exact sound.plain other later known state

theorem sustains_push {symbol : Symbol} (untouched : symbol.progress = .untouched)
    (untyped : symbol.type = none)
    (unlinked : symbol.links = (none, none, [])) :
    store.Sustains phase { store with symbols := store.symbols.push symbol } := by
  have keeps : store.Keeps phase { store with symbols := store.symbols.push symbol } :=
    keeps_push untouched
  refine fun sound => ⟨sound.symbols rfl (Table.size_push .. ▸ Nat.le_succ _)
    (fun other later found => ?_)
    keeps.advances.stand ?_, fun _ => .refl _⟩
  · obtain ⟨_, rfl⟩ | ⟨_, stored⟩ := Table.get?_push_cases found
    · rw [Symbol.Descends, unlinked]
      exact ⟨nofun, nofun, nofun⟩
    · exact sound.descends other later stored
  intro other later found state
  obtain ⟨_, rfl⟩ | ⟨_, stored⟩ := Table.get?_push_cases found
  · rw [Symbol.typeOrError, untyped]
    exact sound.rooted.plain_builtin (by decide)
  · exact sound.plain other later stored state

end Store
end Resolution
