import Resolution.Proofs.Reaching
import Resolution.Proofs.WatchedRun

/-!
# Merging does not depend on the order of bases

What becomes of a name that is inherited from several bases is said by a table, which looks at the
candidates as a set: at the symbols that do the work, at the terms of the types, and at a few
properties.  Settling the name compares every candidate with the first one instead.  Where the
symbols of the candidates are settled and their chains of definitions are in place, it returns for
every order of the candidates, and what it does to the symbol and what it reports are those of the
table.

Types that are made on the way get their handles in the order in which they are made, so a type is
the same in two runs if it reads as the same term.
-/

namespace Resolution

variable {store : Store} {types : Types} {candidates : List Inherited} {member : MemberId}

/-! ## The table -/

/-- What a merge looks at in a candidate: handles of types depend on when a type was made, terms do
not. -/
structure Heir where
  target : SymbolId
  term : Term
  flags : Flags
  isInstanceMember : Bool

/-- What becomes of a name, whatever the order of its candidates. -/
inductive Verdict where
  | forwarded (target : SymbolId) (term : Term)
  | ambiguous
  | unmergeable
  | mismatched
  /-- A virtual function; the candidates may disagree on whether it is pure. -/
  | function (term : Term) (isAbstract : Bool) (isPure : Option Bool)

namespace Verdict

/-- All candidates are one symbol of one type. -/
def Shared (heirs : Heir → Prop) : Prop := ∃ target term, ∀ heir, heirs heir →
    heir.target = target ∧ heir.term = term

/-- The table: the candidates and what becomes of them. -/
inductive Fits (heirs : Heir → Prop) : Verdict → Prop where
  | forwarded {target : SymbolId} {term : Term} (shared : ∀ heir, heirs heir →
    heir.target = target ∧ heir.term = term) :
      Fits heirs (.forwarded target term)
  | ambiguous (unshared : ¬Shared heirs) (nonvirtual : ∃ heir, heirs heir ∧
    heir.flags.has .isVirtual = false)
      (free : ∀ heir, heirs heir → heir.isInstanceMember = false) : Fits heirs .ambiguous
  | unmergeable (unshared : ¬Shared heirs) (nonvirtual : ∃ heir, heirs heir ∧
    heir.flags.has .isVirtual = false)
      (needsInstance : ∃ heir, heirs heir ∧ heir.isInstanceMember = true) : Fits heirs .unmergeable
  | mismatched (unshared : ¬Shared heirs) (isVirtual : ∀ heir, heirs heir →
    heir.flags.has .isVirtual = true)
      (differ : ∃ one other, heirs one ∧ heirs other ∧ one.term ≠ other.term) :
        Fits heirs .mismatched
  | function {term : Term} {isAbstract : Bool} {isPure : Option Bool} (unshared : ¬Shared heirs)
      (isVirtual : ∀ heir, heirs heir → heir.flags.has .isVirtual = true)
        (same : ∀ heir, heirs heir → heir.term = term)
      (abstractIff : isAbstract = true ↔ ∀ heir, heirs heir → heir.flags.has .isAbstract = true)
      (pureIff : ∀ pure, isPure = some pure ↔ ∀ heir, heirs heir → heir.flags.has .isPure = pure) :
      Fits heirs (.function term isAbstract isPure)

/-- A line of the table excludes the others. -/
theorem Fits.unique {heirs : Heir → Prop} {one other : Verdict} (inhabited : ∃ heir, heirs heir)
    (fits : Fits heirs one)
    (also : Fits heirs other) : one = other := by
  obtain ⟨heir, isHeir⟩ := inhabited
  cases fits with
  | forwarded shared =>
    cases also with
    | forwarded alsoShared =>
      have first := shared heir isHeir
      have second := alsoShared heir isHeir
      rw [← first.1, ← first.2, ← second.1, ← second.2]
    | _ unshared => exact absurd ⟨_, _, shared⟩ unshared
  | ambiguous unshared nonvirtual free =>
    cases also with
    | forwarded shared => exact absurd ⟨_, _, shared⟩ unshared
    | ambiguous => rfl
    | _ => grind
  | unmergeable unshared nonvirtual needsInstance =>
    cases also with
    | forwarded shared => exact absurd ⟨_, _, shared⟩ unshared
    | unmergeable => rfl
    | _ => grind
  | mismatched unshared isVirtual differ =>
    cases also with
    | forwarded shared => exact absurd ⟨_, _, shared⟩ unshared
    | mismatched => rfl
    | _ => grind
  | function unshared isVirtual same abstractIff pureIff =>
    cases also with
    | forwarded shared => exact absurd ⟨_, _, shared⟩ unshared
    | function _ _ alsoSame alsoAbstract alsoPure =>
      have sameTerm := (same heir isHeir).symm.trans (alsoSame heir isHeir)
      have sameAbstract := Bool.eq_iff_iff.mpr (abstractIff.trans alsoAbstract.symm)
      have samePure := Option.ext fun pure => (pureIff pure).trans (alsoPure pure).symm
      rw [sameTerm, sameAbstract, samePure]
    | _ => grind

/-- The sort of the symbol afterwards. -/
def kind (before : SymbolKind) : Verdict → SymbolKind
  | .forwarded _ _ => .forwarded
  | .ambiguous => .ambiguous
  | .unmergeable | .mismatched => before
  | .function _ _ _ => .merged

/-- The symbol that the symbol stands for afterwards. -/
def forwardedTo (before : Option SymbolId) : Verdict → Option SymbolId
  | .forwarded target _ => some target
  | _ => before

/-- The type of the symbol afterwards. -/
def term : Verdict → Term
  | .forwarded _ term | .function term _ _ => term
  | .ambiguous | .unmergeable | .mismatched => .leaf .error

/-- What is reported. -/
def codes : Verdict → List Code
  | .unmergeable => [.unmergeable]
  | .mismatched => [.mergedTypes]
  | .function _ _ none => [.mergedPurity]
  | .forwarded _ _ | .ambiguous | .function _ _ (some _) => []

/-- The flags of the symbol afterwards, where the candidates agree on them. -/
def flags (before : Flags) : Verdict → Flags
  | .function _ isAbstract isPure =>
    let isVirtual := before.add .isVirtual
    let abstracted := if isAbstract then isVirtual.add .isAbstract else isVirtual
    if isPure = some true then abstracted.add .isPure else abstracted
  | _ => before

/-- The verdict is carried out on a symbol and reported; only where the candidates disagree on
purity, the function may be pure or not. -/
structure Carries (verdict : Verdict) (before after : Symbol) (reports : List Diagnostic)
    (types : Types) : Prop where
  kind : after.kind = verdict.kind before.kind
  forwardedTo : after.forwardedTo = verdict.forwardedTo before.forwardedTo
  type : ∃ type, after.type = some type ∧ types.term type = verdict.term
  codes : reports.map Diagnostic.code = verdict.codes
  flags : after.flags = verdict.flags before.flags ∨
    verdict.codes = [.mergedPurity] ∧ after.flags = (verdict.flags before.flags).add .isPure

end Verdict

/-- What a merge looks at in a candidate. -/
def Inherited.heir (types : Types) (candidate : Inherited) : Heir :=
  ⟨candidate.target, types.term candidate.type, candidate.flags, candidate.isInstanceMember⟩

/-- What a merge amounts to, with terms for types. -/
def Merge.verdict (types : Types) : Merge → Verdict
  | .forwarded target type => .forwarded target (types.term type)
  | .ambiguous => .ambiguous
  | .unmergeable => .unmergeable
  | .mismatched => .mismatched
  | .function type isAbstract isPure agreesOnPurity =>
    .function (types.term type) isAbstract (if agreesOnPurity then some isPure else none)

/-- The candidates as a set. -/
def Inherited.Among (types : Types) (candidates : List Inherited) (heir : Heir) : Prop :=
  ∃ candidate ∈ candidates, candidate.heir types = heir

theorem Inherited.forall_among {holds : Heir → Prop} :
    (∀ heir, Among types candidates heir → holds heir) ↔ ∀ candidate ∈ candidates,
    holds (candidate.heir types) := by
  simp [Among]

theorem Inherited.exists_among {holds : Heir → Prop} :
    (∃ heir, Among types candidates heir ∧ holds heir) ↔ ∃ candidate ∈ candidates,
    holds (candidate.heir types) := by
  simp [Among]

/-- Comparing every candidate with the first one finds the line of the table. -/
theorem Merge.classify_fits (legible : types.Legible) (first : Inherited) (rest : List Inherited) :
    Verdict.Fits (Inherited.Among types (first :: rest))
    ((Merge.classify first rest).verdict types) := by
  have sameType (candidate : Inherited) : types.term candidate.type = types.term first.type ↔
    candidate.type = first.type :=
    ⟨fun same => legible.term_injective same, fun same => by rw [same]⟩
  unfold classify
  extract_lets candidates
  have listed : first ∈ candidates := List.mem_cons_self
  change Verdict.Fits (Inherited.Among types candidates) _
  clear_value candidates
  split
  · rename_i shared
    refine .forwarded (Inherited.forall_among.mpr fun candidate inside => ?_)
    simpa [Inherited.heir, sameType] using List.all_eq_true.mp shared candidate inside
  rename_i differs
  have unshared : ¬Verdict.Shared (Inherited.Among types candidates) := by
    rintro ⟨target, term, shared⟩
    refine differs (List.all_eq_true.mpr fun candidate inside => ?_)
    have here := Inherited.forall_among.mp shared candidate inside
    have there := Inherited.forall_among.mp shared first listed
    simpa [Inherited.heir, sameType] using And.intro (here.1.trans there.1.symm)
      (here.2.trans there.2.symm)
  split
  · rename_i nonvirtual
    have nonvirtual : ∃ heir, Inherited.Among types candidates heir ∧
      heir.flags.has .isVirtual = false := by
      refine Inherited.exists_among.mpr ?_
      simpa [Inherited.heir] using List.any_eq_true.mp nonvirtual
    split
    · rename_i free
      refine .ambiguous unshared nonvirtual (Inherited.forall_among.mpr ?_)
      simpa [Inherited.heir] using List.all_eq_true.mp free
    · rename_i bound
      refine .unmergeable unshared nonvirtual (Inherited.exists_among.mpr ?_)
      simpa [Inherited.heir] using bound
  rename_i isVirtual
  have isVirtual : ∀ heir, Inherited.Among types candidates heir →
    heir.flags.has .isVirtual = true := by
    refine Inherited.forall_among.mpr ?_
    simpa [Inherited.heir] using isVirtual
  split
  · rename_i differ
    obtain ⟨candidate, inside, other⟩ := List.any_eq_true.mp differ
    refine .mismatched unshared isVirtual ⟨_, _, ⟨candidate, inside, rfl⟩, ⟨first, listed, rfl⟩, ?_⟩
    simpa [Inherited.heir, sameType] using other
  · rename_i same
    refine .function unshared isVirtual (Inherited.forall_among.mpr ?_) ?_ fun pure => ?_
    · simpa [Inherited.heir, sameType] using same
    · rw [Inherited.forall_among]
      exact List.all_eq_true
    · rw [Inherited.forall_among]
      -- The candidates agree on purity exactly if they agree with the first one.
      constructor
      · intro agree candidate inside
        obtain ⟨agrees, there⟩ := Option.ite_none_right_eq_some.mp agree
        rw [← Option.some.inj there]
        simpa [Inherited.heir] using List.all_eq_true.mp agrees candidate inside
      · intro agree
        have there : first.flags.has .isPure = pure := agree first listed
        refine Option.ite_none_right_eq_some.mpr ⟨List.all_eq_true.mpr fun candidate inside =>
          ?_, congrArg some there⟩
        have here : candidate.flags.has .isPure = pure := agree candidate inside
        simp [here, there]

/-! ## Texts -/

namespace Types

variable {types : Types} {symbols : Symbols} {type : TypeId} {fuel : Nat}

theorem mapM_returns {α β : Type} {step : α → Except Fault β} {items : List α}
    (each : ∀ item ∈ items, ∃ answer, step item = .ok answer) :
    ∃ answers, items.mapM step = .ok answers := by
  induction items with
  | nil => exact ⟨[], rfl⟩
  | cons item rest ih =>
    have ⟨⟨answer, first⟩, others⟩ := List.forall_mem_cons.mp each
    obtain ⟨answers, second⟩ := ih others
    refine ⟨answer :: answers, ?_⟩
    rw [List.mapM_cons, first]
    change (rest.mapM step >>= _) = _
    rw [second]
    rfl

theorem textWithin_of_ne_function {entry : TypeEntry}
    (stored : types.entries.get? type = some entry)
    (noFunction : entry.kind ≠ .function)
    (named : ∀ symbol, entry.symbol = some symbol → ∃ known, symbols.get? symbol = some known)
    (each : ∀ arguments, entry.arguments = some arguments → ∀ argument ∈ arguments,
      ∃ text, types.textWithin symbols fuel argument = .ok text) :
    ∃ text, types.textWithin symbols (fuel + 1) type = .ok text := by
  unfold textWithin
  simp only [Types.entry, (Table.fetch_eq_ok_iff ..).mpr stored, bind, Except.bind]
  cases sort : entry.kind with
  | function => exact absurd sort noFunction
  | error => exact ⟨_, rfl⟩
  | null => exact ⟨_, rfl⟩
  | void => exact ⟨_, rfl⟩
  | _ =>
    cases declared : entry.symbol
    on_goal 2 =>
      obtain ⟨known, found⟩ := named _ declared
      simp only [(Table.fetch_eq_ok_iff ..).mpr found]
    all_goals
      cases applied : entry.arguments with
      | none => exact ⟨_, rfl⟩
      | some arguments =>
        obtain ⟨texts, written⟩ := mapM_returns (each arguments applied)
        simp only [written]
        exact ⟨_, rfl⟩

/-- Whatever is stored can be written. -/
theorem Writable.textWithin_returns (writable : types.Writable symbols) (legible : types.Legible)
    (stored : types.Stores type) (deep : type.index < fuel) :
    ∃ text, types.textWithin symbols fuel type = .ok text := by
  induction fuel generalizing type with
  | zero => exact absurd deep (Nat.not_lt_zero _)
  | succ fuel ih =>
    obtain ⟨entry, found⟩ := stored.exists_get?
    -- A type is younger than its parts.
    have each {former : Former} {parts : List TypeId}
      (shape : entry.shape? = some (former, parts)) :
        ∀ part ∈ parts, ∃ text, types.textWithin symbols fuel part = .ok text := by
      intro part listed
      have built := (shapeOf?_of_get? found).trans shape
      have older := legible.older type former parts built part listed
      exact ih (legible.stores_part built listed)
        (Nat.lt_of_lt_of_le older (Nat.le_of_lt_succ deep))
    by_cases isFunction : entry.kind = .function
    · obtain ⟨result, arguments, related⟩ :=
        List.exists_cons_of_ne_nil (writable.signed type entry found isFunction)
      have each := each (TypeEntry.shape?_of_function isFunction)
      rw [related] at each
      have ⟨⟨first, written⟩, others⟩ := List.forall_mem_cons.mp each
      obtain ⟨texts, writtenAll⟩ := mapM_returns others
      unfold textWithin
      simp only [Types.entry, (Table.fetch_eq_ok_iff ..).mpr found, isFunction, related, written,
        writtenAll, bind,
        Except.bind]
      exact ⟨_, rfl⟩
    · exact textWithin_of_ne_function found isFunction (writable.named type entry · found)
        fun arguments applied =>
        each (TypeEntry.shape?_eq_applied_iff.mpr ⟨isFunction, rfl, applied⟩)

theorem Writable.text_returns (writable : types.Writable symbols) (legible : types.Legible)
    (stored : types.Stores type) :
    ∃ text, types.text symbols type = .ok text :=
  writable.textWithin_returns legible stored (Nat.lt_succ_of_lt stored)

end Types

/-! ## Runs -/

/-- A candidate whose symbol is settled, and what a merge looks at in it. -/
inductive Store.Inherits (store : Store) (member : MemberId) : Heir → Prop where
  | mk {owner target : SymbolId} {contexts : List TypeId} {symbol aim : Symbol}
      (chain : store.types.Chain member owner contexts) (grounded : store.types.Grounded contexts)
      (known : store.symbols.get? owner = some symbol) (settled : symbol.progress = .settled)
      (forwards : ∀ other, symbol.forwardedTo = some other →
        ∃ next, store.symbols.get? other = some next ∧ next.progress = .settled)
      (leads : store.symbols.target owner = .ok target)
        (aims : store.symbols.get? target = some aim) :
      Inherits store member ⟨target, contexts.foldl store.types.inside
        (store.types.term symbol.typeOrError), aim.flags,
        aim.kind.isInstanceMember⟩

/-- A name that is inherited from several bases, at a time when the symbols of the candidates are
settled and their types can be worked out. -/
structure Store.Merges (store : Store) (id : SymbolId) (symbol : Symbol) : Prop where
  known : store.symbols.get? id = some symbol
  notEmpty : symbol.candidates ≠ []
  trusted : Types.Trusted store.types store.symbols
  founded : store.types.Founded
  mirrored : ∃ given, store.types.Mirrored (fun _ => False) given
  writable : store.types.Writable store.symbols
  inherits : ∀ member ∈ symbol.candidates, ∃ heir, store.Inherits member heir

theorem Store.Inherits.unique {one other : Heir} (inherits : store.Inherits member one)
    (also : store.Inherits member other) : one = other := by
  obtain ⟨chain, _, known, _, _, leads, aims⟩ := inherits
  obtain ⟨chainAlso, _, knownAlso, _, _, leadsAlso, aimsAlso⟩ := also
  obtain ⟨rfl, rfl⟩ := chain.unique chainAlso
  cases known.symm.trans knownAlso
  cases leads.symm.trans leadsAlso
  cases aims.symm.trans aimsAlso
  rfl

theorem Store.Inherits.exists_aim {heir : Heir} (inherits : store.Inherits member heir) :
    ∃ aim, store.symbols.get? heir.target = some aim ∧ aim.flags = heir.flags ∧
      aim.kind.isInstanceMember = heir.isInstanceMember := by
  obtain ⟨_, _, _, _, _, _, aims⟩ := inherits
  exact ⟨_, aims, rfl, rfl⟩

/-- What a merge looks at in several candidates, as a set. -/
def Store.Heirs (store : Store) (members : List MemberId) (heir : Heir) : Prop :=
  ∃ member ∈ members, store.Inherits member heir

/-- The candidates are read in a later table, where they are the same. -/
theorem Store.heirs_iff {after : Types} {members : List MemberId}
    (each : List.Forall₂ (fun member candidate => store.Inherits member (candidate.heir after))
      members candidates)
    (heir : Heir) : store.Heirs members heir ↔ Inherited.Among after candidates heir := by
  induction each with
  | nil => simp [Heirs, Inherited.Among]
  | @cons member candidate members candidates first _ ih =>
    have here : store.Inherits member heir ↔ candidate.heir after = heir :=
      ⟨fun inherits => first.unique inherits, fun same => same ▸ first⟩
    unfold Heirs Inherited.Among at ih ⊢
    rw [List.exists_mem_cons_iff, List.exists_mem_cons_iff, here, ih]

namespace Resolve

variable {α β : Type} {store middle : Store} {site : Surroundings} {id : SymbolId} {symbol : Symbol}
  {value : α} {member : MemberId} {now : Types}

theorem bind_of_silent {step : Resolve α} {next : α → Resolve β}
    (run : step site store = .ok (value, []) middle) :
    (step >>= next) site store = next value site middle :=
  (bind_of_ok run).trans (Ending.reporting_nil _)

theorem run_ask {read : Store → Except Fault α} (heard : read store = .ok value) :
    ask read site store = .ok (value, []) store := by
  simp only [ask, act, Reporting.silent, heard]

theorem run_onTypes {action : Action Types α} {after : Types}
    (run : action store.types = .ok value after) :
    onTypes action site store = .ok (value, []) { store with types := after } := by
  simp only [onTypes, act, Reporting.silent, Action.zoom, run]

theorem run_settle {fuel : Nat} (known : store.symbols.get? id = some symbol)
    (settled : symbol.progress = .settled) :
    (Resolver.within (fuel + 1)).settle id site store = .ok ((), []) store := by
  change @settleRule (Resolver.within fuel) id site store = _
  unfold settleRule
  rw [bind_of_silent (run_symbolOf known), settled]
  rfl

theorem run_memberSymbol {entry : Member} (stored : store.types.members.get? member = some entry) :
    memberSymbol member site store = .ok (entry.symbol, []) store := by
  have fetched : store.types.member member = .ok entry := (Table.fetch_eq_ok_iff ..).mpr stored
  have asked : askTypes (fun types => types.member member) site store = .ok (entry, []) store :=
    run_ask fetched
  exact bind_of_silent asked

/-- The symbol that does the work for a candidate. -/
theorem run_memberTarget {heir : Heir} (inherits : store.Inherits member heir)
    (rooted : store.types.Rooted) (upholds : store.types.Upholds now) (site : Surroundings) :
    memberTarget member site { store with types := now } = .ok (heir.target, [])
    { store with types := now } := by
  obtain ⟨chain, _, _, _, _, leads, _⟩ := inherits
  obtain ⟨entry, stored⟩ := chain.exists_member
  obtain ⟨_, found⟩ := upholds.members member entry stored
  have still : ({ store with types := now } : Store).types.members.get? member = _ := found
  unfold memberTarget
  rw [bind_of_silent (run_memberSymbol still)]
  exact run_ask (chain.symbol_eq rooted stored ▸ leads)

/-- A candidate can be asked for its type at any later time. -/
theorem run_memberType {heir : Heir} (inherits : store.Inherits member heir)
    (trusted : Types.Trusted store.types store.symbols)
    (proceeds : Types.Proceeds store.symbols store.types now) (site : Surroundings) :
    ∃ type after, (∃ least, ∀ fuel, least ≤ fuel →
        @memberType (Resolver.within (fuel + 1)) member site { store with types := now } =
          .ok (type, []) { store with types := after }) ∧
      Types.Proceeds store.symbols now after ∧ after.Stores type ∧ after.term type = heir.term := by
  obtain @⟨owner, target, contexts, symbol, aim, chain, grounded, known, settled, forwards, leads,
    aims⟩ := inherits
  have upholds := proceeds.upholds
  have reliable := proceeds.reliable
  have chainNow := chain.keep upholds
  obtain ⟨type, after, ⟨least, runs⟩, further, stored, reads⟩ :=
    chainNow.memberType_reads reliable known (grounded.keep upholds)
  obtain ⟨entry, entryStored⟩ := chainNow.exists_member
  have owned := chainNow.symbol_eq reliable.rooted entryStored
  refine ⟨type, after, ⟨least, fun fuel enough => ?_⟩, further, stored, ?_⟩
  · have worked : onTypes (Types.memberType store.symbols fuel member) site
      { store with types := now } =
        .ok (type, []) { store with types := after } := run_onTypes (runs fuel enough)
    have asked : (do onTypes (Types.memberType (← get).symbols fuel member) : Resolve TypeId) site
        { store with types := now } = .ok (type, []) { store with types := after } :=
          (bind_of_silent run_get).trans worked
    have here : ({ store with types := now } : Store).types.members.get? member = some entry :=
      entryStored
    have settles {id : SymbolId} {symbol : Symbol} (known : store.symbols.get? id = some symbol)
        (settled : symbol.progress = .settled) :
        (Resolver.within (fuel + 1)).settle id site { store with types := now } =
          .ok ((), []) { store with types := now } := run_settle known settled
    have looks : symbolOf owner site { store with types := now } = .ok (symbol, [])
      { store with types := now } :=
      run_symbolOf known
    unfold memberType
    rw [bind_of_silent (run_memberSymbol here), owned, bind_of_silent (settles known settled),
      bind_of_silent looks]
    cases forwarded : symbol.forwardedTo with
    | none => exact asked
    | some other =>
      obtain ⟨next, found, isSettled⟩ := forwards other forwarded
      exact (bind_of_silent (settles found isSettled)).trans asked
  · rw [reads, grounded.foldl_eq upholds trusted.legible reliable.legible,
      upholds.extended.term trusted.legible reliable.legible (trusted.stores_typeOrError known)]

theorem run_inheritedMembers {members : List MemberId}
    (trusted : Types.Trusted store.types store.symbols)
    (inherits : ∀ member ∈ members, ∃ heir, store.Inherits member heir)
    (proceeds : Types.Proceeds store.symbols store.types now) (site : Surroundings) :
    ∃ found after, (∃ least, ∀ fuel, least ≤ fuel →
        members.mapM (@inheritedMember (Resolver.within (fuel + 1))) site
        { store with types := now } =
          .ok (found, []) { store with types := after }) ∧
      Types.Proceeds store.symbols now after ∧
      List.Forall₂ (fun member pair => ∃ heir, store.Inherits member heir ∧ heir.target = pair.1 ∧
        after.Stores pair.2 ∧ after.term pair.2 = heir.term) members found := by
  induction members generalizing now with
  | nil => exact ⟨[], now, ⟨0, fun _ _ => rfl⟩, .refl proceeds.reliable, .nil⟩
  | cons member rest ih =>
    have ⟨⟨heir, first⟩, others⟩ := List.forall_mem_cons.mp inherits
    obtain ⟨type, middle, ⟨least, runs⟩, further, stored, reads⟩ :=
      run_memberType first trusted proceeds site
    have onwards := proceeds.trans further
    obtain ⟨found, after, ⟨more, continues⟩, grown, each⟩ := ih others onwards
    refine ⟨(heir.target, type) :: found, after, ⟨max least more, fun fuel enough => ?_⟩,
      further.trans grown,
      .cons ⟨heir, first, rfl, grown.develops.extended.stores stored, ?_⟩ each⟩
    · have asked : @inheritedMember (Resolver.within (fuel + 1)) member site
        { store with types := now } =
          .ok ((heir.target, type), []) { store with types := middle } := by
        unfold inheritedMember
        rw [bind_of_silent (runs fuel (by omega)),
          bind_of_silent (run_memberTarget first trusted.rooted onwards.upholds site)]
        rfl
      rw [List.mapM_cons, bind_of_silent asked, bind_of_silent (continues fuel (by omega))]
      rfl
    · rw [grown.develops.extended.term further.reliable.legible grown.reliable.legible stored]
      exact reads

/-- What a merge looks at in the candidates is read off the symbols that do the work. -/
theorem run_candidates {members : List MemberId} {found : List (SymbolId × TypeId)} {after : Types}
    (each : List.Forall₂ (fun member pair => ∃ heir, store.Inherits member heir ∧
      heir.target = pair.1 ∧
      after.Stores pair.2 ∧ after.term pair.2 = heir.term) members found) (site : Surroundings) :
    ∃ candidates, (found.mapM fun entry => do
        let symbol ← symbolOf entry.1
        return (⟨entry.1, entry.2, symbol.flags, symbol.kind.isInstanceMember⟩ : Inherited) :
        Resolve (List Inherited))
          site { store with types := after } = .ok (candidates, []) { store with types := after } ∧
      List.Forall₂ (fun member candidate => store.Inherits member (candidate.heir after)) members
      candidates ∧
      ∀ candidate ∈ candidates, after.Stores candidate.type := by
  induction each with
  | nil => exact ⟨[], rfl, .nil, nofun⟩
  | @cons member pair members found first _ ih =>
    obtain ⟨target, type⟩ := pair
    obtain ⟨candidates, run, others, each⟩ := ih
    obtain ⟨heir, inherits, rfl, stored, reads⟩ := first
    obtain ⟨aim, aims, flags, needsInstance⟩ := inherits.exists_aim
    refine ⟨⟨heir.target, type, aim.flags, aim.kind.isInstanceMember⟩ :: candidates, ?_,
      .cons ?_ others,
      List.forall_mem_cons.mpr ⟨stored, each⟩⟩
    · have aimed : symbolOf heir.target site { store with types := after } =
          .ok (aim, []) { store with types := after } := run_symbolOf aims
      rw [List.mapM_cons]
      refine (bind_of_silent (bind_of_silent aimed)).trans ?_
      rw [bind_of_silent run]
      rfl
    · rw [Inherited.heir, flags, needsInstance, reads]
      exact inherits

theorem run_mapM {step : α → Resolve β} {items : List α}
    (each : ∀ item ∈ items, ∃ answer, step item site store = .ok (answer, []) store) :
    ∃ answers, items.mapM step site store = .ok (answers, []) store := by
  induction items with
  | nil => exact ⟨[], rfl⟩
  | cons item rest ih =>
    have ⟨⟨answer, first⟩, others⟩ := List.forall_mem_cons.mp each
    obtain ⟨answers, second⟩ := ih others
    refine ⟨answer :: answers, ?_⟩
    rw [List.mapM_cons, bind_of_silent first, bind_of_silent second]
    rfl

theorem run_report (diagnostic : Diagnostic) {asked : Bool → Bool} {fits} :
    emit diagnostic asked fits site store = .ok ((), [diagnostic]) store :=
  rfl

theorem run_applyMerge (legible : store.types.Legible) (known : store.symbols.get? id = some symbol)
    (targets : ∀ candidate ∈ candidates, ∃ aim, store.symbols.get? candidate.target = some aim)
    (texts : ∀ candidate ∈ candidates, ∃ text, store.types.text store.symbols candidate.type =
      .ok text) (merge : Merge)
    (site : Surroundings) :
    ∃ reports symbols after, applyMerge id candidates merge site store = .ok ((), reports)
    { store with symbols } ∧
      symbols.get? id = some after ∧
      (merge.verdict store.types).Carries symbol after reports store.types := by
  have changed (change : Symbol → Symbol) : (store.symbols.modify id change).get? id =
    some (change symbol) := by
    rw [Table.get?_modify_self, known, Option.map_some]
  have error : store.types.term .error = .leaf .error := legible.term_error
  unfold applyMerge
  rw [bind_of_silent (run_symbolOf known)]
  cases merge with
  | forwarded target type =>
    exact ⟨[], _, _, run_update known, changed _, rfl, rfl, ⟨type, rfl, rfl⟩, rfl, .inl rfl⟩
  | ambiguous =>
    exact ⟨[], _, _, run_update known, changed _, rfl, rfl, ⟨.error, rfl, error⟩, rfl, .inl rfl⟩
  | unmergeable =>
    have spans : ∃ spans, (candidates.mapM fun candidate =>
      do return (← symbolOf candidate.target).span :
        Resolve (List Span)) site store = .ok (spans, []) store := by
      refine run_mapM fun candidate listed => ?_
      obtain ⟨aim, aims⟩ := targets candidate listed
      exact ⟨aim.span, bind_of_silent (run_symbolOf aims)⟩
    obtain ⟨spans, run⟩ := spans
    dsimp only
    rw [bind_of_silent run, bind_of_ok (run_report _), run_update known]
    refine ⟨_, _, _, rfl, changed _, rfl, rfl, ⟨.error, rfl, error⟩, ?_, .inl rfl⟩
    rw [List.append_nil, List.map_singleton, Diagnostic.code_foldl_related]
    rfl
  | mismatched =>
    have texts : ∃ texts, (candidates.mapM fun candidate =>
      do return s!"`{← textOf candidate.type}`" :
        Resolve (List String)) site store = .ok (texts, []) store := by
      refine run_mapM fun candidate listed => ?_
      obtain ⟨text, written⟩ := texts candidate listed
      exact ⟨s!"`{text}`", bind_of_silent (run_ask written)⟩
    obtain ⟨texts, run⟩ := texts
    dsimp only
    rw [bind_of_silent run, bind_of_ok (run_report _), run_update known]
    exact ⟨_, _, _, rfl, changed _, rfl, rfl, ⟨.error, rfl, error⟩, rfl, .inl rfl⟩
  | function type isAbstract isPure agreesOnPurity =>
    dsimp only
    cases agreesOnPurity with
    | true =>
      refine ⟨[], _, _, run_update known, changed _, rfl, rfl, ⟨type, rfl, rfl⟩, rfl, .inl ?_⟩
      cases isAbstract <;> cases isPure <;> rfl
    | false =>
      refine ⟨_, _, _, (bind_of_ok (run_report _)).trans (by rw [run_update known]; rfl), changed _,
        rfl, rfl,
        ⟨type, rfl, rfl⟩, rfl, ?_⟩
      cases isPure with
      | true => exact .inr ⟨rfl, rfl⟩
      | false => exact .inl rfl

/-- Settling the name returns, and the verdict of the table is carried out. -/
theorem run_settleUnmerged (merges : store.Merges id symbol) (site : Surroundings) :
    ∃ verdict, Verdict.Fits (store.Heirs symbol.candidates) verdict ∧ ∃ least, ∀ fuel,
    least ≤ fuel →
      ∃ reports final after,
        @settleUnmerged (Resolver.within (fuel + 1)) id site store = .ok ((), reports) final ∧
        final.symbols.get? id = some after ∧ store.types.Develops final.types ∧
        verdict.Carries symbol after reports final.types := by
  have reliable : Types.Reliable store.types store.symbols :=
    ⟨merges.trusted, merges.founded.furnished, merges.mirrored⟩
  obtain ⟨found, after, ⟨least, runs⟩, proceeds, each⟩ :=
    run_inheritedMembers merges.trusted merges.inherits (.refl reliable) site
  obtain ⟨candidates, run, looked, stored⟩ := run_candidates each site
  have legible := proceeds.reliable.legible
  have heirs : Inherited.Among after candidates = store.Heirs symbol.candidates :=
    funext fun heir => propext (store.heirs_iff looked heir).symm
  have aims : ∀ candidate ∈ candidates, ∃ aim, store.symbols.get? candidate.target = some aim := by
    intro candidate listed
    obtain ⟨member, _, inherits⟩ := (store.heirs_iff looked _).mpr ⟨candidate, listed, rfl⟩
    obtain ⟨aim, found, _⟩ := inherits.exists_aim
    exact ⟨aim, found⟩
  have texts : ∀ candidate ∈ candidates, ∃ text, after.text store.symbols candidate.type =
    .ok text :=
    fun candidate listed => (proceeds.writes merges.writable).text_returns legible
      (stored candidate listed)
  cases candidates with
  | nil => exact absurd (List.forall₂_nil_right_iff.mp looked) merges.notEmpty
  | cons first rest =>
    refine ⟨(Merge.classify first rest).verdict after,
      heirs ▸ Merge.classify_fits legible first rest, least,
      fun fuel enough => ?_⟩
    obtain ⟨reports, symbols, later, applied, changed, carries⟩ :=
      @run_applyMerge _ { store with types := after } _ _ legible merges.known aims texts
        (Merge.classify first rest) site
    refine ⟨reports, { store with types := after, symbols }, later, ?_, changed, proceeds.develops,
      carries⟩
    unfold settleUnmerged
    rw [bind_of_silent (run_symbolOf merges.known), bind_of_silent (runs fuel enough),
      bind_of_silent run]
    exact applied

end Resolve

/-! ## Other orders -/

/-- The store where the candidates of a symbol are in another order. -/
def Store.reordered (store : Store) (id : SymbolId) (order : List MemberId) : Store :=
  { store with
    symbols := store.symbols.modify id fun symbol => { symbol with candidates := order } }

section Reordered

variable {store : Store} {id other : SymbolId} {symbol : Symbol} {order : List MemberId}

theorem Store.get?_reordered (known : store.symbols.get? other = some symbol) (id : SymbolId)
    (order : List MemberId) :
    ∃ candidates, (store.reordered id order).symbols.get? other = some { symbol with candidates } :=
  by
  change ∃ candidates, (store.symbols.modify id _).get? other = _
  rw [Table.get?_modify, known]
  split
  · exact ⟨order, rfl⟩
  · exact ⟨symbol.candidates, rfl⟩

theorem Store.exists_get?_of_reordered (known : (store.reordered id order).symbols.get? other =
    some symbol) :
    ∃ candidates, store.symbols.get? other = some { symbol with candidates } := by
  obtain ⟨before, found, ⟨_, rfl⟩ | ⟨_, rfl⟩⟩ := Table.get?_modify_cases known
  · exact ⟨before.candidates, found⟩
  · exact ⟨symbol.candidates, found⟩

theorem Store.target_reordered (store : Store) (id other : SymbolId) (order : List MemberId) :
    (store.reordered id order).symbols.target other = store.symbols.target other := by
  have sameLinks : (store.reordered id order).symbols.forwardingOf =
    store.symbols.forwardingOf := by
    funext here
    unfold Symbols.forwardingOf Table.fetch reordered
    by_cases same : here = id
    · simp only [Table.get?_modify, if_pos same]
      cases store.symbols.get? here with
      | none => rfl
      | some symbol => rfl
    · simp only [Table.get?_modify, if_neg same]
  unfold Symbols.target
  rw [sameLinks]
  change Chain.last _ ((store.symbols.modify id _).size + 1) other = _
  rw [Table.size_modify]

theorem Store.stand_reordered (store : Store) (id : SymbolId) (order : List MemberId) :
    Types.SymbolsStand store.symbols (store.reordered id order).symbols := by
  intro other symbol known settled
  obtain ⟨candidates, found⟩ := store.get?_reordered known id order
  exact ⟨_, found, settled, rfl⟩

theorem Store.trusted_reordered (trusted : Types.Trusted store.types store.symbols) (id : SymbolId)
    (order : List MemberId) :
    Types.Trusted (store.reordered id order).types (store.reordered id order).symbols where
  rooted := trusted.rooted
  legible := trusted.legible
  remembered := trusted.remembered.upheld (.refl _) (store.stand_reordered id order)
    fun _ member _ stored known =>
    ⟨member, stored, known⟩
  typed other symbol type known typed := by
    obtain ⟨candidates, found⟩ := store.exists_get?_of_reordered known
    exact trusted.typed other _ type found typed

/-- The order of the candidates does not matter to what a merge looks at. -/
theorem Store.Inherits.reorder {heir : Heir} (inherits : store.Inherits member heir) (id : SymbolId)
    (order : List MemberId) : (store.reordered id order).Inherits member heir := by
  obtain @⟨owner, target, contexts, symbol, aim, chain, grounded, known, settled, forwards, leads,
    aims⟩ := inherits
  obtain ⟨_, found⟩ := store.get?_reordered known id order
  obtain ⟨_, aimed⟩ := store.get?_reordered aims id order
  have forwardsStill : ∀ other, symbol.forwardedTo = some other →
      ∃ next, (store.reordered id order).symbols.get? other = some next ∧
        next.progress = .settled := by
    intro other forwarded
    obtain ⟨next, there, isSettled⟩ := forwards other forwarded
    obtain ⟨_, still⟩ := store.get?_reordered there id order
    exact ⟨_, still, isSettled⟩
  have leadsStill := (store.target_reordered id owner order).trans leads
  have still := @Inherits.mk (store.reordered id order) member owner target contexts _ _ chain
    grounded found settled
    forwardsStill leadsStill aimed
  exact still

theorem Store.Merges.reorder (merges : store.Merges id symbol)
    (reordered : order.Perm symbol.candidates) :
    (store.reordered id order).Merges id { symbol with candidates := order } where
  known := by
    change (store.symbols.modify id _).get? id = _
    rw [Table.get?_modify_self, merges.known]
    rfl
  notEmpty blank := merges.notEmpty (List.nil_perm.mp (blank ▸ reordered))
  trusted := store.trusted_reordered merges.trusted id order
  founded := merges.founded
  mirrored := merges.mirrored
  writable := ⟨merges.writable.signed, fun type entry declared stored named => by
    obtain ⟨known, found⟩ := merges.writable.named type entry declared stored named
    obtain ⟨_, still⟩ := store.get?_reordered found id order
    exact ⟨_, still⟩⟩
  inherits member listed := by
    obtain ⟨heir, inherits⟩ := merges.inherits member (reordered.mem_iff.mp listed)
    exact ⟨heir, inherits.reorder id order⟩

theorem Store.Merges.heirs_reordered (merges : store.Merges id symbol)
    (reordered : order.Perm symbol.candidates) :
    (store.reordered id order).Heirs order = store.Heirs symbol.candidates := by
  funext heir
  refine propext ⟨?_, ?_⟩
  · rintro ⟨member, listed, inherits⟩
    have given := reordered.mem_iff.mp listed
    obtain ⟨same, inheritsSame⟩ := merges.inherits member given
    obtain rfl := (inheritsSame.reorder id order).unique inherits
    exact ⟨member, given, inheritsSame⟩
  · rintro ⟨member, listed, inherits⟩
    exact ⟨member, reordered.mem_iff.mpr listed, inherits.reorder id order⟩

/-- Merging does not depend on the order of bases.  Where the symbols of the candidates are settled
and their types can be worked out one by one, one line of the table fits the candidates, and for
every order of them settling the name returns, given enough steps, after it has carried out what
this line says: the sort of the symbol, the symbol it stands for, its type, the code that is
reported and, unless the candidates disagree on purity, its flags are the same.  Types are compared
by what they read as; a type that was there before has one handle. -/
theorem merging_ignores_order {store : Store} {id : SymbolId} {symbol : Symbol}
    (merges : store.Merges id symbol) :
    ∃ verdict, Verdict.Fits (store.Heirs symbol.candidates) verdict ∧
      (∀ other, Verdict.Fits (store.Heirs symbol.candidates) other → other = verdict) ∧
      ∀ order, order.Perm symbol.candidates → ∀ surroundings, ∃ least, ∀ fuel, least ≤ fuel →
      ∃ reports final after,
        @Resolve.settleUnmerged (Resolver.within (fuel + 1)) id surroundings
        (store.reordered id order) =
          .ok ((), reports) final ∧
        final.symbols.get? id = some after ∧ verdict.Carries symbol after reports final.types ∧
        ∀ type, store.types.Stores type → store.types.term type = verdict.term →
        after.type = some type := by
  have inhabited : ∃ heir, store.Heirs symbol.candidates heir := by
    obtain ⟨member, listed⟩ := List.exists_mem_of_ne_nil _ merges.notEmpty
    obtain ⟨heir, inherits⟩ := merges.inherits member listed
    exact ⟨heir, member, listed, inherits⟩
  obtain ⟨verdict, fits, _⟩ := Resolve.run_settleUnmerged merges { maxDepth := 0, folds := true }
  refine ⟨verdict, fits, fun other also => also.unique inhabited fits,
    fun order reordered surroundings => ?_⟩
  obtain ⟨other, also, least, settles⟩ :=
    Resolve.run_settleUnmerged (merges.reorder reordered) surroundings
  rw [merges.heirs_reordered reordered] at also
  obtain rfl := also.unique inhabited fits
  refine ⟨least, fun fuel enough => ?_⟩
  obtain ⟨reports, final, after, run, known, develops, carries⟩ := settles fuel enough
  refine ⟨reports, final, after, run, known, { carries with },
    fun type stored reads => ?_⟩
  obtain ⟨here, typed, readsHere⟩ := carries.type
  rw [typed]
  refine congrArg some (develops.legible.term_injective ?_)
  rw [readsHere, ← reads]
  exact (develops.extended.term merges.trusted.legible develops.legible stored).symm

end Reordered

/-! ## One variable on two ways -/

/-- The variable of `inheritedCalls` is taken over into `Box<int>`, too. -/
def diamondCalls : List Types.Call :=
  Types.inheritedCalls ++ [.parameterize 3 ⟨12⟩ [.int],
    .createMember (.dependent ⟨4⟩ ⟨0⟩ (some ⟨17⟩))]

/-- The name under which the variable arrives twice. -/
def diamondName : Symbol :=
  { name := "f", kind := .unmerged, span := .dummy, progress := .active, candidates := [⟨2⟩, ⟨3⟩] }

def diamond : Store :=
  { Source.new with
    symbols := Types.inheritedSymbols.push diamondName, types := Types.afterCalls diamondCalls }

theorem trusted_diamond : Types.Trusted diamond.types diamond.symbols := by
  have boxed := Types.unfolds_inherited.call (.parameterize 3 ⟨12⟩ [.int]) trivial
    (by unfold Types.Call.Heeds; decide)
    trivial (Action.eq_ok_of_answer? rfl)
  have taken := boxed.call (.createMember (.dependent ⟨4⟩ ⟨0⟩ (some ⟨17⟩))) trivial trivial
    ⟨rfl, fun _ same => ⟨.own ⟨4⟩, by cases same; rfl, rfl⟩⟩ (Action.eq_ok_of_answer? rfl)
  have named : Types.SymbolsStand Types.inheritedSymbols diamond.symbols :=
    fun id symbol known settled =>
    ⟨symbol, Table.get?_push_of_stored diamondName known, settled, rfl⟩
  refine ((taken.declare named fun id symbol type known typed => ?_).trusted Types.trusted_new).1
  obtain ⟨_, rfl⟩ | ⟨_, older⟩ := Table.get?_push_cases known
  · cases typed
  · cases Types.type_inherited older typed
    decide

theorem mirrored_diamond : ∃ given, diamond.types.Mirrored (fun _ => False) given :=
  ⟨_, (Types.Orderly.new.run diamondCalls (by decide)).mirrored⟩

theorem founded_diamond : diamond.types.Founded := by
  -- The definitions stand in the order of their symbols.
  have declares : ∀ type entry, diamond.types.entries.get? type = some entry →
    entry.generic = none →
      ∀ symbol ∈ entry.symbol, type = ⟨symbol.index + 10⟩ := by
    decide
  have nameless : ∀ type entry, diamond.types.entries.get? type = some entry →
    entry.members.sorted = [] := by decide
  refine ⟨by decide, by decide, fun type entry stored _ named listed => ?_, ?_⟩
  · rw [nameless type entry stored] at listed
    cases listed
  · intro first second one other symbol stored also plain alsoPlain declared alsoDeclared
    rw [declares first one stored plain symbol declared,
      declares second other also alsoPlain symbol alsoDeclared]

/-- A function type over a type parameter, in an instance with another argument. -/
theorem inside_diamond {context parameter argument : TypeId}
    (applied : diamond.types.substitutionOf context = .ok ([parameter], [argument]))
    (plain : diamond.types.term parameter = .leaf parameter)
    (given : diamond.types.term argument = .leaf argument) :
    diamond.types.inside (.built .function [.leaf parameter, .leaf parameter]) context =
      .built .function [.leaf argument, .leaf argument] := by
  have whole : Term.replacement? (.built .function [.leaf parameter, .leaf parameter])
      [.leaf parameter] [.leaf argument] = none :=
    Term.replacement?_eq_none (by simp)
  have part : Term.replacement? (.leaf parameter) [.leaf parameter] [.leaf argument] =
      some (.leaf argument) := by
    simp [Term.replacement?, List.idxOf?_cons]
  simp [Types.inside, applied, plain, given, Term.replace_built whole,
    Term.replace_of_replacement? part]

theorem inherits_diamond (member : MemberId) (listed : member ∈ diamondName.candidates) :
    diamond.Inherits member ⟨⟨4⟩, .built .function [.leaf .int, .leaf .int], .none, true⟩ := by
  have own : diamond.types.members.get? ⟨0⟩ = some (.own ⟨4⟩) := rfl
  have known : diamond.symbols.get? ⟨4⟩ = some (Types.variableOf ⟨16⟩) := rfl
  obtain rfl | rfl : member = ⟨2⟩ ∨ member = ⟨3⟩ := by simpa [diamondName] using listed
  · have first : diamond.types.members.get? ⟨1⟩ = some (.dependent ⟨4⟩ ⟨0⟩ (some ⟨14⟩)) := rfl
    have second : diamond.types.members.get? ⟨2⟩ = some (.dependent ⟨4⟩ ⟨1⟩ (some ⟨15⟩)) := rfl
    have grounded : diamond.types.Grounded [⟨14⟩, ⟨15⟩] := by
      refine List.forall_mem_cons.mpr ⟨⟨[⟨10⟩], [⟨11⟩], rfl, by decide⟩,
        List.forall_mem_singleton.mpr ?_⟩
      exact ⟨[⟨11⟩], [.int], rfl, by decide⟩
    have reads : [⟨14⟩, ⟨15⟩].foldl diamond.types.inside (diamond.types.term ⟨16⟩) =
        .built .function [.leaf .int, .leaf .int] :=
      (congrArg (diamond.types.inside · ⟨15⟩)
        (@inside_diamond ⟨14⟩ ⟨10⟩ ⟨11⟩ rfl rfl rfl)).trans
        (@inside_diamond ⟨15⟩ ⟨11⟩ .int rfl rfl rfl)
    rw [← reads]
    exact .mk (.taken second rfl (.taken first rfl (.own own rfl))) grounded known rfl
      (by rintro _ ⟨⟩) rfl known
  · have taken : diamond.types.members.get? ⟨3⟩ = some (.dependent ⟨4⟩ ⟨0⟩ (some ⟨17⟩)) := rfl
    have grounded : diamond.types.Grounded [⟨17⟩] :=
      List.forall_mem_singleton.mpr ⟨[⟨10⟩], [.int], rfl, by decide⟩
    have reads : [⟨17⟩].foldl diamond.types.inside (diamond.types.term ⟨16⟩) =
        .built .function [.leaf .int, .leaf .int] :=
      @inside_diamond ⟨17⟩ ⟨10⟩ .int rfl rfl rfl
    rw [← reads]
    exact .mk (.taken taken rfl (.own own rfl)) grounded known rfl (by rintro _ ⟨⟩) rfl known

theorem merges_diamond : diamond.Merges ⟨5⟩ diamondName where
  known := rfl
  notEmpty := nofun
  trusted := trusted_diamond
  founded := founded_diamond
  mirrored := mirrored_diamond
  writable := by
    have known : ∀ type entry, diamond.types.entries.get? type = some entry →
        ∀ symbol ∈ entry.symbol, symbol.index < diamond.symbols.size := by
      decide
    exact ⟨by decide, fun type entry symbol stored declared =>
      Table.exists_get?_of_lt (known type entry stored symbol declared)⟩
  inherits member listed := ⟨_, inherits_diamond member listed⟩

/-- The variable has the type `fn(int) int` on both ways, so the name stands for it in both orders,
although this type gets another handle when `Derived<int>` is asked first. -/
theorem merging_ignores_order_diamond :
    diamond.Merges ⟨5⟩ diamondName ∧ ∀ order ∈ [[⟨2⟩, ⟨3⟩], [⟨3⟩, ⟨2⟩]], ∃ fuel final after,
      @Resolve.settleUnmerged (Resolver.within fuel) ⟨5⟩ { maxDepth := 0, folds := true }
      (diamond.reordered ⟨5⟩ order) =
        .ok ((), []) final ∧
      final.symbols.get? ⟨5⟩ = some after ∧ after.kind = .forwarded ∧ after.forwardedTo = some ⟨4⟩ ∧
      ∃ type, after.type = some type ∧ final.types.term type = .built .function
      [.leaf .int, .leaf .int] := by
  refine ⟨merges_diamond, fun order listed => ?_⟩
  obtain ⟨verdict, _, unique, settles⟩ := merging_ignores_order merges_diamond
  have fits : Verdict.Fits (diamond.Heirs diamondName.candidates)
      (.forwarded ⟨4⟩ (.built .function [.leaf .int, .leaf .int])) := by
    refine .forwarded fun heir ⟨member, given, inherits⟩ => ?_
    obtain rfl := (inherits_diamond member given).unique inherits
    exact ⟨rfl, rfl⟩
  obtain rfl := unique _ fits
  have permuted : order.Perm diamondName.candidates := by
    obtain rfl | rfl : order = [⟨2⟩, ⟨3⟩] ∨ order = [⟨3⟩, ⟨2⟩] := by simpa using listed
    · exact .refl _
    · exact .swap ..
  obtain ⟨least, enough⟩ := settles order permuted { maxDepth := 0, folds := true }
  obtain ⟨reports, final, after, run, known, carries, _⟩ := enough least (Nat.le_refl least)
  obtain rfl : reports = [] := List.map_eq_nil_iff.mp carries.codes
  exact ⟨least + 1, final, after, run, known, carries.kind, carries.forwardedTo, carries.type⟩

end Resolution
