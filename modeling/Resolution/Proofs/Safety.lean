import Resolution.Proofs.Manner
import Resolution.Proofs.Settling

/-!
# Safe steps

Almost every rule of the resolution keeps symbols, types and scopes consistent, and leaves complete
and active definitions alone, whatever it is run on and whatever it reports.  Such a step is safe.
Safe steps compose, so a rule is safe because its parts are; only the rules that set up the type of
a symbol need arguments of their own.
-/

namespace Resolution
namespace Resolve

variable {α β : Type} {inside : Prop} {busy : List SymbolId} {step : Resolve α}
  {arguments : List TypeId} {fuel : Nat}
  {next : α → Resolve β} {id : SymbolId} {type : TypeId}
  {site : Surroundings} {store : Store} {items : List α} {name : String} {span : Span}
  {generic : TypeId}

/-- The step keeps the store consistent and follows it.  With `inside`, the current scope keeps its
names itself; the symbols of `busy` are being settled. -/
class Safe (inside : Prop) (busy : List SymbolId) (step : Resolve α) : Prop where
  keeps : ∀ site store, store.Consistent site.active → (inside → store.Plain site.scope) →
    busy ⊆ site.active →
    Returns step site store fun _ after =>
      after.Consistent site.active ∧ store.Follows site.active after

theorem Safe.returns (safe : Safe False [] step) {store : Store}
    (consistent : store.Consistent site.active) :
    Returns step site store fun _ after => store.Evolves site.active after :=
  safe.keeps site store consistent False.elim (List.nil_subset _)

instance (priority := low) safe_of_looks {step : Resolve α} [looks : Looks step] :
    Safe inside busy step :=
  ⟨fun _ _ consistent _ _ => looks.ensures fun _ => ⟨consistent, .refl _ _⟩⟩

instance {diagnostic : Diagnostic} {asked : Bool → Bool} {fits} :
    Safe inside busy (emit diagnostic asked fits) :=
  ⟨fun _ _ consistent _ _ => runs_report.mpr fun _ => ⟨consistent, .refl _ _⟩⟩

theorem safe_bind (first : Safe inside busy step)
    (rest : ∀ value, Safe inside busy (next value)) : Safe inside busy (step >>= next) := by
  refine ⟨fun site store consistent isPlain isBusy => ?_⟩
  refine (first.keeps site store consistent isPlain isBusy).bind ?_
  rintro value middle ⟨kept, follows⟩
  refine ((rest value).keeps site middle kept (fun holds => follows.plain (isPlain holds))
    isBusy).weaken ?_
  rintro answer final ⟨keptFinal, further⟩
  exact ⟨keptFinal, follows.trans further⟩

theorem Safe.after [first : Safe inside busy step]
    (rest : ∀ value, Safe inside busy (next value)) : Safe inside busy (step >>= next) :=
  safe_bind first rest

instance [first : Safe inside busy step]
    [rest : ∀ value, Safe inside busy (next value)] : Safe inside busy (step >>= next) :=
  safe_bind first rest

instance {condition : Prop} [Decidable condition] {yes no : Resolve α}
    [first : Safe inside busy yes]
    [second : Safe inside busy no] : Safe inside busy (if condition then yes else no) := by
  split
  · exact first
  · exact second

instance {step : α → Resolve PUnit} [each : ∀ item, Safe inside busy (step item)] :
    Safe inside busy (items.forM step) := by
  induction items with
  | nil => exact @safe_of_looks _ _ _ _ (looks_pure _)
  | cons item rest ih => exact safe_bind (each item) fun _ => ih

instance {step : α → Resolve β} [each : ∀ item, Safe inside busy (step item)] :
    Safe inside busy (items.mapM step) := by
  induction items with
  | nil => exact @safe_of_looks _ _ _ _ (looks_pure _)
  | cons item rest ih =>
    rw [List.mapM_cons]
    infer_instance

/-- Another context only matters to steps that declare locals, and only if its scope is another one.
-/
theorem safe_withContext {inner : Prop} {change : Context → Context}
    (scope : inner → inside ∧ ∀ context, (change context).scope = context.scope)
    (safe : Safe inner busy step) : Safe inside busy (withContext change step) := by
  refine ⟨fun site store consistent isPlain isBusy => ?_⟩
  refine safe.keeps { site with toContext := change site.toContext } store consistent (fun holds =>
    ?_) isBusy
  rw [(scope holds).2]
  exact isPlain (scope holds).1

theorem safe_deeper {refused : Resolve α} (first : Safe inside busy refused)
    (second : Safe inside busy step) :
    Safe inside busy (deeper refused step) := by
  refine ⟨fun site store consistent isPlain isBusy => ?_⟩
  unfold Returns Runs deeper
  dsimp only
  split
  · exact second.keeps { site with depth := site.depth + 1 } store consistent isPlain isBusy
  · exact first.keeps site store consistent isPlain isBusy

instance {scope : ScopeId} [safe : Safe False busy step] : Safe inside busy (inScope scope step) :=
  safe_withContext False.elim safe

/-! ## Changes of the store -/

instance {action : Action Tree α} : Safe inside busy (onTree action) :=
  ⟨fun _ _ consistent _ _ => ensures_onTree.mpr fun _ _ _ => consistent.elsewhere rfl rfl rfl⟩

instance {action : Action Source α} : Safe inside busy (onSource action) :=
  ⟨fun _ _ consistent _ _ => ensures_onSource.mpr fun _ _ _ => consistent.elsewhere rfl rfl rfl⟩

instance (id : NodeId) (type : TypeId) : Safe inside busy (setType id type) := by
  unfold setType
  infer_instance

instance (id : NodeId) (symbol : Option SymbolId) : Safe inside busy (setSymbol id symbol) := by
  unfold setSymbol
  infer_instance

instance (kind : NodeKind) (span : Span) : Safe inside busy (alloc kind span) := by
  unfold alloc
  infer_instance

instance (id : NodeId) : Safe inside busy (fold id) := by
  unfold fold
  infer_instance

theorem safe_modify {change : Store → Store} (types : ∀ store, (change store).types = store.types)
    (symbols : ∀ store, (change store).symbols = store.symbols)
    (scopes : ∀ store, (change store).scopes = store.scopes) :
    Safe inside busy (modify change : Resolve PUnit) := by
  refine ⟨fun site store consistent _ _ => ?_⟩
  exact ensures_modify.mpr (consistent.elsewhere (types store) (symbols store) (scopes store))

theorem safe_createSymbol {kind : SymbolKind} (untyped : kind.typeKind? = none) :
    Safe inside busy (onSymbols (Symbols.create name kind span)) := by
  refine ⟨fun site store consistent _ _ => ?_⟩
  exact ensures_onSymbols.mpr (Table.ensures_create.mpr (consistent.push_symbol rfl untyped rfl))

/-- A symbol may learn anything but its sort, progress, type and scope. -/
theorem safe_updateSymbol {change : Symbol → Symbol}
    (progress : ∀ symbol, (change symbol).progress = symbol.progress)
    (kind : ∀ symbol, (change symbol).kind = symbol.kind) (type : ∀ symbol, (change symbol).type =
      symbol.type)
    (ownScope : ∀ symbol, (change symbol).ownScope = symbol.ownScope) :
    Safe inside busy (updateSymbol id change) := by
  refine ⟨fun site store consistent _ _ => ?_⟩
  refine ensures_onSymbols.mpr (Table.ensures_update.mpr fun _ =>
    consistent.update_symbol fun symbol _ => ?_)
  exact ⟨progress symbol, .inl (kind symbol), fun _ _ => type symbol, .inl (ownScope symbol)⟩

section Details

variable {id : SymbolId}

instance {change : Symbol → Symbol} [detail : Symbol.Detail change] :
    Safe inside busy (updateSymbol id change) := by
  refine safe_updateSymbol detail.progress (fun symbol => ?_) (fun symbol => ?_) detail.ownScope
  · exact congrArg (·.1) (detail.published symbol)
  · exact congrArg (·.2.1) (detail.published symbol)

instance {constant : Option Constant} :
    Safe inside busy (updateSymbol id fun entry => { entry with constant }) :=
  safe_updateSymbol (fun _ => rfl) (fun _ => rfl) (fun _ => rfl) (fun _ => rfl)

section Placing

variable {scope : Option ScopeId} {enclosing : Option SymbolId}

instance {candidates : List MemberId} :
    Safe inside busy (updateSymbol id fun entry => { entry with enclosing, scope, candidates }) :=
  safe_updateSymbol (fun _ => rfl) (fun _ => rfl) (fun _ => rfl) (fun _ => rfl)

instance {node : Option NodeId} :
    Safe inside busy (updateSymbol id fun entry => { entry with node, scope, enclosing }) :=
  safe_updateSymbol (fun _ => rfl) (fun _ => rfl) (fun _ => rfl) (fun _ => rfl)

end Placing

instance {cyclic : Store → List SymbolId} :
    Safe inside busy (modify fun store => { store with cyclic := cyclic store } : Resolve PUnit) :=
  safe_modify (fun _ => rfl) (fun _ => rfl) (fun _ => rfl)

instance {entryPoint : Option SymbolId} :
    Safe inside busy (modify fun store => { store with entryPoint } : Resolve PUnit) :=
  safe_modify (fun _ => rfl) (fun _ => rfl) (fun _ => rfl)

end Details

instance {kind : ScopeKind} {parent : Option ScopeId} {symbol : Option SymbolId} :
    Safe inside busy (onScopes (Scopes.create kind parent symbol)) := by
  refine ⟨fun site store consistent _ _ => ?_⟩
  refine ensures_onScopes.mpr (Table.ensures_create.mpr
    (consistent.onScopes fun scope opened stored => ?_))
  exact ⟨opened, Table.get?_push_of_stored _ stored, rfl⟩

instance : Safe inside busy (onSymbols (Symbols.create name .unmerged span)) :=
  safe_createSymbol rfl

theorem safe_setSymbolType (isBusy : id ∈ busy) : Safe inside busy (setSymbolType id type) := by
  refine ⟨fun site store consistent _ listed => ?_⟩
  refine ensures_onSymbols.mpr (Table.ensures_update.mpr fun _ =>
    consistent.update_symbol fun symbol stored => ?_)
  refine ⟨rfl, .refl _, fun untouched _ => ?_, .inl rfl⟩
  rw [(consistent.started id symbol stored).mpr (listed isBusy)] at untouched
  cases untouched

instance safe_setOwnType : Safe inside [id] (setSymbolType id type) :=
  safe_setSymbolType List.mem_cons_self

instance {member : Member} : Safe inside busy (onTypes (Types.createMember member)) := by
  refine ⟨fun site store consistent _ _ => ?_⟩
  exact ensures_onTypes.mpr (Types.ensures_createMember.mpr (consistent.push_member member))

theorem returns_mirroring {α : Type} {action : Action Types α}
    (consistent : store.Consistent site.active)
    (keeps : ∀ given, store.types.Mirrored (fun _ => False) given →
      action.Ensures store.types fun _ after =>
      after.Mirrored (fun _ => False) given ∧ store.types.Steady (fun _ => False) after) :
    Returns (onTypes action) site store fun _ after => store.Evolves site.active after := by
  obtain ⟨given, mirrored⟩ := consistent.inherits.mirrored
  refine ensures_onTypes.mpr ((keeps given mirrored).weaken ?_)
  rintro _ types ⟨kept, steady⟩
  exact consistent.steady ⟨given, kept⟩ steady

instance {result : TypeId} : Safe inside busy (onTypes (Types.functionType result arguments)) :=
  ⟨fun _ _ consistent _ _ => returns_mirroring consistent fun _ mirrored =>
    (Types.ensures_functionType_mirrors mirrored).weaken fun _ _ ⟨kept, sprouts, _⟩ =>
      ⟨kept, .of_sprouts sprouts⟩⟩

instance {parameters : List TypeId} :
    Safe inside busy (onTypes (Types.substitute fuel type parameters arguments)) :=
  ⟨fun _ _ consistent _ _ => returns_mirroring consistent fun _ mirrored =>
    (Types.substitute_replaces fuel _ _ _ _ _ _ mirrored).weaken fun _ _ ⟨kept, sprouts, _⟩ =>
      ⟨kept, .of_sprouts sprouts⟩⟩

instance {symbols : Symbols} {member : MemberId} :
    Safe inside busy (onTypes (Types.memberType symbols fuel member)) :=
  ⟨fun _ _ consistent _ _ => returns_mirroring consistent fun _ =>
    Types.ensures_memberType_mirrors symbols fuel member⟩

theorem returns_parameterize (consistent : store.Consistent site.active)
    (applicable : arguments = [] ∨ store.types.IsDefinition generic) :
    Returns (onTypes (Types.parameterize fuel generic arguments)) site store fun _ after =>
      store.Evolves site.active after := by
  rcases applicable with rfl | isDefinition
  · exact ensures_onTypes.mpr (.pure ⟨consistent, .refl _ _⟩)
  · refine returns_mirroring consistent fun given mirrored => ?_
    refine (Types.ensures_parameterizeVia_mirrors (Types.moves_substitute_mirrors fuel) mirrored
      isDefinition).weaken ?_
    rintro type types ⟨kept, sprouts, _⟩
    exact ⟨kept, .of_sprouts sprouts⟩

theorem safe_parameterizeBuiltin
    (builtin : generic.index < 10) :
    Safe inside busy (onTypes (Types.parameterize fuel generic arguments)) := by
  refine ⟨fun site store consistent _ _ => ?_⟩
  refine returns_parameterize consistent (.inr ?_)
  obtain ⟨given, mirrored⟩ := consistent.inherits.mirrored
  obtain ⟨entry, stored, _, unapplied⟩ := mirrored.consed.builtin generic.index builtin
  intro same again
  obtain rfl : entry = same := Option.some.inj (stored.symm.trans again)
  have := mirrored.applied generic entry stored
  simpa [unapplied] using this

instance : Safe inside busy (onTypes (Types.parameterize fuel .list arguments)) :=
  safe_parameterizeBuiltin (by decide)

instance : Safe inside busy (onTypes (Types.parameterize fuel .map arguments)) :=
  safe_parameterizeBuiltin (by decide)

end Resolve
end Resolution
