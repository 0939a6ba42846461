import Resolution.Proofs.RuledDeclarations
import Resolution.Proofs.SafeDeclarations

/-!
# Rules are safe

A rule is safe because the steps that it is made of are, whatever it is run on and whatever is
expected of it.  Bodies are resolved in scopes of their own, where locals join; a variable, a
function, an alias or an enum value gets its type while it is active.  The only rule with an
argument of its own is the one for type arguments: it instantiates definitions, and applies what is
an instance already to nothing.
-/

namespace Resolution

open Resolve in
/-- What a rule may rely on: expressions are safe, statements are safe inside of bodies, and a
symbol that was settled is settled, unless the innermost active symbol was found on a cycle. -/
class Resolver.Careful [Resolver] : Prop where
  expression : ∀ id context inside busy, Safe inside busy (Resolver.expression id context)
  statement : ∀ id busy, Safe True busy (Resolver.statement id)
  settle : ∀ id (site : Surroundings) (store : Store), store.Consistent site.active →
    Returns (Resolver.settle id) site store fun _ after =>
      after.Consistent site.active ∧ store.Follows site.active after ∧
        (after.Settled id ∨ ∃ inner, site.active.head? = some inner ∧ inner ∈ after.cyclic)

namespace Resolve

section Looking

variable {α β : Type} {quiet : Prop} {site : Surroundings} {store : Store} {step : Resolve α}

/-- A step gives an answer and leaves the store as it is. -/
def Sees (step : Resolve α) (site : Surroundings) (store : Store) (answer : α) : Prop :=
  ∃ reports, step site store = .ok (answer, reports) store

theorem Sees.unique {answer other : α} (one : Sees step site store answer)
    (two : Sees step site store other) : answer = other := by
  obtain ⟨_, first⟩ := one
  obtain ⟨_, second⟩ := two
  cases first.symm.trans second
  rfl

theorem Looks.sees {next : α → Resolve β} {post : β → Store → Prop} (looks : Looks step)
    (rest : ∀ answer, Sees step site store answer → Runs quiet (next answer) site store post) :
    Runs quiet (step >>= next) site store post := by
  refine ensures_bind.mpr fun answer reports final run _ => ?_
  obtain rfl := looks.unchanged site store answer reports final run False.elim
  exact rest answer ⟨reports, run⟩

end Looking

theorem returns_genericArity {site : Surroundings} {store : Store} {target : NodeId}
    {generic : TypeId} :
    Returns (genericArity target generic) site store fun arity after =>
      after = store ∧ (Sees (isTypeReference target) site store true →
        ∀ entry, store.types.entries.get? generic = some entry → entry.isInstance = true →
        arity.1 = 0) := by
  unfold genericArity
  refine (looks_isTypeReference target).sees fun namesType seen => ?_
  cases namesType with
  | true =>
    refine ensures_bind.mpr (ensures_askTypes.mpr fun entry fetched => ?_)
    refine (looks_textOf generic).bind fun name => .pure ⟨rfl, fun _ known stored isInstance => ?_⟩
    rw [Types.entry_eq_ok_iff.mp fetched] at stored
    cases stored
    rw [if_pos isInstance]
  | false =>
    have other : ∀ arity : Nat × String, Sees (isTypeReference target) site store true →
        ∀ entry, store.types.entries.get? generic = some entry → entry.isInstance = true →
          arity.1 = 0 := by
      intro arity names
      cases seen.unique names
    refine (looks_node target).bind fun node => ?_
    split
    · exact (looks_symbolOf _).bind fun entry => .pure ⟨rfl, other _⟩
    · exact .pure ⟨rfl, other _⟩

section Steps

variable {inside : Prop} {busy : List SymbolId} {site : Surroundings} {store : Store} {α : Type}

theorem returns_openBlockScope {store : Store} (consistent : store.Consistent site.active) :
    Returns openBlockScope site store fun scope after => store.Evolves site.active after ∧
    after.Plain scope := by
  unfold openBlockScope
  exact looks_read.bind fun context => returns_createScope consistent

theorem returns_inScope {scope : ScopeId} {step : Resolve α}
    (safe : Safe True busy step) (consistent : store.Consistent site.active)
    (isPlain : store.Plain scope)
    (isBusy : busy ⊆ site.active) : Returns (inScope scope step) site store fun _ after =>
      store.Evolves site.active after :=
  ensures_inScope.mpr (safe.keeps { site with scope } store consistent (fun _ => isPlain) isBusy)

theorem safe_of_basic {step : Resolve α} (isBasic : Basic step) : Safe inside busy step := by
  cases isBasic <;> infer_instance

instance (symbol : SymbolId) (name : String) (candidates : List MemberId) :
    Safe inside busy (inheritedEntry symbol name candidates) := by
  unfold inheritedEntry
  split <;> infer_instance

instance (path : String) (id : SymbolId) : Safe inside busy (reportCyclic path id) := by
  unfold reportCyclic
  infer_instance

end Steps

section Requests

variable [Resolver] [careful : Resolver.Careful] {inside : Prop} {busy : List SymbolId}

instance {id : NodeId} : Safe True busy (Resolver.statement id) := careful.statement id busy

instance {id : SymbolId} : Safe inside busy (Resolver.settle id) := by
  refine ⟨fun site store consistent _ _ => (careful.settle id site store consistent).weaken ?_⟩
  rintro _ after ⟨kept, follows, _⟩
  exact ⟨kept, follows⟩

theorem safe_block (id : NodeId) : Safe inside busy (block id) := by
  refine ⟨fun site store consistent _ isBusy => (returns_openBlockScope consistent).bind ?_⟩
  rintro scope opened ⟨⟨keptOpened, one⟩, isPlain⟩
  refine (looks_blockStatements id).bind fun statements => ?_
  refine (returns_inScope inferInstance keptOpened isPlain isBusy).bind ?_
  rintro _ resolved ⟨keptResolved, two⟩
  refine (Safe.returns inferInstance keptResolved).weaken ?_
  rintro _ after ⟨keptAfter, three⟩
  exact ⟨keptAfter, (one.trans two).trans three⟩

end Requests

end Resolve

/-- Rules are safe.  A stance says whether the current scope keeps its names itself, and which
symbols are being settled. -/
abbrev Manner.safely [resolver : Resolver] [careful : Resolver.Careful] :
    Manner (Prop × List SymbolId) where
  cut := resolver
  whole := resolver
  holds here step _ := Resolve.Safe here.1 here.2 step
  kept _ _ := True
  lifted _ _ _ := True
  owned here id := id ∈ here.2
  keep here _ := here
  inner here := (True, here.2)
  outer here := (False, here.2)
  keep_inner _ _ := rfl
  kept_keep _ := trivial
  kept_inner _ := trivial
  kept_outer _ := trivial
  kept_of_lifted _ _ _ := trivial
  lifted_perm _ _ := trivial
  owned_keep owned := owned
  fuel := Resolver.fuel_self
  expression here id context _ := careful.expression id context here.1 here.2
  statement here id _ := careful.statement id here.2
  settle _ _ := inferInstance
  looks _ _ := Resolve.safe_of_looks
  basic _ := Resolve.safe_of_basic
  wrap _ _ _ _ _ := inferInstance
  assigns _ owned := Resolve.safe_setSymbolType owned
  fixes _ _ := by
    unfold Resolve.setConstant
    infer_instance
  blocks _ id _ := Resolve.safe_block id
  enter holds := by
    refine ⟨fun site store consistent _ isBusy =>
      (Resolve.returns_openBlockScope consistent).bind ?_⟩
    rintro scope opened ⟨⟨keptOpened, one⟩, isPlain⟩
    refine (Resolve.returns_inScope holds keptOpened isPlain isBusy).weaken ?_
    rintro _ after ⟨keptAfter, two⟩
    exact ⟨keptAfter, one.trans two⟩
  inserts _ symbol := Resolve.safe_insertLocal symbol
  bind first rest := Resolve.safe_bind first rest
  surrounded _ scope holds := Resolve.safe_withContext (fun inside => ⟨inside, scope⟩) holds
  elsewhere _ holds := Resolve.safe_withContext False.elim holds
  contexts _ _ holds := Resolve.safe_bind inferInstance fun _ =>
    Resolve.safe_withContext False.elim holds
  nested first second := Resolve.safe_deeper first second
  offers _ rest := Resolve.safe_bind inferInstance rest
  declares rest := Resolve.safe_bind inferInstance rest
  decorates rest := Resolve.safe_bind inferInstance rest
  pairs _ rest := Resolve.safe_bind inferInstance rest

namespace Resolve

-- Long rules are instances of many parts.
set_option synthInstance.maxSize 2000

variable [Resolver] [careful : Resolver.Careful] {inside : Prop} {busy : List SymbolId}

instance : Manner.Free Manner.safely where
  kept _ _ := trivial
  lifted _ _ _ := trivial
  onTree _ _ _ := inferInstance

instance {id : SymbolId} : Manner.safely.Owns (inside, [id]) id := ⟨List.mem_cons_self⟩

/-- What holds of rules in every manner is safe. -/
instance (priority := low) safe_of_manner {α : Type} {step : Resolve α}
    [holds : Manner.safely.Holds (inside, busy) step step] : Safe inside busy step :=
  holds.holds

/-! ## Type arguments -/

theorem safe_typeApplication (id target : NodeId) (arguments : List NodeId) :
    Safe inside busy (typeApplication id target arguments) := by
  unfold typeApplication
  refine .after fun generic => .after fun found => ?_
  refine .after fun node => .after fun _ => ?_
  split
  · infer_instance
  refine ⟨fun site store consistent isPlain isBusy => ?_⟩
  refine returns_genericArity.bind ?_
  rintro ⟨expected, name⟩ _ ⟨rfl, fits⟩
  dsimp only at fits ⊢
  split
  · exact Safe.keeps site _ consistent isPlain isBusy
  rename_i counted
  unfold applyGeneric
  refine (looks_isTypeReference target).sees fun namesType seen => ?_
  cases namesType with
  | false =>
    refine (looks_node target).bind fun node => ?_
    dsimp only
    split
    · exact (looks_parameterTypes _).bind fun _ => Safe.keeps site _ consistent isPlain isBusy
    · exact (looks_pure []).bind fun _ => Safe.keeps site _ consistent isPlain isBusy
  | true =>
    refine returns_parameterize consistent ?_
    by_cases isEmpty : found = []
    · exact .inl isEmpty
    refine .inr fun entry stored => ?_
    obtain ⟨given, mirrored⟩ := consistent.inherits.mirrored
    cases applied : entry.arguments with
    | none =>
      have := mirrored.applied generic entry stored
      simpa [applied] using this
    | some arguments =>
      have none := fits seen entry stored (by rw [TypeEntry.isInstance, applied]; rfl)
      rw [ne_eq, not_not, none] at counted
      exact absurd (List.length_eq_zero_iff.mp counted.symm) isEmpty

theorem safe_expressionRule (id : NodeId) (context : Option TypeId) :
    Safe inside busy (expressionRule id context) := by
  have rule : Manner.safely.Admits (inside, busy) fun _ => expressionRule id context :=
    Manner.holds_expressionRule fun target arguments => ⟨safe_typeApplication id target arguments⟩
  exact rule.holds

theorem safe_statementRule (id : NodeId) : Safe True busy (statementRule id) :=
  (@Manner.holds_statementRule _ Manner.safely (True, busy) id inferInstance).holds

end Resolve
end Resolution
