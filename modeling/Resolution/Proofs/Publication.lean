import Resolution.Proofs.Cycles
import Resolution.Proofs.MemberChains

/-!
# Published results

What a settled symbol has published and what a member remembers is final.  Wherever a run is cut
off, and at its end, the settled symbols of every earlier point have the same sort, type, value,
target and candidates, and every remembered type is the one that would be worked out again from the
symbols and types of that point.
-/

namespace Resolution

/-- The run has come to a store: it returned there, or it was cut off there. -/
def Ending.Stops {α : Type} (ending : Ending α) (store : Store) : Prop :=
  (∃ answer, ending = .ok answer store) ∨ ending = .error .unmatchedExit store

section Stops

variable {α : Type} {ending cut whole : Ending α} {early late : Watch} {active : List SymbolId}
  {store before after : Store}

theorem Ending.Stops.final_eq (stops : ending.Stops after) : ending.final = after := by
  rcases stops with ⟨answer, rfl⟩ | rfl <;> rfl

theorem Ending.Stops.of_reporting {reports : List Diagnostic}
    (stops : (ending.reporting reports).Stops after) :
    ending.Stops after := by
  cases ending with
  | ok answer final =>
    rcases stops with ⟨_, same⟩ | same
    · cases same
      exact .inl ⟨answer, rfl⟩
    · cases same
  | error fault final => exact stops

/-- A fine run that has come to a store has kept it sound. -/
theorem Ending.Fine.lasts (fine : whole.Fine True late active store) (stops : whole.Stops after) :
    store.Lasts True after := by
  rcases stops with ⟨answer, rfl⟩ | rfl
  · exact fine.2.1
  · obtain ⟨_, _, _, _, _, lasts⟩ := fine.2 rfl
    exact lasts

/-- What a run leaves where it is cut off lasts until the run under the later watch comes to a
store. -/
theorem Agrees.lasts (agrees : Agrees True early late active store cut whole)
    (first : cut.Stops before)
    (second : whole.Stops after) : before.Lasts True after := by
  obtain ⟨fine, rfl | ⟨moment, _, _, rfl, leads⟩⟩ := agrees
  · obtain rfl := first.final_eq.symm.trans second.final_eq
    exact .refl (fine.lasts first).sound
  · obtain rfl : moment.store = before := first.final_eq
    rcases second with ⟨answer, rfl⟩ | rfl
    · exact leads.1
    · exact leads.2 rfl

end Stops

variable {fuel : Nat} {options : Options} {source : Source} {root : NodeId} {early late : Watch}
  {before after : Store}

/-- Everything is declared before the first moment, so what lasts is said of all points of a run. -/
theorem lasts_runUnder (less : ∀ moment, late moment = true → early moment = true)
    (first : (runUnder early fuel options source root).Stops before)
    (second : (runUnder late fuel options source root).Stops after) : before.Lasts True after := by
  let site : Surroundings := { maxDepth := options.maxDepth, folds := options.folds }
  let course : Resolver.Course early late := ⟨_, _, Resolver.watched_watched less fuel⟩
  unfold runUnder at first second
  rw [@Resolve.program_eq (Resolver.watched early fuel)] at first
  rw [@Resolve.program_eq (Resolver.watched late fuel)] at second
  have start : (Store.initial source).Ready True .scanning site := fun _ =>
    ⟨Store.sound_initial source, by rintro _ ⟨⟩⟩
  have declares := (Resolve.modest_declareProgram root).drafts.ends site (.initial source) start
    (List.forall_mem_nil _)
  have orderly : (Store.initial source).Orderly site.active := Store.orderly_initial source
  cases run : Resolve.declareProgram root site (.initial source) with
  | error fault final =>
    rw [run] at declares
    rw [Resolve.bind_of_error run] at first
    rcases first with ⟨_, same⟩ | same
    · cases same
    · cases same
      cases declares.2
  | ok answer declared =>
    obtain ⟨parts, reports⟩ := answer
    rw [run] at declares
    obtain ⟨keeps, sustains, _⟩ := declares
    obtain ⟨sound, houses⟩ := start.next keeps sustains trivial
    rw [Resolve.bind_of_ok run] at first second
    have watched : Resolve.Watched early late []
      (@Resolve.settleProgram course.cut options.requireEntryPoint root parts)
        (@Resolve.settleProgram course.whole options.requireEntryPoint root parts) := inferInstance
    have agrees : Agrees True early late site.active declared _ _ :=
      watched.agrees site declared (orderly.keeps keeps) (List.nil_subset _) fun _ =>
        ⟨sound.settling, houses⟩
    exact agrees.lasts first.of_reporting second.of_reporting

/-- Results are published once.  Between any two points of a run, what a settled symbol says stays,
and a type that a member remembers is the type that is worked out again from its symbol, through the
members and instances it was taken through, with nothing remembered. -/
theorem published_results_stand (less : ∀ moment, late moment = true → early moment = true)
    (first : (runUnder early fuel options source root).Stops before)
    (second : (runUnder late fuel options source root).Stops after) :
    (∀ id symbol, before.symbols.get? id = some symbol → symbol.progress = .settled →
      ∃ later, after.symbols.get? id = some later ∧ later.progress = .settled ∧
      later.kind = symbol.kind ∧
        later.type = symbol.type ∧ later.constant = symbol.constant ∧
        later.forwardedTo = symbol.forwardedTo ∧
        later.candidates = symbol.candidates) ∧
    ∀ id member type, before.types.members.get? id = some member → member.type = some type →
      (∃ later, after.types.members.get? id = some later ∧ later.type = some type) ∧
      ∃ least, ∀ steps, least ≤ steps →
        ∃ final, Types.memberType after.symbols steps id after.types.forgotten =
        .ok type final := by
  have lasts := lasts_runUnder less first second
  have sound := lasts.sound trivial
  refine ⟨fun id symbol known settled => ?_, fun id member type stored remembers => ?_⟩
  · obtain ⟨later, found, advances⟩ := lasts.symbol id symbol known
    have published := advances.published settled
    simp only [Symbol.published, Prod.mk.injEq] at published
    exact ⟨later, found, advances.isSettled settled, published⟩
  · obtain ⟨later, found, stays⟩ := (lasts.recalls trivial).members id member stored
    have knows := stays.type type remembers
    exact ⟨⟨later, found, knows⟩, Types.Computes.recomputed sound.rooted
      (sound.remembered id later type found knows)⟩

namespace Sample

/-- Function of the interface. -/
def area : SymbolId := ⟨47⟩

/-- Member for the function in the instance of the interface. -/
def inherited : MemberId := ⟨49⟩

/-- The watch for the moment when the generated constructor of the class is taken up. -/
def atConstructor : Watch := fun moment =>
  match moment.request with
  | .settle id => moment.isEntry && id == ⟨49⟩
  | _ => false

/-- The function is settled, and the member in the instance remembers its type. -/
def knows (store : Store) : Bool :=
  (store.symbols.get? area).any (fun symbol => symbol.progress == .settled) &&
    (store.types.members.get? inherited).any (fun member =>
      member.instanceType == some shape && member.type == some ⟨32⟩)

theorem cut_knows : (match runUnder atConstructor 60 {} program.1 program.2 with
      | .error .unmatchedExit store => knows store
      | _ => false) = true := by
  decide +kernel

end Sample

theorem published_results_of_sample : ∃ before after,
    (runUnder Sample.atConstructor 60 {} Sample.program.1 Sample.program.2).Stops before ∧
      (runUnder .never 60 {} Sample.program.1 Sample.program.2).Stops after ∧
      Sample.knows before = true ∧
      (∃ symbol, after.symbols.get? Sample.area = some symbol ∧ symbol.progress = .settled) ∧
      ∃ steps final, Types.memberType after.symbols steps Sample.inherited after.types.forgotten =
      .ok ⟨32⟩ final := by
  have cut := Sample.cut_knows
  split at cut
  case h_2 => cases cut
  rename_i before stopped
  obtain ⟨outcome, resolved, _⟩ := Sample.resolved
  obtain ⟨reports, run⟩ := resolve_eq_ok resolved
  have first : (runUnder Sample.atConstructor 60 {} Sample.program.1 Sample.program.2).Stops
    before := .inr stopped
  have second : (runUnder .never 60 {} Sample.program.1 Sample.program.2).Stops outcome.toStore :=
    .inl ⟨_, run⟩
  obtain ⟨symbols, members⟩ := published_results_stand (Watch.never_less _) first second
  refine ⟨before, outcome.toStore, first, second, cut, ?_⟩
  simp only [Sample.knows, Bool.and_eq_true, Option.any_eq_true, beq_iff_eq] at cut
  obtain ⟨⟨symbol, known, settled⟩, member, stored, _, remembers⟩ := cut
  obtain ⟨later, found, stillSettled, _⟩ := symbols Sample.area symbol known settled
  obtain ⟨_, least, again⟩ := members Sample.inherited member _ stored remembers
  exact ⟨⟨later, found, stillSettled⟩, least, again least (Nat.le_refl least)⟩

end Resolution
