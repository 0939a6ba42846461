import Resolution.Symbol.Basic
import Resolution.Session
import Resolution.Proofs.Returning

/-!
# How symbols advance

A symbol is untouched, then active, then settled, and what was published about it when it was
settled stands.  `Store.Advances` says what any step may do to the symbols of a store, whether it
returns or faults.  Most steps do less: they leave the progress of every symbol alone and write to
symbols of their own only.
-/

namespace Resolution

variable {before after middle : Symbol}

/-- Position of a progress in the order in which a symbol goes through them. -/
def Progress.stage : Progress → Nat
  | .untouched => 0
  | .active => 1
  | .settled => 2

theorem Progress.eq_settled_of_le {progress : Progress}
    (late : Progress.settled.stage ≤ progress.stage) :
    progress = .settled := by
  cases progress
  · cases late
  · exact absurd late (by decide)
  · rfl

/-- What others rely on once a symbol is settled. -/
def Symbol.published (symbol : Symbol) :
    SymbolKind × Option TypeId × Option Constant × Option SymbolId × List MemberId :=
  (symbol.kind, symbol.type, symbol.constant, symbol.forwardedTo, symbol.candidates)

/-- A change of symbols that leaves their progress, name and place as they are. -/
def Symbol.InPlace (change : Symbol → Symbol) : Prop :=
  ∀ symbol, (change symbol).progress = symbol.progress ∧ (change symbol).name = symbol.name ∧
    (change symbol).span = symbol.span

/-- A run first declares everything and then settles it. -/
inductive Phase where
  | scanning
  | settling
  deriving DecidableEq

/-- A symbol keeps its name and place, makes progress, and what it has published stands. -/
structure Symbol.Advances (before after : Symbol) : Prop where
  name : after.name = before.name
  span : after.span = before.span
  stage : before.progress.stage ≤ after.progress.stage
  published : before.progress = .settled → after.published = before.published

theorem Symbol.Advances.refl (symbol : Symbol) : symbol.Advances symbol :=
  ⟨rfl, rfl, Nat.le_refl _, fun _ => rfl⟩

theorem Symbol.Advances.isSettled (advances : before.Advances after)
    (settled : before.progress = .settled) : after.progress = .settled :=
  Progress.eq_settled_of_le (settled ▸ advances.stage)

theorem Symbol.Advances.trans (one : before.Advances middle) (two : middle.Advances after) :
    before.Advances after where
  name := two.name.trans one.name
  span := two.span.trans one.span
  stage := Nat.le_trans one.stage two.stage
  published settled := (two.published (one.isSettled settled)).trans (one.published settled)

/-- A symbol keeps its progress as well, and once everything is declared it does not become an
object. -/
structure Symbol.Keeps (phase : Phase) (before after : Symbol) :
    Prop extends before.Advances after where
  progress : after.progress = before.progress
  sort : phase = .settling → before.kind.isObject = false → after.kind.isObject = false

theorem Symbol.Keeps.refl (phase : Phase) (symbol : Symbol) : symbol.Keeps phase symbol :=
  ⟨.refl symbol, rfl, fun _ noObject => noObject⟩

theorem Symbol.Keeps.trans {phase : Phase} (one : before.Keeps phase middle)
    (two : middle.Keeps phase after) : before.Keeps phase after where
  toAdvances := one.toAdvances.trans two.toAdvances
  progress := two.progress.trans one.progress
  sort settling noObject := two.sort settling (one.sort settling noObject)

namespace Store

variable {phase : Phase} {before middle after store : Store} {id : SymbolId}

/-- The symbol is active, or it is settled with the error type. -/
def Marked (store : Store) (id : SymbolId) : Prop :=
  ∃ symbol, store.symbols.get? id = some symbol ∧
    (symbol.progress = .active ∨ symbol.progress = .settled ∧ symbol.type = some .error)

/-- What a step may do to symbols: they advance, and those found on a cycle end with the error type.
-/
structure Advances (before after : Store) : Prop where
  symbol : ∀ id symbol, before.symbols.get? id = some symbol →
    ∃ later, after.symbols.get? id = some later ∧ symbol.Advances later
  cyclic : before.cyclic <:+ after.cyclic
  marks : ∀ id ∈ after.cyclic, id ∈ before.cyclic ∨ after.Marked id
  closes : ∀ id ∈ before.cyclic, before.Marked id → after.Marked id

theorem Advances.refl (store : Store) : store.Advances store where
  symbol _ symbol known := ⟨symbol, known, .refl symbol⟩
  cyclic := List.suffix_rfl
  marks _ listed := .inl listed
  closes _ _ marked := marked

theorem Advances.trans (one : before.Advances middle) (two : middle.Advances after) :
    before.Advances after where
  symbol := Table.later_trans one.symbol two.symbol fun _ _ _ => .trans
  cyclic := one.cyclic.trans two.cyclic
  marks id listed := by
    rcases two.marks id listed with between | marked
    · rcases one.marks id between with known | marked
      · exact .inl known
      · exact .inr (two.closes id between marked)
    · exact .inr marked
  closes id listed marked := two.closes id (one.cyclic.subset listed) (one.closes id listed marked)

/-- How far a symbol is; one that does not exist yet is untouched. -/
def stage (store : Store) (id : SymbolId) : Nat :=
  match store.symbols.get? id with
  | some symbol => symbol.progress.stage
  | none => 0

theorem Advances.stage_le (advances : before.Advances after) (id : SymbolId) :
    before.stage id ≤ after.stage id := by
  unfold stage
  split
  · rename_i symbol known
    obtain ⟨later, found, advanced⟩ := advances.symbol id symbol known
    rw [found]
    exact advanced.stage
  · exact Nat.zero_le _

/-- What a modest step does to symbols: their progress stays, new ones are untouched, and cycles are
left alone. -/
structure Keeps (phase : Phase) (before after : Store) : Prop where
  symbol : ∀ id symbol, before.symbols.get? id = some symbol →
    ∃ later, after.symbols.get? id = some later ∧ symbol.Keeps phase later
  fresh : ∀ id symbol, after.symbols.get? id = some symbol → before.symbols.get? id = none →
    symbol.progress = .untouched
  cyclic : after.cyclic = before.cyclic

theorem Keeps.of_eq (symbols : after.symbols = before.symbols)
    (cyclic : after.cyclic = before.cyclic) :
    before.Keeps phase after where
  symbol id symbol known := ⟨symbol, symbols ▸ known, .refl phase symbol⟩
  fresh id symbol found missing := by
    rw [symbols, missing] at found
    cases found
  cyclic := cyclic

theorem Keeps.refl (phase : Phase) (store : Store) : store.Keeps phase store := .of_eq rfl rfl

theorem Keeps.trans (one : before.Keeps phase middle) (two : middle.Keeps phase after) :
    before.Keeps phase after where
  symbol := Table.later_trans one.symbol two.symbol fun _ _ _ => .trans
  fresh id symbol found missing := by
    cases there : middle.symbols.get? id with
    | none => exact two.fresh id symbol found there
    | some next =>
      obtain ⟨last, again, kept⟩ := two.symbol id next there
      cases found.symm.trans again
      rw [kept.progress, one.fresh id next there missing]
  cyclic := two.cyclic.trans one.cyclic

theorem Keeps.marked (keeps : before.Keeps phase after) (marked : before.Marked id) :
    after.Marked id := by
  obtain ⟨symbol, known, state⟩ := marked
  obtain ⟨later, found, kept⟩ := keeps.symbol id symbol known
  refine ⟨later, found, ?_⟩
  rw [kept.progress]
  rcases state with active | ⟨settled, typed⟩
  · exact .inl active
  · have published := congrArg (·.2.1) (kept.published settled)
    exact .inr ⟨settled, published.trans typed⟩

theorem Keeps.advances (keeps : before.Keeps phase after) : before.Advances after where
  symbol id symbol known := by
    obtain ⟨later, found, kept⟩ := keeps.symbol id symbol known
    exact ⟨later, found, kept.toAdvances⟩
  cyclic := keeps.cyclic ▸ List.suffix_rfl
  marks id listed := .inl (keeps.cyclic ▸ listed)
  closes _ _ marked := keeps.marked marked

/-- The symbol exists, if there is one. -/
def Houses (store : Store) (id? : Option SymbolId) :
    Prop := ∀ id ∈ id?, ∃ symbol, store.symbols.get? id = some symbol

theorem Advances.houses {id? : Option SymbolId} (advances : before.Advances after)
    (houses : before.Houses id?) :
    after.Houses id? := by
  intro id listed
  obtain ⟨symbol, known⟩ := houses id listed
  obtain ⟨later, found, _⟩ := advances.symbol id symbol known
  exact ⟨later, found⟩

/-- The symbol exists and may be written to: it is not settled yet, and once everything is declared
it is no object that waits to be settled. -/
def Open (phase : Phase) (store : Store) (id : SymbolId) : Prop :=
  ∃ symbol, store.symbols.get? id = some symbol ∧ symbol.progress ≠ .settled ∧
    (phase = .settling → symbol.progress = .untouched → symbol.kind.isObject = false)

theorem Keeps.isOpen (keeps : before.Keeps phase after) (unsettled : before.Open phase id) :
    after.Open phase id := by
  obtain ⟨symbol, known, unfinished, noObject⟩ := unsettled
  obtain ⟨later, found, kept⟩ := keeps.symbol id symbol known
  refine ⟨later, found, kept.progress ▸ unfinished, fun settling untouched => ?_⟩
  exact kept.sort settling (noObject settling (kept.progress ▸ untouched))

theorem keeps_modify {change : Symbol → Symbol} (inPlace : Symbol.InPlace change)
    (sort : phase = .settling → ∀ symbol, symbol.kind.isObject = false →
      (change symbol).kind.isObject = false)
    (published : store.Open phase id ∨ ∀ symbol, (change symbol).published = symbol.published) :
    store.Keeps phase { store with symbols := store.symbols.modify id change } where
  symbol other symbol known := by
    by_cases same : other = id
    · subst same
      obtain ⟨progress, name, span⟩ := inPlace symbol
      refine ⟨change symbol, by simp [known], ⟨name, span, progress ▸ Nat.le_refl _, ?_⟩, progress,
        fun settling => sort settling symbol⟩
      intro settled
      rcases published with ⟨stored, found, unsettled, _⟩ | kept
      · cases known.symm.trans found
        exact absurd settled unsettled
      · exact kept symbol
    · exact ⟨symbol, by simp [Table.get?_modify_of_ne _ _ same, known], .refl phase symbol⟩
  fresh other symbol found missing := by
    obtain ⟨stored, known, _⟩ := Table.get?_modify_cases found
    cases missing.symm.trans known
  cyclic := rfl

theorem keeps_push {symbol : Symbol} (untouched : symbol.progress = .untouched) :
    store.Keeps phase { store with symbols := store.symbols.push symbol } where
  symbol id known stored := ⟨known, Table.get?_push_of_stored symbol stored, .refl phase known⟩
  fresh id later found missing := by
    obtain ⟨_, rfl⟩ | ⟨_, stored⟩ := Table.get?_push_cases found
    · exact untouched
    · cases missing.symm.trans stored
  cyclic := rfl

end Store
end Resolution
