import Resolution.Proofs.HashConsing
import Resolution.Type.Text

/-!
# Texts of types

The text of a type is a word and what follows it: nothing, a signature, or type arguments.  No word
holds a separator, so a text can be read in one way only, and types with one text are spelled alike.
Types that are spelled alike are one type, because types are shared.
-/

namespace Resolution
namespace Types

/-! ## Reading a text -/

/-- Characters that stand around words. -/
def separators : List Char := ['<', '(', ' ', ',', '>', ')']

/-- Separators that come after a type inside of a text: before the next type of a list, and at the
end of a list. -/
def closers : List Char := [',', '>', ')']

/-- What comes after a text begins with one of these characters, or there is nothing. -/
def Ends (marks rest : List Char) : Prop := ∀ char ∈ rest.head?, char ∈ marks

/-- A word ends at the first separator. -/
theorem word_unique {word other rest more : List Char} (plain : ∀ char ∈ word, char ∉ separators)
    (alsoPlain : ∀ char ∈ other, char ∉ separators) (ends : Ends separators rest)
    (alsoEnds : Ends separators more) (same : word ++ rest = other ++ more) :
    word = other ∧ rest = more := by
  have reads {word rest : List Char} (plain : ∀ char ∈ word, char ∉ separators)
      (ends : Ends separators rest) : (word ++ rest).takeWhile (· ∉ separators) = word := by
    rw [List.takeWhile_append_of_pos (by simpa using plain)]
    cases rest with
    | nil => simp
    | cons char rest => simp [ends char rfl]
  obtain rfl : word = other := by rw [← reads plain ends, same, reads alsoPlain alsoEnds]
  exact ⟨rfl, List.append_cancel_left same⟩

/-- A way of writing types: no text begins like the end of a list, and texts that agree up to what
comes after a type are texts of one type. -/
structure Unambiguous (write : TypeId → Except Fault String) : Prop where
  opens : ∀ {type text}, write type = .ok text → ∃ char rest, text.toList = char :: rest ∧
    char ∉ closers
  unique : ∀ {type other one two} {rest more : List Char}, write type = .ok one →
    write other = .ok two →
    Ends closers rest → Ends closers more →
    one.toList ++ rest = two.toList ++ more → type = other ∧ rest = more

/-- Types one after the other, and what comes after the last one. -/
inductive Listed (write : TypeId → Except Fault String) (rest : List Char) :
    List TypeId → List Char → Prop
  | none : Listed write rest [] rest
  | last {type : TypeId} {text : String} (writes : write type = .ok text) :
    Listed write rest [type] (text.toList ++ rest)
  | more {type next : TypeId} {text : String} {types : List TypeId} {chars : List Char}
    (writes : write type = .ok text)
      (others : Listed write rest (next :: types) chars) :
      Listed write rest (type :: next :: types) (text.toList ++ ',' :: ' ' :: chars)

/-- Types in brackets behind a word, and the result that follows those of a signature. -/
abbrev Parts := Option (List TypeId × Option TypeId)

/-- What follows a word: nothing, type arguments, or a signature. -/
inductive Written (write : TypeId → Except Fault String) (rest : List Char) :
    Parts → List Char → Prop
  | plain : Written write rest none rest
  | applied {arguments : List TypeId} {chars : List Char}
    (listed : Listed write ('>' :: rest) arguments chars) :
      Written write rest (some (arguments, none)) ('<' :: chars)
  | signature {arguments : List TypeId} {result : TypeId} {text : String} {chars : List Char}
      (listed : Listed write (')' :: ' ' :: (text.toList ++ rest)) arguments chars)
        (last : write result = .ok text) :
      Written write rest (some (arguments, some result)) ('(' :: chars)

section

variable {write : TypeId → Except Fault String} {types others : List TypeId}
  {rest more chars : List Char}
  {parts also : Parts}

theorem listed_of_mapM {texts : List String} (run : types.mapM write = .ok texts) :
    Listed write rest types ((", ".intercalate texts).toList ++ rest) := by
  induction types generalizing texts with
  | nil =>
    cases run
    exact .none
  | cons type types ih =>
    rw [List.mapM_cons] at run
    obtain ⟨text, writes, run⟩ := (except_bind_eq_ok_iff ..).mp run
    obtain ⟨others, later, run⟩ := (except_bind_eq_ok_iff ..).mp run
    cases run
    have listed := ih later
    cases types with
    | nil =>
      cases later
      simpa using Listed.last writes
    | cons next types =>
      rw [List.mapM_cons] at later
      obtain ⟨_, _, later⟩ := (except_bind_eq_ok_iff ..).mp later
      obtain ⟨_, _, later⟩ := (except_bind_eq_ok_iff ..).mp later
      cases later
      simpa [List.intercalate] using Listed.more writes listed

/-- A list of types ends at the closing bracket. -/
theorem Unambiguous.listed (clear : Unambiguous write) {close : Char} (bracket : close ∈ ['>', ')'])
    (one : Listed write (close :: rest) types chars)
    (two : Listed write (close :: more) others chars) :
    types = others ∧ rest = more := by
  have comma : close ≠ ',' := by
    rintro rfl
    simp at bracket
  have closes {rest : List Char} : Ends closers (close :: rest) := by
    rintro _ ⟨⟩
    exact List.mem_cons_of_mem _ bracket
  have nonempty {type : TypeId} {text : String} {rest more : List Char}
    (writes : write type = .ok text) :
      close :: rest ≠ text.toList ++ more := by
    obtain ⟨char, others, letters, opens⟩ := clear.opens writes
    rw [letters, List.cons_append]
    rintro ⟨⟩
    exact opens (List.mem_cons_of_mem _ bracket)
  generalize same : chars = alike at two
  induction one generalizing others alike with
  | none =>
    cases two with
    | none => exact ⟨rfl, (List.cons.inj same).2⟩
    | last writes | more writes => exact absurd same (nonempty writes)
  | last writes =>
    cases two with
    | none => exact absurd same.symm (nonempty writes)
    | last alsoWrites =>
      obtain ⟨rfl, tails⟩ := clear.unique writes alsoWrites closes closes same
      exact ⟨rfl, (List.cons.inj tails).2⟩
    | more alsoWrites =>
      obtain ⟨_, tails⟩ := clear.unique writes alsoWrites closes (by simp [Ends, closers]) same
      exact absurd (List.cons.inj tails).1 comma
  | more writes _ ih =>
    cases two with
    | none => exact absurd same.symm (nonempty writes)
    | last alsoWrites =>
      obtain ⟨_, tails⟩ := clear.unique writes alsoWrites (by simp [Ends, closers]) closes same
      exact absurd (List.cons.inj tails).1.symm comma
    | more alsoWrites alsoOthers =>
      obtain ⟨rfl, tails⟩ := clear.unique writes alsoWrites (by simp [Ends, closers])
        (by simp [Ends, closers]) same
      obtain ⟨same, after⟩ := ih _ (List.cons.inj (List.cons.inj tails).2).2 alsoOthers
      exact ⟨congrArg _ same, after⟩

/-- Behind a word stands a separator, or nothing. -/
theorem Written.separates (written : Written write rest parts chars) (closes : Ends closers rest) :
    Ends separators chars := by
  intro char here
  cases written with
  | plain => exact List.mem_of_mem_drop (show char ∈ separators.drop 3 from closes char here)
  | applied | signature =>
    cases here
    decide

/-- The bracket tells what follows a word, and the texts in it tell the types. -/
theorem Written.unique (clear : Unambiguous write) (one : Written write rest parts chars)
    (two : Written write more also chars) (closes : Ends closers rest)
    (alsoCloses : Ends closers more) : parts = also ∧ rest = more := by
  cases one with
  | plain =>
    cases two with
    | plain => exact ⟨rfl, rfl⟩
    | applied | signature => exact absurd (closes _ rfl) (by decide)
  | applied listed =>
    cases two with
    | plain => exact absurd (alsoCloses _ rfl) (by decide)
    | applied again =>
      obtain ⟨rfl, after⟩ := clear.listed (by simp) listed again
      exact ⟨rfl, after⟩
  | signature listed last =>
    cases two with
    | plain => exact absurd (alsoCloses _ rfl) (by decide)
    | signature again alsoLast =>
      obtain ⟨rfl, results⟩ := clear.listed (by simp) listed again
      obtain ⟨rfl, after⟩ := clear.unique last alsoLast closes alsoCloses (List.cons.inj results).2
      exact ⟨rfl, after⟩

end

/-! ## Named types -/

/-- A name that no other text of a type begins with. -/
def IsName (name : String) : Prop := name ∉ ["", "null", "void"] ∧ ∀ char ∈ name.toList,
    char ∉ separators

instance (name : String) : Decidable (IsName name) :=
  @instDecidableAnd _ _ _ (List.decidableBAll ..)

/-- The name of a type that a symbol declares. -/
def name? (symbols : Symbols) (entry : TypeEntry) :
    Option String := (entry.symbol.bind symbols.get?).map Symbol.name

/-- All types but the error type, `null`, `void` and the function types belong to a symbol, the
built-in classes included.  The symbols have names of their own, and a symbol declares one type. -/
structure WellNamed (types : Types) (symbols : Symbols) : Prop where
  sorts : ∀ type entry, types.entries.get? type = some entry →
    (type, entry.kind) ∈ [(.error, .error), (.null, .null), (.void, .void)] ∨
      entry.kind = .function ∨
      entry.kind ∉ [.error, .null, .void, .function] ∧ entry.symbol ≠ none
  names : ∀ type entry, types.entries.get? type = some entry → ∀ name, name? symbols entry =
    some name → IsName name
  distinct : ∀ first one, types.entries.get? first = some one →
    ∀ second two, types.entries.get? second = some two →
    name? symbols one ≠ none → name? symbols one = name? symbols two → one.symbol = two.symbol
  single : ∀ first one, types.entries.get? first = some one →
    ∀ second two, types.entries.get? second = some two →
    one.symbol ≠ none → one.symbol = two.symbol → one.arguments = none → two.arguments = none →
      first = second

/-- A type is spelled by a word and its parts. -/
inductive Spelled (types : Types) (symbols : Symbols) (type : TypeId) : String → Parts → Prop
  | builtin {word : String} (listed : (type, word) ∈ [(.null, "null"), (.void, "void")]) :
      Spelled types symbols type word none
  | function {entry : TypeEntry} {result : TypeId} {arguments : List TypeId}
    (stored : types.entries.get? type = some entry)
      (isFunction : entry.kind = .function) (related : entry.related = result :: arguments) :
      Spelled types symbols type "fn" (some (arguments, some result))
  | named {entry : TypeEntry} {name : String} (stored : types.entries.get? type = some entry)
      (named : name? symbols entry = some name) :
        Spelled types symbols type name (entry.arguments.map (·, none))

section

variable {types : Types} {symbols : Symbols} {type first second : TypeId} {word : String}
  {parts : Parts} {fuel : Nat}

/-- Words are not empty and hold no separators. -/
theorem Spelled.plain (spelled : Spelled types symbols type word parts)
    (named : WellNamed types symbols) :
    (∃ char rest, word.toList = char :: rest ∧ char ∉ separators) ∧ ∀ char ∈ word.toList,
    char ∉ separators := by
  cases spelled with
  | builtin listed =>
    simp only [List.mem_cons, Prod.mk.injEq, List.not_mem_nil, or_false] at listed
    rcases listed with ⟨_, rfl⟩ | ⟨_, rfl⟩ <;> simp [separators]
  | function => simp [separators]
  | named stored isName =>
    obtain ⟨fresh, plain⟩ := named.names type _ stored word isName
    cases letters : word.toList with
    | nil => exact absurd (by simp [String.toList_eq_nil_iff.mp letters]) fresh
    | cons char rest =>
      rw [letters] at plain
      exact ⟨⟨char, rest, rfl, plain char List.mem_cons_self⟩, plain⟩

/-- Types that are spelled alike are one type: a name tells its symbol, and types are shared. -/
theorem Spelled.unique (spelled : Spelled types symbols first word parts)
    (again : Spelled types symbols second word parts)
    (consed : types.HashConsed) (named : WellNamed types symbols) : first = second := by
  -- A built-in word is no name.
  have apart {type other : TypeId} {entry : TypeEntry}
    (stored : types.entries.get? type = some entry)
      (isName : name? symbols entry = some word) :
        (other, word) ∉ [(.null, "null"), (.void, "void")] := by
    have fresh := (named.names type entry stored word isName).1
    simp_all
  generalize alike : parts = others at again
  cases spelled with
  | builtin listed =>
    cases again with
    | builtin others =>
      simp only [List.mem_cons, Prod.mk.injEq, List.not_mem_nil, or_false] at listed others
      grind
    | named stored isName => exact absurd listed (apart stored isName)
    | function => cases alike
  | function stored isFunction related =>
    cases again with
    | function alsoStored alsoFunction alsoRelated =>
      cases alike
      exact consed.function_unique stored alsoStored isFunction alsoFunction
        (related.trans alsoRelated.symm)
    | builtin => cases alike
    | named =>
      obtain ⟨_, _, same⟩ := Option.map_eq_some_iff.mp alike.symm
      cases same
  | @named entry _ stored isName =>
    cases again with
    | builtin listed => exact absurd listed (apart stored isName)
    | function => simp at alike
    | @named other _ alsoStored alsoName =>
      have declared : entry.symbol ≠ none := by
        intro anonymous
        simp [name?, anonymous] at isName
      have symbol := named.distinct first entry stored second other alsoStored (by simp [isName])
        (isName.trans alsoName.symm)
      have arguments := Option.map_injective (fun _ _ same => (Prod.mk.inj same).1) alike
      cases applied : entry.arguments with
      | none =>
        exact named.single first entry stored second other alsoStored declared symbol applied
          (arguments ▸ applied)
      | some parts =>
        exact consed.instance_unique stored alsoStored (by simp [TypeEntry.isInstance, applied])
          symbol arguments

/-- The text of a type is its word and what is written for its parts, except for the error type. -/
theorem spelled_of_textWithin (named : WellNamed types symbols) {text : String} (rest : List Char)
    (runs : types.textWithin symbols (fuel + 1) type = .ok text) :
    type = .error ∧ text = "<error>" ∨
      ∃ word parts chars, Spelled types symbols type word parts ∧
      Written (types.textWithin symbols fuel) rest parts chars ∧
        text.toList ++ rest = word.toList ++ chars := by
  obtain ⟨entry, fetched, runs⟩ := (except_bind_eq_ok_iff ..).mp runs
  have stored := (Table.fetch_eq_ok_iff ..).mp fetched
  rcases named.sorts type entry stored with builtin | isFunction | ⟨isNamed, declared⟩
  · simp only [List.mem_cons, Prod.mk.injEq, List.not_mem_nil, or_false] at builtin
    rcases builtin with ⟨rfl, kind⟩ | ⟨rfl, kind⟩ | ⟨rfl, kind⟩ <;> rw [kind] at runs <;> cases runs
    · exact .inl ⟨rfl, rfl⟩
    · exact .inr ⟨"null", _, _, .builtin (by simp), .plain, rfl⟩
    · exact .inr ⟨"void", _, _, .builtin (by simp), .plain, rfl⟩
  · rw [isFunction] at runs
    dsimp only at runs
    split at runs
    · cases runs
    · rename_i result arguments related
      obtain ⟨texts, writes, runs⟩ := (except_bind_eq_ok_iff ..).mp runs
      obtain ⟨last, writesLast, runs⟩ := (except_bind_eq_ok_iff ..).mp runs
      cases runs
      exact .inr ⟨_, _, _, .function stored isFunction related,
        .signature (listed_of_mapM writes) writesLast,
        by simp [toString]⟩
  · obtain ⟨symbol, declared⟩ := Option.ne_none_iff_exists'.mp declared
    rw [declared] at runs
    split at runs
    case h_5 =>
      obtain ⟨known, found, runs⟩ := (except_bind_eq_ok_iff ..).mp runs
      have isName : name? symbols entry = some known.name := by
        simp [name?, declared, (Table.fetch_eq_ok_iff ..).mp found]
      have spelled := Spelled.named stored isName
      rw [pure_bind] at runs
      cases applied : entry.arguments with
      | none =>
        rw [applied] at spelled runs
        cases runs
        exact .inr ⟨_, _, _, spelled, .plain, rfl⟩
      | some arguments =>
        rw [applied] at spelled runs
        obtain ⟨texts, writes, runs⟩ := (except_bind_eq_ok_iff ..).mp runs
        cases runs
        exact .inr ⟨_, _, _, spelled, .applied (listed_of_mapM writes), by simp [toString]⟩
    all_goals simp_all

/-- Texts of types are read in one way: the word ends at the first separator, and what follows it
tells its types. -/
theorem WellNamed.unambiguous (named : WellNamed types symbols) (consed : types.HashConsed)
    (fuel : Nat) :
    Unambiguous (types.textWithin symbols fuel) := by
  induction fuel with
  | zero => exact ⟨nofun, nofun⟩
  | succ fuel ih =>
    -- No word begins with a separator, as the text of the error type does.
    have apart {type : TypeId} {word : String} {parts : Parts} {rest chars : List Char}
        (spelled : Spelled types symbols type word parts) : '<' :: rest ≠ word.toList ++ chars := by
      obtain ⟨⟨char, others, letters, plain⟩, _⟩ := spelled.plain named
      rw [letters]
      rintro ⟨⟩
      exact plain (by decide)
    constructor
    · intro type text runs
      rcases spelled_of_textWithin named [] runs with ⟨_, rfl⟩ | ⟨word, parts, chars, spelled, _,
        same⟩
      · exact ⟨'<', _, rfl, by decide⟩
      · obtain ⟨⟨char, rest, letters, plain⟩, _⟩ := spelled.plain named
        rw [List.append_nil, letters] at same
        exact ⟨char, _, same, fun closing =>
          plain (List.mem_of_mem_drop (show char ∈ separators.drop 3 from closing))⟩
    · intro type other one two rest more runs alsoRuns closes alsoCloses same
      rcases spelled_of_textWithin named rest runs with ⟨rfl, rfl⟩ | ⟨word, parts, chars, spelled,
        written, sameOne⟩ <;>
        rcases spelled_of_textWithin named more alsoRuns with ⟨rfl, rfl⟩ | ⟨_, _, _, again,
          alsoWritten, sameTwo⟩
      · exact ⟨rfl, List.append_cancel_left same⟩
      · exact absurd (same.trans sameTwo) (apart again)
      · exact absurd (same.symm.trans sameOne) (apart spelled)
      · obtain ⟨words, rfl⟩ := word_unique (spelled.plain named).2 (again.plain named).2
          (written.separates closes)
          (alsoWritten.separates alsoCloses) (sameOne.symm.trans (same.trans sameTwo))
        cases String.toList_inj.mp words
        obtain ⟨rfl, after⟩ := written.unique ih alsoWritten closes alsoCloses
        exact ⟨spelled.unique again consed named, after⟩

/-- Types with one text are one type. -/
theorem texts_tell_types_apart (reachable : Reachable types) (named : WellNamed types symbols)
    {text : String}
    (one : types.text symbols first = .ok text) (two : types.text symbols second = .ok text) :
    first = second := by
  have closes : Ends closers [] := nofun
  exact ((named.unambiguous reachable.hashConsed _).unique one two closes closes rfl).1

/-- The built-in classes have symbols, and there are function types and an instance. -/
def nestedCalls : List Call :=
  (List.range 7).map (fun position => .bindBuiltin ⟨position + 3⟩ ⟨position⟩) ++
    [.setParameters .list [.string], .functionType .void [.int, .bool], .functionType ⟨10⟩ [],
      .parameterize 2 .list [⟨11⟩]]

def nestedSymbols : Symbols :=
  ⟨⟨["bool", "int", "float", "double", "string", "List", "Map"].map
    fun name => { name, kind := .classType, span := .dummy }⟩⟩

theorem texts_tell_types_apart_nested : Reachable (afterCalls nestedCalls) ∧
    (afterCalls nestedCalls).WellNamed nestedSymbols ∧
    ∀ type, (afterCalls nestedCalls).text nestedSymbols type =
      .ok "List<fn() fn(int, bool) void>" ↔ type = ⟨12⟩ := by
  have reachable : Reachable (afterCalls nestedCalls) := .afterCalls (by decide)
  have named : (afterCalls nestedCalls).WellNamed nestedSymbols :=
    ⟨by decide, by decide, by decide, by decide⟩
  refine ⟨reachable, named, fun type => ⟨fun written => ?_, ?_⟩⟩
  · exact texts_tell_types_apart reachable named written rfl
  · rintro rfl
    rfl

end

end Types
end Resolution
