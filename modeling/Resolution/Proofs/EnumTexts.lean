import Resolution.Proofs.Merging
import Resolution.Proofs.Surgery

/-!
# Texts of enum values

The function that is written for an enum answers the name of the current value.  Its body indexes a
list where the numbers of the values are consecutive, and it is a switch otherwise.  Code is
evaluated on the tree: a list answers the places that it has, and a switch goes to the first branch
for its number, or else to the branch without values.  Both forms answer the name of the first value
that was declared with the current number.
-/

namespace Resolution

/-! ## Sorted values -/

namespace EnumNames

variable {values : List (Int64 × String)} {entry : Int64 × String} {next : Int64} {flag : Bool}
  {numbers : List Int64}

/-- The numbers are those from the least one on, each once. -/
def Consecutive (values : List (Int64 × String)) : Prop :=
  ∃ least : Int, (values.map fun entry => entry.1.toInt).Perm
    ((List.range values.length).map fun place : Nat => least + place)

/-- Values by their numbers. -/
abbrev sorted (values : List (Int64 × String)) : List (Int64 × String) :=
  sortBy (fun first second => first.1 ≤ second.1) values

/-- The first value that was declared with a number stays the first one. -/
theorem find?_sorted (values : List (Int64 × String)) (number : Int64) :
    (sorted values).find? (·.1 = number) = values.find? (·.1 = number) := by
  rw [← List.head?_filter, ← List.head?_filter, filter_sortBy]
  intro first second here there
  rw [of_decide_eq_true here, of_decide_eq_true there]
  exact decide_eq_true (Int64.le_refl number)

theorem mem_sorted : entry ∈ sorted values ↔ entry ∈ values := (sortBy_perm _ values).mem_iff

theorem pairwise_sorted (values : List (Int64 × String)) :
    (sorted values).Pairwise fun first second => first.1.toInt ≤ second.1.toInt := by
  refine (sortBy_pairwise ?_ ?_ values).imp fun before =>
    Int64.le_iff_toInt_le.mp (of_decide_eq_true before)
  · simpa only [decide_eq_true_eq] using fun _ _ => Int64.le_total ..
  · simpa only [decide_eq_true_eq] using fun _ _ _ => Int64.le_trans

/-! ## Counting and distinct numbers -/

theorem toInt_next (room : next ≠ Int64.maxValue) : (next + 1).toInt = next.toInt + 1 := by
  have below : next.toInt ≠ 2 ^ 63 - 1 := fun same =>
    room (Int64.toInt_inj.mp (same.trans (by decide)))
  have range := next.toInt_lt
  have floor := next.le_toInt
  rw [Int64.toInt_add, show (1 : Int64).toInt = 1 by decide, Int.bmod_eq_of_le] <;> omega

/-- Numbers are found to count up exactly if they do. -/
theorem countsFrom_iff (counted : countsFrom next numbers = .ok flag) :
    flag = true ↔ numbers.map Int64.toInt = (List.range numbers.length).map fun place : Nat =>
    next.toInt + place := by
  induction numbers generalizing next with
  | nil =>
    cases counted
    simp
  | cons number rest ih =>
    rw [countsFrom] at counted
    split at counted
    · cases counted
    rename_i room
    rw [List.length_cons, List.range_succ_eq_map, List.map_cons, List.map_cons, List.map_map,
      List.cons.injEq]
    split at counted
    · rename_i same
      subst same
      have shifted : (fun place : Nat => (number + 1).toInt + (place : Int)) = (fun place : Nat =>
        number.toInt + place) ∘ Nat.succ := by
        funext place
        simp only [Function.comp_apply, toInt_next room]
        omega
      rw [ih counted, shifted]
      simp
    · rename_i differ
      cases counted
      refine iff_of_false Bool.false_ne_true fun same => differ (Int64.toInt_inj.mp ?_)
      simpa using same.1

/-- The first entries of every number: above what was there before, each number once, and found like
among all. -/
theorem distinct_of_sorted {previous : Option Int64} (ordered : values.Pairwise fun first second =>
    first.1.toInt ≤ second.1.toInt)
    (above : ∀ least ∈ previous, ∀ entry ∈ values, least.toInt ≤ entry.1.toInt) :
    (∀ least ∈ previous, ∀ entry ∈ distinct previous values, least.toInt < entry.1.toInt) ∧
      ((distinct previous values).map Prod.fst).Nodup ∧
      ∀ number, previous ≠ some number → (distinct previous values).find? (·.1 = number) =
      values.find? (·.1 = number) := by
  induction values generalizing previous with
  | nil => exact ⟨by simp [distinct], by simp [distinct], fun _ _ => rfl⟩
  | cons head rest ih =>
    obtain ⟨here, name⟩ := head
    obtain ⟨least, tail⟩ := List.pairwise_cons.mp ordered
    rw [distinct]
    split
    · rename_i again
      obtain ⟨higher, once, found⟩ := @ih previous tail fun bound known entry listed =>
        above bound known entry (List.mem_cons_of_mem _ listed)
      refine ⟨higher, once, fun number other => ?_⟩
      have differ : here ≠ number := fun same => other (same ▸ again)
      rw [found number other]
      simp [differ]
    · rename_i new
      obtain ⟨higher, once, found⟩ := @ih (some here) tail fun bound known entry listed => by
        cases known
        exact least entry listed
      refine ⟨fun bound known entry listed => ?_, ?_, fun number other => ?_⟩
      · have reached : bound.toInt ≤ here.toInt := above bound known _ List.mem_cons_self
        rcases List.mem_cons.mp listed with rfl | later
        · refine lt_of_le_of_ne reached fun same => new ?_
          rw [Option.mem_def.mp known, Int64.toInt_inj.mp same]
        · exact reached.trans_lt (higher here rfl entry later)
      · refine List.nodup_cons.mpr ⟨fun listed => ?_, once⟩
        obtain ⟨entry, later, same⟩ := List.mem_map.mp listed
        exact absurd (higher here rfl entry later) (by simp [same])
      · rw [List.find?_cons, List.find?_cons]
        by_cases same : here = number
        · simp [same]
        · simp only [same, decide_false]
          exact found number (by simpa using same)

/-! ## The choice of a form -/

theorem ofValues_eq_ok {names : EnumNames} (chosen : ofValues values = .ok names)
    (inhabited : values ≠ []) :
    (Consecutive values ∧ ∃ first ∈ values.map Prod.fst,
      names = .table first ((sorted values).map Prod.snd) ∧
      (sorted values).map (·.1.toInt) = (List.range values.length).map fun place : Nat =>
      first.toInt + place) ∨
    (¬Consecutive values ∧ names = .cases (distinct none (sorted values))) := by
  have size : (sorted values).length = values.length := (sortBy_perm _ values).length_eq
  have same : ((sorted values).map fun entry => entry.1.toInt).Perm (values.map fun entry =>
    entry.1.toInt) :=
    (sortBy_perm _ values).map _
  unfold ofValues at chosen
  dsimp only at chosen
  split at chosen
  · rename_i isEmpty
    exact absurd (List.length_eq_zero_iff.mp (size ▸ congrArg List.length isEmpty)) inhabited
  rename_i first _ rest shape
  obtain ⟨flag, counted, chosen⟩ := (except_bind_eq_ok_iff ..).mp chosen
  have exact : flag = true ↔ (sorted values).map (·.1.toInt) =
      (List.range values.length).map fun place : Nat => first.toInt + place := by
    have iff := countsFrom_iff counted
    rwa [List.map_map, List.length_map, size] at iff
  split at chosen
  · rename_i counts
    cases chosen
    have listed : _ ∈ values := mem_sorted.mp (show _ ∈ sorted values from
      shape ▸ List.mem_cons_self)
    exact .inl ⟨⟨first.toInt, same.symm.trans (.of_eq (exact.mp counts))⟩, first,
      List.mem_map_of_mem listed, rfl, exact.mp counts⟩
  · rename_i counts
    cases chosen
    refine .inr ⟨?_, rfl⟩
    rintro ⟨least, consecutive⟩
    -- Two sorted lists of the same numbers are equal, so the numbers count up from the first one.
    have increasing : ((List.range values.length).map fun place : Nat =>
      least + (place : Int)).Pairwise (· ≤ ·) :=
      List.pairwise_map.mpr (List.pairwise_lt_range.imp fun before => by omega)
    have equal := (same.trans consecutive).eq_of_pairwise (fun _ _ _ _ => le_antisymm)
      (List.pairwise_map.mpr (pairwise_sorted values)) increasing
    refine counts (exact.mpr (equal.trans ?_))
    have start : first.toInt = least := by
      have heads := congrArg List.head? equal
      rw [show sorted values = (first, _) :: rest from shape] at heads
      obtain ⟨count, counted⟩ := Nat.exists_eq_succ_of_ne_zero
        (mt List.length_eq_zero_iff.mp inhabited)
      rw [counted, List.range_succ_eq_map] at heads
      simpa using heads
    rw [start]

theorem countsFrom_eq_error (failed : countsFrom next numbers = .error fault) :
    fault = .overflow := by
  induction numbers generalizing next with
  | nil => cases failed
  | cons number rest ih =>
    rw [countsFrom] at failed
    split at failed
    · cases failed
      rfl
    split at failed
    · exact ih failed
    · cases failed

/-- A form is missing only if there is no room for counting. -/
theorem ofValues_eq_error (failed : ofValues values = .error fault) : fault = .overflow := by
  unfold ofValues at failed
  dsimp only at failed
  split at failed
  · cases failed
  rename_i first _ rest _
  cases counted : countsFrom first ((sorted values).map Prod.fst) with
  | error fault =>
    cases countsFrom_eq_error counted
    rw [show sortBy _ values = sorted values from rfl, counted] at failed
    cases failed
    rfl
  | ok flag =>
    rw [show sortBy _ values = sorted values from rfl, counted] at failed
    cases flag <;> cases failed

/-- Values by number: where the numbers count up, a name stands at the distance of its number. -/
theorem exists_place {first : Int64} (counts : (sorted values).map (·.1.toInt) =
      (List.range values.length).map fun place : Nat =>
      first.toInt + place) (listed : entry ∈ values) :
    ∃ place : Nat, ((sorted values).map Prod.snd)[place]? = some entry.2 ∧
    entry.1.toInt = first.toInt + place := by
  obtain ⟨place, found⟩ := List.getElem?_of_mem (mem_sorted.mpr listed)
  refine ⟨place, by simp [found], ?_⟩
  have numbers := congrArg (·[place]?) counts
  simp only [List.getElem?_map, found, Option.map_some] at numbers
  obtain ⟨index, isIndex, sum⟩ := Option.map_eq_some_iff.mp numbers.symm
  obtain ⟨_, rfl⟩ := List.getElem?_eq_some_iff.mp isIndex
  simpa using sum.symm

end EnumNames

/-! ## Evaluation -/

/-- What code computes with. -/
inductive Datum where
  | number (value : Int)
  | text (value : String)
  | list (values : List Datum)

namespace Tree

variable {tree after : Tree} {this : Int} {id branch : NodeId} {statements values : List NodeId}
  {text : String} {first : Int64}
  {names : List String} {entry : Int64 × String} {entries : List (Int64 × String)}

/-- Sort of a node, if it is stored. -/
def kind? (tree : Tree) (id : NodeId) : Option NodeKind := (tree.get? id).map Node.kind

/-- What an expression gives within a number of steps, where the current value is the number `this`.
-/
def give? (tree : Tree) (this : Int) : Nat → NodeId → Option Datum
  | 0, _ => none
  | fuel + 1, id =>
    match tree.kind? id with
    | some .this => some (.number this)
    | some (.int value) => some (.number value.toInt)
    | some (.string text) => some (.text text)
    | some (.cast type operand) =>
      match tree.kind? type with
      | some (.type .int) => give? tree this fuel operand
      | _ => none
    | some (.binary .subtract left right) =>
      match give? tree this fuel left, give? tree this fuel right with
      | some (.number one), some (.number two) => some (.number (one - two))
      | _, _ => none
    | some (.list items) => (items.mapM (give? tree this fuel)).map .list
    | some (.index list position) =>
      match give? tree this fuel list, give? tree this fuel position with
      | some (.list values), some (.number (.ofNat place)) => values[place]?
      | _, _ => none
    | _ => none

/-- Whether a branch of a switch lists a number. -/
def handles (tree : Tree) (this : Int) (fuel : Nat) (number : Int) (branch : NodeId) : Bool :=
  match tree.kind? branch with
  | some (.switchCase values _) => values.any fun value =>
    match tree.give? this fuel value with
    | some (.number other) => other == number
    | _ => false
  | _ => false

/-- Whether a branch of a switch stands for all numbers that are not listed. -/
def isFallback (tree : Tree) (branch : NodeId) :
    Bool := tree.kind? branch matches some (.switchCase [] _)

/-- The branch of a switch for a number: the first one that lists it, or else the first fallback. -/
def branchFor? (tree : Tree) (this : Int) (fuel : Nat) (number : Int) (branches : List NodeId) :
    Option NodeId :=
  (branches.find? (tree.handles this fuel number)).or (branches.find? tree.isFallback)

/-- What statements return within a number of steps. -/
def answer? (tree : Tree) (this : Int) : Nat → List NodeId → Option Datum
  | fuel + 1, id :: _ =>
    match tree.kind? id with
    | some (.returnStmt (some operand)) => tree.give? this fuel operand
    | some (.switchStmt operand branches) =>
      match tree.give? this fuel operand with
      | some (.number number) =>
        match (tree.branchFor? this fuel number branches).bind tree.kind? with
        | some (.switchCase _ body) =>
          match tree.kind? body with
          | some (.block statements) => answer? tree this fuel statements
          | _ => none
        | _ => none
      | _ => none
    | _ => none
  | _, _ => none

/-! ## Code that stays -/

/-- Nodes keep their sorts. -/
def Grown (before after : Tree) : Prop := ∀ id kind, before.kind? id = some kind →
    after.kind? id = some kind

/-- The expression is the current value as a number. -/
def ReadsNumber (tree : Tree) (id : NodeId) : Prop :=
  ∃ type current, tree.kind? id = some (.cast type current) ∧ tree.kind? type = some (.type .int) ∧
    tree.kind? current = some .this

/-- A branch that returns a text. -/
def ReturnsText (tree : Tree) (branch : NodeId) (values : List NodeId) (text : String) : Prop :=
  ∃ body statement operand, tree.kind? branch = some (.switchCase values body) ∧
    tree.kind? body = some (.block [statement]) ∧
    tree.kind? statement = some (.returnStmt (some operand)) ∧
      tree.kind? operand = some (.string text)

/-- A branch that returns the name of a number. -/
def NamesNumber (tree : Tree) (entry : Int64 × String) (branch : NodeId) : Prop :=
  ∃ value, tree.kind? value = some (.int entry.1) ∧ tree.ReturnsText branch [value] entry.2

/-- The expression is the distance of the current value from a number. -/
def ReadsDistance (tree : Tree) (first : Int64) (position : NodeId) : Prop :=
  first = 0 ∧ tree.ReadsNumber position ∨ ∃ number start, tree.kind? position =
    some (.binary .subtract number start) ∧
    tree.ReadsNumber number ∧ tree.kind? start = some (.int first)

/-- The statements return the place of a list of names at the distance from a number. -/
def LooksUp (tree : Tree) (first : Int64) (names : List String) (statements : List NodeId) : Prop :=
  ∃ id name list position items, statements = [id] ∧
    tree.kind? id = some (.returnStmt (some name)) ∧
    tree.kind? name = some (.index list position) ∧ tree.kind? list = some (.list items) ∧
    List.Forall₂ (fun name item => tree.kind? item = some (.string name)) names items ∧
      tree.ReadsDistance first position

/-- The statements switch over the current value, with a branch for every entry and a fallback that
returns the empty text. -/
def Switches (tree : Tree) (entries : List (Int64 × String)) (statements : List NodeId) : Prop :=
  ∃ id operand branches fallback, statements = [id] ∧
    tree.kind? id = some (.switchStmt operand (branches ++ [fallback])) ∧
    tree.ReadsNumber operand ∧ List.Forall₂ tree.NamesNumber entries branches ∧
      tree.ReturnsText fallback [] ""

theorem ReadsNumber.grown (reads : tree.ReadsNumber id) (grown : tree.Grown after) :
    after.ReadsNumber id := by
  obtain ⟨type, current, isCast, isInt, isThis⟩ := reads
  exact ⟨type, current, grown _ _ isCast, grown _ _ isInt, grown _ _ isThis⟩

theorem ReadsDistance.grown (reads : tree.ReadsDistance first id) (grown : tree.Grown after) :
    after.ReadsDistance first id := by
  rcases reads with ⟨isZero, reads⟩ | ⟨number, start, isPlace, reads, isFirst⟩
  · exact .inl ⟨isZero, reads.grown grown⟩
  · exact .inr ⟨number, start, grown _ _ isPlace, reads.grown grown, grown _ _ isFirst⟩

theorem ReturnsText.grown (returns : tree.ReturnsText branch values text)
    (grown : tree.Grown after) :
    after.ReturnsText branch values text := by
  obtain ⟨body, statement, operand, branched, block, returned, isText⟩ := returns
  exact ⟨body, statement, operand, grown _ _ branched, grown _ _ block, grown _ _ returned,
    grown _ _ isText⟩

theorem NamesNumber.grown (names : tree.NamesNumber entry branch) (grown : tree.Grown after) :
    after.NamesNumber entry branch := by
  obtain ⟨value, isNumber, returns⟩ := names
  exact ⟨value, grown _ _ isNumber, returns.grown grown⟩

/-! ## What code answers -/

theorem give?_int {value : Int64} (stored : tree.kind? id = some (.int value)) (fuel : Nat) :
    tree.give? this (fuel + 1) id = some (.number value.toInt) := by
  rw [give?, stored]

theorem give?_string (stored : tree.kind? id = some (.string text)) (fuel : Nat) :
    tree.give? this (fuel + 1) id = some (.text text) := by
  rw [give?, stored]

theorem ReadsNumber.give (reads : tree.ReadsNumber id) (fuel : Nat) :
    tree.give? this (fuel + 2) id = some (.number this) := by
  obtain ⟨type, current, isCast, isInt, isThis⟩ := reads
  rw [give?, isCast]
  dsimp only
  rw [isInt, give?, isThis]
  rfl

theorem ReadsDistance.give (reads : tree.ReadsDistance first id) (fuel : Nat) :
    tree.give? this (fuel + 3) id = some (.number (this - first.toInt)) := by
  rcases reads with ⟨rfl, reads⟩ | ⟨number, start, isPlace, reads, isFirst⟩
  · rw [reads.give, show (0 : Int64).toInt = 0 by decide, sub_zero]
  · rw [give?, isPlace]
    dsimp only
    rw [reads.give, give?_int isFirst]

theorem mapM_give? {items : List NodeId} (fuel : Nat)
    (named : List.Forall₂ (fun name item => tree.kind? item = some (.string name)) names items) :
    items.mapM (tree.give? this (fuel + 1)) = some (names.map .text) := by
  induction named with
  | nil => rfl
  | cons isText _ ih => simp [List.mapM_cons, give?_string isText, ih]

theorem LooksUp.answers {place : Nat} {name : String}
    (looksUp : tree.LooksUp first names statements)
    (named : names[place]? = some name) (isPlace : this = first.toInt + place) (fuel : Nat) :
    tree.answer? this (fuel + 5) statements = some (.text name) := by
  obtain ⟨id, _, list, position, items, rfl, returned, indexed, isList, texts, distance⟩ := looksUp
  have listed : tree.give? this (fuel + 3) list = some (.list (names.map .text)) := by
    rw [give?, isList]
    dsimp only
    rw [mapM_give? (fuel + 1) texts]
    rfl
  have given : tree.give? this (fuel + 3) position = some (.number (.ofNat place)) := by
    rw [distance.give, show this - first.toInt = .ofNat place by simp [isPlace]]
  rw [answer?, returned]
  dsimp only
  rw [give?, indexed]
  dsimp only
  rw [listed, given]
  simp [named]

theorem NamesNumber.handles_eq (names : tree.NamesNumber entry branch) (fuel : Nat) (number : Int) :
    tree.handles this (fuel + 1) number branch = (entry.1.toInt == number) := by
  obtain ⟨value, isNumber, body, _, _, branched, _⟩ := names
  simp [handles, branched, give?_int isNumber]

/-- A switch goes to the branch of the first entry with its number, or else to its fallback. -/
theorem Switches.answers (switches : tree.Switches entries statements) (number : Int64)
    (fuel : Nat) :
    tree.answer? number.toInt (fuel + 5) statements =
    some (.text ((entries.find? (·.1 = number)).elim "" Prod.snd)) := by
  obtain ⟨switch, operand, branches, fallback, rfl, stored, reads, names, last⟩ := switches
  obtain ⟨_, _, _, isLast, _⟩ := id last
  suffices chosen : ∃ values branch,
      tree.branchFor? number.toInt (fuel + 4) number.toInt (branches ++ [fallback]) = some branch ∧
      tree.ReturnsText branch values ((entries.find? (·.1 = number)).elim "" Prod.snd) by
    obtain ⟨values, branch, chosen, body, statement, operand, branched, block, returned, isText⟩ :=
      chosen
    simp [answer?, stored, reads.give, chosen, branched, block, returned, give?_string isText]
  clear stored
  unfold branchFor?
  induction names with
  | nil => exact ⟨[], fallback, by simp [handles, isFallback, isLast], last⟩
  | @cons entry branch rest others named _ ih =>
    by_cases same : entry.1 = number
    · obtain ⟨value, _, returns⟩ := id named
      exact ⟨[value], branch, by simp [named.handles_eq, same], by simpa [same] using returns⟩
    · have differ : ¬entry.1.toInt = number.toInt := mt Int64.toInt_inj.mp same
      obtain ⟨_, _, _, _, _, branched, _⟩ := id named
      simpa [List.find?_cons, named.handles_eq, isFallback, branched, same, differ] using ih

end Tree

namespace Resolve

variable {α β : Type} {tree : Tree} {span : Span} {kind : NodeKind} {step : Resolve α}
  {middle post : α → Tree → Prop}

/-- The step returns from every store with the tree, and it only adds nodes. -/
def Makes (tree : Tree) (step : Resolve α) (post : α → Tree → Prop) : Prop :=
  ∀ site (store : Store), store.tree = tree →
    ∃ answer after, step site store = .ok (answer, []) { store with tree := after } ∧
      tree.Grown after ∧ post answer after

theorem Makes.bind {next : α → Resolve β} {post : β → Tree → Prop}
    (first : Makes tree step middle) (rest : ∀ answer after, tree.Grown after →
      middle answer after → Makes after (next answer) post) :
    Makes tree (step >>= next) post := by
  intro site store isTree
  obtain ⟨answer, after, run, grown, holds⟩ := first site store isTree
  obtain ⟨result, final, next, further, done⟩ :=
    rest answer after grown holds site { store with tree := after } rfl
  exact ⟨result, final, (bind_of_silent run).trans next, fun id kind stored =>
    further id kind (grown id kind stored), done⟩

theorem Makes.weaken (made : Makes tree step middle)
    (weakens : ∀ answer after, tree.Grown after → middle answer after → post answer after) :
    Makes tree step post := by
  intro site store isTree
  obtain ⟨answer, after, run, grown, holds⟩ := made site store isTree
  exact ⟨answer, after, run, grown, weakens answer after grown holds⟩

theorem makes_pure {value : α} (holds : post value tree) : Makes tree (pure value) post := by
  rintro site store rfl
  exact ⟨value, store.tree, rfl, fun _ _ stored => stored, holds⟩

theorem makes_mapM {step : α → Resolve β} {good : α → β → Tree → Prop}
    (each : ∀ item tree, Makes tree (step item) (good item))
    (keeps : ∀ {item answer tree after}, good item answer tree → tree.Grown after →
      good item answer after) (items : List α) :
    Makes tree (items.mapM step) fun answers after =>
    List.Forall₂ (good · · after) items answers := by
  induction items generalizing tree with
  | nil => exact makes_pure .nil
  | cons item rest ih =>
    rw [List.mapM_cons]
    refine (each item tree).bind fun answer after _ first =>
      ih.bind fun answers final grown others => makes_pure ?_
    exact .cons (keeps first grown) others

theorem exists_of_mem_right {related : α → β → Prop} {items : List α} {others : List β} {other : β}
    (all : List.Forall₂ related items others) (listed : other ∈ others) :
    ∃ item, related item other := by
  induction all with
  | nil => cases listed
  | cons here _ ih =>
    rcases List.mem_cons.mp listed with rfl | listed
    · exact ⟨_, here⟩
    · exact ih listed

/-- A node whose children are stored is stored. -/
theorem makes_alloc (present : ∀ child ∈ kind.children, ∃ kind, tree.kind? child = some kind) :
    Makes tree (alloc kind span) fun id after => after.kind? id = some kind := by
  rintro site store rfl
  obtain ⟨linked, adopts, _⟩ := @Tree.run_adopt store.tree kind.children store.tree.next
    fun child listed => by
    obtain ⟨kind, found⟩ := present child listed
    obtain ⟨node, stored, _⟩ := Option.map_eq_some_iff.mp found
    exact Table.lt_size_of_get? stored
  have run : Tree.alloc kind span store.tree = .ok linked.next (linked.push { kind, span }) :=
    (Action.bind_eq_ok_iff ..).mpr ⟨_, _, rfl, (Action.bind_eq_ok_iff ..).mpr ⟨(), _, adopts, rfl⟩⟩
  refine ⟨linked.next, linked.push
    { kind, span }, by simp only [alloc, onTree, act, Reporting.silent, Action.zoom, run], ?_,
    by simp [Tree.kind?]⟩
  have lookups : (Tree.alloc kind span).Ensures store.tree fun _ final =>
    ∀ id, id ≠ store.tree.next →
      final.get? id = store.tree.adopted store.tree.next kind.children id :=
    Tree.ensures_alloc fun _ _ lookups _ id other => (lookups id).trans (if_neg other)
  intro id other found
  obtain ⟨node, stored, _⟩ := Option.map_eq_some_iff.mp found
  rw [Tree.kind?, lookups _ _ run id (Table.ne_next_of_get? stored), Tree.adopted]
  split
  · rwa [Option.map_map]
  · exact found

/-! ## Building the body -/

theorem makes_currentNumber : Makes tree (currentNumber span) fun id after =>
    after.ReadsNumber id := by
  refine (makes_alloc (by simp [NodeKind.children])).bind fun current _ _ isThis => ?_
  refine (makes_alloc (by simp [NodeKind.children])).bind fun type _ grown isInt => ?_
  have isThis := grown _ _ isThis
  refine (makes_alloc (by simp [NodeKind.children, isInt, isThis])).weaken
    fun id after further isCast => ?_
  exact ⟨type, current, isCast, further _ _ isInt, further _ _ isThis⟩

theorem makes_lookUp {first : Int64} {names : List String} {items : List NodeId}
    {list position : NodeId}
    (isList : tree.kind? list = some (.list items))
    (named : List.Forall₂ (fun name item => tree.kind? item = some (.string name)) names items)
    (distance : tree.ReadsDistance first position) : Makes tree (do
      let name ← alloc (.index list position) span
      return [← alloc (.returnStmt (some name)) span]) fun statements after =>
      after.LooksUp first names statements := by
  have stored : ∃ kind, tree.kind? position = some kind := by
    rcases distance with ⟨_, _, _, isCast, _⟩ | ⟨_, _, isPlace, _⟩
    · exact ⟨_, isCast⟩
    · exact ⟨_, isPlace⟩
  refine (makes_alloc (by simp [NodeKind.children, isList, stored])).bind fun name _ one indexed =>
    ?_
  refine (makes_alloc (by simp [NodeKind.children, indexed])).bind fun id after two returned =>
    makes_pure ?_
  exact ⟨id, name, list, position, items, rfl, returned, two _ _ indexed, two _ _ (one _ _ isList),
    named.imp fun _ _ isText => two _ _ (one _ _ isText), (distance.grown one).grown two⟩

theorem makes_tableBody (first : Int64) (names : List String) :
    Makes tree (tableBody first names span) fun statements after =>
    after.LooksUp first names statements := by
  have texts := @makes_mapM _ _ tree (fun name => alloc (.string name) span) (fun name id after =>
    after.kind? id = some (.string name))
    (fun _ _ => makes_alloc (by simp [NodeKind.children])) (fun stored grown => grown _ _ stored)
      names
  refine texts.bind fun items _ _ named => ?_
  refine (makes_alloc fun child listed => ?_).bind fun list _ one isList =>
    makes_currentNumber.bind fun number _ two reads => ?_
  · obtain ⟨name, isText⟩ := exists_of_mem_right named listed
    exact ⟨_, isText⟩
  have isList := two _ _ isList
  have named := named.imp fun _ _ isText => two _ _ (one _ _ isText)
  dsimp only
  split
  · rename_i isZero
    rw [pure_bind]
    exact makes_lookUp isList named (.inl ⟨isZero, reads⟩)
  · have ⟨_, _, isCast, _⟩ := reads
    refine (makes_alloc (by simp [NodeKind.children])).bind fun start _ three isFirst => ?_
    refine (makes_alloc (by simp [NodeKind.children, isFirst, three _ _ isCast])).bind
      fun place _ four isPlace => ?_
    exact makes_lookUp (four _ _ (three _ _ isList)) (named.imp fun _ _ isText =>
      four _ _ (three _ _ isText))
      (.inr ⟨number, start, isPlace, (reads.grown three).grown four, four _ _ isFirst⟩)

theorem makes_returnCase {values : List NodeId} {text : NodeId} {written : String}
    (present : ∀ value ∈ values, ∃ kind, tree.kind? value = some kind)
    (isText : tree.kind? text = some (.string written)) :
    Makes tree (returnCase values text span) fun branch after =>
    after.ReturnsText branch values written := by
  refine (makes_alloc (by simp [NodeKind.children, isText])).bind fun result _ first returned => ?_
  refine (makes_alloc (by simp [NodeKind.children, returned])).bind fun body _ second block => ?_
  refine (makes_alloc ?_).weaken fun branch after third branched => ?_
  · intro child listed
    rcases List.mem_append.mp listed with listed | listed
    · obtain ⟨kind, stored⟩ := present child listed
      exact ⟨kind, second _ _ (first _ _ stored)⟩
    · exact ⟨_, List.mem_singleton.mp listed ▸ block⟩
  · exact ⟨body, result, text, branched, third _ _ block, third _ _ (second _ _ returned),
      third _ _ (second _ _ (first _ _ isText))⟩

theorem makes_nameCase (entry : Int64 × String) (tree : Tree) :
    Makes tree (nameCase span entry) fun branch after => after.NamesNumber entry branch := by
  refine (makes_alloc (by simp [NodeKind.children])).bind fun number _ _ isNumber => ?_
  refine (makes_alloc (by simp [NodeKind.children])).bind fun text _ grown isText => ?_
  have isNumber := grown _ _ isNumber
  refine (makes_returnCase (by simp [isNumber]) isText).weaken fun branch after further returns =>
    ?_
  exact ⟨number, further _ _ isNumber, returns⟩

theorem makes_casesBody (entries : List (Int64 × String)) :
    Makes tree (casesBody entries span) fun statements after =>
    after.Switches entries statements := by
  refine (makes_mapM makes_nameCase .grown entries).bind fun branches _ _ names => ?_
  refine (makes_alloc (by simp [NodeKind.children])).bind fun blank _ first isBlank => ?_
  refine (makes_returnCase (by simp) isBlank).bind fun fallback _ second returns => ?_
  refine makes_currentNumber.bind fun number middle third reads => ?_
  have names : List.Forall₂ middle.NamesNumber entries branches :=
    names.imp fun _ _ named => ((named.grown first).grown second).grown third
  have returns := returns.grown third
  refine (makes_alloc ?_).bind fun id after further switched => makes_pure ?_
  · intro child listed
    rcases List.mem_cons.mp listed with rfl | listed
    · obtain ⟨_, _, isCast, _⟩ := reads
      exact ⟨_, isCast⟩
    rcases List.mem_append.mp listed with listed | listed
    · obtain ⟨entry, _, _, _, _, _, branched, _⟩ := exists_of_mem_right names listed
      exact ⟨_, branched⟩
    · obtain ⟨_, _, _, branched, _⟩ := returns
      exact ⟨_, List.mem_singleton.mp listed ▸ branched⟩
  · exact ⟨id, number, branches, fallback, rfl, switched, reads.grown further,
      names.imp fun _ _ named => named.grown further, returns.grown further⟩

theorem makes_namesBody {values : List (Int64 × String)} {names : EnumNames}
    (chosen : EnumNames.ofValues values = .ok names)
    (inhabited : values ≠ []) : Makes tree (namesBody names span) fun statements after =>
      (∀ number name, values.find? (·.1 = number) = some (number, name) →
        ∀ fuel, after.answer? number.toInt (fuel + 5) statements = some (.text name)) ∧
      (EnumNames.Consecutive values → ∃ first ∈ values.map Prod.fst, ∃ texts,
        after.LooksUp first texts statements ∧
        ∀ entry ∈ values, 0 ≤ entry.1.toInt - first.toInt ∧
        entry.1.toInt - first.toInt < texts.length) ∧
      (¬EnumNames.Consecutive values → ∃ entries, after.Switches entries statements ∧
        (entries.map Prod.fst).Nodup ∧
        ∀ number, (∀ entry ∈ values, entry.1 ≠ number) →
          ∀ fuel, after.answer? number.toInt (fuel + 5) statements = some (.text "")) := by
  rcases EnumNames.ofValues_eq_ok chosen inhabited with ⟨consecutive, first, present, rfl,
    counts⟩ | ⟨scattered, rfl⟩
  · refine (makes_tableBody first _).weaken fun statements after _ looksUp =>
      ⟨fun number name found fuel => ?_, fun _ => ?_, absurd consecutive⟩
    · obtain ⟨place, named, isPlace⟩ :=
        EnumNames.exists_place counts (List.mem_of_find?_eq_some found)
      exact looksUp.answers named isPlace fuel
    · refine ⟨first, present, _, looksUp, fun entry listed => ?_⟩
      obtain ⟨place, named, isPlace⟩ := EnumNames.exists_place counts listed
      have inside := (List.getElem?_eq_some_iff.mp named).1
      omega
  · obtain ⟨_, once, found⟩ := @EnumNames.distinct_of_sorted (EnumNames.sorted values) none
      (EnumNames.pairwise_sorted values) nofun
    have same (number : Int64) : (EnumNames.distinct none (EnumNames.sorted values)).find?
      (·.1 = number) =
        values.find? (·.1 = number) :=
      (found number nofun).trans (EnumNames.find?_sorted values number)
    refine (makes_casesBody _).weaken fun statements after _ switches =>
      ⟨fun number name isFirst fuel => ?_, (absurd · scattered), fun _ => ?_⟩
    · have answers := switches.answers number fuel
      rwa [same, isFirst] at answers
    · refine ⟨_, switches, once, fun number absent fuel => ?_⟩
      have answers := switches.answers number fuel
      rwa [same, List.find?_eq_none.mpr (by simpa using absent)] at answers

theorem run_enumEntries {store : Store} {site : Surroundings} {values : List SymbolId}
    {entries : List (Int64 × String)}
    (valued : List.Forall₂ (fun id entry => ∃ symbol, store.symbols.get? id = some symbol ∧
      symbol.constant = some (.int entry.1) ∧ symbol.name = entry.2) values entries) :
    values.mapM enumEntry? site store = .ok (entries.map some, []) store := by
  induction valued with
  | nil => rfl
  | @cons id entry _ _ here _ ih =>
    obtain ⟨symbol, known, constant, name⟩ := here
    have first : enumEntry? id site store = .ok (some entry, []) store := by
      unfold enumEntry?
      rw [bind_of_silent (run_symbolOf known), constant, name]
      rfl
    rw [List.mapM_cons, bind_of_silent first, bind_of_silent ih]
    rfl

end Resolve

open Resolve in
/-- The function that is written for an enum names its values.  Unless the numbers leave no room for
counting, a body is made and declared.  For the number of a value it answers the name of the first
value with that number.  Where the numbers are consecutive, the body looks the name up inside of a
list; otherwise it is a switch without repeated cases, which answers the empty text for every other
number. -/
theorem enum_text_names_values {owner : SymbolId} {symbol : Symbol} {values : List SymbolId}
    {entries : List (Int64 × String)}
    {site : Surroundings} {store : Store} (known : store.symbols.get? owner = some symbol)
    (inhabited : values ≠ [])
    (valued : List.Forall₂ (fun id entry => ∃ symbol, store.symbols.get? id = some symbol ∧
      symbol.constant = some (.int entry.1) ∧ symbol.name = entry.2) values entries)
    (fits : ∀ final, generateEnumText owner values site store ≠ .error .overflow final) :
    ∃ statements tree, generateEnumText owner values site store = (do
        let body ← alloc (.block statements) symbol.span
        let result ← alloc (.type .string) symbol.span
        addGenerated owner (.functionDecl { name := "toString", span := symbol.span } [] []
          (some result) [] (some body)) symbol.span
          (.ofList [.isSynthesized, .isInline, .isPure])) site { store with tree } ∧
      (∀ number name, entries.find? (·.1 = number) = some (number, name) →
        ∀ fuel, tree.answer? number.toInt (fuel + 5) statements = some (.text name)) ∧
      (EnumNames.Consecutive entries → ∃ first ∈ entries.map Prod.fst, ∃ texts,
        tree.LooksUp first texts statements ∧
        ∀ entry ∈ entries, 0 ≤ entry.1.toInt - first.toInt ∧
        entry.1.toInt - first.toInt < texts.length) ∧
      (¬EnumNames.Consecutive entries → ∃ cases, tree.Switches cases statements ∧
        (cases.map Prod.fst).Nodup ∧
        ∀ number, (∀ entry ∈ entries, entry.1 ≠ number) →
          ∀ fuel, tree.answer? number.toInt (fuel + 5) statements = some (.text "")) := by
  have present : entries ≠ [] := fun isEmpty =>
    inhabited (List.length_eq_zero_iff.mp (valued.length_eq.trans (by simp [isEmpty])))
  have entriesOf : (entries.map some).filterMap id = entries := by simp
  unfold generateEnumText at fits ⊢
  simp only [bind_of_silent (run_symbolOf known), bind_of_silent (run_enumEntries valued),
    entriesOf] at fits ⊢
  cases chosen : EnumNames.ofValues entries with
  | error fault =>
    cases EnumNames.ofValues_eq_error chosen
    rw [chosen] at fits
    exact absurd rfl (fits store)
  | ok names =>
    have made : Makes store.tree (namesBody names symbol.span) _ := makes_namesBody chosen present
    obtain ⟨statements, tree, run, _, meaning⟩ := made site store rfl
    have reads : ask (fun _ => Except.ok names) site store = .ok (names, []) store := run_ask rfl
    exact ⟨statements, tree, by rw [bind_of_silent reads, bind_of_silent run], meaning⟩

/-! ## Two enums -/

/-- A store with an enum, its declaration and its scope, and values of given numbers and names. -/
def Store.ofEnum (entries : List (Int64 × String)) : Store :=
  { tree := ⟨#[{ kind := .block [], span := .dummy },
      { kind := .enumDecl { name := "E", span := .dummy } false ⟨0⟩, span := .dummy }]⟩
    names := .new
    scopes := ⟨#[{ kind := .global }, { kind := .object, parent := some ⟨0⟩, symbol := some ⟨0⟩ }]⟩
    symbols := ⟨({ name := "E", kind := .enum, span := .dummy, node := some ⟨1⟩,
                   ownScope := some ⟨1⟩ } ::
      entries.map fun entry =>
        { name := entry.2, kind := .enumValue, span := .dummy,
          constant := some (.int entry.1) }).toArray⟩ }

theorem Store.valued_ofEnum (first second third : Int64 × String) :
    List.Forall₂ (fun id entry => ∃ symbol,
        (ofEnum [first, second, third]).symbols.get? id = some symbol ∧
          symbol.constant = some (.int entry.1) ∧ symbol.name = entry.2)
      [⟨1⟩, ⟨2⟩, ⟨3⟩] [first, second, third] :=
  .cons ⟨_, rfl, rfl, rfl⟩ (.cons ⟨_, rfl, rfl, rfl⟩ (.cons ⟨_, rfl, rfl, rfl⟩ .nil))

namespace Resolve

/-- Write the function for an enum of three values. -/
def writeText : Resolve Unit := generateEnumText ⟨0⟩ [⟨1⟩, ⟨2⟩, ⟨3⟩]

/-- Declare the function once the statements of its body are written. -/
def declareText (statements : List NodeId) : Resolve Unit := do
  let body ← alloc (.block statements) .dummy
  let result ← alloc (.type .string) .dummy
  addGenerated ⟨0⟩ (.functionDecl { name := "toString", span := .dummy } [] [] (some result) []
    (some body))
    .dummy (.ofList [.isSynthesized, .isInline, .isPure])

/-- Whether the function has become a symbol of its own. -/
def textDeclared (entries : List (Int64 × String)) : Bool :=
  match writeText { maxDepth := 0, folds := true } (.ofEnum entries) with
  | .ok ((), []) final => (final.symbols.get? ⟨4⟩).map Symbol.name == some "toString"
  | _ => false

theorem no_overflow_of_textDeclared {entries : List (Int64 × String)}
    (declared : textDeclared entries = true) (final : Store) :
    writeText { maxDepth := 0, folds := true } (.ofEnum entries) ≠ .error .overflow final := by
  intro failed
  rw [textDeclared, failed] at declared
  cases declared

end Resolve

open Resolve in
/-- An enum `B = 4, A = -1, C = 4` gets a switch, and an enum `D = 7, F = 9, E = 8` a list. -/
theorem enum_text_names_values_forms :
    (textDeclared [(4, "B"), (-1, "A"), (4, "C")] = true ∧ ∃ statements tree cases,
      writeText { maxDepth := 0, folds := true } (.ofEnum [(4, "B"), (-1, "A"), (4, "C")]) =
        declareText statements { maxDepth := 0, folds := true }
          { Store.ofEnum [(4, "B"), (-1, "A"), (4, "C")] with tree } ∧
      tree.Switches cases statements ∧ tree.answer? 4 5 statements = some (.text "B") ∧
      tree.answer? (-1) 5 statements = some (.text "A") ∧
      tree.answer? 0 5 statements = some (.text "")) ∧
    (textDeclared [(7, "D"), (9, "F"), (8, "E")] = true ∧ ∃ statements tree first texts,
      writeText { maxDepth := 0, folds := true } (.ofEnum [(7, "D"), (9, "F"), (8, "E")]) =
        declareText statements { maxDepth := 0, folds := true }
          { Store.ofEnum [(7, "D"), (9, "F"), (8, "E")] with tree } ∧
      tree.LooksUp first texts statements ∧ tree.answer? 7 5 statements = some (.text "D") ∧
      tree.answer? 8 5 statements = some (.text "E") ∧
      tree.answer? 9 5 statements = some (.text "F")) := by
  constructor
  · have declared : textDeclared [(4, "B"), (-1, "A"), (4, "C")] = true := by decide +kernel
    have known : (Store.ofEnum [(4, "B"), (-1, "A"), (4, "C")]).symbols.get? ⟨0⟩ =
        some { name := "E", kind := .enum, span := .dummy, node := some ⟨1⟩, ownScope := some ⟨1⟩ }
          := rfl
    have valued := Store.valued_ofEnum (4, "B") (-1, "A") (4, "C")
    have scattered : ¬EnumNames.Consecutive [(4, "B"), (-1, "A"), (4, "C")] := by
      rintro ⟨least, consecutive⟩
      have once : ([4, -1, 4] : List Int).Nodup :=
        consecutive.nodup_iff.mpr (List.nodup_range.map fun _ _ same => by omega)
      simp at once
    obtain ⟨statements, tree, written, named, _, switches⟩ :=
      enum_text_names_values known (List.cons_ne_nil _ _) valued
        (no_overflow_of_textDeclared declared)
    obtain ⟨cases, forms, _, blank⟩ := switches scattered
    exact ⟨declared, statements, tree, cases, written, forms, named 4 "B" (by decide) 0,
      named (-1) "A" (by decide) 0, blank 0 (by decide) 0⟩
  · have declared : textDeclared [(7, "D"), (9, "F"), (8, "E")] = true := by decide +kernel
    have known : (Store.ofEnum [(7, "D"), (9, "F"), (8, "E")]).symbols.get? ⟨0⟩ =
        some { name := "E", kind := .enum, span := .dummy, node := some ⟨1⟩, ownScope := some ⟨1⟩ }
          := rfl
    have valued := Store.valued_ofEnum (7, "D") (9, "F") (8, "E")
    have consecutive : EnumNames.Consecutive [(7, "D"), (9, "F"), (8, "E")] := ⟨7, by decide⟩
    obtain ⟨statements, tree, written, named, looks, _⟩ :=
      enum_text_names_values known (List.cons_ne_nil _ _) valued
        (no_overflow_of_textDeclared declared)
    obtain ⟨first, _, texts, forms, _⟩ := looks consecutive
    exact ⟨declared, statements, tree, first, texts, written, forms, named 7 "D" (by decide) 0,
      named 8 "E" (by decide) 0, named 9 "F" (by decide) 0⟩

end Resolution
