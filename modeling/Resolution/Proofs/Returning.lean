import Resolution.Fault

/-!
# Runs that return

A computation may fault, and most statements about it concern the runs that return.
`Action.Ensures` is the weakest condition on the starting state under which every returning run ends
as described; it has one rule for each way of composing computations.
-/

namespace Resolution

variable {α : Type}

theorem except_bind_eq_ok_iff {β : Type} (outcome : Except Fault α) (next : α → Except Fault β)
    (answer : β) :
    (outcome >>= next) = .ok answer ↔ ∃ value, outcome = .ok value ∧ next value = .ok answer := by
  cases outcome with
  | ok value =>
    constructor
    · intro rest
      exact ⟨value, rfl, rest⟩
    · rintro ⟨_, same, rest⟩
      cases same
      exact rest
  | error fault =>
    constructor
    · intro rest
      cases rest
    · rintro ⟨_, same, _⟩
      cases same

theorem except_pure_eq_ok_iff (value answer : α) : (pure value : Except Fault α) = .ok answer ↔
    value = answer :=
  ⟨fun same => by cases same; rfl, fun same => by rw [same]; rfl⟩

namespace Action

variable {σ τ α β : Type} {state : σ} {post : α → σ → Prop} {action : Action σ α}
  {next : α → Action σ β}
  {value : α} {fault : Fault} {invariant : σ → Prop} {items : List β}

/-- Every run of the computation from `state` that returns has an answer and a final state with
`post`. -/
def Ensures (action : Action σ α) (state : σ) (post : α → σ → Prop) : Prop :=
  ∀ answer final, action state = .ok answer final → post answer final

theorem Ensures.weaken {weaker : α → σ → Prop} (ensured : action.Ensures state post)
    (weakens : ∀ answer final, post answer final → weaker answer final) :
    action.Ensures state weaker :=
  fun answer final run => weakens answer final (ensured answer final run)

theorem Ensures.and {other : α → σ → Prop} (first : action.Ensures state post)
    (second : action.Ensures state other) :
    action.Ensures state fun answer final => post answer final ∧ other answer final :=
  fun answer final run => ⟨first answer final run, second answer final run⟩

theorem bind_eq_ok_iff (action : Action σ α) (next : α → Action σ β) (state final : σ)
    (answer : β) :
    (action >>= next) state = .ok answer final ↔
      ∃ value middle, action state = .ok value middle ∧ next value middle = .ok answer final := by
  change EStateM.bind action next state = _ ↔ _
  unfold EStateM.bind
  cases run : action state with
  | ok value middle =>
    constructor
    · intro rest
      exact ⟨value, middle, rfl, rest⟩
    · rintro ⟨_, _, same, rest⟩
      obtain ⟨rfl, rfl⟩ := EStateM.Result.ok.inj same
      exact rest
  | error fault middle => simp

theorem ensures_bind {post : β → σ → Prop} : (action >>= next).Ensures state post ↔
      action.Ensures state fun value middle => (next value).Ensures middle post := by
  constructor
  · intro ensured value middle run answer final rest
    exact ensured answer final ((bind_eq_ok_iff ..).mpr ⟨value, middle, run, rest⟩)
  · intro ensured answer final run
    obtain ⟨value, middle, first, rest⟩ := (bind_eq_ok_iff ..).mp run
    exact ensured value middle first answer final rest

theorem ensures_pure : (pure value : Action σ α).Ensures state post ↔ post value state := by
  constructor
  · intro ensured
    exact ensured value state rfl
  · intro holds answer final run
    obtain ⟨rfl, rfl⟩ := EStateM.Result.ok.inj run
    exact holds

theorem ensures_map {convert : α → β} {post : β → σ → Prop} :
    (convert <$> action).Ensures state post ↔ action.Ensures state fun value final =>
    post (convert value) final := by
  rw [map_eq_pure_bind, ensures_bind]
  simp only [ensures_pure]

theorem ensures_throw : (throw fault : Action σ α).Ensures state post ↔ True := by
  refine iff_true_intro ?_
  intro answer final run
  cases run

theorem ensures_get {post : σ → σ → Prop} : (get : Action σ σ).Ensures state post ↔
    post state state :=
  ⟨fun ensured => ensured state state rfl, fun holds _ _ run => by cases run; exact holds⟩

theorem ensures_modify {change : σ → σ} {post : PUnit → σ → Prop} :
    (modify change : Action σ PUnit).Ensures state post ↔ post ⟨⟩ (change state) :=
  ⟨fun ensured => ensured _ _ rfl, fun holds _ _ run => by cases run; exact holds⟩

theorem ensures_ofExcept {outcome : Except Fault α} :
    (ofExcept outcome : Action σ α).Ensures state post ↔ ∀ value, outcome = .ok value →
    post value state := by
  cases outcome with
  | ok value =>
    constructor
    · intro ensured other same
      cases same
      exact ensured value state rfl
    · intro holds answer final run
      cases run
      exact holds _ rfl
  | error fault =>
    refine ⟨fun _ value same => (by cases same), fun _ answer final run => (by cases run)⟩

theorem Ensures.pure (holds : post value state) :
    (Pure.pure value : Action σ α).Ensures state post :=
  ensures_pure.mpr holds

theorem Ensures.throw : (MonadExcept.throw fault : Action σ α).Ensures state post :=
  ensures_throw.mpr trivial

/-- Run a computation and continue from what it ensures. -/
theorem Ensures.bind {middle : α → σ → Prop} {post : β → σ → Prop}
    (first : action.Ensures state middle)
    (rest : ∀ value between, middle value between → (next value).Ensures between post) :
    (action >>= next).Ensures state post :=
  ensures_bind.mpr (first.weaken rest)

theorem Ensures.get {next : σ → Action σ β} {post : β → σ → Prop}
    (continues : (next state).Ensures state post) : (MonadState.get >>= next).Ensures state post :=
  ensures_bind.mpr (ensures_get.mpr continues)

theorem Ensures.ask {question : Except Fault α} {post : β → σ → Prop}
    (continues : ∀ value, question = .ok value → (next value).Ensures state post) :
    (ofExcept question >>= next).Ensures state post :=
  ensures_bind.mpr (ensures_ofExcept.mpr continues)

theorem Ensures.fetch {κ : Type} [Handle κ] {table : Table κ α} {handle : κ}
    {post : β → σ → Prop} (continues : ∀ entry, table.get? handle = some entry →
      (next entry).Ensures state post) :
    (ofExcept (table.fetch handle) >>= next).Ensures state post :=
  .ask fun entry fetched => continues entry ((Table.fetch_eq_ok_iff ..).mp fetched)

theorem ensures_zoom {part : τ → σ} {restore : τ → σ → τ} {whole : τ} {post : α → τ → Prop} :
    (zoom part restore action).Ensures whole post ↔
      action.Ensures (part whole) fun answer changed => post answer (restore whole changed) := by
  constructor
  · intro ensured answer changed run
    refine ensured answer (restore whole changed) ?_
    simp only [zoom, run]
  · intro ensured answer final run
    unfold zoom at run
    cases inner : action (part whole) with
    | ok value changed =>
      rw [inner] at run
      cases run
      exact ensured _ _ inner
    | error fault changed =>
      rw [inner] at run
      cases run

/-- What every step of a walk over a list keeps is kept by the whole walk. -/
theorem ensures_forM {step : β → Action σ PUnit} (start : invariant state)
    (keeps : ∀ item ∈ items, ∀ here, invariant here → (step item).Ensures here fun _ => invariant) :
    (items.forM step).Ensures state fun _ => invariant := by
  induction items generalizing state with
  | nil => exact ensures_pure.mpr start
  | cons item rest ih =>
    refine ensures_bind.mpr ((keeps item List.mem_cons_self state start).weaken ?_)
    intro _ middle holds
    exact ih holds fun other member => keeps other (List.mem_cons_of_mem item member)

/-- A walk whose answers are described too; what is known of an answer stays true under `later`. -/
theorem ensures_mapM_all {step : β → Action σ α} {good : α → σ → Prop} (start : invariant state)
    (later : σ → σ → Prop) (refl : ∀ here, later here here)
    (trans : ∀ one two three, later one two → later two three → later one three)
    (stays : ∀ answer here there, later here there → good answer here → good answer there)
    (keeps : ∀ item ∈ items, ∀ here, invariant here → later state here →
      (step item).Ensures here fun answer there => invariant there ∧ later here there ∧
      good answer there) :
    (items.mapM step).Ensures state fun answers final => invariant final ∧ later state final ∧
      answers.length = items.length ∧ ∀ answer ∈ answers, good answer final := by
  induction items generalizing state with
  | nil =>
    refine ensures_pure.mpr ⟨start, refl state, rfl, ?_⟩
    intro answer listed
    cases listed
  | cons item rest ih =>
    rw [List.mapM_cons]
    refine ensures_bind.mpr ((keeps item List.mem_cons_self state start (refl state)).weaken ?_)
    rintro answer middle ⟨holds, reached, first⟩
    have onwards := ih holds fun other member here kept between =>
      keeps other (List.mem_cons_of_mem item member) here kept (trans _ _ _ reached between)
    refine ensures_bind.mpr (onwards.weaken ?_)
    rintro answers final ⟨kept, further, length, all⟩
    refine ensures_pure.mpr ⟨kept, trans _ _ _ reached further, by simp [length], ?_⟩
    intro other listed
    rcases List.mem_cons.mp listed with rfl | tail
    · exact stays _ _ _ further first
    · exact all other tail

/-- Answer of a run that returns. -/
def answer? (action : Action σ α) (state : σ) : Option α :=
  match action state with
  | .ok answer _ => some answer
  | .error _ _ => none

/-- State that a run ends in. -/
def final (action : Action σ α) (state : σ) : σ :=
  match action state with
  | .ok _ final => final
  | .error _ final => final

theorem eq_ok_of_answer? {answer : α}
    (answered : action.answer? state = some answer) :
    action state = .ok answer (action.final state) := by
  unfold answer? at answered
  unfold final
  cases run : action state with
  | ok other ended =>
    rw [run] at answered
    cases answered
    rfl
  | error fault ended =>
    rw [run] at answered
    cases answered

end Action

instance decidableForallFound (found : Option α) (holds : α → Prop)
    [∀ entry, Decidable (holds entry)] :
    Decidable (∀ entry, found = some entry → holds entry) :=
  inferInstanceAs (Decidable (∀ entry ∈ found, holds entry))

instance decidableExistsFound (found : Option α) (holds : α → Prop)
    [∀ entry, Decidable (holds entry)] :
    Decidable (∃ entry, found = some entry ∧ holds entry) :=
  inferInstanceAs (Decidable (∃ entry ∈ found, holds entry))

namespace Table

variable {κ α : Type} [Handle κ] {table : Table κ α} {handle : κ} {entry : α} {change : α → α}
  {after : α}

theorem ensures_create {post : κ → Table κ α → Prop} :
    (create entry).Ensures table post ↔ post table.next (table.push entry) :=
  ⟨fun ensured => ensured _ _ rfl, fun holds _ _ run => by cases run; exact holds⟩

theorem ensures_update {post : Unit → Table κ α → Prop} :
    (update handle change).Ensures table post ↔
      (Handle.index handle < table.size → post () (table.modify handle change)) := by
  constructor
  · intro ensured bound
    exact ensured () _ (by simp [update, bound])
  · intro holds answer final run
    unfold update at run
    split at run
    · rename_i bound
      cases run
      exact holds bound
    · cases run

/-! Lookups after a change -/

theorem get?_push [DecidableEq κ] (table : Table κ α) (entry : α) (handle : κ) :
    (table.push entry).get? handle = if handle = table.next then some entry else table.get?
    handle := by
  by_cases last : handle = table.next
  · subst last
    simp
  · rw [get?_push_of_ne table entry last, if_neg last]

theorem get?_modify [DecidableEq κ] (table : Table κ α) (handle other : κ) (change : α → α) :
    (table.modify handle change).get? other =
      if other = handle then (table.get? other).map change else table.get? other := by
  by_cases same : other = handle
  · subst same
    simp
  · rw [get?_modify_of_ne table change same, if_neg same]

theorem lt_size_of_get? (found : table.get? handle = some entry) :
    Handle.index handle < table.size := by
  rw [← get?_isSome_iff, found]
  rfl

theorem get?_next (table : Table κ α) : table.get? table.next = none := by
  cases found : table.get? table.next with
  | none => rfl
  | some entry =>
    have bound := lt_size_of_get? found
    simp [next] at bound

theorem ne_next_of_get? (found : table.get? handle = some entry) : handle ≠ table.next := by
  rintro rfl
  rw [get?_next] at found
  cases found

theorem exists_get?_of_lt (bound : Handle.index handle < table.size) :
    ∃ entry, table.get? handle = some entry :=
  Option.isSome_iff_exists.mp ((get?_isSome_iff ..).mpr bound)

theorem get?_modify_cases {other : κ} {after : α} (found : (table.modify handle change).get? other =
    some after) :
    ∃ before, table.get? other = some before ∧
      (other = handle ∧ after = change before ∨ other ≠ handle ∧ after = before) := by
  by_cases same : other = handle
  · subst same
    rw [get?_modify_self] at found
    obtain ⟨before, stored, changed⟩ := Option.map_eq_some_iff.mp found
    exact ⟨before, stored, .inl ⟨rfl, changed.symm⟩⟩
  · rw [get?_modify_of_ne _ _ same] at found
    exact ⟨after, found, .inr ⟨same, rfl⟩⟩

theorem later_of_modify {R : α → α → Prop} (refl : ∀ entry, R entry entry)
    (changes : ∀ entry, table.get? handle = some entry → R entry (change entry)) {other : κ}
    (stored : table.get? other = some entry) :
    ∃ later, (table.modify handle change).get? other = some later ∧ R entry later := by
  by_cases same : other = handle
  · subst same
    exact ⟨change entry, by rw [get?_modify_self, stored, Option.map_some], changes entry stored⟩
  · exact ⟨entry, by rw [get?_modify_of_ne _ _ same, stored], refl entry⟩

/-- What every entry becomes in two steps. -/
theorem later_trans {R S T : α → α → Prop} {before middle after : Table κ α}
    (one : ∀ handle entry, before.get? handle = some entry →
      ∃ later, middle.get? handle = some later ∧ R entry later)
    (two : ∀ handle entry, middle.get? handle = some entry →
      ∃ later, after.get? handle = some later ∧ S entry later)
    (join : ∀ first second third, R first second → S second third → T first third) (handle : κ)
    (entry : α)
    (stored : before.get? handle = some entry) : ∃ later, after.get? handle = some later ∧
    T entry later := by
  obtain ⟨next, there, first⟩ := one handle entry stored
  obtain ⟨last, found, second⟩ := two handle next there
  exact ⟨last, found, join entry next last first second⟩

theorem origin_of_modify {R : α → α → Prop} (refl : ∀ entry, R entry entry)
    (changes : ∀ entry, table.get? handle = some entry → R entry (change entry)) {other : κ}
    (found : (table.modify handle change).get? other = some entry) :
    ∃ before, table.get? other = some before ∧ R before entry := by
  obtain ⟨before, stored, ⟨rfl, rfl⟩ | ⟨_, rfl⟩⟩ := get?_modify_cases found
  · exact ⟨before, stored, changes before stored⟩
  · exact ⟨entry, stored, refl entry⟩

theorem get?_modify_of_stored [DecidableEq κ] (stored : table.get? handle = some entry)
    (other : κ) :
    (table.modify handle change).get? other = if other = handle then some
    (change entry) else table.get? other := by
  rw [get?_modify]
  split
  · rename_i same
    rw [same, stored, Option.map_some]
  · rfl

theorem get?_push_cases (found : (table.push entry).get? handle = some after) :
    (handle = table.next ∧ after = entry) ∨
    (handle ≠ table.next ∧ table.get? handle = some after) := by
  by_cases last : handle = table.next
  · subst last
    rw [get?_push_next] at found
    exact .inl ⟨rfl, (Option.some.inj found).symm⟩
  · rw [get?_push_of_ne _ _ last] at found
    exact .inr ⟨last, found⟩

theorem modify_push_next (table : Table κ α) (entry : α) (change : α → α) :
    (table.push entry).modify table.next change = table.push (change entry) := by
  simp only [push, modify, next, size, Handle.index_ofIndex, Table.mk.injEq]
  apply Array.ext_getElem?
  intro position
  rw [Array.getElem?_modify, Array.getElem?_push, Array.getElem?_push]
  grind

theorem get?_push_of_stored (entry : α) {before : α}
    (stored : table.get? handle = some before) : (table.push entry).get? handle = some before := by
  rw [get?_push_of_ne _ _ (ne_next_of_get? stored), stored]

/-- What holds of all entries can be decided. -/
instance (table : Table κ α) (holds : κ → α → Prop)
    [∀ handle entry, Decidable (holds handle entry)] :
    Decidable (∀ handle entry, table.get? handle = some entry → holds handle entry) :=
  decidable_of_iff (∀ handle ∈ table.handles, ∀ entry, table.get? handle = some entry →
    holds handle entry)
    ⟨fun all handle entry stored => all handle ((mem_handles ..).mpr (lt_size_of_get? stored)) entry
      stored,
      fun all handle _ => all handle⟩

end Table

theorem Action.Ensures.updateIn {κ τ : Type} [Handle κ] {part : τ → Table κ α}
    {restore : τ → Table κ α → τ}
    {handle : κ} {change : α → α} {whole : τ} {post : Unit → τ → Prop}
    (holds : Handle.index handle < (part whole).size →
      post () (restore whole ((part whole).modify handle change))) :
    (zoom part restore (Table.update handle change)).Ensures whole post :=
  ensures_zoom.mpr (Table.ensures_update.mpr holds)
end Resolution
