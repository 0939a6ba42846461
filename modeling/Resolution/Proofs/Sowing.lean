import Resolution.Prelude
import Resolution.Proofs.Tending

/-!
# New branches

Generated functions and the built-in declarations are built from the leaves up.  Until a branch is
complete its nodes are loose: nothing is above them, and nobody relies on them.  What a step builds
takes the place of the loose nodes that it uses up; the others stay loose.  A finished branch then
joins the children of a node that is kept.
-/

namespace Resolution

/-! ## Loose nodes of a tree -/

/-- The tree is in order, and the listed nodes of it are loose. -/
def Ledger.Sows (ledger : Ledger) (lesser : NodeKind → Prop) (loose : List NodeId) (tree : Tree) :
    Prop :=
  ∃ dead up, Tended ledger none dead up tree.layout ∧ loose.Nodup ∧
    ∀ id ∈ loose, tree.layout.Loose lesser ledger dead up id

namespace Ledger

variable {ledger : Ledger} {lesser : NodeKind → Prop} {loose rest : List NodeId} {tree final : Tree}

theorem Holds.sows (holds : ledger.Holds none tree) : ledger.Sows lesser [] tree := by
  obtain ⟨dead, up, tended⟩ := holds
  exact ⟨dead, up, tended, List.nodup_nil, nofun⟩

theorem Sows.holds (sows : ledger.Sows lesser loose tree) : ledger.Holds none tree := by
  obtain ⟨dead, up, tended, _⟩ := sows
  exact ⟨dead, up, tended⟩

theorem Sows.perm (sows : ledger.Sows lesser loose tree) (same : loose.Perm rest) :
    ledger.Sows lesser rest tree := by
  obtain ⟨dead, up, tended, unique, isLoose⟩ := sows
  exact ⟨dead, up, tended, same.nodup_iff.mp unique, fun id listed =>
    isLoose id (same.mem_iff.mpr listed)⟩

/-- A loose node may be left alone. -/
theorem Sows.drop {dropped : List NodeId} (sows : ledger.Sows lesser (dropped ++ rest) tree) :
    ledger.Sows lesser rest tree := by
  obtain ⟨dead, up, tended, unique, isLoose⟩ := sows
  exact ⟨dead, up, tended, (List.nodup_append.mp unique).2.1, fun id listed =>
    isLoose id (List.mem_append_right _ listed)⟩

/-- A stored node takes the place of the loose nodes that become its children. -/
theorem Sows.alloc {kind : NodeKind} {span : Span}
    (sows : ledger.Sows lesser (kind.children ++ rest) tree)
    (isLesser : lesser kind) :
    (Tree.alloc kind span).Ensures tree fun id final => ledger.Sows lesser (id :: rest) final := by
  refine Tree.ensures_alloc fun final _ lookups present => ?_
  obtain ⟨dead, up, tended, unique, isLoose⟩ := sows
  obtain ⟨childrenUnique, restUnique, apart⟩ := List.nodup_append.mp unique
  have missing : tree.layout.kind tree.next = none := Tree.layout_kind_next
  have old {id : NodeId} (stored : (tree.layout.kind id).isSome) : id ≠ tree.next :=
    Tended.ne_of_unstored missing stored
  have childLoose : ∀ child ∈ kind.children, tree.layout.Loose lesser ledger dead up child :=
    fun child listed =>
    isLoose child (List.mem_append_left _ listed)
  have restLoose : ∀ id ∈ rest, tree.layout.Loose lesser ledger dead up id := fun id listed =>
    isLoose id (List.mem_append_right _ listed)
  have tops : ∀ child ∈ kind.children, up child = none := fun child listed =>
    (childLoose child listed).top
  have clear (nodes : List NodeId) (inTree : ∀ id ∈ nodes, (tree.layout.kind id).isSome) :
    Clear up nodes tree.next := by
    refine fun top listed => ⟨(old (inTree top listed)).symm, fun climbs => ?_⟩
    have top := tended.unlinked missing
    cases climbs with
    | single link => cases top.symm.trans link
    | further link _ => cases top.symm.trans link
  have joined : tree.layout.Joined final.layout tree.next kind kind.children := by
    refine ⟨fun id => ?_, fun id => ?_, fun child listed => .inl listed, childrenUnique,
      fun target assigned => ?_⟩
    · simp only [Tree.layout, lookups]
      split
      · rfl
      · exact Tree.kind_adopted
    · simp only [Tree.layout, lookups]
      split
      · rename_i new
        subst new
        rw [if_neg fun listed => old (childLoose _ listed).isSome rfl, Table.get?_next]
        rfl
      · exact Tree.parent_adopted present
    · exact NodeKind.mem_children_of_assigned? assigned
  have hostClear := clear kind.children fun child listed => (childLoose child listed).isSome
  refine ⟨dead, _, tended.join childLoose hostClear (fun isDead => old (tended.stored _ isDead) rfl)
    (fun stored => absurd rfl (old stored)) (fun kept =>
      absurd rfl (old (tended.kept _ kept).isSome)) joined, ?_, ?_⟩
  · exact List.nodup_cons.mpr ⟨fun listed => old (restLoose _ listed).isSome rfl, restUnique⟩
  · intro id listed
    rcases List.mem_cons.mp listed with rfl | inside
    · exact .join_fresh tended missing Tree.layout_parent_next childLoose joined isLesser
    · have here := restLoose id inside
      refine here.join_other (fun isChild => apart id isChild id inside rfl)
        (clear [id] ?_) hostClear tops joined
      rintro _ isHere
      rw [List.mem_singleton.mp isHere]
      exact here.isSome

theorem Sows.attach {host sprig : NodeId} {entry : Node} (grown : NodeKind)
    (sows : ledger.Sows lesser (sprig :: rest) tree)
    (kept : ledger.kept host) (stored : tree.get? host = some entry)
    (lookups : ∀ id, final.get? id =
      let node := if id = host then (tree.get? id).map fun node =>
        { node with kind := grown } else tree.get? id
      if id = sprig then node.map fun node => { node with parent := some host } else node)
    (members : grown.children.Perm (sprig :: entry.kind.children))
    (plain : grown.isDeclaration = false)
    (notIndex : grown.isIndex = false) (assigned : grown.assigned? = none) :
    ledger.Holds none final := by
  obtain ⟨dead, up, tended, _, isLoose⟩ := sows
  have sprigLoose := isLoose sprig List.mem_cons_self
  have alive := (tended.kept host kept).alive
  have known := Tree.layout_kind_of_get? stored
  have single : ∀ node ∈ [sprig], tree.layout.Loose lesser ledger dead up node := fun node listed =>
    List.mem_singleton.mp listed ▸ sprigLoose
  have outside : sprig ∉ entry.kind.children := fun listed => by
    have link := (tended.child host entry.kind known alive nofun sprig listed).2.1
    cases sprigLoose.top.symm.trans link
  have joined : tree.layout.Joined final.layout host grown [sprig] := by
    refine ⟨fun id => ?_, fun id => ?_, fun child listed => ?_, ?_, fun target isTarget => ?_⟩
    · simp only [Tree.layout, lookups]
      by_cases isHost : id = host
      · subst isHost
        rw [if_pos rfl, if_pos rfl, stored]
        split <;> rfl
      · rw [if_neg isHost, if_neg isHost]
        split
        · cases tree.get? id <;> rfl
        · rfl
    · simp only [Tree.layout, lookups, List.mem_singleton]
      by_cases isSprig : id = sprig
      · subst isSprig
        obtain ⟨node, found⟩ := Option.isSome_iff_exists.mp
          (Tree.isSome_layout_kind ▸ sprigLoose.isSome)
        rw [if_pos rfl, if_pos rfl, found]
        split <;> rfl
      · rw [if_neg isSprig, if_neg isSprig]
        split
        · cases tree.get? id <;> rfl
        · rfl
    · refine (List.mem_cons.mp (members.mem_iff.mp listed)).imp List.mem_singleton.mpr fun inside =>
        ?_
      exact ⟨entry.kind, known, inside⟩
    · exact members.nodup_iff.mpr (List.nodup_cons.mpr
        ⟨outside, tended.distinct host entry.kind known alive nofun⟩)
    · cases assigned.symm.trans isTarget
  exact ⟨dead, _, tended.join single (fun node listed => (single node listed).unkept host kept)
    alive (fun _ => plain)
    (fun _ => notIndex) joined⟩

theorem Sows.keep_part {id part : NodeId} {node : Node} (sows : ledger.Sows lesser loose tree)
    (stored : tree.get? id = some node) (declares : node.kind.isDeclaration = true)
    (greater : ¬lesser node.kind)
    (listed : part ∈ node.kind.offered) : (ledger.keep [part]).Sows lesser loose tree := by
  obtain ⟨dead, up, tended, unique, isLoose⟩ := sows
  have known := Tree.layout_kind_of_get? stored
  have alive := (tended.live_of_declaration known declares).alive
  have link := (tended.child id node.kind known alive nofun part
    (node.kind.offered_subset listed)).2.1
  refine ⟨dead, up, tended.extend (fun child inside => ?_) nofun, unique, fun other inside => ?_⟩
  · rw [List.mem_singleton.mp inside]
    exact tended.live_of_offered alive known listed
  · have here := isLoose other inside
    refine { here with unkept := ?_ }
    rintro relied (kept | isPart)
    · exact here.unkept relied kept
    · rw [List.mem_singleton.mp isPart]
      refine ⟨fun same => ?_, fun climbs => ?_⟩
      · rw [same, here.top] at link
        cases link
      · refine greater (here.lesser id node.kind ?_ known)
        exact ((Climbs.iff_of_link link).mp climbs).imp_left Eq.symm

end Ledger

/-! ## Building -/

/-- A monad whose computations work on a tree, and what every run that returns leaves behind. -/
class Grower (M : Type → Type) [Monad M] where
  ensures {α : Type} : M α → Tree → (α → Tree → Prop) → Prop
  pure {α : Type} {value : α} {tree : Tree} {post : α → Tree → Prop} : post value tree →
    ensures (pure value) tree post
  bind {α β : Type} {step : M α} {next : α → M β} {tree : Tree} {middle : α → Tree → Prop}
    {post : β → Tree → Prop} :
    ensures step tree middle → (∀ value between, middle value between →
      ensures (next value) between post) →
      ensures (step >>= next) tree post

instance : Grower Resolve where
  ensures step tree post := ∀ site store, store.tree = tree →
    Resolve.Returns step site store fun value final => post value final.tree
  pure holds _ _ same := Resolve.ensures_pure.mpr (same ▸ holds)
  bind first rest site store same :=
    (first site store same).bind fun value between holds => rest value _ holds site between rfl

instance : Grower Build where
  ensures step tree post := ∀ draft, draft.tree = tree → step.Ensures draft fun value after =>
    post value after.tree
  pure holds _ same := .pure (same ▸ holds)
  bind first rest draft same :=
    Action.ensures_bind.mpr ((first draft same).weaken fun value between holds =>
      rest value _ holds between rfl)

/-- The step uses up some loose nodes and leaves others in their place, whatever else is loose. -/
def Raises {M : Type → Type} [Monad M] [Grower M] {α : Type} (lesser : NodeKind → Prop)
    (used : List NodeId) (step : M α)
    (made : α → List NodeId) : Prop :=
  ∀ ledger rest tree, Ledger.Sows ledger lesser (used ++ rest) tree →
    Grower.ensures step tree fun value final => ledger.Sows lesser (made value ++ rest) final

section Raises

variable {M : Type → Type} [Monad M] [Grower M] {α β : Type} {lesser : NodeKind → Prop}
  {used : List NodeId}
  {made : α → List NodeId} {step : M α} {first : List NodeId}

/-- Run a step on some of the loose nodes, and continue with what it made and the others. -/
theorem Raises.andThen {next : α → M β} {last : β → List NodeId}
    (raises : Raises lesser first step made) (others : List NodeId)
    (rest : ∀ value, Raises lesser (made value ++ others) (next value) last)
    (same : used.Perm (first ++ others)) :
    Raises lesser used (step >>= next) last := by
  intro ledger outside tree sows
  have start : ledger.Sows lesser (first ++ (others ++ outside)) tree :=
    sows.perm (List.append_assoc first others outside ▸ same.append_right outside)
  refine Grower.bind (raises ledger (others ++ outside) tree start) fun value between middle => ?_
  exact rest value ledger outside between (List.append_assoc (made value) others outside ▸ middle)

theorem raises_pure {value : α} (same : used.Perm (made value)) :
    Raises lesser used (pure value : M α) made :=
  fun _ rest _ sows => Grower.pure (sows.perm (same.append_right rest))

theorem Raises.of_perm (raises : Raises lesser first step made) (same : used.Perm first) :
    Raises lesser used step made :=
  fun ledger rest tree sows => raises ledger rest tree (sows.perm (same.append_right rest))

theorem Raises.drop (raises : Raises lesser used step made) (dropped : List NodeId) :
    Raises lesser (dropped ++ used) step made :=
  fun ledger rest tree sows => raises ledger rest tree
    (List.append_assoc dropped used rest ▸ sows).drop

/-- Branches are built one after the other. -/
theorem raises_mapM [LawfulMonad M] {step : α → M β} {items : List α} {made : β → List NodeId}
    (each : ∀ item, Raises lesser [] (step item) made) :
    Raises lesser [] (items.mapM step) fun values => values.flatMap made := by
  induction items with
  | nil => exact raises_pure (.refl _)
  | cons item items ih =>
    rw [List.mapM_cons]
    refine (each item).andThen [] (fun value => ?_) (.refl _)
    refine ih.andThen (made value) (fun values => raises_pure ?_) (.of_eq (List.append_nil _))
    exact List.perm_append_comm

theorem raises_each [LawfulMonad M] {step : α → M NodeId} {items : List α}
    (each : ∀ item, Raises lesser [] (step item) fun id => [id]) :
    Raises lesser [] (items.mapM step) fun ids => ids := by
  simpa only [List.flatMap_singleton'] using raises_mapM each

end Raises

/-! ## Generated functions -/

/-- Sorts of nodes that generated functions are made of: they declare no objects or enums. -/
def NodeKind.isInner : NodeKind → Bool
  | .objectDecl _ _ _ _ _ | .enumDecl _ _ _ => false
  | _ => true

/-- Nodes of generated functions. -/
def Inner (kind : NodeKind) : Prop := kind.isInner = true

namespace Resolve

variable {used : List NodeId} {span : Span} {α : Type}

theorem raises_alloc {kind : NodeKind} (isInner : kind.isInner = true)
    (same : used.Perm kind.children) :
    Raises Inner used (alloc kind span) fun id => [id] := by
  rintro ledger rest _ sows site store rfl
  exact ensures_onTree.mpr ((sows.perm (same.append_right rest)).alloc isInner)

theorem raises_currentNumber : Raises Inner [] (currentNumber span) fun id => [id] := by
  refine (raises_alloc rfl (.refl _)).andThen [] (fun current => ?_) (.refl _)
  refine (raises_alloc rfl (.refl _)).andThen [current] (fun type => ?_) (.refl _)
  exact raises_alloc rfl (.refl _)

theorem raises_leaves {leaf : α → NodeKind} {items : List α}
    (isInner : ∀ item, (leaf item).isInner = true)
    (childless : ∀ item, (leaf item).children = []) :
    Raises Inner [] (items.mapM fun item => alloc (leaf item) span) fun ids => ids :=
  raises_each fun item => raises_alloc (isInner item) (.of_eq (childless item).symm)

theorem raises_after {β : Type} {step : Resolve α} {next : α → Resolve β} {made : β → List NodeId}
    [looks : Looks step]
    (rest : ∀ value, Raises Inner used (next value) made) :
    Raises Inner used (step >>= next) made := by
  rintro ledger others _ sows site store rfl
  refine (looks.unchanged site store).bind ?_
  rintro value _ same
  exact rest value ledger others _ (same ▸ sows) site _ rfl

theorem raises_tableBody {first : Int64} {names : List String} :
    Raises Inner [] (tableBody first names span) fun statements => statements := by
  unfold tableBody
  refine (raises_leaves (fun _ => rfl) fun _ => rfl).andThen [] (fun texts => ?_) (.refl _)
  refine (raises_alloc rfl (.of_eq (List.append_nil _))).andThen [] (fun list => ?_)
    (.of_eq (List.append_nil _).symm)
  refine raises_currentNumber.andThen [list] (fun number => ?_) (.refl _)
  have finish (place : NodeId) : Raises Inner [list, place] (do
      let name ← alloc (.index list place) span
      return [← alloc (.returnStmt (some name)) span]) fun statements => statements := by
    refine (raises_alloc rfl (.refl _)).andThen [] (fun name => ?_) (.refl _)
    exact (raises_alloc rfl (.refl _)).andThen [] (fun statement => raises_pure (.refl _)) (.refl _)
  dsimp only
  split
  · rw [pure_bind]
    exact (finish number).of_perm (.swap ..)
  · refine (raises_alloc rfl (.refl _)).andThen [number, list] (fun start => ?_) (.refl _)
    refine (raises_alloc rfl (.swap ..)).andThen [list] (fun place =>
      (finish place).of_perm (.swap ..)) (.refl _)

theorem raises_returnCase {values : List NodeId} {text : NodeId} :
    Raises Inner (values ++ [text]) (returnCase values text span) fun id => [id] := by
  unfold returnCase
  refine (raises_alloc rfl (.refl _)).andThen values (fun result => ?_) List.perm_append_comm
  refine (raises_alloc rfl (.refl _)).andThen values (fun body => ?_) (.refl _)
  exact raises_alloc rfl List.perm_append_comm

theorem raises_nameCase {entry : Int64 × String} : Raises Inner [] (nameCase span entry) fun id =>
    [id] := by
  unfold nameCase
  refine (raises_alloc rfl (.refl _)).andThen [] (fun number => ?_) (.refl _)
  refine (raises_alloc rfl (.refl _)).andThen [number] (fun text => ?_) (.refl _)
  exact raises_returnCase.of_perm (.swap ..)

theorem raises_casesBody {entries : List (Int64 × String)} :
    Raises Inner [] (casesBody entries span) fun statements => statements := by
  unfold casesBody
  refine (raises_each fun _ => raises_nameCase).andThen [] (fun cases => ?_) (.refl _)
  refine (raises_alloc rfl (.refl _)).andThen cases (fun blank => ?_) (.of_eq (List.append_nil _))
  refine raises_returnCase.andThen cases (fun fallback => ?_) (.refl _)
  refine raises_currentNumber.andThen (fallback :: cases) (fun number => ?_) (.refl _)
  refine (raises_alloc rfl (.cons _ ?_)).andThen [] (fun statement => raises_pure (.refl _))
    (.of_eq (List.append_nil _).symm)
  exact (List.perm_append_singleton fallback cases).symm

theorem raises_namesBody {names : EnumNames} :
    Raises Inner [] (namesBody names span) fun statements => statements := by
  unfold namesBody
  split
  · exact raises_tableBody
  · exact raises_casesBody
  · refine (raises_alloc rfl (.refl _)).andThen [] (fun blank => ?_) (.refl _)
    exact (raises_alloc rfl (.refl _)).andThen [] (fun statement => raises_pure (.refl _)) (.refl _)

theorem raises_generatedArgument {name : String} {type : TypeId} :
    Raises Inner [] (generatedArgument span name type) fun id => [id] := by
  unfold generatedArgument
  refine (raises_alloc rfl (.refl _)).andThen [] (fun type => ?_) (.refl _)
  exact raises_alloc rfl (.refl _)

theorem raises_fieldParts {field : SymbolId} : Raises Inner [] (fieldParts span field) fun parts =>
    [parts.1, parts.2] := by
  unfold fieldParts
  refine raises_after fun symbol => ?_
  refine raises_generatedArgument.andThen [] (fun argument => ?_) (.refl _)
  refine (raises_alloc rfl (.refl _)).andThen [argument] (fun operand => ?_) (.refl _)
  exact (raises_alloc rfl (.refl _)).andThen [argument] (fun initializer => raises_pure (.swap ..))
    (.refl _)

theorem raises_forwardingBody {arguments : List (String × TypeId)} :
    Raises Inner [] (forwardingBody arguments span) fun statements => statements := by
  unfold forwardingBody
  refine (raises_leaves (fun _ => rfl) fun _ => rfl).andThen [] (fun forwarded => ?_) (.refl _)
  refine (raises_alloc rfl (.of_eq (List.append_nil _))).andThen [] (fun call => ?_)
    (.of_eq (List.append_nil _).symm)
  exact (raises_alloc rfl (.refl _)).andThen [] (fun statement => raises_pure (.refl _)) (.refl _)

theorem returns_pushStatement {ledger : Ledger} {lesser : NodeKind → Prop} {site : Surroundings}
    {store : Store}
    {block statement : NodeId} {rest : List NodeId}
    (sows : ledger.Sows lesser (statement :: rest) store.tree)
    (kept : ledger.kept block) :
    Returns (onTree (Tree.pushStatement block statement)) site store fun _ final =>
    ledger.Holds none final.tree := by
  refine ensures_onTree.mpr (Tree.ensures_pushStatement ?_)
  intro final receiver statements stored isBlock _ _ lookups
  refine sows.attach (.block (statements ++ [statement])) kept stored lookups ?_ rfl rfl rfl
  rw [isBlock]
  exact List.perm_append_singleton statement statements

end Resolve

/-! ## The built-in declarations -/

/-- Nodes of any sort. -/
def Anything (_ : NodeKind) : Prop := True

namespace Build

variable {used : List NodeId} {name : String} {written : Header} {kind : NodeKind}
  {members : List NodeId}

theorem raises_node (same : used.Perm kind.children) : Raises Anything used (node kind) fun id =>
    [id] := by
  rintro ledger rest _ sows draft rfl
  unfold node nextSpan
  refine Action.ensures_bind.mpr (Action.ensures_bind.mpr (Action.ensures_get.mpr ?_))
  refine Action.ensures_bind.mpr fun _ _ run => ?_
  cases run
  exact .pure (Action.ensures_zoom.mpr ((sows.perm (same.append_right rest)).alloc trivial))

theorem raises_header : Raises Anything [] (header name) Header.decorations := by
  rintro ledger rest _ sows draft rfl
  unfold header nextSpan
  refine Action.ensures_bind.mpr (Action.ensures_bind.mpr (Action.ensures_get.mpr ?_))
  refine Action.ensures_bind.mpr fun _ _ run => ?_
  cases run
  exact .pure (Action.ensures_bind.mpr (Action.ensures_modify.mpr (.pure sows)))

theorem raises_noted {text : String} (same : used.Perm kind.children) :
    Raises Anything used (do intern text; node kind) fun id => [id] := by
  rintro ledger rest _ sows draft rfl
  exact Action.ensures_bind.mpr (Action.ensures_modify.mpr
    (raises_node same ledger rest _ sows _ rfl))

theorem raises_name : Raises Anything [] (Build.name name) fun id => [id] := raises_noted (.refl _)

theorem raises_typeParameter : Raises Anything [] (typeParameter name) fun id => [id] :=
  raises_header.andThen [] (fun _ => raises_node (.of_eq (List.append_nil _))) (.refl _)

theorem raises_argument {type : NodeId} : Raises Anything [type] (argument name type) fun id =>
    [id] := by
  refine raises_header.andThen [type] (fun written => raises_node ?_) (.refl _)
  exact .of_eq (List.append_nil _).symm

theorem raises_function {arguments : List NodeId} {result : Option NodeId} :
    Raises Anything (written.decorations ++ arguments ++ result.toList)
    (function written [] arguments result none)
      fun id => [id] := by
  refine (raises_node ?_)
  simp [NodeKind.children]

theorem raises_object {sort : ObjectSort} {parameters : List String} :
    Raises Anything (written.decorations ++ members) (object sort written parameters [] members)
    fun id => [id] := by
  refine (raises_each fun _ => raises_typeParameter).andThen (written.decorations ++ members)
    (fun parameters => ?_) (.refl _)
  refine (raises_node (.refl _)).andThen (written.decorations ++ parameters) (fun body =>
    raises_node ?_) ?_
  · simp only [NodeKind.children, List.append_nil]
    exact List.perm_append_comm
  · exact List.perm_iff_count.mpr fun id => by
      simp only [NodeKind.children, List.count_append]
      omega

theorem raises_space : Raises Anything (written.decorations ++ members)
    (space written members) fun id => [id] := by
  refine (raises_node (.refl _)).andThen written.decorations (fun body => raises_node ?_)
    List.perm_append_comm
  exact List.perm_append_comm

theorem raises_file {declarations : List NodeId} :
    Raises Anything declarations (file declarations) fun id => [id] :=
  (raises_node (.refl _)).andThen [] (fun _ => raises_node (.refl _))
    (.of_eq (List.append_nil _).symm)

end Build

namespace Prelude

variable {signature : Signature}

theorem raises_buildArgument {argument : String × String} :
    Raises Anything [] (buildArgument argument) fun id => [id] :=
  Build.raises_name.andThen [] (fun _ => Build.raises_argument) (.refl _)

theorem raises_buildSignature {header : Header} :
    Raises Anything header.decorations (buildSignature signature header) fun id => [id] := by
  unfold buildSignature
  have result : Raises Anything [] (signature.result.mapM Build.name) Option.toList := by
    cases signature.result with
    | none => exact raises_pure (.refl _)
    | some name =>
      rw [Option.mapM_some, map_eq_pure_bind]
      exact Build.raises_name.andThen [] (fun id => raises_pure (.refl _)) (.refl _)
  refine (raises_each fun _ => raises_buildArgument).andThen header.decorations (fun arguments =>
    ?_) (.refl _)
  refine result.andThen (arguments ++ header.decorations) (fun result => ?_) (.refl _)
  refine Build.raises_function.of_perm (List.perm_iff_count.mpr fun id => ?_)
  simp only [List.count_append]
  omega

theorem raises_buildFunction : Raises Anything [] (buildFunction signature) fun id => [id] := by
  unfold buildFunction
  have decoration (token : String) : Raises Anything []
      (do Build.decoration "Operator" [← Build.string token]) fun id => [id] :=
    (Build.raises_noted (.refl _)).andThen [] (fun _ => Build.raises_noted (.refl _)) (.refl _)
  refine (raises_each decoration).andThen [] (fun decorations => ?_) (.refl _)
  have signed (header : Header) : Raises Anything decorations
      (buildSignature signature { header with modifiers := [.isPure], decorations }) fun id =>
        [id] :=
    @raises_buildSignature signature { header with modifiers := [.isPure], decorations }
  exact Build.raises_header.andThen decorations (fun header =>
    (signed header).drop header.decorations)
    (.of_eq (List.append_nil _))

theorem raises_buildClass {shape : Shape} : Raises Anything [] (buildClass shape) fun id =>
    [id] := by
  unfold buildClass
  refine (raises_each fun _ => raises_buildFunction).andThen [] (fun functions => ?_) (.refl _)
  have object (header : Header) : Raises Anything (header.decorations ++ functions)
      (Build.object .classType (header.withModifier .isImport) shape.parameters [] functions)
        fun id => [id] :=
    @Build.raises_object (header.withModifier .isImport) _ _ _
  exact Build.raises_header.andThen functions object (.of_eq (List.append_nil _))

theorem raises_buildMath : Raises Anything [] buildMath fun id => [id] := by
  unfold buildMath
  refine Build.raises_header.andThen [] (fun header => ?_) (.refl _)
  refine raises_buildSignature.andThen [] (fun function => ?_) (.refl _)
  exact Build.raises_header.andThen [function] (fun _ => Build.raises_space) (.refl _)

theorem raises_build : Raises Anything [] build fun id => [id] := by
  unfold build
  refine (raises_each fun _ => raises_buildClass).andThen [] (fun shapes => ?_) (.refl _)
  refine raises_buildMath.andThen shapes (fun math => ?_) (.of_eq (List.append_nil _))
  exact Build.raises_file.of_perm (List.perm_append_singleton math shapes).symm

end Prelude

namespace Resolve

variable {ledger : Ledger} {site : Surroundings} {store : Store}

/-- The file of the built-in declarations joins the files of a program that is kept. -/
instance (root : NodeId) [keeps : ledger.Keeps root] : Tends none ledger (addPrelude root) where
  holds site store holds := by
    unfold addPrelude
    have interned : (reservedNames.forM Source.intern).Ensures store.toSource fun _ source =>
      source.tree = store.tree :=
      Action.ensures_forM rfl fun _ _ _ same => Action.ensures_modify.mpr same
    refine ensures_bind.mpr (ensures_onSource.mpr (interned.weaken fun _ named same => ?_))
    have built : Prelude.extend.Ensures named fun prelude source =>
      ledger.Sows Anything [prelude] source.tree :=
      Action.ensures_zoom.mpr (Prelude.raises_build ledger [] _ (same ▸ holds.sows) _ rfl)
    refine ensures_bind.mpr (ensures_onSource.mpr (built.weaken fun prelude source sows => ?_))
    refine ensures_bind.mpr (ensures_kindOf.mpr fun node stored => ?_)
    split
    case h_2 => exact ensures_throw
    rename_i files isProgram
    refine ensures_bind.mpr (ensures_onTree.mpr (Table.ensures_update.mpr fun _ => ?_))
    refine ensures_bind.mpr (ensures_onTree.mpr (Table.ensures_update.mpr fun _ => .pure ?_))
    refine sows.attach (.program (prelude :: files)) keeps.kept stored (fun id => ?_) ?_ rfl rfl rfl
    · rw [Table.get?_modify, Table.get?_modify]
    · rw [isProgram]
      exact .refl _

end Resolve

end Resolution
