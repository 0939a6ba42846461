import Resolution.Proofs.Manner
import Resolution.Proofs.Surgery

/-!
# Steps that tend the tree

A step tends the tree when the tree is in order after it, whatever the rules around rely on.  Most
steps never touch the tree.  Those that do wrap a kept node, fold nodes to literals, or lift
operands: the operator of a rule becomes a call whose parts are new nodes above the operands.

A step that looks nodes up yields them: it leaves the tree in order, and the nodes it found may be
kept from then on.
-/

namespace Resolution

/-! ## Layouts of trees -/

namespace Tree

def layout (tree : Tree) : Layout where
  kind id := (tree.get? id).map Node.kind
  parent id := (tree.get? id).bind Node.parent

variable {tree after : Tree} {id parent : NodeId} {node : Node} {children : List NodeId}

theorem layout_kind_of_get? (stored : tree.get? id = some node) :
    tree.layout.kind id = some node.kind := by
  simp only [layout, stored, Option.map_some]

theorem isSome_layout_kind : (tree.layout.kind id).isSome = (tree.get? id).isSome := by
  simp only [layout, Option.isSome_map]

theorem layout_kind_next : tree.layout.kind tree.next = none := by
  simp only [layout, Table.get?_next, Option.map_none]

theorem layout_parent_next : tree.layout.parent tree.next = none := by
  simp only [layout, Table.get?_next, Option.bind_none]

theorem exists_get?_of_layout_kind {kind : NodeKind} (known : tree.layout.kind id = some kind) :
    ∃ node, tree.get? id = some node ∧ node.kind = kind :=
  Option.map_eq_some_iff.mp known

theorem layout_modify {change : Node → Node} (kind : ∀ node, (change node).kind = node.kind)
    (parent : ∀ node, (change node).parent = node.parent) :
    Tree.layout (tree.modify id change) = tree.layout := by
  unfold layout
  congr 1
  · funext other
    rw [Table.get?_modify]
    split
    · cases tree.get? other with
      | none => rfl
      | some node => exact congrArg some (kind node)
    · rfl
  · funext other
    rw [Table.get?_modify]
    split
    · cases tree.get? other with
      | none => rfl
      | some node => exact parent node
    · rfl

theorem kind_adopted : (tree.adopted parent children id).map Node.kind =
    (tree.get? id).map Node.kind := by
  unfold adopted
  split
  · cases tree.get? id <;> rfl
  · rfl

theorem parent_adopted (present : ∀ child ∈ children, ∃ node, tree.get? child = some node) :
    (tree.adopted parent children id).bind Node.parent =
      if id ∈ children then some parent else (tree.get? id).bind Node.parent := by
  unfold adopted
  split
  · rename_i listed
    obtain ⟨node, stored⟩ := present id listed
    rw [stored]
    rfl
  · rfl

end Tree

/-! ## Ledgers that hold -/

namespace Ledger

/-- The tree is in order, for some choice of the nodes out of use and of the lines of descent. -/
def Holds (ledger : Ledger) (torn : Option NodeId) (tree : Tree) : Prop :=
  ∃ dead up, Tended ledger torn dead up tree.layout

/-- Keep further nodes. -/
def keep (ledger : Ledger) (nodes : List NodeId) :
    Ledger := ledger.extend (· ∈ nodes) ledger.root []

/-- Keep nodes and take stakes in them. -/
def claim (ledger : Ledger) (host : NodeId) (nodes : List NodeId) :
    Ledger := ledger.extend (· ∈ nodes) host nodes

/-- Keep a new node, with stakes of its host in it and in other nodes. -/
def enter (ledger : Ledger) (id host : NodeId) (others : List NodeId) : Ledger :=
  ledger.extend (· = id) host (id :: others)

/-- The node is kept. -/
class Keeps (ledger : Ledger) (id : NodeId) : Prop where
  kept : ledger.kept id

/-- Different nodes that a host may lift. -/
structure Operands (ledger : Ledger) (host : NodeId) (nodes : List NodeId) : Prop where
  staked : ∀ node ∈ nodes, ledger.stakes ledger.kept host node
  distinct : nodes.Nodup

variable {ledger fewer : Ledger} {torn : Option NodeId} {tree after : Tree} {id host : NodeId}
  {nodes : List NodeId}
  {node : Node}

theorem keep_covers (ledger : Ledger) (nodes : List NodeId) : (ledger.keep nodes).Covers ledger :=
  ledger.extend_covers _ _ _

theorem claim_covers (ledger : Ledger) (host : NodeId) (nodes : List NodeId) :
    (ledger.claim host nodes).Covers ledger :=
  ledger.extend_covers _ _ _

theorem enter_covers (ledger : Ledger) (id host : NodeId) (others : List NodeId) :
    (ledger.enter id host others).Covers ledger :=
  ledger.extend_covers _ _ _

/-- To keep nodes again is nothing new. -/
theorem covers_keep (kept : ∀ id ∈ nodes, ledger.kept id) : ledger.Covers (ledger.keep nodes) where
  root := rfl
  kept id inside := inside.elim (fun inside => inside) (kept id)
  stakes _ _ _ staked := staked.elim (fun staked => staked) nofun

/-- Nodes that were kept one after the other may be kept at once. -/
theorem keep_keep_covers {first second : List NodeId} (listed : ∀ id ∈ nodes, id ∈ first ∨
    id ∈ second) :
    ((ledger.keep first).keep second).Covers (ledger.keep nodes) where
  root := rfl
  kept id inside := by
    rcases inside with kept | inside
    · exact .inl (.inl kept)
    · exact (listed id inside).imp_left .inr
  stakes _ _ _ staked := staked.elim (fun staked => .inl (.inl staked)) nofun

theorem Operands.kept (operands : ledger.Operands host nodes) (listed : id ∈ nodes) :
    ledger.kept id :=
  (ledger.within _ _ _ (operands.staked id listed)).2.2

theorem Operands.perm {others : List NodeId} (operands : ledger.Operands host nodes)
    (same : nodes.Perm others) :
    ledger.Operands host others :=
  ⟨fun node listed => operands.staked node (same.mem_iff.mpr listed),
    same.nodup_iff.mp operands.distinct⟩

theorem claim_operands (kept : ledger.kept host) (distinct : nodes.Nodup) :
    (ledger.claim host nodes).Operands host nodes :=
  ⟨fun _ listed => .inr ⟨rfl, rfl, listed, .inl kept, .inr listed⟩, distinct⟩

variable (holds : ledger.Holds torn tree)

include holds

theorem Holds.weaken (covers : ledger.Covers fewer) : fewer.Holds torn tree := by
  obtain ⟨dead, up, tended⟩ := holds
  exact ⟨dead, up, tended.weaken covers⟩

theorem Holds.of_layout (same : after.layout = tree.layout) : ledger.Holds torn after := by
  obtain ⟨dead, up, tended⟩ := holds
  exact ⟨dead, up, same ▸ tended⟩

/-- Of a node, everything may change that the layout does not show. -/
theorem Holds.modify {change : Node → Node} (kind : ∀ node, (change node).kind = node.kind)
    (parent : ∀ node, (change node).parent = node.parent) :
    ledger.Holds torn (tree.modify id change) :=
  holds.of_layout (Tree.layout_modify kind parent)

theorem Holds.folds {region : NodeId → Prop} {symbols : Symbols}
    (folds : tree.FoldsTo region symbols after) : ledger.Holds torn after := by
  obtain ⟨dead, up, tended⟩ := holds
  refine ⟨dead, up, tended.fade (fun id => ?_) ?_⟩
  · rcases folds id with same | ⟨node, constant, _, stored, _, folded⟩
    · exact .inl (congrArg (Option.map Node.kind) same)
    · refine .inr ⟨by rw [Tree.isSome_layout_kind, stored]; rfl, constant.literal, ?_, ?_, ?_⟩
      · simp only [Tree.layout, folded, Option.map_some, Node.withLiteral]
      · cases constant <;> rfl
      · cases constant <;> rfl
  · funext id
    rcases folds id with same | ⟨node, constant, _, stored, _, folded⟩
    · exact congrArg (Option.bind · Node.parent) same
    · simp only [Tree.layout, folded, stored, Option.bind_some, Node.withLiteral]

omit holds in
theorem Holds.offer (holds : ledger.Holds none tree) (kept : ledger.kept id)
    (stored : tree.get? id = some node) : (ledger.keep node.kind.offered).Holds none tree := by
  obtain ⟨dead, up, tended⟩ := holds
  refine ⟨dead, up, tended.extend (fun child listed => ?_) nofun⟩
  exact tended.live_of_offered (tended.kept id kept).alive (Tree.layout_kind_of_get? stored) listed

omit holds in
theorem Holds.offer_declaration (holds : ledger.Holds none tree) (stored : tree.get? id = some node)
    (declares : node.kind.isDeclaration = true) :
    (ledger.keep node.kind.offered).Holds none tree := by
  obtain ⟨dead, up, tended⟩ := holds
  refine ⟨dead, up, tended.extend (fun child listed => ?_) nofun⟩
  have known := Tree.layout_kind_of_get? stored
  exact tended.live_of_offered (tended.live_of_declaration known declares).alive known listed

omit holds in
theorem Holds.claim (holds : ledger.Holds none tree) (kept : ledger.kept id)
    (stored : tree.get? id = some node) (plain : node.kind.isDeclaration = false) :
    (ledger.claim id node.kind.offered).Holds none tree ∧ node.kind.children.Nodup := by
  obtain ⟨dead, up, tended⟩ := holds
  have alive := (tended.kept id kept).alive
  have known := Tree.layout_kind_of_get? stored
  refine ⟨⟨dead, up, tended.extend (fun child listed => ?_) fun child listed => ?_⟩, ?_⟩
  · exact tended.live_of_offered alive known listed
  · exact tended.stake_child alive known plain (node.kind.offered_subset listed)
  · exact tended.distinct id node.kind known alive nofun

omit holds in
/-- An assignment has stakes in the parts of an element that it assigns, and in the value. -/
theorem Holds.claim_element (holds : ledger.Holds none tree) (kept : ledger.kept id) {entry : Node}
    {left right target place : NodeId} (stored : tree.get? id = some node)
    (assigns : node.kind = .binary .assign left right)
    (found : tree.get? left = some entry) (indexed : entry.kind = .index target place) :
    (ledger.claim id [target, place, right]).Holds none tree ∧ [target, place, right].Nodup := by
  obtain ⟨dead, up, tended⟩ := holds
  have alive := (tended.kept id kept).alive
  have known : tree.layout.kind id = some (.binary .assign left right) :=
    assigns ▸ Tree.layout_kind_of_get? stored
  have element : tree.layout.kind left = some (.index target place) :=
    indexed ▸ Tree.layout_kind_of_get? found
  obtain ⟨unique, apart⟩ := tended.element_distinct alive known element
  have leftAlive := (tended.target_below alive known).1
  have unkept : ¬(ledger.kept left ∨ left ∈ [target, place, right]) := by
    rintro (inside | listed)
    · exact alive ((tended.kept left inside).free _ element rfl id _ known rfl)
    · exact apart listed
  have split {child : NodeId} (listed : child ∈ [target, place, right]) : child ∈ [target, place] ∨
    child = right := by
    simpa [or_assoc] using listed
  refine ⟨⟨dead, up, tended.extend (fun child listed => ?_) fun child listed => ?_⟩, unique⟩
  · rcases split listed with part | rfl
    · exact tended.live_of_offered leftAlive element part
    · exact tended.live_of_offered alive known List.mem_cons_self
  · rcases split listed with part | rfl
    · exact tended.stake_element alive known element unkept part
    · exact tended.stake_child alive known rfl (List.mem_cons_of_mem _ List.mem_cons_self)

omit holds in
/-- Both sides of an assignment may be kept if its target is no indexed element. -/
theorem Holds.keep_assignment (holds : ledger.Holds none tree) (kept : ledger.kept id)
    {left right : NodeId}
    (stored : tree.get? id = some node) (assigns : node.kind = .binary .assign left right)
    (ordinary : ∀ entry, tree.get? left = some entry → entry.kind.isIndex = false) :
    (ledger.keep [left, right]).Holds none tree := by
  obtain ⟨dead, up, tended⟩ := holds
  have alive := (tended.kept id kept).alive
  have known : tree.layout.kind id = some (.binary .assign left right) :=
    assigns ▸ Tree.layout_kind_of_get? stored
  refine ⟨dead, up, tended.extend (fun child listed => ?_) nofun⟩
  rcases List.mem_cons.mp listed with rfl | isRight
  · refine tended.live_target alive known fun kind there => ?_
    obtain ⟨entry, found, rfl⟩ := Tree.exists_get?_of_layout_kind there
    exact ordinary entry found
  · exact tended.live_of_offered alive known isRight

theorem Holds.plain_of_stake {set : NodeId → Prop} {node : NodeId}
    (staked : ledger.stakes set host node) {entry : Node} (stored : tree.get? host = some entry) :
    entry.kind.isDeclaration = false := by
  obtain ⟨dead, up, tended⟩ := holds
  exact (tended.stake set host node staked).plain _ (Tree.layout_kind_of_get? stored)

theorem Holds.ne_of_stake {set : NodeId → Prop} {node : NodeId}
    (staked : ledger.stakes set host node) : node ≠ host := by
  rintro rfl
  obtain ⟨dead, up, tended⟩ := holds
  obtain ⟨subset, kept, _⟩ := ledger.within _ _ _ staked
  exact tended.acyclic node (tended.kept node (subset node kept)).alive
    (tended.stake _ _ _ staked).climbs

end Ledger

/-! ## Rewriting nodes -/

namespace Resolve

variable {ledger : Ledger} {torn : Option NodeId} {site : Surroundings} {store : Store}
  {id host : NodeId}

theorem returns_wrap {make : NodeId → NodeKind} [casing : NodeKind.Casing make]
    (holds : ledger.Holds torn store.tree) (kept : ledger.kept id) (whole : torn ≠ some id) :
    Returns (onTree (Tree.wrap id make)) site store fun _ final =>
    ledger.Holds torn final.tree := by
  obtain ⟨dead, up, tended⟩ := holds
  have live := tended.kept id kept
  have clear (outer : Node) (stored : store.tree.get? id = some outer) : id ∉ outer.kind.children :=
    tended.notMem_children live whole (Tree.layout_kind_of_get? stored)
  refine ensures_onTree.mpr (Tree.ensures_wrap
    (casing.single _) clear fun final outer stored _ lookups => ?_)
  have known : store.tree.layout.kind id = some outer.kind := Tree.layout_kind_of_get? stored
  have present : ∀ child ∈ outer.kind.children, ∃ node, store.tree.get? child = some node :=
    fun child listed => by
    have link := (tended.child id _ known live.alive whole child listed).2.1
    exact Option.isSome_iff_exists.mp (Tree.isSome_layout_kind ▸ (tended.links child id link).1)
  refine ⟨dead, _, tended.wrap live whole known (casing.single _) (casing.plain _)
    (casing.notIndex _) (casing.assigned _)
    Tree.layout_kind_next (fun other => ?_) fun other => ?_⟩
  · simp only [Tree.layout, lookups]
    split
    · rfl
    · split
      · rfl
      · exact Tree.kind_adopted
  · simp only [Tree.layout, lookups]
    split
    · rfl
    · split
      · rename_i same
        subst same
        rw [if_neg (clear outer stored), stored]
        rfl
      · exact Tree.parent_adopted present

/-- When a new node steps over operands of a host and is kept, the host may still lift its other
operands. -/
theorem stake_beside {dead : NodeId → Prop} {up : NodeId → Option NodeId} {layout after : Layout}
    {nodes : List NodeId}
    {fresh node : NodeId} (gathered : Tended ledger (some host) dead up layout)
    (allocated : Tended ledger (some host) dead (parted up nodes fresh host) after)
    (parting : Parting up nodes fresh host)
    (kept : ledger.kept host) (below : ∀ child ∈ nodes, ledger.stakes ledger.kept host child)
    (staked : ledger.stakes ledger.kept host node) (aside : node ∉ nodes)
    (unkept : ¬ledger.kept fresh)
    (plain : after.Plain host) :
    after.Stake (parted up nodes fresh host) (fun id => ledger.kept id ∨ id = fresh) host node := by
  have old : node ≠ fresh := fun same => unkept (same ▸ (ledger.within _ _ _ staked).2.2)
  obtain ⟨_, climbs, between⟩ := allocated.stake _ _ _ staked
  refine ⟨plain, climbs, fun other reached => ?_⟩
  refine (between other reached).imp_right (.imp_right fun passed => ⟨?_, passed.plain⟩)
  rintro (inKept | rfl)
  · exact passed.unkept inKept
  · -- The node would be below an operand, although operands are kept.
    obtain ⟨operand, isOperand, rfl | under⟩ := (parting.climbs_fresh_iff old).mp reached
    · exact aside isOperand
    · have operandClimbs := (gathered.stake _ _ _ (below operand isOperand)).climbs
      have hostClear := gathered.acyclic host (gathered.kept host kept).alive
      rcases (gathered.stake _ _ _ staked).between operand under with rfl | beyond | passedOver
      · exact hostClear operandClimbs
      · exact hostClear (beyond.trans operandClimbs)
      · exact passedOver.unkept (ledger.within _ _ _ (below operand isOperand)).2.2

theorem returns_raise {span : Span} (kind : NodeKind) (others : List NodeId)
    (holds : ledger.Holds torn store.tree) (own : ∀ id, torn = some id → id = host)
    (kept : ledger.kept host)
    (hostPlain : ∀ entry, store.tree.get? host = some entry → entry.kind.isDeclaration = false)
    (operands : ledger.Operands host (kind.children ++ others)) (plain : kind.isDeclaration = false)
    (notIndex : kind.isIndex = false) (assigned : kind.assigned? = none) :
    Returns (alloc kind span) site store fun id final =>
      (ledger.enter id host others).Holds (some host) final.tree ∧
        (ledger.enter id host others).Operands host (id :: others) ∧ ¬ledger.kept id := by
  refine ensures_onTree.mpr (Tree.ensures_alloc fun final _ lookups present => ?_)
  obtain ⟨dead, up, tended⟩ := holds
  have missing : store.tree.layout.kind store.tree.next = none := Tree.layout_kind_next
  have unkept : ¬ledger.kept store.tree.next := fun inside =>
    Tended.ne_of_unstored missing (tended.kept _ inside).isSome rfl
  have below : ∀ node ∈ kind.children, ledger.stakes ledger.kept host node := fun node listed =>
    operands.staked node (List.mem_append_left _ listed)
  have rest : ∀ node ∈ others, ledger.stakes ledger.kept host node := fun node listed =>
    operands.staked node (List.mem_append_right _ listed)
  obtain ⟨unique, othersUnique, apart⟩ := List.nodup_append.mp operands.distinct
  have gathered := tended.gather own kept below
  have links : ∀ node ∈ kind.children, moved up kind.children host node = some host :=
    fun _ listed => moved_of_mem listed
  have inUse (node : NodeId) (listed : node ∈ kind.children) :=
    (gathered.kept node (ledger.within _ _ _ (below node listed)).2.2).alive
  have parting := gathered.parting (gathered.kept host kept).isSome links missing
  have allocated : Tended ledger (some host) _ _ final.layout :=
    gathered.alloc kept (fun node listed => ⟨links node listed, inUse node listed⟩) unique plain
      (fun target isTarget => by rw [assigned] at isTarget; cases isTarget) missing
      (fun id => by
        simp only [Tree.layout, lookups]
        split
        · rfl
        · exact Tree.kind_adopted)
      (fun id => by
        simp only [Tree.layout, lookups]
        split
        · rfl
        · exact Tree.parent_adopted present)
  have here : final.layout.kind store.tree.next = some kind := by
    simp only [Tree.layout, lookups, if_pos, Option.map_some]
  have keepsPlain : final.layout.Plain host := by
    intro sort known
    obtain ⟨entry, found, rfl⟩ := Tree.exists_get?_of_layout_kind known
    rw [lookups, if_neg parting.apart] at found
    have same : (store.tree.adopted store.tree.next kind.children host).map Node.kind =
      (store.tree.get? host).map Node.kind :=
      Tree.kind_adopted
    rw [found] at same
    obtain ⟨earlier, stored, kinds⟩ := Option.map_eq_some_iff.mp same.symm
    exact kinds ▸ hostPlain earlier stored
  refine ⟨⟨_, _, allocated.extend ?_ ?_⟩, ⟨fun node listed => ?_, ?_⟩, unkept⟩
  · rintro _ rfl
    refine ⟨by rw [here]; rfl, fun isDead => ?_, fun sort known isIndex => ?_⟩
    · exact Tended.ne_of_unstored missing (gathered.stored _ isDead) rfl
    · cases here.symm.trans known
      cases notIndex.symm.trans isIndex
  · intro node listed
    rcases List.mem_cons.mp listed with rfl | inside
    · refine ⟨keepsPlain, .single Parting.parted_fresh, fun other reached => ?_⟩
      exact ((Climbs.iff_of_link Parting.parted_fresh).mp reached).imp_right .inl
    · exact stake_beside gathered allocated parting kept below (rest node inside)
        (fun isOperand => apart node isOperand node inside rfl) unkept keepsPlain
  · refine .inr ⟨rfl, rfl, listed, .inl kept, ?_⟩
    rcases List.mem_cons.mp listed with rfl | inside
    · exact .inr rfl
    · exact .inl (ledger.within _ _ _ (rest node inside)).2.2
  · refine List.nodup_cons.mpr ⟨fun listed => ?_, othersUnique⟩
    exact unkept (ledger.within _ _ _ (rest _ listed)).2.2

theorem returns_replace {fewer : Ledger} (kind : NodeKind) (holds : ledger.Holds torn store.tree)
    (own : ∀ id, torn = some id → id = host) (kept : ledger.kept host)
    (operands : ledger.Operands host kind.children)
    (plain : kind.isDeclaration = false) (notIndex : kind.isIndex = false)
    (covers : ledger.Covers fewer)
    (hosted : fewer.kept host) (assigned : ∀ target, kind.assigned? = some target →
      ¬fewer.kept target) :
    Returns (onTree (Tree.replace host kind)) site store fun _ final =>
    fewer.Holds none final.tree := by
  refine ensures_onTree.mpr (Tree.ensures_replace fun final _ lookups present hostStored => ?_)
  obtain ⟨dead, up, tended⟩ := holds
  have gathered := tended.gather own kept operands.staked
  have inUse (node : NodeId) (listed : node ∈ kind.children) :=
    (gathered.kept node (operands.kept listed)).alive
  refine ⟨_, _, (gathered.weaken covers).rewrite hosted (fun node listed =>
    ⟨moved_of_mem listed, inUse node listed⟩)
    operands.distinct plain notIndex assigned (fun id => ?_) fun id => ?_⟩
  · simp only [Tree.layout, lookups]
    split
    · rename_i same
      subst same
      obtain ⟨node, stored⟩ := hostStored
      rw [Option.map_map, Tree.adopted, stored]
      split <;> rfl
    · exact Tree.kind_adopted
  · simp only [Tree.layout, lookups]
    rw [← Tree.parent_adopted present]
    split
    · cases store.tree.adopted host kind.children id <;> rfl
    · rfl

/-! ## Steps -/

variable {α β : Type} {step : Resolve α} {next : α → Resolve β} {nodes : α → List NodeId}

/-- The step leaves the tree in order. -/
class Tends (torn : Option NodeId) (ledger : Ledger) (step : Resolve α) : Prop where
  holds : ∀ site store, ledger.Holds torn store.tree →
    Returns step site store fun _ final => ledger.Holds torn final.tree

instance (priority := low) tends_of_looks [looks : Looks step] : Tends torn ledger step where
  holds site store holds := (looks.unchanged site store).weaken fun _ _ same => same ▸ holds

instance {fault : Fault} : Tends torn ledger (throw fault : Resolve α) :=
  ⟨fun _ _ _ => ensures_throw⟩

instance {diagnostic : Diagnostic} {asked : Bool → Bool} {fits} :
    Tends torn ledger (emit diagnostic asked fits) :=
  ⟨fun _ _ holds => runs_report.mpr fun _ => holds⟩

theorem returns_tended {post : β → Store → Prop} [tends : Tends torn ledger step]
    (holds : ledger.Holds torn store.tree)
    (rest : ∀ value middle, ledger.Holds torn middle.tree → Returns (next value) site middle post) :
    Returns (step >>= next) site store post :=
  (tends.holds site store holds).bind rest

theorem tends_bind (first : Tends torn ledger step)
    (rest : ∀ value, Tends torn ledger (next value)) : Tends torn ledger (step >>= next) where
  holds site _ holds := returns_tended holds fun value middle held =>
    (rest value).holds site middle held

theorem Tends.after [first : Tends torn ledger step]
    (rest : ∀ value, Tends torn ledger (next value)) : Tends torn ledger (step >>= next) :=
  tends_bind first rest

instance [first : Tends torn ledger step]
    [rest : ∀ value, Tends torn ledger (next value)] : Tends torn ledger (step >>= next) :=
  tends_bind first rest

instance {condition : Prop} [Decidable condition] {yes no : Resolve α}
    [first : Tends torn ledger yes]
    [second : Tends torn ledger no] : Tends torn ledger (if condition then yes else no) := by
  split
  · exact first
  · exact second

theorem tends_forM {step : α → Resolve PUnit} {items : List α}
    (each : ∀ item ∈ items, Tends torn ledger (step item)) :
    Tends torn ledger (items.forM step) := by
  induction items with
  | nil => exact inferInstanceAs (Tends torn ledger (pure PUnit.unit))
  | cons item rest ih =>
    exact tends_bind (each item List.mem_cons_self) fun _ =>
      ih fun other listed => each other (List.mem_cons_of_mem _ listed)

theorem tends_mapM {step : α → Resolve β} {items : List α}
    (each : ∀ item ∈ items, Tends torn ledger (step item)) :
    Tends torn ledger (items.mapM step) := by
  induction items with
  | nil => exact inferInstanceAs (Tends torn ledger (pure []))
  | cons item rest ih =>
    rw [List.mapM_cons]
    have here := each item List.mem_cons_self
    have there := ih fun other listed => each other (List.mem_cons_of_mem _ listed)
    infer_instance

instance {step : α → Resolve PUnit} {items : List α}
    [each : ∀ item, Tends torn ledger (step item)] :
    Tends torn ledger (items.forM step) :=
  tends_forM fun item _ => each item

instance {step : α → Resolve β} {items : List α} [each : ∀ item, Tends torn ledger (step item)] :
    Tends torn ledger (items.mapM step) :=
  tends_mapM fun item _ => each item

theorem tends_withContext {change : Context → Context} (tends : Tends torn ledger step) :
    Tends torn ledger (withContext change step) :=
  ⟨fun site store holds => tends.holds { site with toContext := change site.toContext } store holds⟩

instance {context : Context} [tends : Tends torn ledger step] :
    Tends torn ledger (inContext context step) :=
  tends_withContext tends

instance {scope : ScopeId} [tends : Tends torn ledger step] :
    Tends torn ledger (inScope scope step) :=
  tends_withContext tends

instance {id : SymbolId} [tends : Tends torn ledger step] :
    Tends torn ledger (whileActive id step) :=
  ⟨fun site store holds => tends.holds { site with active := id :: site.active } store holds⟩

instance {math : Option TypeId} [tends : Tends torn ledger step] :
    Tends torn ledger (withMath math step) :=
  ⟨fun site store holds => tends.holds { site with math } store holds⟩

instance tends_deeper {refused : Resolve α} [first : Tends torn ledger refused]
    [second : Tends torn ledger step] :
    Tends torn ledger (deeper refused step) := by
  refine ⟨fun site store holds => ?_⟩
  unfold Returns Runs deeper
  dsimp only
  split
  · exact second.holds { site with depth := site.depth + 1 } store holds
  · exact first.holds site store holds

instance {action : Action Symbols α} : Tends torn ledger (onSymbols action) :=
  ⟨fun _ _ holds => ensures_onSymbols.mpr fun _ _ _ => holds⟩

instance {id : SymbolId} {change : Symbol → Symbol} : Tends torn ledger (updateSymbol id change) :=
  ⟨fun _ _ holds => ensures_onSymbols.mpr fun _ _ _ => holds⟩

instance {action : Action Types α} : Tends torn ledger (onTypes action) :=
  ⟨fun _ _ holds => ensures_onTypes.mpr fun _ _ _ => holds⟩

instance {action : Action Scopes α} : Tends torn ledger (onScopes action) :=
  ⟨fun _ _ holds => ensures_onScopes.mpr fun _ _ _ => holds⟩

instance {action : Action Environment α} : Tends torn ledger (onNames action) :=
  ⟨fun _ _ holds => ensures_onNames.mpr fun _ _ _ => holds⟩

instance {cyclic : Store → List SymbolId} :
    Tends torn ledger (modify fun store => { store with cyclic := cyclic store }) :=
  ⟨fun _ _ holds => ensures_modify.mpr holds⟩

instance {entryPoint : Option SymbolId} :
    Tends torn ledger (modify fun store => { store with entryPoint }) :=
  ⟨fun _ _ holds => ensures_modify.mpr holds⟩

/-- Of a node, everything but its content and its parent may change. -/
instance tends_updateNode {span : Node → Span} {sibling : Node → Option NodeId}
    {type : Node → Option TypeId}
    {symbol : Node → Option SymbolId} : Tends torn ledger (onTree (Table.update id fun node =>
      ⟨node.kind, span node, node.parent, sibling node, type node, symbol node⟩)) :=
  ⟨fun _ _ holds => ensures_onTree.mpr (Table.ensures_update.mpr fun _ =>
    holds.modify (fun _ => rfl) fun _ => rfl)⟩

instance {type : TypeId} : Tends torn ledger (setType id type) := by
  unfold setType
  infer_instance

instance {symbol : Option SymbolId} : Tends torn ledger (setSymbol id symbol) := by
  unfold setSymbol
  infer_instance

instance : Tends torn ledger (fold id) where
  holds site store holds := by
    refine ensures_bind.mpr (ensures_read.mpr ?_)
    split
    · refine ensures_bind.mpr (ensures_get.mpr (ensures_onSource.mpr fun answer source run => ?_))
      have folded : store.tree.FoldsTo (fun _ => True) store.symbols source.tree :=
        Source.ensures_fold trivial (fun _ _ _ _ _ _ => trivial) answer source run
      exact holds.folds folded
    · exact .pure holds

theorem tends_wrap {make : NodeId → NodeKind} [NodeKind.Casing make] (kept : ledger.kept id)
    (whole : torn ≠ some id) : Tends torn ledger (onTree (Tree.wrap id make)) :=
  ⟨fun _ _ holds => returns_wrap holds kept whole⟩

/-! ## Finding nodes -/

/-- The step leaves the tree in order, and the nodes that belong to its answer may be kept. -/
def Yields (ledger : Ledger) (step : Resolve α) (nodes : α → List NodeId) : Prop :=
  ∀ site store, ledger.Holds none store.tree →
    Returns step site store fun value final => (ledger.keep (nodes value)).Holds none final.tree

theorem Yields.tends (yields : Yields ledger step nodes)
    (rest : ∀ value, Tends none (ledger.keep (nodes value)) (next value)) :
    Tends none ledger (step >>= next) where
  holds site store holds :=
    (yields site store holds).bind fun value middle held =>
      ((rest value).holds site middle held).weaken fun _ _ holds =>
        holds.weaken (ledger.keep_covers _)

theorem Yields.bind {more : β → List NodeId}
    (yields : Yields ledger step nodes) (rest : ∀ value, Yields (ledger.keep (nodes value))
      (next value) more) :
    Yields ledger (step >>= next) more := fun site store holds =>
  (yields site store holds).bind fun value middle held =>
    (rest value site middle held).weaken fun _ _ holds =>
      holds.weaken (Ledger.keep_keep_covers fun _ listed => .inr listed)

theorem yields_after {nodes : β → List NodeId} [Tends none ledger step]
    (rest : ∀ value, Yields ledger (next value) nodes) : Yields ledger (step >>= next) nodes :=
  fun site _ holds => returns_tended holds fun value middle held => rest value site middle held

theorem yields_pure {value : α} (kept : ∀ id ∈ nodes value, ledger.kept id) :
    Yields ledger (pure value) nodes :=
  fun _ _ holds => .pure (holds.weaken (Ledger.covers_keep kept))

theorem yields_throw {fault : Fault} : Yields ledger (throw fault) nodes :=
  fun _ _ _ => ensures_throw

theorem yields_mapM {step : α → Resolve β} {items : List α} {nodes : β → List NodeId}
    (each : ∀ item ∈ items, ∀ kept, Yields (ledger.keep kept) (step item) nodes) :
    Yields ledger (items.mapM step) fun values => values.flatMap nodes := by
  have gather (kept : List NodeId) : Yields (ledger.keep kept) (items.mapM step) fun values =>
    values.flatMap nodes := by
    induction items generalizing kept with
    | nil => exact yields_pure nofun
    | cons item rest ih =>
      rw [List.mapM_cons]
      intro site store holds
      refine (each item List.mem_cons_self kept site store holds).bind fun value middle held => ?_
      have both : (ledger.keep (kept ++ nodes value)).Holds none middle.tree :=
        held.weaken (Ledger.keep_keep_covers fun _ listed => List.mem_append.mp listed)
      have after := ih (fun other listed => each other (List.mem_cons_of_mem _ listed))
        (kept ++ nodes value)
      refine (after site middle both).bind fun values final holds => .pure ?_
      refine Ledger.Holds.weaken holds ⟨rfl, ?_, fun _ _ _ staked => ?_⟩
      · rintro id ((inside | inside) | inside)
        · exact .inl (.inl inside)
        · exact .inl (.inr (List.mem_append_left _ inside))
        · have found : id ∈ nodes value ++ values.flatMap nodes := inside
          exact (List.mem_append.mp found).imp_left fun inside =>
            .inr (List.mem_append_right _ inside)
      · exact staked.elim (fun staked => staked.elim (fun staked => .inl (.inl staked)) nofun) nofun
  intro site store holds
  have start := gather [] site store (holds.weaken (Ledger.covers_keep nofun))
  exact start.weaken fun _ _ holds => holds.weaken (Ledger.keep_keep_covers fun _ listed =>
    .inr listed)

theorem returns_node {post : Node → Store → Prop}
    (holds : ∀ node, store.tree.get? id = some node → post node store) :
    Returns (node id) site store post :=
  ensures_ask.mpr fun node fetched => holds node ((Table.fetch_eq_ok_iff ..).mp fetched)

theorem yields_node (kept : ledger.kept id) : Yields ledger (node id) fun node =>
    node.kind.offered :=
  fun _ _ holds => returns_node fun _ stored => holds.offer kept stored

theorem yields_kindOf (kept : ledger.kept id) : Yields ledger (kindOf id) NodeKind.offered :=
  (yields_node kept).bind fun _ => yields_pure fun _ listed => .inr listed

/-- A declaration leads to its parts, whether it is kept or not. -/
theorem yields_declaration (id : NodeId) : Yields ledger (kindOf id) NodeKind.declared := by
  intro site store holds
  refine ensures_bind.mpr (returns_node fun node stored => .pure ?_)
  unfold NodeKind.declared
  split
  · rename_i declares
    exact NodeKind.offered_of_declaration declares ▸ holds.offer_declaration stored declares
  · exact holds.weaken (Ledger.covers_keep nofun)

theorem yields_blockStatements (kept : ledger.kept id) :
    Yields ledger (blockStatements id) fun statements => statements := by
  refine (yields_kindOf kept).bind fun kind => ?_
  split
  · exact yields_pure fun _ listed => .inr listed
  · exact yields_throw

end Resolve
end Resolution
