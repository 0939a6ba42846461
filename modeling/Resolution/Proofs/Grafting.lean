import Resolution.Proofs.Lineage
import Resolution.Session

/-!
# Trees under change

The rules of a resolution rewrite the tree while other rules hold on to nodes of it.  What they may
rely on is kept in a ledger: nodes that stay in use, and stakes.  A rule has a stake in a node below
its own when nothing that others rely on stands between the two, so that the rule may lift that node
up to its own.

`Tended` says that the tree is in order: every node in use is the parent of its children.  It is
relative to lines of descent, which follow the parent links of the nodes in use, and to the nodes
that fell out of use.  Declarations never do, so that symbols may lead to them at any time.
-/

namespace Resolution

namespace NodeKind

variable {kind : NodeKind}

/-- Whether the node is an indexed element. -/
def isIndex : NodeKind → Bool
  | .index _ _ => true
  | _ => false

/-- Target of a plain assignment. -/
def assigned? : NodeKind → Option NodeId
  | .binary .assign target _ => some target
  | _ => none

/-- Children that may be resolved on their own; an assignment looks into its target first. -/
def offered (kind : NodeKind) : List NodeId :=
  match kind with
  | .binary .assign _ value => [value]
  | _ => kind.children

theorem offered_subset (kind : NodeKind) : kind.offered ⊆ kind.children := by
  unfold offered
  split
  · intro child listed
    exact List.mem_cons_of_mem _ listed
  · exact List.Subset.refl _

theorem offered_of_declaration (declares : kind.isDeclaration = true) :
    kind.offered = kind.children := by
  unfold offered
  split
  · cases declares
  · rfl

/-- Parts that a node leads to wherever it is: those of a declaration. -/
def declared (kind : NodeKind) : List NodeId := if kind.isDeclaration then kind.children else []

theorem mem_children_of_assigned? {target : NodeId} (assigned : kind.assigned? = some target) :
    target ∈ kind.children := by
  unfold assigned? at assigned
  split at assigned
  · cases assigned
    exact List.mem_cons_self
  · cases assigned

theorem isIndex_of_leaf (leaf : kind.children = []) : kind.isIndex = false := by
  unfold isIndex
  split
  · cases leaf
  · rfl

theorem isIndex_of_isDeclaration (declares : kind.isDeclaration = true) : kind.isIndex = false := by
  unfold isIndex
  split
  · cases declares
  · rfl

end NodeKind

/-! ## Layouts -/

/-- What counts for the shape of a tree: the sorts of nodes and their parents. -/
structure Layout where
  kind : NodeId → Option NodeKind
  parent : NodeId → Option NodeId

namespace Layout

/-- The node declares nothing. -/
def Plain (layout : Layout) (id : NodeId) : Prop := ∀ kind, layout.kind id = some kind →
    kind.isDeclaration = false

/-- A node in use that no assignment claims as its target. -/
structure Live (layout : Layout) (dead : NodeId → Prop) (id : NodeId) : Prop where
  isSome : (layout.kind id).isSome
  alive : ¬dead id
  free : ∀ kind, layout.kind id = some kind → kind.isIndex = true →
    ∀ node other, layout.kind node = some other → other.assigned? = some id → dead node

/-- A node that may be passed over: nobody relies on it. -/
structure Passed (layout : Layout) (kept : NodeId → Prop) (id : NodeId) : Prop where
  unkept : ¬kept id
  plain : layout.Plain id

/-- A host may lift a node that is below it: what stands between the two may be passed over. -/
structure Stake (layout : Layout) (up : NodeId → Option NodeId) (kept : NodeId → Prop)
    (host node : NodeId) : Prop where
  plain : layout.Plain host
  climbs : Climbs up node host
  between : ∀ other, Climbs up node other → other = host ∨ Climbs up host other ∨
    layout.Passed kept other

theorem Passed.of_subset {layout : Layout} {kept fewer : NodeId → Prop} {id : NodeId}
    (passed : layout.Passed kept id)
    (subset : ∀ id, fewer id → kept id) : layout.Passed fewer id :=
  ⟨fun inside => passed.unkept (subset id inside), passed.plain⟩

/-- One node gets a sort, be it a new node or not; the others keep theirs. -/
def Recasts (layout after : Layout) (host : NodeId) (kind : NodeKind) : Prop :=
  ∀ id, after.kind id = if id = host then some kind else layout.kind id

namespace Recasts

variable {layout after : Layout} {host id : NodeId} {kind sort : NodeKind}

variable (recasts : layout.Recasts after host kind)

include recasts

theorem here : after.kind host = some kind := (recasts host).trans (if_pos rfl)

theorem keeps (other : id ≠ host) : after.kind id = layout.kind id :=
  (recasts id).trans (if_neg other)

theorem isSome (stored : (layout.kind id).isSome) : (after.kind id).isSome := by
  by_cases same : id = host
  · subst same
    rw [recasts.here]
    rfl
  · rwa [recasts.keeps same]

theorem plain (isPlain : layout.Plain id)
    (hostPlain : id = host → kind.isDeclaration = false) : after.Plain id := by
  intro sort known
  by_cases same : id = host
  · subst same
    cases recasts.here.symm.trans known
    exact hostPlain rfl
  · exact isPlain sort (recasts.keeps same ▸ known)

/-- An indexed element was one before, unless it is the node with the new sort. -/
theorem index (known : after.kind id = some sort)
    (isIndex : sort.isIndex = true) (notIndex : id = host → kind.isIndex = false) :
    layout.kind id = some sort := by
  by_cases same : id = host
  · subst same
    cases recasts.here.symm.trans known
    rw [notIndex rfl] at isIndex
    cases isIndex
  · exact recasts.keeps same ▸ known

end Recasts

end Layout

/-- What the rules in progress rely on: nodes that are kept, and stakes, each with the nodes that
were kept when it was taken. -/
structure Ledger where
  root : NodeId
  kept : NodeId → Prop
  stakes : (NodeId → Prop) → NodeId → NodeId → Prop
  within : ∀ set host node, stakes set host node → (∀ id, set id → kept id) ∧ set host ∧ set node

/-- Keep further nodes, and take stakes of a host. -/
def Ledger.extend (ledger : Ledger) (more : NodeId → Prop) (host : NodeId) (nodes : List NodeId) :
    Ledger where
  root := ledger.root
  kept id := ledger.kept id ∨ more id
  stakes set above node := ledger.stakes set above node ∨
    (set = (fun id => ledger.kept id ∨ more id) ∧ above = host ∧ node ∈ nodes ∧ set host ∧ set node)
  within set above node staked := by
    rcases staked with staked | ⟨rfl, rfl, _, hosted, noted⟩
    · obtain ⟨subset, hosted, noted⟩ := ledger.within set above node staked
      exact ⟨fun id inside => .inl (subset id inside), hosted, noted⟩
    · exact ⟨fun _ inside => inside, hosted, noted⟩

/-- One ledger has all that another one has. -/
structure Ledger.Covers (ledger fewer : Ledger) : Prop where
  root : fewer.root = ledger.root
  kept : ∀ id, fewer.kept id → ledger.kept id
  stakes : ∀ set host node, fewer.stakes set host node → ledger.stakes set host node

theorem Ledger.Covers.refl (ledger : Ledger) :
    ledger.Covers ledger := ⟨rfl, fun _ kept => kept, fun _ _ _ staked => staked⟩

theorem Ledger.Covers.trans {first second third : Ledger} (one : first.Covers second)
    (two : second.Covers third) :
    first.Covers third where
  root := two.root.trans one.root
  kept id kept := one.kept id (two.kept id kept)
  stakes set host node staked := one.stakes set host node (two.stakes set host node staked)

theorem Ledger.extend_covers (ledger : Ledger) (more : NodeId → Prop) (host : NodeId)
    (nodes : List NodeId) :
    (ledger.extend more host nodes).Covers ledger :=
  ⟨rfl, fun _ kept => .inl kept, fun _ _ _ staked => .inl staked⟩

/-- The tree is in order.  While the children of one node are moved, that node is torn and may be
out of order. -/
structure Tended (ledger : Ledger) (torn : Option NodeId) (dead : NodeId → Prop) (up : NodeId →
    Option NodeId)
    (layout : Layout) : Prop where
  child : ∀ id kind, layout.kind id = some kind → ¬dead id → torn ≠ some id →
    ∀ child ∈ kind.children, ¬dead child ∧ up child = some id ∧ layout.parent child = some id
  distinct : ∀ id kind, layout.kind id = some kind → ¬dead id → torn ≠ some id → kind.children.Nodup
  acyclic : ∀ id, ¬dead id → ¬Climbs up id id
  links : ∀ id above, up id = some above → (layout.kind id).isSome ∧ (layout.kind above).isSome
  stored : ∀ id, dead id → (layout.kind id).isSome
  buried : ∀ id, dead id → layout.Plain id
  root : (layout.kind ledger.root).isSome ∧ ¬dead ledger.root ∧ layout.parent ledger.root = none ∧
    up ledger.root = none
  kept : ∀ id, ledger.kept id → layout.Live dead id
  stake : ∀ set host node, ledger.stakes set host node → layout.Stake up set host node

namespace Tended

variable {ledger : Ledger} {torn : Option NodeId} {dead : NodeId → Prop}
  {up : NodeId → Option NodeId}
  {layout after : Layout} {id host : NodeId} {kind : NodeKind} {nodes : List NodeId}
  {child : NodeId}

/-- Declarations stay in use. -/
theorem live_of_declaration (tended : Tended ledger torn dead up layout)
    (stored : layout.kind id = some kind) (declares : kind.isDeclaration = true) :
    layout.Live dead id where
  isSome := by rw [stored]; rfl
  alive isDead := by
    rw [tended.buried id isDead kind stored] at declares
    cases declares
  free other known isIndex := by
    cases stored.symm.trans known
    rw [NodeKind.isIndex_of_isDeclaration declares] at isIndex
    cases isIndex

/-- What a node in order offers is in use. -/
theorem live_of_offered (tended : Tended ledger none dead up layout)
    (alive : ¬dead id) (stored : layout.kind id = some kind) (offered : child ∈ kind.offered) :
    layout.Live dead child := by
  have listed := kind.offered_subset offered
  obtain ⟨childAlive, link, _⟩ := tended.child id kind stored alive nofun child listed
  refine ⟨(tended.links child id link).1, childAlive,
    fun sort known isIndex node other there assigned => ?_⟩
  refine Classical.byContradiction fun inUse => ?_
  have target := NodeKind.mem_children_of_assigned? assigned
  obtain ⟨_, above, _⟩ := tended.child node other there inUse nofun child target
  cases link.symm.trans above
  cases stored.symm.trans there
  -- The target of an assignment is not offered.
  have unique := tended.distinct id kind stored alive nofun
  unfold NodeKind.assigned? at assigned
  split at assigned
  · cases assigned
    have same : child = _ := List.mem_singleton.mp offered
    subst same
    simp [NodeKind.children] at unique
  · cases assigned

theorem weaken {fewer : Ledger} (tended : Tended ledger torn dead up layout)
    (covers : ledger.Covers fewer) :
    Tended fewer torn dead up layout :=
  { tended with
    root := covers.root ▸ tended.root
    kept := fun id inside => tended.kept id (covers.kept id inside)
    stake := fun set host node staked =>
      tended.stake set host node (covers.stakes set host node staked) }

theorem extend {more : NodeId → Prop} (tended : Tended ledger torn dead up layout)
    (live : ∀ id, more id → layout.Live dead id)
    (staked : ∀ node ∈ nodes, layout.Stake up (fun id => ledger.kept id ∨ more id) host node) :
    Tended (ledger.extend more host nodes) torn dead up layout := by
  refine { tended with
    kept := fun id inside => inside.elim (tended.kept id) (live id)
    stake := fun set above node taken => ?_ }
  rcases taken with taken | ⟨rfl, rfl, listed, _, _⟩
  · exact tended.stake set above node taken
  · exact staked node listed

theorem stake_child (tended : Tended ledger none dead up layout) {kept : NodeId → Prop}
    (alive : ¬dead id) (stored : layout.kind id = some kind)
    (plain : kind.isDeclaration = false) (listed : child ∈ kind.children) :
    layout.Stake up kept id child := by
  obtain ⟨_, link, _⟩ := tended.child id kind stored alive nofun child listed
  refine ⟨fun other known => ?_, .single link, fun other climbs => ?_⟩
  · cases stored.symm.trans known
    exact plain
  · exact ((Climbs.iff_of_link link).mp climbs).imp_right .inl

section Assignment

variable {id left right : NodeId} {target place : NodeId}

variable (tended : Tended ledger none dead up layout)

include tended

theorem target_below (alive : ¬dead id)
    (stored : layout.kind id = some (.binary .assign left right)) :
    ¬dead left ∧ up left = some id := by
  obtain ⟨leftAlive, link, _⟩ := tended.child id _ stored alive nofun left List.mem_cons_self
  exact ⟨leftAlive, link⟩

/-- The target of an assignment in use may be kept if it is no indexed element. -/
theorem live_target (alive : ¬dead id)
    (stored : layout.kind id = some (.binary .assign left right))
    (ordinary : ∀ kind, layout.kind left = some kind → kind.isIndex = false) :
    layout.Live dead left := by
  obtain ⟨leftAlive, link⟩ := tended.target_below alive stored
  refine ⟨(tended.links left id link).1, leftAlive, fun kind known isIndex => ?_⟩
  rw [ordinary kind known] at isIndex
  cases isIndex

/-- The parts of an element that is assigned, and the value, are different nodes. -/
theorem element_distinct (alive : ¬dead id)
    (stored : layout.kind id = some (.binary .assign left right))
    (indexed : layout.kind left = some (.index target place)) :
    [target, place, right].Nodup ∧ left ∉ [target, place, right] := by
  obtain ⟨leftAlive, link⟩ := tended.target_below alive stored
  obtain ⟨_, rightLink, _⟩ := tended.child id _ stored alive nofun right
    (List.mem_cons_of_mem _ List.mem_cons_self)
  have part {node : NodeId} (listed : node ∈ [target, place]) : up node = some left :=
    (tended.child left _ indexed leftAlive nofun node listed).2.1
  have clear := tended.acyclic left leftAlive
  have below {node : NodeId} (listed : node ∈ [target, place]) : node ≠ right ∧ node ≠ left := by
    refine ⟨fun same => ?_, fun same => clear (.single (same ▸ part listed))⟩
    cases (same ▸ part listed).symm.trans rightLink
    exact clear (.single link)
  have unique : [left, right].Nodup := tended.distinct id _ stored alive nofun
  have parts : [target, place].Nodup := tended.distinct left _ indexed leftAlive nofun
  obtain ⟨targetRight, targetLeft⟩ := below List.mem_cons_self
  obtain ⟨placeRight, placeLeft⟩ := below (List.mem_cons_of_mem _ List.mem_cons_self)
  simp only [List.nodup_cons, List.mem_cons, List.not_mem_nil, or_false, not_or, List.nodup_nil,
    and_true, not_false_eq_true]
    at unique parts ⊢
  exact ⟨⟨⟨parts, targetRight⟩, placeRight⟩, targetLeft.symm, placeLeft.symm, unique⟩

theorem stake_element {kept : NodeId → Prop} {node : NodeId}
    (alive : ¬dead id) (stored : layout.kind id = some (.binary .assign left right))
    (indexed : layout.kind left = some (.index target place)) (unkept : ¬kept left)
    (listed : node ∈ [target, place]) :
    layout.Stake up kept id node := by
  obtain ⟨leftAlive, link⟩ := tended.target_below alive stored
  have part : up node = some left := (tended.child left _ indexed leftAlive nofun node listed).2.1
  refine ⟨fun kind known => ?_, .further part (.single link), fun other climbs => ?_⟩
  · cases stored.symm.trans known
    rfl
  · rcases (Climbs.iff_of_link part).mp climbs with rfl | beyond
    · refine .inr (.inr ⟨unkept, fun kind known => ?_⟩)
      cases indexed.symm.trans known
      rfl
    · exact ((Climbs.iff_of_link link).mp beyond).imp_right .inl

end Assignment

/-! ## Changes of single nodes -/

/-- Some nodes become leaves. -/
theorem fade (tended : Tended ledger torn dead up layout)
    (kinds : ∀ id, after.kind id = layout.kind id ∨ (layout.kind id).isSome ∧
      ∃ leaf, after.kind id = some leaf ∧
      leaf.children = [] ∧ leaf.isDeclaration = false)
    (parents : after.parent = layout.parent) : Tended ledger torn dead up after := by
  have isSome (id : NodeId) (stored : (layout.kind id).isSome) : (after.kind id).isSome := by
    rcases kinds id with same | ⟨_, leaf, faded, _⟩
    · rwa [same]
    · rw [faded]; rfl
  have plain (id : NodeId) (plain : layout.Plain id) : after.Plain id := by
    intro kind known
    rcases kinds id with same | ⟨_, leaf, faded, _, declares⟩
    · exact plain kind (same ▸ known)
    · cases faded.symm.trans known
      exact declares
  have isIndex (id : NodeId) (kind : NodeKind) (known : after.kind id = some kind)
    (isIndex : kind.isIndex = true) :
      layout.kind id = some kind := by
    rcases kinds id with same | ⟨_, leaf, faded, empty, _⟩
    · exact same ▸ known
    · cases faded.symm.trans known
      rw [NodeKind.isIndex_of_leaf empty] at isIndex
      cases isIndex
  have children (id : NodeId) (kind : NodeKind) (known : after.kind id = some kind) (child : NodeId)
      (listed : child ∈ kind.children) : layout.kind id = some kind := by
    rcases kinds id with same | ⟨_, leaf, faded, empty, _⟩
    · exact same ▸ known
    · cases faded.symm.trans known
      rw [empty] at listed
      cases listed
  exact
    { child := fun id kind known alive whole child listed => by
        rw [parents]
        exact tended.child id kind (children id kind known child listed) alive whole child listed
      distinct := fun id kind known alive whole => by
        rcases kinds id with same | ⟨_, leaf, faded, empty, _⟩
        · exact tended.distinct id kind (same ▸ known) alive whole
        · cases faded.symm.trans known
          rw [empty]
          exact List.nodup_nil
      acyclic := tended.acyclic
      links := fun id above link => (tended.links id above link).imp (isSome id) (isSome above)
      stored := fun id isDead => isSome id (tended.stored id isDead)
      buried := fun id isDead => plain id (tended.buried id isDead)
      root := by
        obtain ⟨stored, alive, parent, top⟩ := tended.root
        exact ⟨isSome _ stored, alive, parents ▸ parent, top⟩
      kept := fun id inside => by
        obtain ⟨stored, alive, free⟩ := tended.kept id inside
        refine ⟨isSome id stored, alive, fun kind known tested node other there assigned => ?_⟩
        exact free kind (isIndex id kind known tested) tested node other
          (children node other there id (NodeKind.mem_children_of_assigned? assigned)) assigned
      stake := fun set host node staked => by
        obtain ⟨hostPlain, climbs, between⟩ := tended.stake set host node staked
        refine ⟨plain host hostPlain, climbs, fun other reached => ?_⟩
        exact (between other reached).imp_right (.imp_right fun passed =>
          ⟨passed.unkept, plain other passed.plain⟩) }

/-! ## Lifting nodes -/

/-- The node stands between a host and one of some nodes below it. -/
def Between (up : NodeId → Option NodeId) (nodes : List NodeId) (host id : NodeId) : Prop :=
  ∃ node ∈ nodes, Climbs up node id ∧ Climbs up id host

theorem passed_of_between (tended : Tended ledger torn dead up layout)
    (kept : ledger.kept host) (staked : ∀ node ∈ nodes, ledger.stakes ledger.kept host node)
    (between : Between up nodes host id) : layout.Passed ledger.kept id := by
  obtain ⟨node, listed, below, climbs⟩ := between
  have clear := tended.acyclic host (tended.kept host kept).alive
  rcases (tended.stake _ _ _ (staked node listed)).between id below with rfl | beyond | passed
  · exact absurd climbs clear
  · exact absurd (beyond.trans climbs) clear
  · exact passed

theorem gather (tended : Tended ledger torn dead up layout)
    (own : ∀ id, torn = some id → id = host) (kept : ledger.kept host)
    (staked : ∀ node ∈ nodes, ledger.stakes ledger.kept host node) :
    Tended ledger (some host) (fun id => dead id ∨ Between up nodes host id)
    (moved up nodes host) layout := by
  have live := tended.kept host kept
  have clear := tended.acyclic host live.alive
  have below : ∀ node ∈ nodes, Climbs up node host := fun node listed =>
    (tended.stake _ _ _ (staked node listed)).climbs
  have nodeKept : ∀ node ∈ nodes, ledger.kept node := fun node listed =>
    (ledger.within _ _ _ (staked node listed)).2.2
  have passed {id : NodeId} (between : Between up nodes host id) : layout.Passed ledger.kept id :=
    tended.passed_of_between kept staked between
  have start {id above : NodeId} (climbs : Climbs up id above) : (layout.kind id).isSome ∧
    up id ≠ none := by
    cases climbs with
    | single link => exact ⟨(tended.links _ _ link).1, by rw [link]; nofun⟩
    | further link _ => exact ⟨(tended.links _ _ link).1, by rw [link]; nofun⟩
  refine
    { child := fun id kind known alive whole child listed => ?_
      distinct := fun id kind known alive whole =>
        tended.distinct id kind known (fun isDead => alive (.inl isDead)) fun isTorn =>
          whole (own id isTorn ▸ rfl)
      acyclic := fun id alive climbs =>
        tended.acyclic id (fun isDead => alive (.inl isDead)) (climbs.of_moved below)
      links := fun id above link => ?_
      stored := fun id isDead => ?_
      buried := fun id isDead => isDead.elim (tended.buried id) fun between =>
        (passed between).plain
      root := ?_
      kept := fun id inside => ?_
      stake := fun set above node taken => ?_ }
  · have isTorn : torn ≠ some id := fun isTorn => whole (own id isTorn ▸ rfl)
    obtain ⟨childAlive, link, parent⟩ :=
      tended.child id kind known (fun isDead => alive (.inl isDead)) isTorn child listed
    -- A child that is lifted, or passed over, would have its parent passed over too.
    have stays {node : NodeId} (inside : node ∈ nodes) (reached : node = child ∨
      Climbs up node child)
        (climbs : Climbs up child host) : False := by
      rcases (Climbs.iff_of_link link).mp climbs with rfl | further
      · exact whole rfl
      · refine alive (.inr ⟨node, inside, ?_, further⟩)
        rcases reached with rfl | reached
        · exact .single link
        · exact reached.trans (.single link)
    refine ⟨?_, ?_, parent⟩
    · rintro (isDead | ⟨node, inside, reached, climbs⟩)
      · exact childAlive isDead
      · exact stays inside (.inr reached) climbs
    · rw [moved_of_notMem fun inside => stays inside (.inl rfl) (below child inside)]
      exact link
  · unfold moved at link
    split at link
    · rename_i listed
      cases link
      exact ⟨(tended.kept id (nodeKept id listed)).isSome, live.isSome⟩
    · exact tended.links id above link
  · rcases isDead with isDead | ⟨_, _, _, climbs⟩
    · exact tended.stored id isDead
    · exact (start climbs).1
  · obtain ⟨stored, alive, parent, top⟩ := tended.root
    have rootClimbs {above : NodeId} : ¬Climbs up ledger.root above := fun climbs =>
      (start climbs).2 top
    refine ⟨stored, ?_, parent, ?_⟩
    · rintro (isDead | ⟨_, _, _, climbs⟩)
      · exact alive isDead
      · exact rootClimbs climbs
    · rw [moved_of_notMem fun listed => rootClimbs (below _ listed)]
      exact top
  · obtain ⟨stored, alive, free⟩ := tended.kept id inside
    refine ⟨stored, ?_, fun kind known isIndex node other there assigned =>
      .inl (free kind known isIndex node other there assigned)⟩
    rintro (isDead | between)
    · exact alive isDead
    · exact (passed between).unkept inside
  · obtain ⟨subset, aboveKept, _⟩ := ledger.within set above node taken
    obtain ⟨plain, climbs, between⟩ := tended.stake set above node taken
    refine ⟨plain, ?_, fun other reached => ?_⟩
    · rcases climbs.moved_or_between below clear with stays | between
      · exact stays
      · exact absurd (subset above aboveKept) (passed between).unkept
    · rcases between other (reached.of_moved below) with same | beyond | isPassed
      · exact .inl same
      · rcases beyond.moved_or_between below clear with stays | between
        · exact .inr (.inl stays)
        · exact .inr (.inr ((passed between).of_subset subset))
      · exact .inr (.inr isPassed)

/-! ## New nodes -/

end Tended

/-- A stake stands when a new node steps in. -/
theorem Layout.Stake.part {layout after : Layout} {up : NodeId → Option NodeId}
    {set : NodeId → Prop}
    {nodes : List NodeId} {fresh host above node : NodeId} (stake : layout.Stake up set above node)
    (parting : Parting up nodes fresh host) (clear : ¬Climbs up host host)
    (aboveOld : above ≠ fresh)
    (nodeOld : node ≠ fresh) (plain : ∀ id, id ≠ fresh → layout.Plain id → after.Plain id)
    (unkept : ¬set fresh)
    (freshPlain : layout.Plain host → after.Plain fresh) :
    after.Stake (parted up nodes fresh host) set above node := by
  refine ⟨plain above aboveOld stake.plain, parting.parts nodeOld stake.climbs, fun other reached =>
    ?_⟩
  by_cases new : other = fresh
  · subst new
    obtain ⟨child, listed, way⟩ := (parting.climbs_fresh_iff nodeOld).mp reached
    have link := parting.links child listed
    have toHost : Climbs up node host := by
      rcases way with rfl | climbs
      · exact .single link
      · exact climbs.trans (.single link)
    rcases stake.between host toHost with rfl | beyond | passed
    · exact .inr (.inr ⟨unkept, freshPlain stake.plain⟩)
    · -- The stake's host is below this one, so it is one of the nodes stepped over or below one
      -- of them.
      refine .inr (.inl ((parting.climbs_fresh_iff aboveOld).mpr ⟨child, listed, ?_⟩))
      have notAbove : ¬Climbs up child above := fun climbs => by
        rcases (Climbs.iff_of_link link).mp climbs with rfl | further
        · exact clear beyond
        · exact clear (further.trans beyond)
      rcases way with rfl | climbs
      · exact absurd stake.climbs notAbove
      · rcases stake.climbs.linear climbs with rfl | below | inner
        · exact .inl rfl
        · exact .inr below
        · exact absurd inner notAbove
    · exact .inr (.inr ⟨unkept, freshPlain passed.plain⟩)
  · have climbs := (parting.climbs_iff nodeOld new).mp reached
    refine (stake.between other climbs).imp_right (.imp (parting.parts aboveOld) fun passed => ?_)
    exact ⟨passed.unkept, plain other new passed.plain⟩

namespace Tended

variable {ledger : Ledger} {torn : Option NodeId} {dead : NodeId → Prop}
  {up : NodeId → Option NodeId}
  {layout after : Layout} {id fresh host : NodeId} {kind : NodeKind}

theorem ne_of_unstored (missing : layout.kind fresh = none) (stored : (layout.kind id).isSome) :
    id ≠ fresh := by
  rintro rfl
  rw [missing] at stored
  cases stored

section

variable (tended : Tended ledger torn dead up layout)

include tended

/-- A node that is not stored has no place in the lines of descent. -/
theorem unlinked (missing : layout.kind id = none) : up id = none := by
  cases link : up id with
  | none => rfl
  | some above => exact absurd rfl (ne_of_unstored missing (tended.links id above link).1)

theorem stored_above {above : NodeId} (climbs : Climbs up id above) :
    (layout.kind above).isSome := by
  induction climbs with
  | single link => exact (tended.links _ _ link).2
  | further _ _ ih => exact ih

/-- No node is its own child. -/
theorem notMem_children (live : layout.Live dead id) (whole : torn ≠ some id)
    (stored : layout.kind id = some kind) : id ∉ kind.children :=
  fun listed => tended.acyclic id live.alive
    (.single (tended.child id kind stored live.alive whole id listed).2.1)

/-- A new node has no place in the lines of descent. -/
theorem parting {nodes : List NodeId}
    (stored : (layout.kind host).isSome) (links : ∀ node ∈ nodes, up node = some host)
    (missing : layout.kind fresh = none) : Parting up nodes fresh host where
  links := links
  unused node link := ne_of_unstored missing (tended.links node fresh link).2 rfl
  apart := ne_of_unstored missing stored
  unlisted listed := ne_of_unstored missing (tended.links fresh host (links fresh listed)).1 rfl

end

section Stepping

variable {host fresh id child : NodeId} {nodes : List NodeId}

variable (tended : Tended ledger torn dead up layout)

include tended

variable (parting : Parting up nodes fresh host)

include parting

/-- Stepping in brings no node above itself. -/
theorem parted_acyclic (alive : ¬dead host) (inUse : ¬dead id) :
    ¬Climbs (parted up nodes fresh host) id id := by
  intro climbs
  by_cases new : id = fresh
  · subst new
    exact parting.acyclic (tended.acyclic host alive) climbs
  · exact tended.acyclic id inUse ((parting.climbs_iff new new).mp climbs)

theorem parted_links (isSome : ∀ {id}, (layout.kind id).isSome → (after.kind id).isSome)
    (hostStored : (layout.kind host).isSome)
    (freshStored : (after.kind fresh).isSome) {above : NodeId}
    (link : parted up nodes fresh host id = some above) :
    (after.kind id).isSome ∧ (after.kind above).isSome := by
  by_cases new : id = fresh
  · subst new
    cases Parting.parted_fresh.symm.trans link
    exact ⟨freshStored, isSome hostStored⟩
  · by_cases listed : id ∈ nodes
    · cases (parting.parted_of_mem listed).symm.trans link
      exact ⟨isSome (tended.links id host (parting.links id listed)).1, freshStored⟩
    · rw [Parting.parted_of_notMem new listed] at link
      exact (tended.links id above link).imp isSome isSome

/-- A node right below another one than the host keeps its place. -/
theorem apart_of_link (missing : layout.kind fresh = none) (link : up child = some id)
    (other : id ≠ host) : child ≠ fresh ∧ child ∉ nodes :=
  ⟨ne_of_unstored missing (tended.links child id link).1, fun listed =>
    other (Option.some.inj (link.symm.trans (parting.links child listed)))⟩

theorem apart_root (missing : layout.kind fresh = none) :
    ledger.root ≠ fresh ∧ ledger.root ∉ nodes := by
  obtain ⟨stored, _, _, top⟩ := tended.root
  refine ⟨ne_of_unstored missing stored, fun listed => ?_⟩
  rw [parting.links _ listed] at top
  cases top

end Stepping

/-- A new node steps in between a host and nodes right below it.  The host is torn, or the new node
is its only child. -/
theorem stepIn (tended : Tended ledger torn dead up layout) (live : layout.Live dead host)
    (below : ∀ child ∈ kind.children, up child = some host ∧ ¬dead child)
    (unique : kind.children.Nodup)
    (plain : layout.Plain host → kind.isDeclaration = false) (assigned : ∀ target sort,
      kind.assigned? = some target →
      ledger.kept target → layout.kind target = some sort → sort.isIndex = false)
    (missing : layout.kind fresh = none) (here : after.kind fresh = some kind)
    (isSome : ∀ {id}, (layout.kind id).isSome → (after.kind id).isSome)
    (others : ∀ id sort, id ≠ fresh → after.kind id = some sort →
      layout.kind id = some sort ∧ (id = host → torn = some host) ∨ id = host ∧
      sort.isDeclaration = false ∧
        sort.isIndex = false ∧ sort.assigned? = none ∧ sort.children = [fresh] ∧
        after.parent fresh = some host)
    (parents : ∀ id, id ≠ fresh → after.parent id = if id ∈
      kind.children then some fresh else layout.parent id) :
    Tended ledger torn dead (parted up kind.children fresh host) after := by
  have clear := tended.acyclic host live.alive
  have parting := tended.parting live.isSome (fun child listed => (below child listed).1) missing
  have old {id : NodeId} (stored : (layout.kind id).isSome) : id ≠ fresh :=
    ne_of_unstored missing stored
  have plainly {id : NodeId} (isOld : id ≠ fresh) (isPlain : layout.Plain id) : after.Plain id :=
    fun sort known =>
    (others id sort isOld known).elim (fun before => isPlain sort before.1) fun opened => opened.2.1
  refine
    { child := fun id sort known alive whole child listed => ?_
      distinct := fun id sort known alive whole => ?_
      acyclic := fun _ => tended.parted_acyclic parting live.alive
      links := fun _ _ => tended.parted_links parting isSome live.isSome (by rw [here]; rfl)
      stored := fun id isDead => isSome (tended.stored id isDead)
      buried := fun id isDead => plainly (old (tended.stored id isDead)) (tended.buried id isDead)
      root := ?_
      kept := fun id inside => ?_
      stake := fun set above node taken => ?_ }
  · by_cases new : id = fresh
    · subst new
      cases here.symm.trans known
      obtain ⟨link, childAlive⟩ := below child listed
      refine ⟨childAlive, parting.parted_of_mem listed, ?_⟩
      rw [parents child (old (tended.links child host link).1), if_pos listed]
    rcases others id sort new known with ⟨before, isTorn⟩ | ⟨rfl, _, _, _, single, parent⟩
    · obtain ⟨childAlive, link, parent⟩ := tended.child id sort before alive whole child listed
      obtain ⟨childOld, unlisted⟩ := tended.apart_of_link parting missing link fun same =>
        whole (same ▸ isTorn same)
      refine ⟨childAlive, (Parting.parted_of_notMem childOld unlisted).trans link, ?_⟩
      rw [parents child childOld, if_neg unlisted]
      exact parent
    · rw [single, List.mem_singleton] at listed
      subst listed
      exact ⟨fun isDead => old (tended.stored _ isDead) rfl, Parting.parted_fresh, parent⟩
  · by_cases new : id = fresh
    · subst new
      cases here.symm.trans known
      exact unique
    rcases others id sort new known with ⟨before, _⟩ | ⟨_, _, _, _, single, _⟩
    · exact tended.distinct id sort before alive whole
    · simp [single]
  · obtain ⟨stored, alive, parent, top⟩ := tended.root
    obtain ⟨rootOld, unlisted⟩ := tended.apart_root parting missing
    refine ⟨isSome stored, alive, ?_, (Parting.parted_of_notMem rootOld unlisted).trans top⟩
    rw [parents _ rootOld, if_neg unlisted]
    exact parent
  · obtain ⟨stored, alive, free⟩ := tended.kept id inside
    refine ⟨isSome stored, alive, fun sort known isIndex node other there target => ?_⟩
    rcases others id sort (old stored) known with ⟨before, _⟩ | ⟨_, _, notIndex, _⟩
    · by_cases new : node = fresh
      · subst new
        cases here.symm.trans there
        cases isIndex.symm.trans (assigned id sort target inside before)
      rcases others node other new there with ⟨found, _⟩ | ⟨_, _, _, unassigned, _⟩
      · exact free sort before isIndex node other found target
      · cases unassigned.symm.trans target
    · cases notIndex.symm.trans isIndex
  · obtain ⟨subset, aboveKept, nodeKept⟩ := ledger.within set above node taken
    refine (tended.stake set above node taken).part parting clear
      (old (tended.kept _ (subset _ aboveKept)).isSome)
      (old (tended.kept _ (subset _ nodeKept)).isSome)
        (fun _ => plainly) ?_ fun isPlain sort known => ?_
    · exact fun inside => old (tended.kept _ (subset _ inside)).isSome rfl
    · cases here.symm.trans known
      exact plain isPlain

/-- A new node joins above nodes right below a torn host; it is loose, but it belongs to the host.
-/
theorem alloc (tended : Tended ledger (some host) dead up layout)
    (kept : ledger.kept host) (below : ∀ child ∈ kind.children, up child = some host ∧ ¬dead child)
    (unique : kind.children.Nodup) (plain : kind.isDeclaration = false)
    (assigned : ∀ target, kind.assigned? = some target → ¬ledger.kept target)
    (missing : layout.kind fresh = none)
    (recasts : layout.Recasts after fresh kind) (parents : ∀ id, after.parent id =
      if id = fresh then none else if id ∈ kind.children then some fresh else layout.parent id) :
    Tended ledger (some host) dead (parted up kind.children fresh host) after := by
  refine tended.stepIn (tended.kept host kept) below unique (fun _ => plain) ?_ missing recasts.here
    recasts.isSome ?_ ?_
  · exact fun target _ assigns inside => absurd inside (assigned target assigns)
  · exact fun id sort isOld known => .inl ⟨recasts.keeps isOld ▸ known, fun _ => rfl⟩
  · exact fun id isOld => (parents id).trans (if_neg isOld)

/-- A torn host gets the nodes right below it as its children, and is in order again. -/
theorem rewrite (tended : Tended ledger (some host) dead up layout)
    (kept : ledger.kept host) (below : ∀ child ∈ kind.children, up child = some host ∧ ¬dead child)
    (unique : kind.children.Nodup) (plain : kind.isDeclaration = false)
    (notIndex : kind.isIndex = false)
    (assigned : ∀ target, kind.assigned? = some target → ¬ledger.kept target)
    (recasts : layout.Recasts after host kind)
    (parents : ∀ id, after.parent id = if id ∈ kind.children then some host else layout.parent id) :
    Tended ledger none dead up after := by
  refine
    { child := fun id sort known alive _ child listed => ?_
      distinct := fun id sort known alive _ => ?_
      acyclic := tended.acyclic
      links := fun id above link => (tended.links id above link).imp recasts.isSome recasts.isSome
      stored := fun id isDead => recasts.isSome (tended.stored id isDead)
      buried := fun id isDead => recasts.plain (tended.buried id isDead) fun _ => plain
      root := ?_
      kept := fun id inside => ?_
      stake := fun set above node taken => ?_ }
  · by_cases same : id = host
    · subst same
      cases recasts.here.symm.trans known
      obtain ⟨link, childAlive⟩ := below child listed
      exact ⟨childAlive, link, (parents child).trans (if_pos listed)⟩
    · have whole : some host ≠ some id := fun isTorn => same (Option.some.inj isTorn).symm
      obtain ⟨childAlive, link, parent⟩ :=
        tended.child id sort (recasts.keeps same ▸ known) alive whole child listed
      have unlisted : child ∉ kind.children := fun inside =>
        whole ((below child inside).1.symm.trans link)
      exact ⟨childAlive, link, ((parents child).trans (if_neg unlisted)).trans parent⟩
  · by_cases same : id = host
    · subst same
      cases recasts.here.symm.trans known
      exact unique
    · exact tended.distinct id sort (recasts.keeps same ▸ known) alive fun isTorn =>
        same (Option.some.inj isTorn).symm
  · obtain ⟨stored, alive, parent, top⟩ := tended.root
    refine ⟨recasts.isSome stored, alive, ?_, top⟩
    rw [parents, if_neg fun listed => ?_]
    · exact parent
    · rw [(below _ listed).1] at top
      cases top
  · obtain ⟨stored, alive, free⟩ := tended.kept id inside
    refine ⟨recasts.isSome stored, alive, fun sort known isIndex node other there target => ?_⟩
    by_cases same : node = host
    · subst same
      cases recasts.here.symm.trans there
      exact absurd inside (assigned id target)
    · exact free sort (recasts.index known isIndex fun _ => notIndex) isIndex node other
        (recasts.keeps same ▸ there) target
  · obtain ⟨isPlain, climbs, between⟩ := tended.stake set above node taken
    refine ⟨recasts.plain isPlain fun _ => plain, climbs, fun other reached => ?_⟩
    exact (between other reached).imp_right (.imp_right fun passed =>
      ⟨passed.unkept, recasts.plain passed.plain fun _ => plain⟩)

/-- The content of a node moves into a new child. -/
theorem wrap {inner : NodeId} {outer : NodeKind} (tended : Tended ledger torn dead up layout)
    (live : layout.Live dead id) (whole : torn ≠ some id) (stored : layout.kind id = some kind)
    (single : outer.children = [inner]) (plain : outer.isDeclaration = false)
    (notIndex : outer.isIndex = false)
    (assigned : outer.assigned? = none) (missing : layout.kind inner = none)
    (kinds : ∀ other, after.kind other =
      if other = inner then some kind else if other = id then some outer else layout.kind other)
    (parents : ∀ other, after.parent other =
      if other = inner then some id else if other ∈ kind.children then some inner else layout.parent
      other) :
    Tended ledger torn dead (parted up kind.children inner id) after := by
  have children := tended.child id kind stored live.alive whole
  -- The node gets the new sort first; then the new child gets the old one.
  let middle : Layout :=
    { layout with kind := fun other => if other = id then some outer else layout.kind other }
  have opens : layout.Recasts middle id outer := fun _ => rfl
  have moves : middle.Recasts after inner kind := kinds
  refine tended.stepIn live (fun child listed =>
    ⟨(children child listed).2.1, (children child listed).1⟩)
    (tended.distinct id kind stored live.alive whole) (fun isPlain => isPlain kind stored) ?_
      missing moves.here
    (fun known => moves.isSome (opens.isSome known)) ?_ fun other isOld =>
      (parents other).trans (if_neg isOld)
  · -- An assignment that moved was an assignment before.
    intro target sort assigns inside known
    refine Bool.eq_false_iff.mpr fun isIndex => live.alive ?_
    exact (tended.kept target inside).free sort known isIndex id kind stored assigns
  · intro other sort isOld known
    rw [moves.keeps isOld] at known
    by_cases same : other = id
    · subst same
      cases opens.here.symm.trans known
      exact .inr ⟨rfl, plain, notIndex, assigned, single, (parents inner).trans (if_pos rfl)⟩
    · exact .inl ⟨opens.keeps same ▸ known, fun isHost => absurd isHost same⟩

/-! ## Loose nodes -/

end Tended

/-- Nothing is above the node, and nobody relies on it or on anything below it.  What is below is of
lesser sorts. -/
structure Layout.Loose (layout : Layout) (lesser : NodeKind → Prop) (ledger : Ledger)
    (dead : NodeId → Prop)
    (up : NodeId → Option NodeId) (id : NodeId) : Prop where
  isSome : (layout.kind id).isSome
  alive : ¬dead id
  top : up id = none
  orphan : layout.parent id = none
  unrooted : id ≠ ledger.root
  unkept : ∀ node, ledger.kept node → node ≠ id ∧ ¬Climbs up node id
  lesser : ∀ node kind, node = id ∨ Climbs up node id → layout.kind node = some kind → lesser kind

/-- Loose nodes join the children of a host. -/
structure Layout.Joined (layout after : Layout) (host : NodeId) (kind : NodeKind)
    (nodes : List NodeId) : Prop where
  recasts : layout.Recasts after host kind
  parents : ∀ id, after.parent id = if id ∈ nodes then some host else layout.parent id
  members : ∀ child ∈ kind.children, child ∈ nodes ∨ ∃ before, layout.kind host = some before ∧
    child ∈ before.children
  unique : kind.children.Nodup
  assigned : ∀ target, kind.assigned? = some target → target ∈ nodes

namespace Tended

variable {ledger : Ledger} {torn : Option NodeId} {dead : NodeId → Prop}
  {up : NodeId → Option NodeId}
  {layout after : Layout} {lesser : NodeKind → Prop}

theorem join {host : NodeId} {kind : NodeKind} {nodes : List NodeId}
    (tended : Tended ledger none dead up layout)
    (loose : ∀ node ∈ nodes, layout.Loose lesser ledger dead up node) (clear : Clear up nodes host)
    (alive : ¬dead host)
    (plain : (layout.kind host).isSome → kind.isDeclaration = false) (notIndex : ledger.kept host →
      kind.isIndex = false)
    (joined : layout.Joined after host kind nodes) :
    Tended ledger none dead (moved up nodes host) after := by
  have tops : ∀ node ∈ nodes, up node = none := fun node listed => (loose node listed).top
  have linked {id above : NodeId} (link : up id = some above) : id ∉ nodes := fun listed => by
    rw [tops id listed] at link
    cases link
  have untouched {id : NodeId} (kept : ledger.kept id) : Clear up nodes id := fun node listed =>
    (loose node listed).unkept id kept
  have child {id child : NodeId} {sort : NodeKind} (known : layout.kind id = some sort)
    (inUse : ¬dead id)
      (listed : child ∈ sort.children) :
      ¬dead child ∧ moved up nodes host child = some id ∧ after.parent child = some id := by
    obtain ⟨childAlive, link, parent⟩ := tended.child id sort known inUse nofun child listed
    refine ⟨childAlive, (moved_of_notMem (linked link)).trans link, ?_⟩
    rw [joined.parents, if_neg (linked link)]
    exact parent
  have plainly {id : NodeId} (stored : (layout.kind id).isSome) (isPlain : layout.Plain id) :
    after.Plain id :=
    joined.recasts.plain isPlain fun same => plain (same ▸ stored)
  refine
    { child := fun id sort known inUse _ other listed => ?_
      distinct := fun id sort known inUse _ => ?_
      acyclic := fun id inUse => clear.acyclic tops (tended.acyclic id inUse)
      links := fun id above link => ?_
      stored := fun id isDead => joined.recasts.isSome (tended.stored id isDead)
      buried := fun id isDead => plainly (tended.stored id isDead) (tended.buried id isDead)
      root := ?_
      kept := fun id inside => ?_
      stake := fun set above node taken => ?_ }
  · by_cases same : id = host
    · subst same
      cases joined.recasts.here.symm.trans known
      rcases joined.members other listed with joins | ⟨before, stored, inside⟩
      · exact ⟨(loose other joins).alive, moved_of_mem joins, (joined.parents other).trans
          (if_pos joins)⟩
      · exact child stored inUse inside
    · exact child (joined.recasts.keeps same ▸ known) inUse listed
  · by_cases same : id = host
    · subst same
      cases joined.recasts.here.symm.trans known
      exact joined.unique
    · exact tended.distinct id sort (joined.recasts.keeps same ▸ known) inUse nofun
  · unfold moved at link
    split at link
    · rename_i listed
      cases link
      exact ⟨joined.recasts.isSome (loose id listed).isSome, by rw [joined.recasts.here]; rfl⟩
    · exact (tended.links id above link).imp joined.recasts.isSome joined.recasts.isSome
  · obtain ⟨stored, inUse, parent, top⟩ := tended.root
    have unlisted : ledger.root ∉ nodes := fun listed => (loose _ listed).unrooted rfl
    refine ⟨joined.recasts.isSome stored, inUse, ?_, (moved_of_notMem unlisted).trans top⟩
    rw [joined.parents, if_neg unlisted]
    exact parent
  · obtain ⟨stored, inUse, free⟩ := tended.kept id inside
    refine ⟨joined.recasts.isSome stored, inUse, fun sort known isIndex node other there target =>
      ?_⟩
    have before := joined.recasts.index known isIndex fun same => notIndex (same ▸ inside)
    by_cases same : node = host
    · subst same
      cases joined.recasts.here.symm.trans there
      exact absurd rfl (untouched inside id (joined.assigned id target)).1
    · exact free sort before isIndex node other (joined.recasts.keeps same ▸ there) target
  · obtain ⟨subset, aboveKept, nodeKept⟩ := ledger.within set above node taken
    obtain ⟨isPlain, climbs, between⟩ := tended.stake set above node taken
    have aboveClear := untouched (subset above aboveKept)
    have nodeClear := untouched (subset node nodeKept)
    refine ⟨plainly (tended.kept above (subset above aboveKept)).isSome isPlain,
      .joined tops climbs, fun other reached => ?_⟩
    have before := (nodeClear.climbs_iff tops).mp reached
    refine (between other before).imp_right (.imp (.joined tops) fun passed => ⟨passed.unkept, ?_⟩)
    exact plainly (tended.stored_above before) passed.plain

end Tended

namespace Layout.Loose

variable {ledger : Ledger} {dead : NodeId → Prop} {up : NodeId → Option NodeId}
  {layout after : Layout}
  {lesser : NodeKind → Prop} {host id : NodeId} {kind : NodeKind} {nodes : List NodeId}

theorem join_other (isLoose : layout.Loose lesser ledger dead up id) (other : id ∉ nodes)
    (clear : Clear up [id] host)
    (hostClear : Clear up nodes host) (tops : ∀ node ∈ nodes, up node = none)
    (joined : layout.Joined after host kind nodes) :
    after.Loose lesser ledger dead (moved up nodes host) id := by
  obtain ⟨apart, notBelow⟩ := clear id List.mem_cons_self
  have back {node : NodeId} (climbs : Climbs (moved up nodes host) node id) :
    Climbs up node id := by
    rcases climbs.of_joined with climbs | ⟨_, _, _, same | beyond⟩
    · exact climbs
    · exact absurd same.symm apart
    · exact absurd ((hostClear.climbs_iff tops).mp beyond) notBelow
  refine
    { isSome := joined.recasts.isSome isLoose.isSome
      alive := isLoose.alive
      top := (moved_of_notMem other).trans isLoose.top
      orphan := ?_
      unrooted := isLoose.unrooted
      unkept := fun node kept => (isLoose.unkept node kept).imp_right fun notBelow climbs =>
        notBelow (back climbs)
      lesser := fun node sort way known => ?_ }
  · rw [joined.parents, if_neg other]
    exact isLoose.orphan
  · have under := way.imp_right back
    have old : node ≠ host := fun same => by
      rw [same] at under
      exact under.elim apart notBelow
    exact isLoose.lesser node sort under (joined.recasts.keeps old ▸ known)

theorem join_fresh {torn : Option NodeId} (tended : Tended ledger torn dead up layout)
    (missing : layout.kind host = none)
    (orphan : layout.parent host = none)
    (loose : ∀ node ∈ nodes, layout.Loose lesser ledger dead up node)
    (joined : layout.Joined after host kind nodes) (isLesser : lesser kind) :
    after.Loose lesser ledger dead (moved up nodes host) host := by
  have old {id : NodeId} (stored : (layout.kind id).isSome) : id ≠ host :=
    Tended.ne_of_unstored missing stored
  have unlisted : host ∉ nodes := fun listed => old (loose host listed).isSome rfl
  have below {node : NodeId} (climbs : Climbs (moved up nodes host) node host) :
      ∃ top ∈ nodes, node = top ∨ Climbs up node top := by
    rcases climbs.of_joined with climbs | ⟨top, listed, way, _⟩
    · exact absurd rfl (old (tended.stored_above climbs))
    · exact ⟨top, listed, way⟩
  refine
    { isSome := by rw [joined.recasts.here]; rfl
      alive := fun isDead => old (tended.stored host isDead) rfl
      top := (moved_of_notMem unlisted).trans (tended.unlinked missing)
      orphan := ?_
      unrooted := fun same => old tended.root.1 same.symm
      unkept := fun node kept => ⟨old (tended.kept node kept).isSome, fun climbs => ?_⟩
      lesser := fun node sort way known => ?_ }
  · rw [joined.parents, if_neg unlisted]
    exact orphan
  · obtain ⟨top, listed, way⟩ := below climbs
    obtain ⟨apart, notBelow⟩ := (loose top listed).unkept node kept
    exact way.elim apart notBelow
  · by_cases new : node = host
    · subst new
      cases joined.recasts.here.symm.trans known
      exact isLesser
    · obtain ⟨top, listed, under⟩ := below (way.resolve_left new)
      exact (loose top listed).lesser node sort under (joined.recasts.keeps new ▸ known)

end Layout.Loose
end Resolution
