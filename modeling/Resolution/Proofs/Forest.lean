import Mathlib.Data.List.Nodup
import Mathlib.Data.List.Perm.Subperm
import Mathlib.Logic.Relation
import Resolution.Proofs.Completion
import Resolution.Proofs.TendedDeclarations

/-!
# The tree stays a tree

The nodes of a program form a forest: a node stands in at most one place among the children of
others, a child is linked to its parent, and no node is below itself.  The rules rewrite nodes in
place, put casts and calls around operands, and add functions to declarations.  When a resolution
returns, the nodes that the root of the program reaches form a tree again.
-/

namespace Resolution

/-! ## Chains that end -/

namespace Chain

/-- Following a chain from a handle leads through the listed handles to its end. -/
inductive Path {κ : Type} (next : κ → Except Fault (Option κ)) : κ → List κ → κ → Prop
  | stop {here : κ} (ends : next here = .ok none) : Path next here [] here
  | step {here there last : κ} {rest : List κ} (link : next here = .ok (some there))
    (path : Path next there rest last) :
      Path next here (there :: rest) last

namespace Path

variable {κ : Type} {next : κ → Except Fault (Option κ)} {here other last : κ}
  {rest others : List κ} {fuel : Nat}

variable (path : Path next here rest last)

include path

theorem toList (within : rest.length < fuel) :
    Chain.toList next fuel here = .ok (here :: rest) := by
  induction path generalizing fuel with
  | stop ends =>
    obtain ⟨fuel, rfl⟩ := Nat.exists_eq_succ_of_ne_zero (Nat.ne_of_gt within)
    rw [Chain.toList, ends]
    rfl
  | step link _ ih =>
    obtain ⟨fuel, rfl⟩ := Nat.exists_eq_succ_of_ne_zero
      (Nat.ne_of_gt (Nat.lt_of_le_of_lt (Nat.zero_le _) within))
    rw [Chain.toList, link]
    show (do return _ :: (← Chain.toList next fuel _)) = _
    rw [ih (Nat.lt_of_succ_lt_succ within)]
    rfl

theorem after (within : rest.length ≤ fuel) : Chain.after next fuel here = .ok rest := by
  unfold Chain.after
  cases path with
  | stop ends =>
    rw [ends]
    rfl
  | step link path =>
    rw [link]
    exact path.toList within

theorem getLast? : (here :: rest).getLast? = some last := by
  induction path with
  | stop => rfl
  | step _ _ ih => rw [List.getLast?_cons_cons, ih]

/-- A handle leads along one chain only. -/
theorem unique {final : κ} (again : Path next here others final) : rest = others := by
  induction path generalizing others with
  | stop ends =>
    cases again with
    | stop => rfl
    | step link => cases ends.symm.trans link
  | step link _ ih =>
    cases again with
    | stop ends => cases ends.symm.trans link
    | step same again =>
      cases link.symm.trans same
      rw [ih again]

/-- A chain goes on from each of its handles. -/
theorem from_mem (listed : other ∈ rest) :
    ∃ fewer, Path next other fewer last ∧ fewer.length < rest.length := by
  induction path with
  | stop => cases listed
  | step link path ih =>
    rcases List.mem_cons.mp listed with rfl | inside
    · exact ⟨_, path, Nat.lt_succ_self _⟩
    · obtain ⟨fewer, onwards, shorter⟩ := ih inside
      exact ⟨fewer, onwards, Nat.lt_succ_of_lt shorter⟩

/-- A chain that ends meets no handle twice. -/
theorem nodup : (here :: rest).Nodup := by
  induction path with
  | stop => exact List.nodup_singleton _
  | step link path ih =>
    refine List.nodup_cons.mpr ⟨fun listed => ?_, ih⟩
    obtain ⟨fewer, again, shorter⟩ := (step link path).from_mem listed
    rw [(step link path).unique again] at shorter
    exact Nat.lt_irrefl _ shorter

/-- Every handle on a chain has an answer. -/
theorem exists_ok : ∀ other ∈ here :: rest, ∃ answer, next other = .ok answer := by
  induction path with
  | stop ends =>
    intro other listed
    exact ⟨none, List.mem_singleton.mp listed ▸ ends⟩
  | step link _ ih =>
    intro other listed
    rcases List.mem_cons.mp listed with rfl | inside
    · exact ⟨_, link⟩
    · exact ih other inside

end Path
end Chain

/-- At the start only the root of a program is kept. -/
def Ledger.ofRoot (root : NodeId) : Ledger where
  root
  kept id := id = root
  stakes _ _ _ := False
  within _ _ _ := False.elim

/-! ## Forests -/

namespace Tree

/-- A child stands at a position among the children of a node. -/
def Slot (tree : Tree) (parent : NodeId) (position : Nat) (child : NodeId) : Prop :=
  ∃ node, tree.get? parent = some node ∧ node.kind.children[position]? = some child

/-- A node stands among the children of another one. -/
def HasChild (tree : Tree) (parent child : NodeId) :
    Prop := ∃ position, tree.Slot parent position child

/-- Going down from one node leads to another one. -/
def Reaches (tree : Tree) : NodeId → NodeId → Prop := Relation.ReflTransGen tree.HasChild

/-- Every node is in at most one child slot, every child is linked to its parent, and no node is
below itself. -/
structure IsForest (tree : Tree) : Prop where
  single : ∀ first second position other child, tree.Slot first position child →
    tree.Slot second other child →
    first = second ∧ position = other
  linked : ∀ parent position child, tree.Slot parent position child →
    tree.parentOf child = .ok (some parent)
  acyclic : ∀ id, ¬Relation.TransGen tree.HasChild id id

/-- What a node reaches is a tree: children are linked to their parents, no node is in two child
slots, and parents lead from every node to the root, where they end. -/
structure IsTreeUnder (tree : Tree) (root : NodeId) : Prop where
  linked : ∀ parent position child, tree.Reaches root parent → tree.Slot parent position child →
    tree.parentOf child = .ok (some parent)
  single : ∀ first second position other child, tree.Reaches root first → tree.Reaches root second →
    tree.Slot first position child → tree.Slot second other child → first = second ∧
      position = other
  chain : ∀ id, tree.Reaches root id → ∃ above, tree.ancestors id = .ok above ∧
    (id :: above).getLast? = some root

variable {tree : Tree} {root id parent child : NodeId} {above : List NodeId}
  {parent? : Option NodeId}

theorem parentOf_eq_ok : tree.parentOf id = .ok parent? ↔ ∃ node, tree.get? id = some node ∧
    node.parent = parent? := by
  unfold parentOf
  constructor
  · intro found
    cases fetched : tree.fetch id with
    | error fault =>
      rw [fetched] at found
      cases found
    | ok node =>
      rw [fetched] at found
      cases found
      exact ⟨node, (Table.fetch_eq_ok_iff ..).mp fetched, rfl⟩
  · rintro ⟨node, stored, rfl⟩
    rw [(Table.fetch_eq_ok_iff ..).mpr stored]
    rfl

theorem hasChild_iff : tree.HasChild parent child ↔ ∃ kind, tree.layout.kind parent = some kind ∧
    child ∈ kind.children := by
  constructor
  · rintro ⟨position, node, stored, listed⟩
    exact ⟨node.kind, layout_kind_of_get? stored, List.mem_of_getElem? listed⟩
  · rintro ⟨kind, known, listed⟩
    obtain ⟨node, stored, rfl⟩ := exists_get?_of_layout_kind known
    obtain ⟨position, found⟩ := List.getElem?_of_mem listed
    exact ⟨position, node, stored, found⟩

theorem Slot.position_eq {position other : Nat} (one : tree.Slot parent position child)
    (two : tree.Slot parent other child)
    (distinct : ∀ node, tree.get? parent = some node → node.kind.children.Nodup) :
    position = other := by
  obtain ⟨node, stored, here⟩ := one
  obtain ⟨_, again, there⟩ := two
  cases stored.symm.trans again
  obtain ⟨inside, _⟩ := List.getElem?_eq_some_iff.mp here
  exact (List.getElem?_inj inside (distinct node stored)).mp (here.trans there.symm)

theorem layout_parent_of_parentOf (found : tree.parentOf id = .ok parent?) :
    tree.layout.parent id = parent? := by
  obtain ⟨node, stored, rfl⟩ := parentOf_eq_ok.mp found
  simp only [layout, stored, Option.bind_some]

theorem parentOf_of_layout (stored : (tree.layout.kind id).isSome)
    (link : tree.layout.parent id = parent?) : tree.parentOf id = .ok parent? := by
  obtain ⟨node, found⟩ := Option.isSome_iff_exists.mp (isSome_layout_kind ▸ stored)
  refine parentOf_eq_ok.mpr ⟨node, found, ?_⟩
  simpa only [layout, found, Option.bind_some] using link

/-- A chain of parents that ends has its nodes in the tree, so its length is within the size of the
tree. -/
theorem ancestors_of_path (path : Chain.Path tree.parentOf id above root) :
    tree.ancestors id = .ok above := by
  have inTree : id :: above ⊆ tree.handles := by
    intro other listed
    obtain ⟨answer, found⟩ := path.exists_ok other listed
    obtain ⟨node, stored, _⟩ := parentOf_eq_ok.mp found
    exact (Table.mem_handles ..).mpr (Table.lt_size_of_get? stored)
  have short := (List.subperm_of_subset path.nodup inTree).length_le
  simp only [List.length_cons, Table.handles, List.length_map, List.length_range] at short
  exact path.after (by omega)

/-! ### The tree at the end -/

section Tended

variable {ledger : Ledger} {dead : NodeId → Prop} {up : NodeId → Option NodeId}

theorem alive_of_reaches (tended : Tended ledger none dead up tree.layout)
    (reaches : tree.Reaches ledger.root id) :
    ¬dead id := by
  induction reaches with
  | refl => exact tended.root.2.1
  | tail _ child alive =>
    obtain ⟨kind, known, listed⟩ := hasChild_iff.mp child
    exact (tended.child _ kind known alive (by rintro ⟨⟩) _ listed).1

theorem isTreeUnder_of_tended (tended : Tended ledger none dead up tree.layout) :
    tree.IsTreeUnder ledger.root := by
  have linked : ∀ parent position child, tree.Reaches ledger.root parent →
    tree.Slot parent position child →
      tree.parentOf child = .ok (some parent) := by
    intro parent position child reaches slot
    obtain ⟨kind, known, listed⟩ := hasChild_iff.mp ⟨position, slot⟩
    obtain ⟨_, link, linked⟩ := tended.child parent kind known (alive_of_reaches tended reaches)
      (by rintro ⟨⟩) child listed
    exact parentOf_of_layout (tended.links child parent link).1 linked
  refine ⟨linked, ?_, fun id reaches => ?_⟩
  · intro first second position other child reachesFirst reachesSecond one two
    cases (linked first position child reachesFirst one).symm.trans
      (linked second other child reachesSecond two)
    refine ⟨rfl, one.position_eq two fun node stored => ?_⟩
    exact tended.distinct first node.kind (layout_kind_of_get? stored)
      (alive_of_reaches tended reachesFirst) (by rintro ⟨⟩)
  · -- Each step down puts the parent in front of the chain.
    suffices ∃ above, Chain.Path tree.parentOf id above ledger.root by
      obtain ⟨above, path⟩ := this
      exact ⟨above, ancestors_of_path path, path.getLast?⟩
    induction reaches with
    | refl => exact ⟨[], .stop (parentOf_of_layout tended.root.1 tended.root.2.2.1)⟩
    | tail reaches child ih =>
      obtain ⟨above, path⟩ := ih
      obtain ⟨position, slot⟩ := child
      exact ⟨_, .step (linked _ _ _ reaches slot) path⟩

end Tended

/-! ### The tree at the start -/

open Classical in
/-- The node that has a node among its children, where there is one. -/
noncomputable def holder (tree : Tree) (id : NodeId) : Option NodeId :=
  if ∃ parent, tree.HasChild parent id then tree.layout.parent id else none

namespace IsForest

theorem holder_eq_some_iff (forest : tree.IsForest) : tree.holder child = some parent ↔
    tree.HasChild parent child := by
  have link (above : NodeId) (child : NodeId) (isChild : tree.HasChild above child) :
      tree.layout.parent child = some above := by
    obtain ⟨position, slot⟩ := isChild
    exact layout_parent_of_parentOf (forest.linked above position child slot)
  unfold holder
  constructor
  · intro found
    split at found
    · rename_i isChild
      obtain ⟨above, isChild⟩ := isChild
      cases (link above child isChild).symm.trans found
      exact isChild
    · cases found
  · intro isChild
    rw [if_pos ⟨parent, isChild⟩, link parent child isChild]

theorem transGen_of_climbs (forest : tree.IsForest) (climbs : Climbs tree.holder child parent) :
    Relation.TransGen tree.HasChild parent child := by
  induction climbs with
  | single link => exact .single (forest.holder_eq_some_iff.mp link)
  | further link _ ih => exact ih.tail (forest.holder_eq_some_iff.mp link)

/-- A forest is in order, with every node in use. -/
theorem tended (forest : tree.IsForest) (top : tree.parentOf root = .ok none) :
    Tended (.ofRoot root) none (fun _ => False) tree.holder tree.layout := by
  obtain ⟨rootNode, rootStored, rootTop⟩ := parentOf_eq_ok.mp top
  have isRoot : (tree.layout.kind root).isSome := by
    rw [layout_kind_of_get? rootStored]
    rfl
  have noChild (above : NodeId) : ¬tree.HasChild above root := by
    rintro ⟨position, slot⟩
    cases top.symm.trans (forest.linked above position root slot)
  have stored {above child : NodeId} (isChild : tree.HasChild above child) :
    (tree.layout.kind child).isSome := by
    obtain ⟨position, slot⟩ := isChild
    obtain ⟨node, found, _⟩ := parentOf_eq_ok.mp (forest.linked above position child slot)
    rw [layout_kind_of_get? found]
    rfl
  refine
    { child := fun id kind known _ _ child listed => ?_
      distinct := fun id kind known _ _ => ?_
      acyclic := fun id _ climbs => forest.acyclic id (forest.transGen_of_climbs climbs)
      links := fun id above link => ?_
      stored := fun _ => False.elim
      buried := fun _ => False.elim
      root := ⟨isRoot, not_false, layout_parent_of_parentOf top, if_neg fun ⟨above, isChild⟩ =>
        noChild above isChild⟩
      kept := ?_
      stake := fun _ _ _ => False.elim }
  · have isChild := hasChild_iff.mpr ⟨kind, known, listed⟩
    obtain ⟨position, slot⟩ := isChild
    exact ⟨not_false, forest.holder_eq_some_iff.mpr ⟨position, slot⟩,
      layout_parent_of_parentOf (forest.linked id position child slot)⟩
  · obtain ⟨node, found, rfl⟩ := exists_get?_of_layout_kind known
    refine List.nodup_iff_getElem?_ne_getElem?.mpr fun first second before inside same => ?_
    have here := List.getElem?_eq_getElem inside
    have one : tree.Slot id second _ := ⟨node, found, here⟩
    have two : tree.Slot id first _ := ⟨node, found, same.trans here⟩
    exact Nat.ne_of_lt before (forest.single id id first second _ two one).2
  · have isChild := forest.holder_eq_some_iff.mp link
    obtain ⟨kind, known, _⟩ := hasChild_iff.mp isChild
    exact ⟨stored isChild, by rw [known]; rfl⟩
  · rintro id rfl
    refine ⟨isRoot, not_false, fun _ _ _ node other known assigned => ?_⟩
    exact noChild node (hasChild_iff.mpr
      ⟨other, known, NodeKind.mem_children_of_assigned? assigned⟩)

end IsForest

/-- Every child is stored before its parent, stands there once and is linked to it, as in a tree
that was built from the leaves up. -/
def Rising (tree : Tree) : Prop :=
  ∀ id ∈ tree.handles, ∀ node ∈ tree.get? id, node.kind.children.Nodup ∧
    ∀ child ∈ node.kind.children, child.index < id.index ∧ tree.layout.parent child = some id

instance (tree : Tree) : Decidable tree.Rising :=
  inferInstanceAs (Decidable (∀ id ∈ tree.handles, ∀ node ∈ tree.get? id, node.kind.children.Nodup ∧
    ∀ child ∈ node.kind.children, child.index < id.index ∧ tree.layout.parent child = some id))

theorem Rising.isForest (rising : tree.Rising) : tree.IsForest := by
  have stored {id : NodeId} {node : Node} (found : tree.get? id = some node) :=
    rising id ((Table.mem_handles ..).mpr (Table.lt_size_of_get? found)) node found
  have linked (parent : NodeId) (position : Nat) (child : NodeId)
    (slot : tree.Slot parent position child) :
      tree.parentOf child = .ok (some parent) := by
    obtain ⟨node, found, listed⟩ := slot
    obtain ⟨_, link⟩ := (stored found).2 child (List.mem_of_getElem? listed)
    exact parentOf_eq_ok.mpr (Option.bind_eq_some_iff.mp link)
  have falls {parent child : NodeId} (isChild : tree.HasChild parent child) :
    child.index < parent.index := by
    obtain ⟨position, node, found, listed⟩ := isChild
    exact ((stored found).2 child (List.mem_of_getElem? listed)).1
  refine ⟨?_, linked, fun id cycle => ?_⟩
  · intro first second position other child one two
    cases (linked first position child one).symm.trans (linked second other child two)
    exact ⟨rfl, one.position_eq two fun _ found => (stored found).1⟩
  · have below : ∀ last, Relation.TransGen tree.HasChild id last → last.index < id.index := by
      intro last path
      induction path with
      | single isChild => exact falls isChild
      | tail _ isChild ih => exact Nat.lt_trans (falls isChild) ih
    exact Nat.lt_irrefl _ (below id cycle)

end Tree

/-- When the nodes of a program are a forest with the program at the top of its tree, and the
resolution returns, then the nodes that the program reaches are a tree: every child is linked to its
parent, no node is in two child slots, and the parents of every node end at the program. -/
theorem tree_of_resolve {fuel : Nat} {options : Options} {source : Source} {root : NodeId}
    {outcome : Outcome}
    (forest : source.tree.IsForest) (top : source.tree.parentOf root = .ok none)
    (resolved : resolve fuel options source root = .ok outcome) :
    outcome.tree.IsTreeUnder root := by
  let := Resolver.within fuel
  have keeps : (Ledger.ofRoot root).Keeps root := ⟨rfl⟩
  have tends : Resolve.Tends none (Ledger.ofRoot root)
    (Resolve.program options.requireEntryPoint root) :=
    inferInstance
  obtain ⟨reports, run, -⟩ := resolve_eq_ok_iff.mp resolved
  obtain ⟨dead, up, tended⟩ :=
    tends.holds _ _ ⟨_, _, forest.tended top⟩ outcome.prelude reports outcome.toStore run False.elim
  exact Tree.isTreeUnder_of_tended tended

theorem tree_of_sample : Sample.program.1.tree.IsForest ∧
    Sample.program.1.tree.parentOf Sample.program.2 = .ok none ∧
    ∃ outcome, resolve 60 {} Sample.program.1 Sample.program.2 = .ok outcome ∧
      outcome.tree.IsTreeUnder Sample.program.2 := by
  have forest : Sample.program.1.tree.IsForest := Tree.Rising.isForest (by decide +kernel)
  have top : Sample.program.1.tree.parentOf Sample.program.2 = .ok none := by
    exact Tree.parentOf_of_layout (by decide +kernel) (by decide +kernel)
  obtain ⟨outcome, resolved, _⟩ := Sample.resolved
  exact ⟨forest, top, outcome, resolved, tree_of_resolve forest top resolved⟩

end Resolution
