import Resolution.Proofs.Forest

/-!
# Wrapping a node

Wrapping a node inserts exactly one node into a forest.  The new node takes over the content and the
children of the wrapped one, nothing else changes, and taking the new node out again gives back the
tree as it was.
-/

namespace Resolution
namespace Tree

variable {tree after : Tree} {id parent child : NodeId} {node : Node} {make : NodeId → NodeKind}
  {kind : NodeKind}
  {children : List NodeId} {position : Nat}

/-- A stored node with stored children can be wrapped. -/
theorem run_wrap (stored : tree.get? id = some node)
    (single : (make tree.next).children = [tree.next])
    (inside : ∀ child ∈ node.kind.children, Handle.index child < tree.size) :
    ∃ inner after, wrap id make tree = .ok inner after := by
  have bound : Handle.index id < tree.size := Table.lt_size_of_get? stored
  let blank : Tree := tree.modify id fun node =>
    { node with kind := .null, type := none, symbol := none }
  let grown : Tree := blank.push { node with parent := some id, sibling := none }
  have next : blank.next = tree.next := by simp [blank, Table.next]
  have more : grown.size = tree.size + 1 := by simp [grown, blank]
  obtain ⟨linked, adopts, size⟩ := @run_adopt grown node.kind.children tree.next fun child listed =>
    more ▸ Nat.lt_succ_of_lt (inside child listed)
  have present : ∀ child ∈ (make tree.next).children, Handle.index child < linked.size := by
    rw [single, size, more]
    simp [Table.next]
  obtain ⟨framed, slots, same⟩ := run_adopt id present
  have replaces : replace id (make tree.next) linked = .ok () _ :=
    (Action.bind_eq_ok_iff ..).mpr ⟨(), framed, slots, if_pos (by omega)⟩
  have fetches : Action.ofExcept (tree.fetch id) tree = .ok node tree := by
    rw [(Table.fetch_eq_ok_iff ..).mpr stored]
    rfl
  have creates : Table.create { node with parent := some id, sibling := none } blank =
    .ok tree.next grown := by
    rw [← next]
    rfl
  simp only [wrap, Action.bind_eq_ok_iff]
  exact ⟨tree.next, _, tree, tree, rfl, node, tree, fetches, (), blank, if_pos bound, tree.next,
    grown, creates,
    (), linked, adopts, (), _, replaces, rfl⟩

/-- Lookups of a tree after a node took over the content of its child, and the child is gone. -/
def contracted (tree : Tree) (outer inner other : NodeId) : Option Node :=
  if other = inner then none
  else if other = outer then do
    let node ← tree.get? outer
    let content ← tree.get? inner
    return { content with parent := node.parent, sibling := node.sibling }
  else tree.adopted outer (((tree.get? inner).map (·.kind.children)).getD []) other

/-- Every parent link leads to a node that has the linked node among its children. -/
def LinksMatch (tree : Tree) : Prop := ∀ parent child, tree.parentOf child = .ok (some parent) →
    tree.HasChild parent child

/-- The node that has the content of a node before another one was wrapped: the new node comes from
the wrapped one. -/
def origin (tree : Tree) (id other : NodeId) : NodeId := if other = tree.next then id else other

theorem origin_of_ne {other : NodeId} (old : other ≠ tree.next) : tree.origin id other = other :=
  if_neg old

/-- Lookups of a tree after a node got another kind around a new child, which has its content. -/
def Wraps (tree : Tree) (id : NodeId) (node : Node) (kind : NodeKind) (after : Tree) : Prop :=
  ∀ other, after.get? other = if other = tree.next then some
    { node with parent := some id, sibling := none }
    else if other = id then some { node with kind, type := none, symbol := none }
    else tree.adopted tree.next node.kind.children other

namespace IsForest

theorem stored_of_slot (forest : tree.IsForest) (slot : tree.Slot parent position child) :
    ∃ node, tree.get? child = some node ∧ node.parent = some parent :=
  parentOf_eq_ok.mp (forest.linked parent position child slot)

theorem stored_of_mem (forest : tree.IsForest) (stored : tree.get? id = some node)
    (listed : child ∈ node.kind.children) :
    ∃ content, tree.get? child = some content ∧ content.parent = some id := by
  obtain ⟨position, found⟩ := List.getElem?_of_mem listed
  exact forest.stored_of_slot ⟨node, stored, found⟩

theorem notMem_children (forest : tree.IsForest) (stored : tree.get? id = some node) :
    id ∉ node.kind.children := by
  intro listed
  obtain ⟨position, found⟩ := List.getElem?_of_mem listed
  exact forest.acyclic id (.single ⟨position, node, stored, found⟩)

end IsForest

namespace Wraps

section

variable (wraps : tree.Wraps id node kind after) (stored : tree.get? id = some node)

include wraps

theorem get?_next : after.get? tree.next = some { node with parent := some id, sibling := none } :=
  by
  rw [wraps, if_pos rfl]

include stored in
theorem get?_self : after.get? id = some { node with kind, type := none, symbol := none } := by
  rw [wraps, if_neg (Table.ne_next_of_get? stored), if_pos rfl]

theorem get?_of_ne {other : NodeId} (old : other ≠ tree.next) (apart : other ≠ id) :
    after.get? other = tree.adopted tree.next node.kind.children other := by
  rw [wraps, if_neg old, if_neg apart]

/-- The wrapped node has the new node as its only child, and every other node the children of the
node it comes from. -/
theorem slot_iff (stored : tree.get? id = some node) (single : kind.children = [tree.next]) :
    after.Slot parent position child ↔
      parent = id ∧ position = 0 ∧ child = tree.next ∨ parent ≠ id ∧
      tree.Slot (tree.origin id parent) position child := by
  unfold Slot
  by_cases isId : parent = id
  · subst isId
    cases position <;> simp [wraps.get?_self stored, single, eq_comm]
  by_cases isNew : parent = tree.next
  · subst isNew
    simp [wraps.get?_next, origin, stored, isId]
  · rw [wraps.get?_of_ne isNew isId, origin_of_ne isNew]
    unfold adopted
    split <;> simp [isId]

end

variable (wraps : tree.Wraps id node kind after) (forest : tree.IsForest)
  (stored : tree.get? id = some node)
  (single : kind.children = [tree.next])

include wraps forest stored single

omit single in
theorem get?_child (listed : child ∈ node.kind.children) :
    after.get? child = (tree.get? child).map fun content =>
    { content with parent := some tree.next } := by
  obtain ⟨content, found, _⟩ := forest.stored_of_mem stored listed
  have apart : child ≠ id := fun same => forest.notMem_children stored (same ▸ listed)
  rw [wraps.get?_of_ne (Table.ne_next_of_get? found) apart, adopted, if_pos listed]

omit forest single in
theorem parentOf_iff {parent? : Option NodeId} (old : child ≠ tree.next)
    (outside : child ∉ node.kind.children) :
    after.parentOf child = .ok parent? ↔ tree.parentOf child = .ok parent? := by
  rw [parentOf_eq_ok, parentOf_eq_ok]
  by_cases isId : child = id
  · simp [isId, wraps.get?_self stored, stored]
  · rw [wraps.get?_of_ne old isId, adopted_of_notMem outside]

/-- Below a node stand the nodes that stood there before, with the new node in the place of the
wrapped one. -/
theorem below (below : Relation.TransGen after.HasChild parent child) :
    Relation.TransGen tree.HasChild (tree.origin id parent) (tree.origin id child) ∨ parent = id ∧
    child = tree.next := by
  have same : tree.origin id tree.next = tree.origin id id := by simp [origin]
  have step {parent child : NodeId} (step : after.HasChild parent child) :
      tree.HasChild (tree.origin id parent) (tree.origin id child) ∨ parent = id ∧
        child = tree.next := by
    obtain ⟨position, slot⟩ := step
    rcases (wraps.slot_iff stored single).mp slot with ⟨rfl, _, rfl⟩ | ⟨_, old⟩
    · exact .inr ⟨rfl, rfl⟩
    · obtain ⟨content, found, _⟩ := forest.stored_of_slot old
      exact .inl ⟨position, by rwa [origin_of_ne (Table.ne_next_of_get? found)]⟩
  induction below with
  | single first => exact (step first).imp_left .single
  | tail _ last ih =>
    rcases ih with far | ⟨rfl, rfl⟩ <;> rcases step last with near | ⟨isId, rfl⟩
    · exact .inl (far.tail near)
    · exact .inl (same ▸ isId ▸ far)
    · exact .inl (.single (same ▸ near))
    · exact .inr ⟨rfl, rfl⟩

/-- A forest with a node wrapped is a forest. -/
theorem isForest : after.IsForest where
  single first second position other child one two := by
    have old {parent : NodeId} {position : Nat} (slot : tree.Slot parent position child) :
      child ≠ tree.next := by
      obtain ⟨content, found, _⟩ := forest.stored_of_slot slot
      exact Table.ne_next_of_get? found
    rcases (wraps.slot_iff stored single).mp one with ⟨rfl, rfl, rfl⟩ | ⟨outside, here⟩ <;>
      rcases (wraps.slot_iff stored single).mp two with ⟨rfl, rfl, same⟩ | ⟨apart, there⟩
    · exact ⟨rfl, rfl⟩
    · exact absurd rfl (old there)
    · exact absurd same (old here)
    · obtain ⟨origins, positions⟩ := forest.single _ _ _ _ _ here there
      refine ⟨?_, positions⟩
      unfold origin at origins
      split at origins <;> split at origins <;> simp_all
  linked parent position child slot := by
    rcases (wraps.slot_iff stored single).mp slot with ⟨rfl, _, rfl⟩ | ⟨outside, old⟩
    · exact parentOf_eq_ok.mpr ⟨_, wraps.get?_next, rfl⟩
    obtain ⟨content, found, link⟩ := forest.stored_of_slot old
    by_cases isNew : parent = tree.next
    · obtain ⟨_, again, listed⟩ := old
      rw [isNew, origin, if_pos rfl] at again
      cases stored.symm.trans again
      refine parentOf_eq_ok.mpr ⟨{ content with parent := some parent }, ?_, rfl⟩
      rw [wraps.get?_child forest stored (List.mem_of_getElem? listed), found, isNew]
      rfl
    · rw [origin_of_ne isNew] at old link
      refine (wraps.parentOf_iff stored (Table.ne_next_of_get? found) fun listed => ?_).mpr
        (forest.linked _ _ _ old)
      obtain ⟨_, again, other⟩ := forest.stored_of_mem stored listed
      cases found.symm.trans again
      exact outside (Option.some.inj (link.symm.trans other))
  acyclic other cycle := by
    rcases wraps.below forest stored single cycle with old | ⟨rfl, same⟩
    · exact forest.acyclic _ old
    · exact Table.ne_next_of_get? stored same

/-- Where parent links lead to nodes that have the linked ones, they do so after a node was wrapped.
-/
theorem linksMatch (links : tree.LinksMatch) : after.LinksMatch := by
  intro parent child link
  have new : tree.next ≠ id := (Table.ne_next_of_get? stored).symm
  suffices ∃ position, parent = id ∧ position = 0 ∧ child = tree.next ∨
      parent ≠ id ∧ tree.Slot (tree.origin id parent) position child from
    this.imp fun _ => (wraps.slot_iff stored single).mpr
  by_cases isNew : child = tree.next
  · obtain ⟨_, found, isParent⟩ := parentOf_eq_ok.mp link
    cases wraps.get?_next.symm.trans (isNew ▸ found)
    exact ⟨0, .inl ⟨(Option.some.inj isParent).symm, rfl, isNew⟩⟩
  by_cases listed : child ∈ node.kind.children
  · obtain ⟨_, found, isParent⟩ := parentOf_eq_ok.mp link
    rw [wraps.get?_child forest stored listed] at found
    obtain ⟨content, _, rfl⟩ := Option.map_eq_some_iff.mp found
    cases isParent
    obtain ⟨position, here⟩ := List.getElem?_of_mem listed
    exact ⟨position, .inr ⟨new, node, by rwa [origin, if_pos rfl], here⟩⟩
  · obtain ⟨position, above, present, here⟩ :=
      links parent child ((wraps.parentOf_iff stored isNew listed).mp link)
    refine ⟨position, .inr ⟨?_, above, ?_, here⟩⟩
    · rintro rfl
      cases stored.symm.trans present
      exact listed (List.mem_of_getElem? here)
    · rwa [origin_of_ne (Table.ne_next_of_get? present)]

omit single in
/-- Taking the new node out gives back the tree. -/
theorem contracted_eq : after.contracted id tree.next = tree.get? := by
  funext other
  unfold contracted
  split
  · rename_i isNew
    rw [isNew, Table.get?_next]
  split
  · rename_i isId
    simp [isId, wraps.get?_self stored, wraps.get?_next, stored]
  · rename_i old apart
    rw [wraps.get?_next]
    by_cases listed : other ∈ node.kind.children
    · obtain ⟨content, found, link⟩ := forest.stored_of_mem stored listed
      simp [adopted, listed, wraps.get?_child forest stored listed, found, ← link]
    · simp [adopted, listed, wraps.get?_of_ne old apart]

end Wraps

/-- Wrapping a node of a forest inserts one node: the new node has the content, the annotations and
the children of the wrapped one, which keeps its place, and no other node changes.  What it leaves
is a forest, from which the tree as it was is got back by taking the new node out. -/
theorem wrap_inserts_one_node (forest : tree.IsForest) (stored : tree.get? id = some node)
    (single : (make tree.next).children = [tree.next]) :
    ∃ after, wrap id make tree = .ok tree.next after ∧ after.size = tree.size + 1 ∧
      after.get? tree.next = some { node with parent := some id, sibling := none } ∧
      after.get? id = some { node with kind := make tree.next, type := none, symbol := none } ∧
      (∀ child ∈ node.kind.children,
        after.get? child = (tree.get? child).map fun content =>
        { content with parent := some tree.next }) ∧
      (∀ other, other ≠ tree.next → other ≠ id → other ∉ node.kind.children →
        after.get? other = tree.get? other) ∧
      after.IsForest ∧ (tree.LinksMatch → after.LinksMatch) ∧ after.contracted id tree.next =
      tree.get? := by
  have inside : ∀ child ∈ node.kind.children, Handle.index child < tree.size := by
    intro child listed
    obtain ⟨_, found, _⟩ := forest.stored_of_mem stored listed
    exact Table.lt_size_of_get? found
  obtain ⟨inner, after, run⟩ := run_wrap stored single inside
  have made : (wrap id make).Ensures tree fun answer final =>
      answer = tree.next ∧ final.size = tree.size + 1 ∧
        tree.Wraps id node (make tree.next) final := by
    refine ensures_wrap single (fun _ => forest.notMem_children) ?_
    intro final outer found size lookups
    cases stored.symm.trans found
    exact ⟨rfl, size, lookups⟩
  obtain ⟨rfl, size, wraps⟩ := made inner after run
  refine ⟨after, run, size, wraps.get?_next, wraps.get?_self stored, fun _ =>
    wraps.get?_child forest stored, ?_,
    wraps.isForest forest stored single, wraps.linksMatch forest stored single,
      wraps.contracted_eq forest stored⟩
  intro other old apart outside
  rw [wraps.get?_of_ne old apart, adopted_of_notMem outside]

theorem wrap_root_of_sample : ∃ node after, Sample.program.1.tree.IsForest ∧
    Sample.program.1.tree.get? Sample.program.2 = some node ∧
    wrap Sample.program.2 (fun inner => .block [inner]) Sample.program.1.tree =
    .ok Sample.program.1.tree.next after ∧
    after.IsForest ∧ after.contracted Sample.program.2 Sample.program.1.tree.next =
    Sample.program.1.tree.get? := by
  have forest : Sample.program.1.tree.IsForest := Rising.isForest (by decide +kernel)
  obtain ⟨node, stored⟩ := Table.exists_get?_of_lt
    (show Handle.index Sample.program.2 < Sample.program.1.tree.size by decide +kernel)
  obtain ⟨after, run, _, _, _, _, _, isForest, _, back⟩ :=
    @wrap_inserts_one_node _ _ _ (fun inner => .block [inner]) forest stored rfl
  exact ⟨node, after, forest, stored, run, isForest, back⟩

end Tree
end Resolution
