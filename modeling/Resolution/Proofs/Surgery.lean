import Resolution.Constant.Fold
import Resolution.Proofs.Returning

/-!
# Changes of a tree

What every change of a tree does to each of its nodes.  A change is described by the lookups of the
tree that it leaves; no other property of a tree is observed.
-/

namespace Resolution

namespace Tree

variable {id : NodeId}
  {tree : Tree} {post : Unit → Tree → Prop} {parent : NodeId} {children : List NodeId}
  {kind : NodeKind}

/-- Lookups of a tree after some of its nodes got another parent. -/
def adopted (tree : Tree) (parent : NodeId) (children : List NodeId) (id : NodeId) : Option Node :=
  if id ∈ children then (tree.get? id).map fun node =>
    { node with parent := some parent } else tree.get? id

theorem adopted_of_notMem (other : id ∉ children) :
    tree.adopted parent children id = tree.get? id := if_neg other

theorem ensures_adopt {post : Unit → Tree → Prop}
    (holds : ∀ final : Tree, final.size = tree.size → final.get? = tree.adopted parent children →
      (∀ child ∈ children, ∃ node, tree.get? child = some node) → post () final) :
    (adopt parent children).Ensures tree post := by
  induction children generalizing tree with
  | nil =>
    refine .pure (holds tree rfl ?_ ?_)
    · funext id
      exact (adopted_of_notMem List.not_mem_nil).symm
    · intro child listed
      cases listed
  | cons child rest ih =>
    unfold adopt
    refine Action.ensures_bind.mpr (Table.ensures_update.mpr ?_)
    intro bound
    obtain ⟨first, stored⟩ := Table.exists_get?_of_lt bound
    refine ih ?_
    intro final size lookups present
    refine holds final (by rw [size, Table.size_modify]) ?_ ?_
    · funext id
      rw [lookups]
      unfold adopted
      by_cases here : id = child
      · subst here
        by_cases again : id ∈ rest <;> simp [again, stored]
      · simp [here, Table.get?_modify]
    · intro other listed
      rcases List.mem_cons.mp listed with rfl | later
      · exact ⟨first, stored⟩
      · obtain ⟨node, found⟩ := present other later
        rw [Table.get?_modify] at found
        split at found
        · rename_i same
          subst same
          exact ⟨first, stored⟩
        · exact ⟨node, found⟩

/-- Stored nodes can get another parent. -/
theorem run_adopt (parent : NodeId) (inside : ∀ child ∈ children, Handle.index child < tree.size) :
    ∃ after, adopt parent children tree = .ok () after ∧ after.size = tree.size := by
  induction children generalizing tree with
  | nil => exact ⟨tree, rfl, rfl⟩
  | cons child rest ih =>
    have ⟨here, others⟩ := List.forall_mem_cons.mp inside
    obtain ⟨after, run, size⟩ := @ih (tree.modify child fun node =>
      { node with parent := some parent }) (by simpa using others)
    exact ⟨after, (Action.bind_eq_ok_iff ..).mpr ⟨(), _, if_pos here, run⟩,
      size.trans (Table.size_modify ..)⟩

theorem ensures_alloc {span : Span} {post : NodeId → Tree → Prop}
    (holds : ∀ final : Tree, final.size = tree.size + 1 →
      (∀ id, final.get? id =
        if id = tree.next then some { kind, span } else tree.adopted tree.next kind.children id) →
      (∀ child ∈ kind.children, ∃ node, tree.get? child = some node) → post tree.next final) :
    (alloc kind span).Ensures tree post := by
  unfold alloc
  refine .get ?_
  refine Action.ensures_bind.mpr (ensures_adopt ?_)
  intro linked size lookups present
  refine Table.ensures_create.mpr ?_
  have next : linked.next = tree.next := by
    simp [Table.next, size]
  rw [next]
  refine holds (linked.push { kind, span }) (by rw [Table.size_push, size]) ?_ present
  intro id
  rw [Table.get?_push, next, lookups]

/-- A replaced node keeps its place and forgets what was resolved about it. -/
theorem ensures_replace {post : Unit → Tree → Prop}
    (holds : ∀ final : Tree, final.size = tree.size →
      (∀ other, final.get? other = if other = id then
          (tree.adopted id kind.children other).map fun node =>
          { node with kind, type := none, symbol := none }
        else tree.adopted id kind.children other) →
      (∀ child ∈ kind.children, ∃ node, tree.get? child = some node) →
      (∃ node, tree.get? id = some node) → post () final) :
    (replace id kind).Ensures tree post := by
  unfold replace
  refine Action.ensures_bind.mpr (ensures_adopt ?_)
  intro linked size lookups present
  refine Table.ensures_update.mpr ?_
  intro bound
  refine holds (linked.modify id _) (by rw [Table.size_modify, size]) ?_ present
    (Table.exists_get?_of_lt (by rwa [size] at bound))
  intro other
  rw [Table.get?_modify, lookups]

/-- A wrapped node moves into a new child, which keeps the old children. -/
theorem ensures_wrap {make : NodeId → NodeKind} {post : NodeId → Tree → Prop}
    (single : (make tree.next).children = [tree.next])
    (apart : ∀ outer, tree.get? id = some outer → id ∉ outer.kind.children)
    (holds : ∀ (final : Tree) (outer : Node), tree.get? id = some outer →
      final.size = tree.size + 1 →
      (∀ other, final.get? other = if other = tree.next then some
        { outer with parent := some id, sibling := none }
        else if other = id then some
        { outer with kind := make tree.next, type := none, symbol := none }
        else tree.adopted tree.next outer.kind.children other) →
      post tree.next final) :
    (wrap id make).Ensures tree post := by
  unfold wrap
  refine .get ?_
  refine .ask ?_
  intro outer fetched
  have stored : tree.get? id = some outer := (Table.fetch_eq_ok_iff ..).mp fetched
  have outside := apart outer stored
  refine Action.ensures_bind.mpr (Table.ensures_update.mpr ?_)
  intro bound
  refine Action.ensures_bind.mpr (Table.ensures_create.mpr ?_)
  have next : (tree.modify id fun node =>
      { node with kind := .null, type := none, symbol := none }).next = tree.next := by
    simp [Table.next]
  rw [next]
  refine Action.ensures_bind.mpr (ensures_adopt ?_)
  intro linked size lookups present
  refine Action.ensures_bind.mpr (ensures_replace ?_)
  intro final finalSize finalLookups _ _
  refine .pure (holds final outer stored ?_ ?_)
  · rw [finalSize, size, Table.size_push, Table.size_modify]
  · have distinct : id ≠ tree.next := Table.ne_next_of_get? stored
    intro other
    rw [finalLookups]
    unfold adopted
    rw [lookups, single]
    unfold adopted
    by_cases isNew : other = tree.next
    · subst isNew
      by_cases listed : tree.next ∈ outer.kind.children <;>
        simp [distinct.symm, listed, Table.get?_push, next]
    · by_cases isHere : other = id
      · subst isHere
        simp [isNew, outside, Table.get?_push, next, stored]
      · simp [isNew, isHere, Table.get?_push, next, Table.get?_modify]

theorem ensures_pushStatement {block statement : NodeId} {post : Unit → Tree → Prop}
    (holds : ∀ (final : Tree) (receiver : Node) (statements : List NodeId), tree.get? block =
      some receiver →
      receiver.kind = .block statements → final.size = tree.size →
      (∃ node, tree.get? statement = some node) →
      (∀ other, final.get? other =
        let node := if other = block then
            (tree.get? other).map fun node =>
            { node with kind := .block (statements ++ [statement]) }
          else tree.get? other
        if other = statement then node.map fun node =>
        { node with parent := some block } else node) →
      post () final) :
    (pushStatement block statement).Ensures tree post := by
  unfold pushStatement
  refine .get ?_
  refine .ask ?_
  intro receiver fetched
  have stored : tree.get? block = some receiver := (Table.fetch_eq_ok_iff ..).mp fetched
  split
  · rename_i statements isBlock
    refine Action.ensures_bind.mpr (Table.ensures_update.mpr ?_)
    intro _
    refine Table.ensures_update.mpr ?_
    intro bound
    rw [Table.size_modify] at bound
    refine holds _ receiver statements stored isBlock ?_ (Table.exists_get?_of_lt bound) ?_
    · rw [Table.size_modify, Table.size_modify]
    · intro other
      rw [Table.get?_modify, Table.get?_modify]
  · intro answer final run
    cases run

end Tree

/-! ## Folding -/

/-- Sorts of nodes that folding may turn into a literal; a name or member access only if it refers
to a constant. -/
def Node.Foldable (symbols : Symbols) (node : Node) : Prop :=
  match node.kind with
  | .name _ | .dot _ _ =>
    ∃ id symbol, node.symbol = some id ∧ symbols.get? id = some symbol ∧ symbol.constant.isSome
  | .implicitCast _ | .cast _ _ | .unary _ _ | .binary _ _ _ => True
  | _ => False

/-- A folded node. -/
def Node.withLiteral (node : Node) (constant : Constant) : Node :=
  { node with kind := constant.literal, symbol := none }

/-- One tree is another one with some nodes of a region folded. -/
def Tree.FoldsTo (region : NodeId → Prop) (symbols : Symbols) (before after : Tree) : Prop :=
  ∀ id, after.get? id = before.get? id ∨
    ∃ node constant, region id ∧ before.get? id = some node ∧ node.Foldable symbols ∧
      after.get? id = some (node.withLiteral constant)

namespace Tree

variable {region : NodeId → Prop} {symbols : Symbols}

theorem FoldsTo.refl (tree : Tree) : tree.FoldsTo region symbols tree := fun _ => .inl rfl

theorem not_foldable_withLiteral (node : Node) (constant : Constant) :
    ¬(node.withLiteral constant).Foldable symbols := by
  cases constant <;> exact fun foldable => foldable

theorem FoldsTo.trans {first second third : Tree} (one : first.FoldsTo region symbols second)
    (two : second.FoldsTo region symbols third) : first.FoldsTo region symbols third := by
  intro id
  rcases two id with same | ⟨node, constant, inside, stored, foldable, folded⟩
  · rw [same]
    exact one id
  · rcases one id with same | ⟨original, earlier, _, _, _, already⟩
    · exact .inr ⟨node, constant, inside, same ▸ stored, foldable, folded⟩
    · cases already.symm.trans stored
      exact absurd foldable (not_foldable_withLiteral original earlier)

theorem FoldsTo.closed {before after : Tree} (folds : before.FoldsTo region symbols after)
    (closed : ∀ id node, before.get? id = some node → region id → ∀ child ∈ node.kind.children,
      region child) :
    ∀ id node, after.get? id = some node → region id → ∀ child ∈ node.kind.children,
    region child := by
  intro id node stored inside child listed
  rcases folds id with same | ⟨original, constant, _, _, _, folded⟩
  · exact closed id node (same ▸ stored) inside child listed
  · rw [folded] at stored
    cases stored
    cases constant <;> cases listed

theorem foldable_of_value? {tree : Tree} {id : NodeId} {node : Node} {constant : Constant}
    (stored : tree.get? id = some node) (value : tree.value? symbols id = .ok (some constant)) :
    node.Foldable symbols := by
  unfold value? at value
  rw [(Table.fetch_eq_ok_iff ..).mpr stored] at value
  unfold Node.Foldable
  dsimp only [bind, Except.bind] at value
  cases kind : node.kind with
  | name written | dot target written =>
    simp only [kind] at value
    cases named : node.symbol with
    | none =>
      rw [named] at value
      cases value
    | some symbol =>
      rw [named] at value
      dsimp only at value
      cases fetched : symbols.fetch symbol with
      | error fault =>
        rw [fetched] at value
        cases value
      | ok entry =>
        rw [fetched] at value
        have reference : entry.referenceValue? = some constant := by
          simpa [pure, Except.pure] using value
        refine ⟨symbol, entry, rfl, (Table.fetch_eq_ok_iff ..).mp fetched, ?_⟩
        unfold Symbol.referenceValue? at reference
        split at reference
        · rw [reference]
          rfl
        · cases reference
  | implicitCast operand | cast type operand | unary op operand | binary op left right => trivial
  | _ =>
    simp only [kind] at value
    cases value

end Tree

namespace Source

variable {region : NodeId → Prop} {symbols : Symbols} {id : NodeId} {source : Source}

theorem ensures_setLiteral {constant : Constant} {node : Node}
    (stored : source.tree.get? id = some node) (inside : region id)
    (foldable : node.Foldable symbols) :
    (setLiteral id constant).Ensures source fun _ final =>
    source.tree.FoldsTo region symbols final.tree := by
  unfold setLiteral
  refine .get ?_
  refine .ask ?_
  intro found fetched
  have same : found = node := by
    rw [(Table.fetch_eq_ok_iff ..).mp fetched] at stored
    exact Option.some.inj stored
  subst same
  extract_lets type finish
  have finished : ∀ middle : Source, middle.tree = source.tree →
      (finish ()).Ensures middle fun _ final => source.tree.FoldsTo region symbols final.tree := by
    intro middle unchanged
    unfold finish
    refine Action.ensures_bind.mpr (Action.ensures_zoom.mpr (Tree.ensures_replace ?_))
    intro replaced _ lookups _ _
    refine .updateIn ?_
    intro _
    have leaf : constant.literal.children = [] := by
      cases constant <;> rfl
    intro other
    change Table.get? (replaced.modify id _) other = _ ∨ _
    rw [Table.get?_modify, lookups, leaf, unchanged]
    by_cases here : other = id
    · subst here
      refine .inr ⟨found, constant, inside, stored, foldable, ?_⟩
      simp [Tree.adopted, stored, Node.withLiteral, type]
    · exact .inl (by simp [here, Tree.adopted])
  split
  · refine Action.ensures_bind.mpr ?_
    exact Action.ensures_modify.mpr (finished _ rfl)
  · exact finished source rfl

theorem ensures_foldWithin {fuel : Nat} (inside : region id)
    (closed : ∀ id node, source.tree.get? id = some node → region id → ∀ child ∈ node.kind.children,
      region child) :
    (foldWithin symbols fuel id).Ensures source fun _ final =>
    source.tree.FoldsTo region symbols final.tree := by
  induction fuel generalizing source id with
  | zero =>
    intro answer final run
    cases run
  | succ fuel ih =>
    unfold foldWithin
    refine .get ?_
    refine .ask ?_
    intro node fetched
    have stored := (Table.fetch_eq_ok_iff ..).mp fetched
    have children : (node.kind.children.forM (foldWithin symbols fuel)).Ensures source
      fun _ middle =>
        source.tree.FoldsTo region symbols middle.tree := by
      refine Action.ensures_forM (Tree.FoldsTo.refl source.tree) ?_
      intro child listed here folded
      refine (ih (closed id node stored inside child listed) (folded.closed closed)).weaken ?_
      intro _ final further
      exact folded.trans further
    refine .bind children ?_
    intro _ middle folded
    refine .get ?_
    refine .ask ?_
    intro value answered
    split
    · rename_i constant
      obtain ⟨current, present⟩ : ∃ current, middle.tree.get? id = some current := by
        rcases folded id with same | ⟨_, _, _, _, _, there⟩
        · exact ⟨node, same ▸ stored⟩
        · exact ⟨_, there⟩
      refine (ensures_setLiteral present inside (Tree.foldable_of_value? present answered)).weaken
        ?_
      intro _ final further
      exact folded.trans further
    · exact .pure folded

theorem ensures_fold (inside : region id) (closed : ∀ id node, source.tree.get? id = some node →
    region id →
      ∀ child ∈ node.kind.children, region child) :
    (fold symbols id).Ensures source fun _ final =>
    source.tree.FoldsTo region symbols final.tree := by
  unfold fold
  exact Action.ensures_bind.mpr (Action.ensures_get.mpr (ensures_foldWithin inside closed))

end Source
end Resolution
