import Resolution.Proofs.Evaluating
import Resolution.Proofs.Forest

/-!
# Folding is evaluation

Folding rewrites the tree while it walks it.  Each rewrite makes one node the literal of its value,
which no node evaluates differently after; what was folded is never rewritten again.  So the root of
a finite tree ends as the literal of its value, if it has one, and a second fold finds nothing to
do.
-/

namespace Resolution

namespace Tree

variable {symbols : Symbols} {before after tree : Tree} {id : NodeId} {node : Node}

/-! ## Trees that can be folded -/

/-- A node is stored, what it refers to is known, and going down from it ends. -/
inductive Complete (tree : Tree) (symbols : Symbols) : NodeId → Prop where
  | node {id : NodeId} {node : Node} (stored : tree.get? id = some node)
      (known : node.Known symbols) (below : ∀ child ∈ node.kind.children,
        Complete tree symbols child) : Complete tree symbols id

theorem hasChild_of_mem {child : NodeId} (stored : tree.get? id = some node)
    (listed : child ∈ node.kind.children) :
    tree.HasChild id child := by
  obtain ⟨position, found⟩ := List.getElem?_of_mem listed
  exact ⟨position, node, stored, found⟩

theorem Complete.acyclic (complete : tree.Complete symbols id) :
    ¬Relation.TransGen tree.HasChild id id := by
  induction complete with
  | @node id node stored _ _ ih =>
    intro cycle
    obtain ⟨child, ⟨position, other, again, found⟩, back⟩ := Relation.TransGen.head'_iff.mp cycle
    cases stored.symm.trans again
    have listed := List.mem_of_getElem? found
    exact ih child listed (.tail' back (hasChild_of_mem stored listed))

theorem Complete.length_above {above : List NodeId} (complete : tree.Complete symbols id)
    (distinct : above.Nodup)
    (leads : ∀ upper ∈ above, Relation.TransGen tree.HasChild upper id) :
    (id :: above).Nodup ∧ above.length < tree.size := by
  have apart : id ∉ above := fun listed => complete.acyclic (leads id listed)
  have different := List.nodup_cons.mpr ⟨apart, distinct⟩
  have inTree : id :: above ⊆ tree.handles := by
    intro upper listed
    rcases List.mem_cons.mp listed with rfl | listed
    · obtain ⟨stored⟩ := complete
      exact (Table.mem_handles ..).mpr (Table.lt_size_of_get? stored)
    · obtain ⟨child, ⟨position, node, stored, _⟩, _⟩ :=
        Relation.TransGen.head'_iff.mp (leads upper listed)
      exact (Table.mem_handles ..).mpr (Table.lt_size_of_get? stored)
  have short := (List.subperm_of_subset different inTree).length_le
  simp only [List.length_cons, Table.handles, List.length_map, List.length_range] at short
  exact ⟨different, short⟩

/-! ## One rewrite -/

/-- One node became the literal of its value. -/
def FoldsOnce (before : Tree) (symbols : Symbols) (after : Tree) : Prop :=
  ∃ id node value, before.get? id = some node ∧ before.value? symbols id = .ok (some value) ∧
    after.size = before.size ∧
    ∀ other, after.get? other = if other = id then some (node.withLiteral value) else before.get?
      other

/-- Nodes became the literals of their values, one after the other. -/
def Folds (before : Tree) (symbols : Symbols) : Tree → Prop :=
  Relation.ReflTransGen (fun first second => first.FoldsOnce symbols second) before

/-- Nothing below a node, nor the node itself, has a value to become the literal of. -/
inductive Folded (tree : Tree) (symbols : Symbols) : NodeId → Prop where
  | node {id : NodeId} {node : Node} (stored : tree.get? id = some node)
    (settled : tree.value? symbols id = .ok none)
      (below : ∀ child ∈ node.kind.children, Folded tree symbols child) : Folded tree symbols id

theorem children_withLiteral (node : Node) (value : Constant) :
    (node.withLiteral value).kind.children = [] := by
  cases value <;> rfl

theorem reading_withLiteral (node : Node) (value : Constant) :
    (node.withLiteral value).kind.reading = .literal value :=
  NodeKind.reading_literal value

theorem folded_of_literal {value : Constant} (stored : tree.get? id = some node)
    (isLiteral : node.kind = value.literal) : tree.Folded symbols id := by
  refine .node stored ?_ ?_
  · rw [value?_of_get? stored, isLiteral, NodeKind.reading_literal]
  · intro child listed
    rw [isLiteral] at listed
    cases value <;> cases listed

section

variable (folded : tree.Folded symbols id)

include folded

theorem Folded.exists_get? : ∃ node, tree.get? id = some node := by
  obtain ⟨stored⟩ := folded
  exact ⟨_, stored⟩

theorem Folded.settled : tree.value? symbols id = .ok none := by
  cases folded with
  | node _ settled => exact settled

theorem Folded.child {child : NodeId} (stored : tree.get? id = some node)
    (listed : child ∈ node.kind.children) : tree.Folded symbols child := by
  cases folded with
  | node again _ below =>
    cases stored.symm.trans again
    exact below child listed

theorem Folded.constantOf?_of_evaluates {value : Constant}
    (evaluates : tree.Evaluates symbols id value) : tree.constantOf? id = .ok (some value) := by
  -- In every other case the operands are literals, so that the node would have a value to become
  -- the literal of.
  induction evaluates with
  | literal stored reads =>
    rw [constantOf?_of_get? stored, NodeKind.constant?_eq_some_iff.mpr reads]
  | reference stored reads refers known isConstant valued =>
    have settled := folded.settled
    have constant := Symbol.referenceValue?_eq_some_iff.mpr ⟨isConstant, valued⟩
    rw [value?_of_get? stored, reads, refers] at settled
    simp [(Table.fetch_eq_ok_iff ..).mpr known, constant] at settled
  | conversion stored reads _ typed becomes ih =>
    have literal :=
      ih (folded.child stored (NodeKind.mem_children_of_operand
      (by simp [reads, Reading.operands])))
    have settled := folded.settled
    simp [value?_of_get? stored, reads, literal, typed,
      Constant.convert?_eq_some_iff.mpr becomes] at settled
  | unary stored reads _ yields ih =>
    have literal :=
      ih (folded.child stored (NodeKind.mem_children_of_operand
      (by simp [reads, Reading.operands])))
    have settled := folded.settled
    simp [value?_of_get? stored, reads, literal, Constant.unary?_eq_some_iff.mpr yields] at settled
  | binary stored reads _ _ yields ihLeft ihRight =>
    have left :=
      ihLeft (folded.child stored (NodeKind.mem_children_of_operand
      (by simp [reads, Reading.operands])))
    have right :=
      ihRight (folded.child stored (NodeKind.mem_children_of_operand
      (by simp [reads, Reading.operands])))
    have settled := folded.settled
    simp only [value?_of_get? stored, reads, left, right] at settled
    change Except.ok (Constant.binary? _ _ _) = _ at settled
    simp [Constant.binary?_eq_some_iff.mpr yields] at settled

end

namespace FoldsOnce

variable (step : before.FoldsOnce symbols after)

include step

/-- A rewrite keeps what every node evaluates to. -/
theorem evaluates_iff {value : Constant} :
    after.Evaluates symbols id value ↔ before.Evaluates symbols id value := by
  obtain ⟨place, node, result, stored, found, _, lookups⟩ := step
  have valueBefore : before.Evaluates symbols place result := evaluates_of_value? found
  have valueAfter : after.Evaluates symbols place result := by
    refine .literal ?_ (reading_withLiteral node result)
    rw [lookups, if_pos rfl]
  constructor
  · refine Evaluates.transfer fun other => ?_
    by_cases here : other = place
    · subst here
      refine .inr fun value evaluates => ?_
      rwa [evaluates.unique valueAfter]
    · rw [lookups, if_neg here]
      exact .inl rfl
  · refine Evaluates.transfer fun other => ?_
    by_cases here : other = place
    · subst here
      refine .inr fun value evaluates => ?_
      rwa [evaluates.unique valueBefore]
    · rw [lookups, if_neg here]
      exact .inl rfl

/-- A rewrite keeps a node or makes it a literal. -/
theorem get?_cases (stored : before.get? id = some node) :
    after.get? id = some node ∨ ∃ value, after.get? id = some (node.withLiteral value) := by
  obtain ⟨place, other, value, there, _, _, lookups⟩ := step
  rw [lookups]
  by_cases here : id = place
  · subst here
    cases stored.symm.trans there
    exact .inr ⟨value, if_pos rfl⟩
  · exact .inl ((if_neg here).trans stored)

/-- A node that has no value to become the literal of is kept. -/
theorem get?_of_settled (settled : before.value? symbols id = .ok none) :
    after.get? id = before.get? id := by
  obtain ⟨place, node, value, _, found, _, lookups⟩ := step
  rw [lookups, if_neg]
  rintro rfl
  cases settled.symm.trans found

end FoldsOnce

theorem Folded.keep (folded : before.Folded symbols id) (step : before.FoldsOnce symbols after) :
    after.Folded symbols id := by
  induction folded with
  | @node id node stored settled below ih =>
    have kept : after.get? id = some node := (step.get?_of_settled settled).trans stored
    refine .node kept ?_ ih
    rw [← settled]
    refine value?_congr stored kept fun operand listed => ?_
    exact step.get?_of_settled (below operand (NodeKind.mem_children_of_operand listed)).settled

/-! ## Any number of rewrites -/

namespace Folds

variable (folds : before.Folds symbols after)

include folds

theorem evaluates_iff {value : Constant} :
    after.Evaluates symbols id value ↔ before.Evaluates symbols id value := by
  induction folds with
  | refl => rfl
  | tail _ step ih => rw [step.evaluates_iff, ih]

theorem folded (folded : before.Folded symbols id) : after.Folded symbols id := by
  induction folds with
  | refl => exact folded
  | tail _ step ih => exact ih.keep step

theorem size_eq : after.size = before.size := by
  induction folds with
  | refl => rfl
  | tail _ step ih =>
    obtain ⟨_, _, _, _, _, size, _⟩ := step
    rw [size, ih]

theorem get?_cases (stored : before.get? id = some node) :
    after.get? id = some node ∨ ∃ value, after.get? id = some (node.withLiteral value) := by
  induction folds with
  | refl => exact .inl stored
  | tail _ step ih =>
    rcases ih with kept | ⟨value, literal⟩
    · exact step.get?_cases kept
    · rcases step.get?_cases literal with kept | ⟨other, again⟩
      · exact .inr ⟨value, kept⟩
      · exact .inr ⟨other, again⟩

/-- A node is still there, with no other children and no further reference. -/
theorem exists_get? (stored : before.get? id = some node)
    (known : node.Known symbols) :
    ∃ current, after.get? id = some current ∧ current.kind.children ⊆ node.kind.children ∧
    current.Known symbols := by
  rcases folds.get?_cases stored with kept | ⟨value, literal⟩
  · exact ⟨node, kept, List.Subset.refl _, known⟩
  · refine ⟨_, literal, ?_, ?_⟩
    · rw [children_withLiteral]
      exact List.nil_subset _
    · intro reads
      rw [reading_withLiteral] at reads
      cases reads

theorem complete (complete : before.Complete symbols id) :
    after.Complete symbols id := by
  induction complete with
  | node stored known _ ih =>
    obtain ⟨current, present, inherits, refers⟩ := folds.exists_get? stored known
    exact .node present refers fun child listed => ih child (inherits listed)

end Folds

end Tree

/-! ## Runs -/

theorem Action.ofExcept_eq_ok_iff {σ α : Type} {outcome : Except Fault α} {state final : σ}
    {value : α} :
    (Action.ofExcept outcome : Action σ α) state = .ok value final ↔ outcome = .ok value ∧
    final = state := by
  cases outcome with
  | error fault => exact ⟨nofun, nofun⟩
  | ok answer =>
    constructor
    · rintro ⟨⟩
      exact ⟨rfl, rfl⟩
    · rintro ⟨⟨⟩, rfl⟩
      rfl

namespace Source

variable {symbols : Symbols} {source : Source} {start : Tree} {id : NodeId} {node : Node}
  {fuel : Nat}

theorem onTree_of_ok {α : Type} {action : Action Tree α} {value : α} {changed : Tree}
    (run : action source.tree = .ok value changed) :
    onTree action source = .ok value { source with tree := changed } := by
  simp only [onTree, Action.zoom, run]

theorem setLiteral_folds {value : Constant} (stored : source.tree.get? id = some node)
    (found : source.tree.value? symbols id = .ok (some value)) :
    ∃ final, setLiteral id value source = .ok () final ∧ source.tree.FoldsOnce symbols final.tree ∧
      final.tree.get? id = some (node.withLiteral value) := by
  have fetched : source.tree.fetch id = .ok node := (Table.fetch_eq_ok_iff ..).mpr stored
  have bound := Table.lt_size_of_get? stored
  have replaced : Tree.replace id value.literal source.tree =
      .ok () (source.tree.modify id fun entry =>
        { entry with kind := value.literal, type := none, symbol := none }) := by
    cases value <;> exact if_pos bound
  have retyped : Table.update id (fun entry : Node => { entry with type := node.type })
    (source.tree.modify id fun entry =>
      { entry with kind := value.literal, type := none, symbol := none }) = .ok () _ :=
    if_pos (by rwa [Table.size_modify])
  have finished (names : Interner) : ∃ final,
      (do onTree (Tree.replace id value.literal)
          onTree (Table.update id fun entry => { entry with type := node.type }) :
            Action Source Unit)
          ⟨source.tree, names⟩ = .ok () final ∧ source.tree.FoldsOnce symbols final.tree ∧
        final.tree.get? id = some (node.withLiteral value) := by
    refine ⟨_, (Action.bind_eq_ok_iff ..).mpr ⟨_, _, onTree_of_ok replaced, onTree_of_ok retyped⟩,
      ⟨id, node, value, stored, found, ?_, ?_⟩, ?_⟩
    · simp only [Table.size_modify]
    · intro other
      simp only [Table.get?_modify]
      split
      · rename_i here
        subst here
        simp [stored, Node.withLiteral]
      · rfl
    · simp [stored, Node.withLiteral]
  cases value with
  | text value =>
    obtain ⟨final, run, literal⟩ := finished (source.names.note value)
    refine ⟨final, ?_, literal⟩
    rw [← run]
    change (Action.ofExcept (source.tree.fetch id) >>= _) source = _
    rw [fetched]
    rfl
  | bool | int | double =>
    obtain ⟨final, run, literal⟩ := finished source.names
    refine ⟨final, ?_, literal⟩
    rw [← run]
    change (Action.ofExcept (source.tree.fetch id) >>= _) source = _
    rw [fetched]
    rfl

theorem foldWithin_eq_ok_iff {final : Source} :
    foldWithin symbols (fuel + 1) id source = .ok () final ↔
      ∃ node middle outcome, source.tree.get? id = some node ∧
        node.kind.children.forM (foldWithin symbols fuel) source = .ok () middle ∧
        middle.tree.value? symbols id = .ok outcome ∧
        (match outcome with
          | some value => setLiteral id value
          | none => pure ()) middle = .ok () final := by
  have got {state value final : Source} :
      (get : Action Source Source) state = .ok value final ↔ value = state ∧ final = state := by
    constructor
    · rintro ⟨⟩
      exact ⟨rfl, rfl⟩
    · rintro ⟨rfl, rfl⟩
      rfl
  simp only [foldWithin, Action.bind_eq_ok_iff, got, Action.ofExcept_eq_ok_iff,
    Table.fetch_eq_ok_iff]
  constructor
  · rintro ⟨_, _, ⟨rfl, rfl⟩, node, _, ⟨stored, rfl⟩, _, middle, children, _, _, ⟨rfl, rfl⟩,
      outcome, _, ⟨valued, rfl⟩, run⟩
    exact ⟨node, _, outcome, stored, children, valued, run⟩
  · rintro ⟨node, middle, outcome, stored, children, valued, run⟩
    exact ⟨_, _, ⟨rfl, rfl⟩, node, _, ⟨stored, rfl⟩, (), middle, children, _, _, ⟨rfl, rfl⟩,
      outcome, _, ⟨valued, rfl⟩,
      run⟩

theorem forM_folds {step : NodeId → Action Source Unit} {children : List NodeId}
    (each : ∀ child ∈ children, ∀ source : Source, start.Folds symbols source.tree →
      ∃ final, step child source = .ok () final ∧ source.tree.Folds symbols final.tree ∧
      final.tree.Folded symbols child)
    (folds : start.Folds symbols source.tree) :
    ∃ final, children.forM step source = .ok () final ∧ source.tree.Folds symbols final.tree ∧
      ∀ child ∈ children, final.tree.Folded symbols child := by
  induction children generalizing source with
  | nil => exact ⟨source, rfl, .refl, nofun⟩
  | cons child rest ih =>
    obtain ⟨middle, run, further, foldedChild⟩ := each child List.mem_cons_self source folds
    obtain ⟨final, runRest, furtherRest, foldedRest⟩ :=
      ih (fun other listed => each other (List.mem_cons_of_mem _ listed)) (folds.trans further)
    refine ⟨final, ?_, further.trans furtherRest, ?_⟩
    · exact (Action.bind_eq_ok_iff (step child) (fun _ => rest.forM step) ..).mpr
        ⟨(), middle, run, runRest⟩
    · intro other listed
      rcases List.mem_cons.mp listed with rfl | listed
      · exact furtherRest.folded foldedChild
      · exact foldedRest other listed

theorem settle_folds {outcome : Option Constant} (stored : source.tree.get? id = some node)
    (below : ∀ child ∈ node.kind.children, source.tree.Folded symbols child)
    (valued : source.tree.value? symbols id = .ok outcome) : ∃ final, (match outcome with
        | some value => setLiteral id value
        | none => pure ()) source = .ok () final ∧
      source.tree.Folds symbols final.tree ∧ final.tree.Folded symbols id := by
  cases outcome with
  | none => exact ⟨source, rfl, .refl, .node stored valued below⟩
  | some value =>
    obtain ⟨final, run, step, literal⟩ := setLiteral_folds stored valued
    exact ⟨final, run, .single step, Tree.folded_of_literal literal rfl⟩

/-- Folding a finite tree returns if there is a step for each node that is not above the root of it.
-/
theorem foldWithin_folds {above : List NodeId} (complete : start.Complete symbols id)
    (distinct : above.Nodup) (leads : ∀ upper ∈ above, Relation.TransGen start.HasChild upper id)
    (enough : start.size < fuel + above.length) (folds : start.Folds symbols source.tree) :
    ∃ final, foldWithin symbols fuel id source = .ok () final ∧
    source.tree.Folds symbols final.tree ∧
      final.tree.Folded symbols id := by
  induction complete generalizing fuel above source with
  | @node id node stored known below ih =>
    have complete := Tree.Complete.node stored known below
    obtain ⟨different, fewer⟩ := complete.length_above distinct leads
    obtain ⟨fuel, rfl⟩ : ∃ less, fuel = less + 1 := ⟨fuel - 1, by omega⟩
    obtain ⟨current, present, inherits, refers⟩ := folds.exists_get? stored known
    have each : ∀ child ∈ current.kind.children, ∀ source : Source,
      start.Folds symbols source.tree →
        ∃ final, foldWithin symbols fuel child source = .ok () final ∧
          source.tree.Folds symbols final.tree ∧
          final.tree.Folded symbols child := by
      intro child listed source folds
      have isChild := Tree.hasChild_of_mem stored (inherits listed)
      refine ih child (inherits listed) different ?_ (by simp only [List.length_cons]; omega) folds
      intro upper up
      rcases List.mem_cons.mp up with rfl | up
      · exact .single isChild
      · exact (leads upper up).tail isChild
    obtain ⟨middle, runChildren, foldsChildren, foldedChildren⟩ := forM_folds each folds
    obtain ⟨latest, presentLatest, inheritsLatest, refersLatest⟩ :=
      foldsChildren.exists_get? present refers
    have below : ∀ child ∈ latest.kind.children, middle.tree.Folded symbols child :=
      fun child listed => foldedChildren child (inheritsLatest listed)
    obtain ⟨outcome, valued⟩ := Tree.exists_value? presentLatest refersLatest fun operand listed =>
      (below operand (NodeKind.mem_children_of_operand listed)).exists_get?
    obtain ⟨final, runNode, foldsNode, foldedNode⟩ := settle_folds presentLatest below valued
    exact ⟨final, foldWithin_eq_ok_iff.mpr ⟨current, middle, outcome, present, runChildren, valued,
      runNode⟩,
      foldsChildren.trans foldsNode, foldedNode⟩

/-- Folding a finite tree returns, and leaves nothing below its root to fold. -/
theorem fold_folds (complete : source.tree.Complete symbols id) :
    ∃ final, fold symbols id source = .ok () final ∧ source.tree.Folds symbols final.tree ∧
      final.tree.Folded symbols id := by
  obtain ⟨final, run, folds, folded⟩ := foldWithin_folds complete List.nodup_nil nofun
    (Nat.lt_succ_self _) .refl
  exact ⟨final, (Action.bind_eq_ok_iff ..).mpr ⟨source, source, rfl, run⟩, folds, folded⟩

/-- Where nothing is left to fold, folding changes nothing. -/
theorem ensures_foldWithin_folded (folded : source.tree.Folded symbols id) :
    (foldWithin symbols fuel id).Ensures source fun _ final => final = source := by
  induction fuel generalizing id with
  | zero =>
    intro answer final run
    cases run
  | succ fuel ih =>
    intro answer final run
    obtain ⟨node, middle, outcome, stored, children, valued, finish⟩ := foldWithin_eq_ok_iff.mp run
    have unchanged : middle = source := by
      have keeps : (node.kind.children.forM (foldWithin symbols fuel)).Ensures source fun _ here =>
        here = source := by
        refine Action.ensures_forM rfl ?_
        rintro child listed here rfl
        exact ih (folded.child stored listed)
      exact keeps _ _ children
    subst unchanged
    cases folded.settled.symm.trans valued
    cases finish
    rfl

/-- Folding a finite tree makes its root the literal of what the tree evaluated to, or leaves it
without a value. -/
theorem fold_evaluates (complete : source.tree.Complete symbols id) :
    ∃ final outcome, fold symbols id source = .ok () final ∧
    final.tree.constantOf? id = .ok outcome ∧
      ∀ value, outcome = some value ↔ source.tree.Evaluates symbols id value := by
  obtain ⟨final, run, folds, folded⟩ := fold_folds complete
  obtain ⟨node, stored⟩ := folded.exists_get?
  refine ⟨final, node.kind.constant?, run, Tree.constantOf?_of_get? stored, fun value => ?_⟩
  rw [← folds.evaluates_iff]
  constructor
  · intro literal
    exact .literal stored (NodeKind.constant?_eq_some_iff.mp literal)
  · intro evaluates
    have literal := folded.constantOf?_of_evaluates evaluates
    rw [Tree.constantOf?_of_get? stored] at literal
    exact Except.ok.inj literal

/-- The list `[-(limit << 2) % 7, this]`, in a program whose constant `limit` is 5. -/
def sampleList : Source :=
  ⟨⟨#[{ kind := .name "limit", span := .dummy, symbol := some ⟨0⟩ },
    { kind := .int 2, span := .dummy },
    { kind := .binary .shiftLeft ⟨0⟩ ⟨1⟩, span := .dummy },
      { kind := .unary .negate ⟨2⟩, span := .dummy },
    { kind := .int 7, span := .dummy }, { kind := .binary .remainder ⟨3⟩ ⟨4⟩, span := .dummy },
    { kind := .this, span := .dummy }, { kind := .list [⟨5⟩, ⟨6⟩], span := .dummy }]⟩, .new⟩

/-- The symbol of the constant. -/
def sampleConstants : Symbols :=
  ⟨#[{ name := "limit", kind := .define, span := .dummy, constant := some (.int 5) }]⟩

theorem complete_remainder : sampleList.tree.Complete sampleConstants ⟨5⟩ := by
  have limit : sampleList.tree.Complete sampleConstants ⟨0⟩ :=
    .node rfl (fun _ _ refers => ⟨_, by cases refers; rfl⟩) nofun
  have two : sampleList.tree.Complete sampleConstants ⟨1⟩ := .node rfl nofun nofun
  have shifted : sampleList.tree.Complete sampleConstants ⟨2⟩ :=
    .node rfl nofun (List.forall_mem_cons.mpr ⟨limit, List.forall_mem_singleton.mpr two⟩)
  have negated : sampleList.tree.Complete sampleConstants ⟨3⟩ :=
    .node rfl nofun (List.forall_mem_singleton.mpr shifted)
  have seven : sampleList.tree.Complete sampleConstants ⟨4⟩ := .node rfl nofun nofun
  exact .node rfl nofun (List.forall_mem_cons.mpr ⟨negated, List.forall_mem_singleton.mpr seven⟩)

theorem fold_evaluates_remainder : ∃ final, sampleList.tree.Complete sampleConstants ⟨5⟩ ∧
    fold sampleConstants ⟨5⟩ sampleList = .ok () final ∧
    final.tree.constantOf? ⟨5⟩ = .ok (some (.int (-6))) := by
  obtain ⟨final, outcome, run, literal, evaluates⟩ := fold_evaluates complete_remainder
  have shifted : sampleList.tree.Evaluates sampleConstants ⟨2⟩ (.int 20) :=
    .binary rfl rfl (.reference rfl rfl rfl rfl (.inr (.inl rfl)) rfl) (.literal rfl rfl)
      (Constant.binary?_eq_some_iff.mp rfl)
  have negated : sampleList.tree.Evaluates sampleConstants ⟨3⟩ (.int (-20)) :=
    .unary rfl rfl shifted (Constant.unary?_eq_some_iff.mp rfl)
  have remainder : sampleList.tree.Evaluates sampleConstants ⟨5⟩ (.int (-6)) :=
    .binary rfl rfl negated (.literal rfl rfl) (Constant.binary?_eq_some_iff.mp rfl)
  rw [(evaluates _).mpr remainder] at literal
  exact ⟨final, complete_remainder, run, literal⟩

/-- Folding a finite tree makes literals of some of its nodes, keeps everything else, and has
nothing to do when it is done again. -/
theorem fold_is_local (complete : source.tree.Complete symbols id) :
    ∃ final, fold symbols id source = .ok () final ∧ final.tree.size = source.tree.size ∧
      (∀ other, final.tree.get? other = source.tree.get? other ∨
        source.tree.Reaches id other ∧ ∃ node, source.tree.get? other = some node ∧
          ∃ value : Constant, final.tree.get? other =
          some { node with kind := value.literal, symbol := none }) ∧
      fold symbols id final = .ok () final := by
  obtain ⟨final, run, folds, folded⟩ := fold_folds complete
  refine ⟨final, run, folds.size_eq, ?_, ?_⟩
  · have within : source.tree.FoldsTo (source.tree.Reaches id) symbols final.tree :=
      ensures_fold .refl (fun other node stored reached child listed =>
        reached.tail (Tree.hasChild_of_mem stored listed)) _ _ run
    intro other
    rcases within other with same | ⟨node, value, reached, stored, _, literal⟩
    · exact .inl same
    · exact .inr ⟨reached, node, stored, value, literal⟩
  · obtain ⟨last, again, _⟩ := fold_folds (folds.complete complete)
    have unchanged : last = final := by
      obtain ⟨_, _, got, rerun⟩ := (Action.bind_eq_ok_iff ..).mp again
      cases got
      exact ensures_foldWithin_folded folded _ _ rerun
    rw [again, unchanged]

/-- The entry of the list that has a value becomes a literal; its neighbour has none and stays. -/
theorem fold_is_local_list : ∃ final, sampleList.tree.Complete sampleConstants ⟨7⟩ ∧
    fold sampleConstants ⟨7⟩ sampleList = .ok () final ∧ final.tree.size = 8 ∧
      (final.tree.get? ⟨5⟩).map Node.kind = some (.int (-6)) ∧ (final.tree.get? ⟨6⟩).map Node.kind =
      some .this ∧
      fold sampleConstants ⟨7⟩ final = .ok () final := by
  have complete : sampleList.tree.Complete sampleConstants ⟨7⟩ :=
    .node rfl nofun (List.forall_mem_cons.mpr ⟨complete_remainder, List.forall_mem_singleton.mpr
      (.node rfl nofun nofun)⟩)
  obtain ⟨final, run, size, _, again⟩ := fold_is_local complete
  refine ⟨final, complete, run, size, ?_, ?_, again⟩
  · cases run
    rfl
  · cases run
    rfl

end Source

/-! ## Literals and types

Folding keeps the type of a node.  Where every node has the type that its operands give it, the
literals are of the sort that their types ask for.  Conversions have one gap: an integer stays an
integer when it is converted to `string`.
-/

/-- A constant is of the sort that a type asks for; the values of enumerations are integers. -/
def Constant.Suits : Constant → TypeId → Prop
  | .bool _, type => type = .bool
  | .double _, type => type = .float ∨ type = .double
  | .text _, type => type = .string
  | .int _, type => type ≠ .bool ∧ type ≠ .float ∧ type ≠ .double ∧ type ≠ .string

/-- The operator answers a question. -/
def BinaryOp.Asks (op : BinaryOp) : Prop := op = .logicalAnd ∨ op = .logicalOr ∨ op.relation?.isSome

variable {type : TypeId} {value left right result : Constant}

/-- A conversion gives what the type asks for, unless it makes a string of an integer. -/
theorem Constant.Becomes.suits (becomes : value.Becomes type result) (texts : type = .string →
    value.Suits .string) :
    result.Suits type := by
  cases becomes with
  | int other => exact ⟨other.2.2, other.1, other.2.1, fun isText => (texts isText).2.2.2 rfl⟩
  | toInt | truthToInt => exact ⟨by decide, by decide, by decide, by decide⟩
  | toReal isReal | real isReal | truthToReal isReal => exact isReal
  | toTruth | truth | text => rfl

theorem UnaryOp.Yields.suits {op : UnaryOp} (yields : op.Yields value result) :
    (op = .not → result.Suits .bool) ∧ (op ≠ .not → ∀ type, value.Suits type → result.Suits type) :=
  by
  cases yields <;> simp [Constant.Suits]

theorem BinaryOp.Yields.suits {op : BinaryOp} (yields : op.Yields left right result) :
    (op.Asks → result.Suits .bool) ∧ (¬op.Asks → ∀ type, left.Suits type → result.Suits type) := by
  cases yields with
  | int yields => cases yields <;> simp_all [Constant.Suits, Asks, relation?]
  | compareDouble _ holds => cases op <;> simp_all [Constant.Suits, Asks, relation?, holds?]
  | _ => simp [Constant.Suits, Asks, relation?]

namespace Tree

variable {tree : Tree} {symbols : Symbols} {id : NodeId} {node : Node}

/-- The type of a node, if it has one. -/
def typeOf? (tree : Tree) (id : NodeId) : Option TypeId := (tree.get? id).bind Node.type

/-- A node has the type that its parts give it. -/
structure Agrees (tree : Tree) (symbols : Symbols) (node : Node) : Prop where
  literal : ∀ value, node.kind.reading = .literal value → ∀ type ∈ node.type, value.Suits type
  constant : node.kind.reading = .reference → ∀ referred ∈ node.symbol, ∀ symbol,
    symbols.get? referred = some symbol →
    ∀ value ∈ symbol.constant, ∀ type ∈ node.type, value.Suits type
  text : ∀ operand, node.kind.reading = .conversion operand → node.type = some .string →
    tree.typeOf? operand = some .string
  unary : ∀ op operand, node.kind.reading = .unary op operand →
    (op = .not → node.type = some .bool) ∧ (op ≠ .not → node.type = tree.typeOf? operand)
  binary : ∀ op left right, node.kind.reading = .binary op left right →
    (op.Asks → node.type = some .bool) ∧ (¬op.Asks → node.type = tree.typeOf? left)

theorem typeOf?_of_get? (stored : tree.get? id = some node) : tree.typeOf? id = node.type := by
  rw [typeOf?, stored, Option.bind_some]

theorem Evaluates.suits (evaluates : tree.Evaluates symbols id value)
    (agree : ∀ other node, tree.get? other = some node → tree.Agrees symbols node)
    (typed : tree.typeOf? id = some type) :
    value.Suits type := by
  induction evaluates generalizing type with
  | literal stored reads =>
    rw [typeOf?_of_get? stored] at typed
    exact (agree _ _ stored).literal _ reads type typed
  | reference stored reads refers known isConstant valued =>
    rw [typeOf?_of_get? stored] at typed
    exact (agree _ _ stored).constant reads _ refers _ known _ valued type typed
  | conversion stored reads _ isTyped becomes ih =>
    obtain rfl := Option.some.inj (isTyped.symm.trans ((typeOf?_of_get? stored).symm.trans typed))
    exact becomes.suits fun isText => ih ((agree _ _ stored).text _ reads (isText ▸ isTyped))
  | @unary _ _ _ op _ _ stored reads _ yields ih =>
    rw [typeOf?_of_get? stored] at typed
    obtain ⟨answers, stays⟩ := (agree _ _ stored).unary _ _ reads
    by_cases isNot : op = .not
    · obtain rfl := Option.some.inj ((answers isNot).symm.trans typed)
      exact yields.suits.1 isNot
    · exact yields.suits.2 isNot type (ih ((stays isNot).symm.trans typed))
  | @binary _ _ _ _ op _ _ _ stored reads _ _ yields ih _ =>
    rw [typeOf?_of_get? stored] at typed
    obtain ⟨answers, stays⟩ := (agree _ _ stored).binary _ _ _ reads
    by_cases asks : op.Asks
    · obtain rfl := Option.some.inj ((answers asks).symm.trans typed)
      exact yields.suits.1 asks
    · exact yields.suits.2 asks type (ih ((stays asks).symm.trans typed))

end Tree

/-- Folding makes literals of the sort that the types of their nodes ask for. -/
theorem Source.fold_suits {source : Source} {symbols : Symbols} {root : NodeId}
    (complete : source.tree.Complete symbols root)
    (agree : ∀ other node, source.tree.get? other = some node → source.tree.Agrees symbols node) :
    ∃ final, fold symbols root source = .ok () final ∧ ∀ id node value type, final.tree.get? id =
    some node →
      node.kind.reading = .literal value → node.type = some type → value.Suits type := by
  obtain ⟨final, run, folds, _⟩ := fold_folds complete
  refine ⟨final, run, fun id node value type stored reads typed => ?_⟩
  have evaluates : source.tree.Evaluates symbols id value :=
    folds.evaluates_iff.mp (.literal stored reads)
  have inside : Handle.index id < source.tree.size := folds.size_eq ▸ Table.lt_size_of_get? stored
  obtain ⟨original, found⟩ := Table.exists_get?_of_lt inside
  refine evaluates.suits agree ((Tree.typeOf?_of_get? found).trans ?_)
  -- Folding keeps the types of nodes.
  rcases folds.get?_cases found with kept | ⟨other, literal⟩
  · cases stored.symm.trans kept
    exact typed
  · cases stored.symm.trans literal
    exact typed

end Resolution
