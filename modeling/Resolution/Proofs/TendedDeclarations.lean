import Mathlib.Data.List.Perm.Basic
import Resolution.Proofs.Sowing
import Resolution.Proofs.TendedExpressions

/-!
# Settling tends the tree

A symbol is settled from its declaration, which leads to the parts that are resolved.  Enums and
classes may get a function of their own: it is built from loose nodes, and joins the members of its
declaration once it is complete.  Resolvers that are tied together level by level tend the tree at
every level, and so does the resolution of a program.
-/

namespace Resolution

namespace Resolve

-- Long rules are instances of many parts.
set_option synthInstance.maxSize 2000

variable {ledger : Ledger}

/-! ## Generated functions -/

section Generated

variable {α β : Type} {loose used : List NodeId} {span : Span}
  {owner : SymbolId} {flags : Flags} {step : Resolve α} {function : NodeKind}

/-- The step brings loose nodes into the tree or leaves them alone, and the tree is in order after
it. -/
def Plants (ledger : Ledger) (loose : List NodeId) (step : Resolve α) : Prop :=
  ∀ site store, ledger.Sows Inner loose store.tree →
    Returns step site store fun _ final => ledger.Holds none final.tree

theorem Plants.tends (plants : Plants ledger [] step) : Tends none ledger step :=
  ⟨fun site store holds => plants site store holds.sows⟩

/-- Build from some of the loose nodes, and continue with what was built and the others. -/
theorem plants_bind {next : α → Resolve β} {made : α → List NodeId}
    (raises : Raises Inner used step made) (others : List NodeId)
    (rest : ∀ value, Plants ledger (made value ++ others) (next value))
    (same : loose.Perm (used ++ others)) :
    Plants ledger loose (step >>= next) := fun site store sows =>
  (raises ledger others _ (sows.perm same) site store rfl).bind fun value middle sows =>
    rest value site middle sows

theorem returns_joined {site : Surroundings} {store : Store} {scope : ScopeId}
    {id body : NodeId} {node : Node} (sows : ledger.Sows Inner loose store.tree)
    (same : loose.Perm function.children) (isInner : function.isInner = true)
    (stored : store.tree.get? id = some node)
    (declares : node.kind.isDeclaration = true) (greater : ¬Inner node.kind)
    (listed : body ∈ node.kind.offered) :
    Returns (do
      let generated ← alloc function span
      onTree (Tree.pushStatement body generated)
      match ← declareGenerated generated scope owner with
      | none => return
      | some generated =>
        updateSymbol generated fun entry => { entry with flags := entry.flags.union flags })
      site store fun _ final => ledger.Holds none final.tree := by
  have kept := (sows.keep_part stored declares greater listed).perm
    (same.trans (.of_eq (List.append_nil _).symm))
  refine (raises_alloc isInner (.refl _) (ledger.keep [body]) [] _ kept site store rfl).bind ?_
  intro generated grown sown
  refine (returns_pushStatement sown (.inr List.mem_cons_self)).bind fun _ pushed holds => ?_
  have introduces : Tends none (ledger.keep [body]) (do
      match ← declareGenerated generated scope owner with
      | none => return
      | some generated =>
        updateSymbol generated fun entry => { entry with flags := entry.flags.union flags }) := by
    refine .after fun generated? => ?_
    split <;> infer_instance
  exact (introduces.holds site pushed holds).weaken fun _ _ holds =>
    holds.weaken (ledger.keep_covers _)

/-- A function whose parts are loose joins the members of its owner, if that has members of its own.
-/
theorem plants_addGenerated (isInner : function.isInner = true)
    (same : loose.Perm function.children) :
    Plants ledger loose (addGenerated owner function span flags) := by
  intro site store sows
  unfold addGenerated
  refine (looks_symbolOf owner).bind fun symbol => ?_
  split
  case h_2 => exact .pure sows.holds
  refine ensures_bind.mpr (ensures_kindOf.mpr fun node stored => ?_)
  split
  · rename_i isObject
    refine returns_joined sows same isInner stored ?_ ?_ ?_ <;> rw [isObject]
    · rfl
    · rintro ⟨⟩
    · simp [NodeKind.offered, NodeKind.children]
  · rename_i isEnum
    refine returns_joined sows same isInner stored ?_ ?_ ?_ <;> rw [isEnum]
    · rfl
    · rintro ⟨⟩
    · simp [NodeKind.offered, NodeKind.children]
  · exact .pure sows.holds

instance (owner : SymbolId) (values : List SymbolId) :
    Tends none ledger (generateEnumText owner values) := by
  unfold generateEnumText
  refine .after fun symbol => .after fun entries => ?_
  refine .after fun names => Plants.tends ?_
  refine plants_bind raises_namesBody [] (fun statements => ?_) (.refl _)
  refine plants_bind (raises_alloc rfl (.refl _)) [] (fun body => ?_) (.refl _)
  refine plants_bind (raises_alloc rfl (.refl _)) [body] (fun result => ?_) (.refl _)
  exact plants_addGenerated rfl (.refl _)

theorem plants_constructor {arguments statements : List NodeId} {parts : List (NodeId × NodeId)} :
    Plants ledger (statements ++ (parts.flatMap (fun part => [part.1, part.2]) ++ arguments)) (do
      let body ← alloc (.block statements) span
      addGenerated owner
        (.functionDecl { name := "new", span } [] (arguments ++ parts.map Prod.fst) none
          (parts.map Prod.snd) (some body))
        span flags) := by
  refine plants_bind (raises_alloc rfl (.refl _)) _ (fun body => plants_addGenerated rfl ?_)
    (.refl _)
  have apart := List.map_append_flatMap_perm parts Prod.fst fun part => [part.2]
  refine List.perm_iff_count.mpr fun id => ?_
  have counts := List.perm_iff_count.mp apart id
  simp only [NodeKind.children, List.count_append, List.count_cons,
    List.count_nil, ← List.map_eq_flatMap] at counts ⊢
  simp only [Option.toList, List.count_cons, List.count_nil]
  omega

end Generated

/-! ## Symbols -/

variable [Resolver] [tending : Resolver.Tending]

instance (symbol : SymbolId) (name : String) (candidates : List MemberId) :
    Tends none ledger (inheritedEntry symbol name candidates) := by
  unfold inheritedEntry
  split <;> infer_instance

instance (symbol : SymbolId) (type : TypeId) (bases : List TypeId) :
    Tends none ledger (inheritMembers symbol type bases) := by
  unfold inheritMembers
  infer_instance

instance (id : SymbolId) (candidates : List Inherited) (merge : Merge) :
    Tends none ledger (applyMerge id candidates merge) := by
  unfold applyMerge
  refine .after fun symbol => ?_
  split <;> infer_instance

instance (id : SymbolId) : Tends none ledger (reportCycle id) := by
  unfold reportCycle reportCyclic
  infer_instance

instance (id : SymbolId) : Tends none ledger (finish id) := by
  unfold finish
  infer_instance

instance {step : SymbolId → Resolve Unit} [each : ∀ id, Tends none ledger (step id)]
    (fuel position : Nat) : Tends none ledger (forEachSymbol step fuel position) := by
  induction fuel generalizing position with
  | zero => exact inferInstanceAs (Tends none ledger (throw .outOfFuel : Resolve Unit))
  | succ fuel ih =>
    unfold forEachSymbol
    infer_instance

instance (owner : SymbolId) : Tends none ledger (generateConstructor owner) := by
  unfold generateConstructor
  refine .after fun symbol => .after fun base? => ?_
  have argument (entry : String × TypeId) :
    Raises Inner [] (generatedArgument symbol.span entry.1 entry.2) fun id => [id] :=
    raises_generatedArgument
  have arguments (passed : List (String × TypeId)) : Raises Inner []
      (passed.mapM fun entry => generatedArgument symbol.span entry.1 entry.2) fun ids => ids := by
    simpa only [List.flatMap_singleton'] using raises_mapM argument
  dsimp only
  split
  all_goals
    refine .after fun passed => .after fun members => ?_
    refine .after fun opened => .after fun fields => Plants.tends ?_
    refine plants_bind (arguments _) [] (fun arguments => ?_) (.refl _)
    refine plants_bind (raises_mapM fun field => raises_fieldParts) arguments (fun parts => ?_)
      (.of_eq (List.append_nil _))
    split
    · exact plants_bind raises_forwardingBody _ (fun statements => plants_constructor) (.refl _)
    · exact plants_bind (raises_pure (.refl _)) _ (fun statements => plants_constructor) (.refl _)

instance (id : SymbolId) : Tends none ledger (settleEnum id) := by
  unfold settleEnum
  infer_instance

instance (id : SymbolId) : Tends none ledger (settleObject id) := by
  unfold settleObject
  refine .after fun _ => .after fun symbol => .after fun bases => ?_
  infer_instance

instance (id : SymbolId) : Tends none ledger (settleUnmerged id) := by
  unfold settleUnmerged inheritedMember
  refine .after fun symbol => .after fun found => ?_
  refine .after fun candidates => ?_
  split <;> infer_instance

instance (id : SymbolId) (kind : SymbolKind) : Tends none ledger (settleByKind id kind) := by
  unfold settleByKind
  split <;> infer_instance

instance tends_settleRule (id : SymbolId) : Tends none ledger (settleRule id) := by
  unfold settleRule settleUntouched
  refine .after fun symbol => ?_
  split <;> infer_instance

/-! ## Programs -/

instance (symbol : SymbolId) : Tends none ledger (outerBody symbol) := by
  unfold outerBody
  refine .after fun entry => ?_
  split <;> infer_instance

instance (requireEntryPoint : Bool) (root : NodeId) [ledger.Keeps root] :
    Tends none ledger (program requireEntryPoint root) := by
  unfold program settleAll
  infer_instance

end Resolve

/-- The rules tend the tree however many levels are tied together. -/
instance Resolver.tending_within (fuel : Nat) : @Resolver.Tending (.within fuel) := by
  induction fuel with
  | zero =>
    exact @Resolver.Tending.mk (.within 0) (fun _ _ _ _ => ⟨fun _ _ _ => Resolve.ensures_throw⟩)
      (fun _ _ _ => ⟨fun _ _ _ => Resolve.ensures_throw⟩) fun _ _ =>
        ⟨fun _ _ _ => Resolve.ensures_throw⟩
  | succ fuel ih =>
    exact @Resolver.Tending.mk (.within (fuel + 1))
      (fun ledger id context kept => @Resolve.tends_expressionRule ledger (.within fuel) ih id kept
        context)
      (fun ledger id kept => (@Manner.holds_statementRule _ (@Manner.tending (.within fuel) ih)
        ledger id ⟨kept⟩).holds)
      fun ledger id => @Resolve.tends_settleRule ledger (.within fuel) ih id

end Resolution
