import Resolution.Proofs.RuledDeclarations
import Resolution.Proofs.TendedScan

/-!
# Expressions tend the tree

Rules tend the tree when the nodes that they resolve are kept.  An operator that becomes a call
lifts its operands; the target of an assignment to an element is passed over when its parts are
lifted.
-/

namespace Resolution

/-- The rules that a rule refers to tend the tree, those for expressions and statements on any node
that is kept. -/
class Resolver.Tending [Resolver] : Prop where
  expression : ∀ ledger id context, ledger.kept id →
    Resolve.Tends none ledger (Resolver.expression id context)
  statement : ∀ ledger id, ledger.kept id → Resolve.Tends none ledger (Resolver.statement id)
  settle : ∀ ledger id, Resolve.Tends none ledger (Resolver.settle id)

theorem NodeKind.decorations_subset {kind : NodeKind} {header : Header}
    (isHeader : kind.header? = some header) :
    header.decorations ⊆ kind.declared := by
  unfold NodeKind.declared NodeKind.isDeclaration
  rw [isHeader, Option.isSome_some, if_pos rfl]
  unfold NodeKind.header? at isHeader
  split at isHeader <;> cases isHeader <;> simp [NodeKind.children]

namespace Resolve

variable {ledger : Ledger}

/-! ## Operands of calls -/

theorem tends_convert {torn : Option NodeId} {id : NodeId} {target : TypeId} (kept : ledger.kept id)
    (whole : torn ≠ some id) : Tends torn ledger (convertTo id target) := by
  have wraps : Tends torn ledger (onTree (Tree.wrap id .implicitCast)) := tends_wrap kept whole
  unfold convertTo
  infer_instance

/-- Operands are converted while their host is torn. -/
theorem tends_convertArguments {host : NodeId} {arguments : List NodeId} {types : List TypeId}
    (kept : ∀ id ∈ arguments, ledger.kept id ∧ id ≠ host) :
    Tends (some host) ledger (convertArguments arguments types) := by
  induction arguments generalizing types with
  | nil => exact inferInstanceAs (Tends (some host) ledger (pure ()))
  | cons argument rest ih =>
    cases types with
    | nil => exact inferInstanceAs (Tends (some host) ledger (pure ()))
    | cons type types =>
      obtain ⟨here, apart⟩ := kept argument List.mem_cons_self
      have first : Tends (some host) ledger (convertTo argument type) :=
        tends_convert here fun same => apart (Option.some.inj same).symm
      exact tends_bind first fun _ => ih fun id listed => kept id (List.mem_cons_of_mem _ listed)

theorem kept_of_operands {torn : Option NodeId} {tree : Tree} {host : NodeId} {nodes : List NodeId}
    (holds : ledger.Holds torn tree) (operands : ledger.Operands host nodes) :
    ∀ id ∈ nodes, ledger.kept id ∧ id ≠ host :=
  fun id listed => ⟨operands.kept listed, holds.ne_of_stake (operands.staked id listed)⟩

theorem returns_compared {wider : Ledger} {site : Surroundings} {store : Store}
    {id compared zero : NodeId}
    {op : BinaryOp} (pair : wider.Operands id [zero, compared]) (covers : wider.Covers ledger)
    (kept : ledger.kept id)
    (fresh : ¬ledger.kept compared) (raised : wider.Holds (some id) store.tree) :
    Returns (do onTree (Tree.replace id (.binary op compared zero)); return TypeId.bool) site store
      fun _ final => ledger.Holds none final.tree := by
  have assigned : ∀ target, (NodeKind.binary op compared zero).assigned? = some target →
    ¬ledger.kept target := by
    intro target assigns
    cases op <;> cases assigns
    exact fresh
  exact (returns_replace (.binary op compared zero) raised (fun _ same =>
    (Option.some.inj same).symm)
    (covers.kept id kept) (pair.perm (.swap ..)) rfl rfl covers kept assigned).bind fun _ _ held =>
      .pure held

theorem tends_callOperator {id receiver : NodeId} {arguments : List NodeId} {overload : Overload}
    {candidate : Candidate}
    (operands : ledger.Operands id (receiver :: arguments)) :
    Tends none ledger (callOperator id overload receiver arguments candidate) where
  holds site store holds := by
    have staked := operands.staked receiver List.mem_cons_self
    have kept : ledger.kept id := (ledger.within _ _ _ staked).2.1
    have own : ∀ other, some id = some other → other = id := fun _ same =>
      (Option.some.inj same).symm
    unfold callOperator
    refine returns_tended holds fun span _ holds => returns_tended holds fun name _ holds => ?_
    refine (returns_raise (.dot (some receiver) name) arguments holds nofun kept
      (fun _ => holds.plain_of_stake staked)
      operands rfl rfl rfl).bind ?_
    rintro callee _ ⟨raised, lifted, _⟩
    refine returns_tended raised fun _ _ raised => returns_tended raised fun _ _ raised => ?_
    refine returns_tended raised fun types _ raised => ?_
    have converts : Tends (some id) (ledger.enter callee id arguments)
      (convertArguments arguments types) :=
      tends_convertArguments fun other listed => kept_of_operands raised lifted other
        (List.mem_cons_of_mem _ listed)
    refine returns_tended raised fun _ _ raised => returns_tended raised fun result _ raised => ?_
    extract_lets result call
    split
    · refine (returns_replace call raised own (.inl kept) lifted rfl rfl (ledger.enter_covers _ _ _)
        kept nofun).bind ?_
      exact fun _ _ held => .pure held
    refine returns_tended raised fun kind _ raised => ?_
    split
    · rename_i op _ _
      refine (returns_raise call [] raised own (.inl kept)
        (fun _ => raised.plain_of_stake (lifted.staked _ List.mem_cons_self))
        (lifted.perm (.of_eq (List.append_nil _).symm)) rfl rfl rfl).bind ?_
      rintro compared _ ⟨raised, single, fresh⟩
      refine returns_tended raised fun _ _ raised => ?_
      refine (returns_raise (.int 0) [compared] raised own (.inl (.inl kept))
        (fun _ => raised.plain_of_stake (single.staked _ List.mem_cons_self)) single rfl rfl
          rfl).bind ?_
      rintro zero _ ⟨raised, pair, _⟩
      obtain ⟨comparedKept, apart⟩ := kept_of_operands raised pair compared
        (List.mem_cons_of_mem _ List.mem_cons_self)
      have converts : Tends (some id) _ (convertTo compared .int) :=
        tends_convert comparedKept fun same => apart (Option.some.inj same).symm
      have covers := (Ledger.enter_covers _ zero id [compared]).trans
        ((Ledger.enter_covers _ compared id []).trans (ledger.enter_covers callee id arguments))
      have finishes {middle : Store} :=
        @returns_compared ledger _ site middle id compared zero op pair covers kept
        fun inside => fresh (.inl inside)
      refine returns_tended raised fun _ _ raised => ?_
      split
      · exact returns_tended raised fun _ _ raised => finishes raised
      · exact finishes raised
    · exact ensures_throw

/-! ## Nodes that rules find -/

/-- An entry of a map leads to its key and value. -/
theorem yields_pairOf {entry : NodeId} (kept : ledger.kept entry) :
    Yields ledger (pairOf entry) fun pair => [pair.1, pair.2] := by
  unfold pairOf
  refine (yields_kindOf kept).bind fun kind => ?_
  split
  · exact yields_pure fun _ inside => .inr inside
  · exact yields_throw

theorem yields_pairs {entries : List NodeId} (kept : ∀ id ∈ entries, ledger.kept id) :
    Yields ledger (entries.mapM fun entry => do return (entry, ← pairOf entry)) fun pairs =>
    pairs.flatMap entryParts :=
  yields_mapM fun entry listed _ => (yields_pairOf (Or.inl (kept entry listed))).bind fun _ =>
    yields_pure fun _ inside => .inr inside

theorem yields_decorationsOf (symbol : SymbolId) :
    Yields ledger (decorationsOf symbol) fun decorations => decorations := by
  unfold decorationsOf
  refine yields_after fun fragments => ?_
  have headers : Yields ledger (fragments.mapM fun fragment => return (← kindOf fragment).header?)
      fun headers => headers.flatMap fun header => header.toList.flatMap Header.decorations := by
    refine yields_mapM fun fragment _ kept => (yields_declaration fragment).bind fun kind =>
      yields_pure fun id listed => ?_
    obtain ⟨header, isHeader, inside⟩ := List.mem_flatMap.mp listed
    exact .inr (NodeKind.decorations_subset (Option.mem_toList.mp isHeader) inside)
  refine headers.bind fun headers => yields_pure fun id listed => .inr ?_
  obtain ⟨header, isHeader, inside⟩ := List.mem_flatMap.mp listed
  obtain ⟨header?, found, rfl⟩ := List.mem_filterMap.mp isHeader
  exact List.mem_flatMap.mpr ⟨_, found, List.mem_flatMap.mpr ⟨header, List.mem_cons_self, inside⟩⟩

theorem tends_of_basic {α : Type} {step : Resolve α} (isBasic : Basic step) :
    Tends none ledger step := by
  cases isBasic <;> infer_instance

variable [resolver : Resolver] [tending : Resolver.Tending]

theorem tends_block {id : NodeId} (kept : ledger.kept id) : Tends none ledger (block id) := by
  unfold block openBlockScope
  refine .after fun scope => (yields_blockStatements kept).tends fun statements => ?_
  have each : Tends none (ledger.keep statements) (statements.forM Resolver.statement) :=
    tends_forM fun statement listed => tending.statement _ statement (.inr listed)
  infer_instance

end Resolve

/-- Rules tend the tree.  A ledger says which nodes are kept and which ones a host may lift. -/
abbrev Manner.tending [resolver : Resolver] [tending : Resolver.Tending] : Manner Ledger where
  cut := resolver
  whole := resolver
  holds ledger step _ := Resolve.Tends none ledger step
  kept ledger id := ledger.kept id
  lifted ledger host nodes := ledger.Operands host nodes
  owned _ _ := True
  keep ledger nodes := ledger.keep nodes
  inner ledger := ledger
  outer ledger := ledger
  keep_inner _ _ := rfl
  kept_keep kept := kept
  kept_inner kept := kept
  kept_outer kept := kept
  kept_of_lifted operands _ listed := operands.kept listed
  lifted_perm operands same := operands.perm same
  owned_keep owned := owned
  fuel := Resolver.fuel_self
  expression := tending.expression
  statement := tending.statement
  settle := tending.settle
  looks _ _ := Resolve.tends_of_looks
  basic _ := Resolve.tends_of_basic
  wrap _ _ _ _ kept := Resolve.tends_wrap kept nofun
  assigns _ _ := by
    unfold Resolve.setSymbolType
    infer_instance
  fixes _ _ := by
    unfold Resolve.setConstant
    infer_instance
  blocks _ _ := Resolve.tends_block
  enter holds := by
    unfold Resolve.openBlockScope
    infer_instance
  inserts _ _ := inferInstance
  bind first rest := Resolve.tends_bind first rest
  surrounded _ _ holds := Resolve.tends_withContext holds
  elsewhere _ holds := Resolve.tends_withContext holds
  contexts _ _ holds := Resolve.tends_bind inferInstance fun _ => Resolve.tends_withContext holds
  nested _ _ := Resolve.tends_deeper
  offers kept rest := (Resolve.yields_kindOf kept).tends rest
  declares rest := (Resolve.yields_declaration _).tends rest
  decorates rest := (Resolve.yields_decorationsOf _).tends rest
  pairs kept rest := (Resolve.yields_pairs kept).tends rest

namespace Resolve

-- Long rules are instances of many parts.
set_option synthInstance.maxSize 2000

variable {ledger : Ledger} [Resolver] [tending : Resolver.Tending] {site : Surroundings}
  {store : Store}
  {id left right : NodeId} {node : Node}

/-- What holds of rules in every manner holds of the tree. -/
instance (priority := low) tends_of_manner {α : Type} {step : Resolve α}
    [holds : Manner.tending.Holds ledger step step] :
    Tends none ledger step :=
  holds.holds

instance {symbol : SymbolId} : Manner.tending.Owns ledger symbol := ⟨trivial⟩

/-! ## Operators that become calls -/

/-- A power becomes a call of a function of a namespace. -/
theorem tends_powerCall (operands : ledger.Operands id [left, right]) :
    Tends none ledger (powerCall id left right) where
  holds site store holds := by
    have lifts : Manner.tending.Lifts ledger id [left, right] := ⟨operands⟩
    obtain ⟨leftKept, rightKept⟩ := lifts.pair
    have kept : ledger.kept id :=
      (ledger.within _ _ _ (operands.staked left List.mem_cons_self)).2.1
    have own : ∀ other, some id = some other → other = id := fun _ same =>
      (Option.some.inj same).symm
    unfold powerCall
    refine returns_tended holds fun _ _ holds => returns_tended holds fun context _ holds => ?_
    split
    · exact .pure holds
    rename_i math _
    refine returns_tended holds fun member? _ holds => ?_
    split
    · exact .pure holds
    refine returns_tended holds fun function _ holds =>
      returns_tended holds fun functionType _ holds => ?_
    refine returns_tended holds fun span _ holds => ?_
    refine (returns_raise (.type math) [left, right] holds (by rintro _ ⟨⟩) kept
      (fun _ => holds.plain_of_stake (operands.staked left List.mem_cons_self)) operands rfl rfl
        rfl).bind ?_
    rintro target _ ⟨raised, three, _⟩
    refine returns_tended raised fun _ _ raised => ?_
    refine (returns_raise (.dot (some target) "pow") [left, right] raised own (.inl kept)
      (fun _ => raised.plain_of_stake (three.staked target List.mem_cons_self)) three rfl rfl
        rfl).bind ?_
    rintro callee _ ⟨raised, called, _⟩
    refine returns_tended raised fun _ _ raised => returns_tended raised fun _ _ raised => ?_
    refine (returns_replace (.call callee [left, right]) raised own (.inl (.inl kept)) called rfl
      rfl ?_ kept (by rintro _ ⟨⟩)).bind
      fun _ _ held => .pure held
    exact (Ledger.enter_covers _ callee id [left, right]).trans
      (ledger.enter_covers target id [left, right])

instance : Manner.Rewrites Manner.tending where
  callOperator _ _ _ _ _ _ := tends_callOperator
  powerCall _ _ _ _ := tends_powerCall

/-! ## The rule for expressions -/

/-- A rule may lift all children of its node, unless that is an assignment. -/
theorem returns_claimed {α : Type} {step : Resolve α} {kind : NodeKind} (kept : ledger.kept id)
    (holds : ledger.Holds none store.tree) (stored : store.tree.get? id = some node)
    (isKind : node.kind = kind)
    (plain : kind.isDeclaration = false) (offered : kind.offered = kind.children)
    (tends : ∀ wider : Ledger, Manner.tending.Lifts wider id kind.children →
      Manner.tending.KeepsAll wider kind.children →
      Tends none wider step) :
    Returns step site store fun _ final => ledger.Holds none final.tree := by
  subst isKind
  obtain ⟨claimed, unique⟩ := holds.claim kept stored plain
  rw [offered] at claimed
  have lifts : Manner.tending.Lifts _ id node.kind.children := ⟨Ledger.claim_operands kept unique⟩
  refine ((tends _ lifts lifts.keepsAll).holds site store claimed).weaken fun _ _ holds => ?_
  exact holds.weaken (ledger.claim_covers _ _)

/-- The expected type becomes a new node below the access. -/
theorem returns_expectedMember {name : String} {context : Option TypeId} (kept : ledger.kept id)
    (holds : ledger.Holds none store.tree)
    (plain : ∀ entry, store.tree.get? id = some entry → entry.kind.isDeclaration = false) :
    Returns (expectedMember id name context) site store fun _ final =>
    ledger.Holds none final.tree := by
  unfold expectedMember
  split
  · have reports : Tends none ledger (do
        report (((Diagnostic.error .uninferable
          s!"cannot tell which type `.{name}` belongs to").label
          (← spanOf id) "no type expected here").note "write the type explicitly, e.g. `Type.name`")
        return TypeId.error) := inferInstance
    exact reports.holds site store holds
  · rename_i type
    split
    · exact .pure holds
    refine ensures_bind.mpr ((looks_spanOf id).unchanged site store |>.weaken ?_)
    rintro span _ rfl
    refine (returns_raise (.type type) [] holds (by rintro _ ⟨⟩) kept plain
      ⟨List.forall_mem_nil _, List.nodup_nil⟩ rfl rfl rfl).bind ?_
    rintro target _ ⟨raised, operands, _⟩
    have keeps : Manner.tending.Keeps (ledger.enter target id []) target :=
      ⟨operands.kept List.mem_cons_self⟩
    have accesses : Tends none (ledger.enter target id []) (memberAccess id target name) :=
      inferInstance
    refine (returns_replace (.dot (some target) name) raised (fun _ same =>
      (Option.some.inj same).symm) (.inl kept)
      operands rfl rfl (.refl _) (.inl kept) (by rintro _ ⟨⟩)).bind fun _ middle held => ?_
    refine (accesses.holds site middle held).weaken fun _ _ holds =>
      holds.weaken (ledger.enter_covers _ _ _)

/-- An assignment looks at its target before it resolves a part of it. -/
theorem returns_assign (kept : ledger.kept id) (holds : ledger.Holds none store.tree)
    (stored : store.tree.get? id = some node) (assigns : node.kind = .binary .assign left right) :
    Returns (assignment id .assign left right) site store fun _ final =>
    ledger.Holds none final.tree := by
  unfold assignment
  refine ensures_bind.mpr (ensures_bind.mpr (returns_node fun entry found => .pure ?_))
  split
  · rename_i target place indexed
    obtain ⟨claimed, unique⟩ := holds.claim_element kept stored assigns found indexed
    have lifts : Manner.tending.Lifts (ledger.claim id [target, place, right]) id
      [target, place, right] :=
      ⟨Ledger.claim_operands kept unique⟩
    have resolves : Manner.tending.Admits (ledger.claim id [target, place, right]) fun _ =>
        assignElement id .assign left target place right := Manner.holds_assignElement
    exact (resolves.holds.holds site store claimed).weaken fun _ _ holds =>
      holds.weaken (ledger.claim_covers _ _)
  · rename_i ordinary
    have keptBoth : (ledger.keep [left, right]).Holds none store.tree := by
      refine holds.keep_assignment kept stored assigns fun other same => ?_
      cases found.symm.trans same
      cases kind : entry.kind with
      | index target place => exact absurd kind (ordinary target place)
      | _ => rfl
    have both := Manner.tending.keepsAll_keep ledger [left, right]
    have keepsLeft := both.head
    have keepsRight := both.tail.head
    have resolves : Tends none (ledger.keep [left, right]) (assignVariable id .assign left right) :=
      inferInstance
    exact (resolves.holds site store keptBoth).weaken fun _ _ holds =>
      holds.weaken (ledger.keep_covers _)

theorem returns_binary {op : BinaryOp} (kept : ledger.kept id)
    (holds : ledger.Holds none store.tree)
    (stored : store.tree.get? id = some node) (isKind : node.kind = .binary op left right) :
    Returns (if op.isAssign then assignment id op left right else binary id op left right) site
    store
      fun _ final => ledger.Holds none final.tree := by
  by_cases plain : op = .assign
  · subst plain
    exact returns_assign kept holds stored isKind
  · have offered : (NodeKind.binary op left right).offered = [left, right] := by
      unfold NodeKind.offered
      split
      · rename_i same
        cases same
        exact absurd rfl plain
      · rfl
    refine returns_claimed kept holds stored isKind rfl offered fun wider lifts _ => ?_
    have lifted : Manner.tending.Lifts wider id [left, right] := lifts
    obtain ⟨keepsLeft, keepsRight⟩ := lifted.pair
    have compounds : Manner.tending.Admits wider fun _ => assignment id op left right :=
      Manner.holds_compound plain
    infer_instance

theorem tends_expressionType (kept : ledger.kept id) (context : Option TypeId) :
    Tends none ledger (expressionType id context) where
  holds site store holds := by
    unfold expressionType
    refine ensures_bind.mpr (returns_node fun node stored => ?_)
    have looks {step : Resolve TypeId} [tends : Tends none ledger step] :=
      tends.holds site store holds
    have claims {kind : NodeKind} {step : Resolve TypeId} (isKind : node.kind = kind) :=
      @returns_claimed ledger _ _ site store id node TypeId step kind kept holds stored isKind
    split
    · exact looks
    · rename_i target name isKind
      cases target with
      | none =>
        refine returns_expectedMember kept holds fun entry same => ?_
        cases stored.symm.trans same
        rw [isKind]
        rfl
      | some target =>
        refine claims isKind rfl rfl fun wider _ all => ?_
        have first := all.head
        exact inferInstanceAs (Tends none wider (memberAccess id target name))
    all_goals try exact looks
    · rename_i elements isKind
      refine claims isKind rfl rfl fun wider _ all => ?_
      have parts : Manner.tending.KeepsAll wider elements := all
      infer_instance
    · rename_i entries isKind
      refine claims isKind rfl rfl fun wider _ all => ?_
      have parts : Manner.tending.KeepsAll wider entries := all
      infer_instance
    · rename_i isKind
      refine claims isKind rfl rfl fun wider _ all => ?_
      have target := all.head
      have arguments := all.tail
      infer_instance
    · rename_i arguments isKind
      refine claims isKind rfl rfl fun wider _ all => ?_
      have parts : Manner.tending.KeepsAll wider arguments := all
      infer_instance
    · rename_i isKind
      refine claims isKind rfl rfl fun wider _ all => ?_
      have target := all.head
      have arguments := all.tail
      infer_instance
    · rename_i isKind
      refine claims isKind rfl rfl fun wider _ all => ?_
      have type := all.head
      have operand := all.tail.head
      infer_instance
    · rename_i isKind
      refine claims isKind rfl rfl fun wider _ all => ?_
      have operand := all.head
      split <;> infer_instance
    · rename_i isKind
      refine claims isKind rfl rfl fun wider _ all => ?_
      have test := all.head
      have yes := all.tail.head
      have no := all.tail.tail.head
      infer_instance
    · rename_i target place isKind
      refine claims isKind rfl rfl fun wider lifts _ => ?_
      have lifted : Manner.tending.Lifts wider id [target, place] := lifts
      infer_instance
    · rename_i target arguments isKind
      refine claims isKind rfl rfl fun wider _ all => ?_
      have target := all.head
      have arguments := all.tail
      have makes (fuel : Nat) (generic : TypeId) (found : List TypeId) :
          Manner.tending.Admits wider fun _ => onTypes (Types.parameterize fuel generic found) :=
            ⟨inferInstance⟩
      exact (Manner.holds_typeApplication makes).holds
    · rename_i op operand isKind
      refine claims isKind rfl rfl fun wider lifts _ => ?_
      have lifted : Manner.tending.Lifts wider id [operand] := lifts
      infer_instance
    · rename_i isKind
      exact returns_binary kept holds stored isKind

theorem tends_expressionRule (kept : ledger.kept id) (context : Option TypeId) :
    Tends none ledger (expressionRule id context) := by
  have resolves := tends_expressionType kept context
  unfold expressionRule
  infer_instance

end Resolve
end Resolution
