import Resolution.Proofs.RuledExpressions

/-!
# Statements and declarations in every manner

The rule for every kind of statement keeps to a manner inside of a body, where locals may be
declared.  The body of a function is found through a symbol; a declaration is always in use, so it
leads to its parts.  A symbol writes its own type and value while it is being settled; all else that
it needs it asks the resolver for.
-/

namespace Resolution
namespace Manner

open Resolve

-- Long rules are instances of many parts.
set_option synthInstance.maxSize 2000

variable {Stance : Type} {manner : Manner Stance} {here : Stance} {id body operand : NodeId}
  {operand? : Option NodeId}
  {branches bases : List NodeId} {type : TypeId} {symbol : SymbolId} {entry : Symbol}
  {member : MemberId} {name : String}
  {span : Span}

/-! ## Blocks and function bodies -/

instance [keeps : manner.Keeps here id] : manner.Admits here fun _ => block id :=
  ⟨manner.blocks here id keeps.kept⟩

instance : manner.Admits (manner.inner here) fun _ => insertLocal symbol :=
  ⟨manner.inserts here symbol⟩

instance [manner.Keeps here body] : manner.Admits here fun _ => loopBody body :=
  holds_surrounded (fun _ => rfl) (fun _ => rfl) inferInstance

instance [manner.Keeps here id] : manner.Admits here fun _ => expressionStatement id := by
  unfold expressionStatement
  infer_instance

instance [manner.Keeps here id] : manner.Admits here fun _ => memberInitializer symbol id := by
  unfold memberInitializer
  refine .offer fun kind => ?_
  have parts := manner.keepsAll_keep here kind.offered
  split
  · have value := parts.head
    refine .after fun target? => ?_
    split <;> infer_instance
  · infer_instance

instance : manner.Admits here fun _ => functionBody symbol := by
  unfold functionBody
  refine .after fun _ => .after fun entry => ?_
  split
  · infer_instance
  refine .find fun kind => ?_
  have parts := manner.keepsAll_declared here kind
  split
  · rename_i initializers body
    have last := (parts rfl).keeps (show body ∈ _ by simp [NodeKind.children])
    have starts := (parts rfl).subset (show initializers ⊆ _ from
      fun _ listed => by simp [NodeKind.children, listed])
    infer_instance
  · infer_instance
  · infer_instance

instance : manner.Admits (manner.inner here) fun _ => localDeclaration id := by
  unfold localDeclaration
  infer_instance

instance [keeps : manner.KeepsAll here operand?.toList] :
    manner.Admits here fun _ => returnValue id name type operand? := by
  unfold returnValue
  split
  · have value := keeps.head
    infer_instance
  · infer_instance

instance [manner.KeepsAll here operand?.toList] : manner.Admits here fun _ =>
    returnStatement id operand? := by
  unfold returnStatement
  refine .after fun site => ?_
  split <;> infer_instance

/-! ## Loops and switches -/

instance [manner.Keeps (manner.inner here) id] : manner.Admits (manner.inner here) fun _ =>
    forClause id := by
  unfold forClause
  refine .after fun kind => ?_
  split <;> infer_instance

theorem holds_forLoop {setup test update : Option NodeId}
    (keeps : manner.KeepsAll here (NodeKind.forStmt setup test update body).children) :
    manner.Admits here fun _ => forLoop setup test update body := by
  have start := keeps.subset (show setup.toList ⊆ _ by simp [NodeKind.children])
  have tested := keeps.subset (show test.toList ⊆ _ by simp [NodeKind.children])
  have updated := keeps.subset (show update.toList ⊆ _ from fun _ listed => by
    simp [NodeKind.children, Option.mem_toList.mp listed])
  have last := keeps.keeps (show body ∈ _ by simp [NodeKind.children])
  have runs : manner.Admits (manner.inner here) (fun _ => do
      setup.forM forClause
      test.forM condition
      update.forM forClause
      loopBody body) := inferInstance
  exact ⟨manner.enter runs.holds⟩

section Switches

variable {branch : NodeId} {handled : Handled}

instance [manner.Keeps here id] : manner.Admits here fun _ => caseValue branch type handled id := by
  unfold caseValue
  refine .after fun found => .after fun _ => .after fun _ => ?_
  split
  · infer_instance
  refine .after fun constant? => ?_
  split
  · infer_instance
  · split <;> infer_instance

instance [keeps : manner.KeepsAll here branches] {first : Option NodeId} :
    manner.Admits here fun _ => switchBranches type branches first handled := by
  have all := keeps
  induction branches generalizing here first handled with
  | nil => exact inferInstanceAs (manner.Holds here (pure ()) (pure ()))
  | cons branch rest ih =>
    have others := all.tail
    have keeps := all.head
    refine .offer fun kind => ?_
    have parts := manner.keepsAll_keep here kind.offered
    split
    · rename_i values body
      have last := parts.keeps (show body ∈ _ from List.mem_append_right _ List.mem_cons_self)
      have each := parts.subset (show values ⊆ _ from List.subset_append_left _ _)
      have enclosed : manner.Admits (manner.keep here (NodeKind.switchCase values body).offered)
        fun _ =>
          withContext (fun context => { context with switches := context.switches + 1 })
            (block body) :=
        holds_surrounded (fun _ => rfl) (fun _ => rfl) inferInstance
      dsimp only
      split
      all_goals
        exact .after fun first => .after fun handled => .after fun _ => .after fun _ =>
          ih inferInstance
    · infer_instance

instance [manner.Keeps here operand] [manner.KeepsAll here branches] :
    manner.Admits here fun _ => switch operand branches := by
  unfold switch
  infer_instance

end Switches

/-! ## The rule for statements -/

instance [manner.Keeps (manner.inner here) id] : manner.Admits (manner.inner here) fun _ =>
    statementOfKind id := by
  unfold statementOfKind
  refine .offer fun kind => ?_
  have itself : manner.Keeps (manner.keep (manner.inner here) kind.offered) id := inferInstance
  rw [manner.keep_inner] at itself ⊢
  have parts := manner.keepsAll_keep here kind.offered
  split
  · have value := parts.head
    infer_instance
  · infer_instance
  · infer_instance
  · have value : manner.KeepsAll _ (Option.toList _) := parts
    infer_instance
  · infer_instance
  · infer_instance
  · infer_instance
  · have test := parts.head
    have yes := parts.tail.head
    have no : manner.KeepsAll _ (Option.toList _) := parts.tail.tail
    infer_instance
  · have test := parts.head
    have body := parts.tail.head
    infer_instance
  · exact holds_forLoop ⟨fun id listed => manner.kept_inner (parts.kept id listed)⟩
  · have value := parts.head
    have rest := parts.tail
    infer_instance
  · have value := parts.head
    infer_instance
  · infer_instance

instance holds_statementRule [manner.Keeps (manner.inner here) id] :
    manner.Admits (manner.inner here) fun _ => statementRule id := by
  unfold statementRule resolveStatement
  infer_instance

/-! ## Variables, aliases and defines -/

instance [owns : manner.Owns here symbol] : manner.Admits here fun _ => setSymbolType symbol type :=
  ⟨manner.assigns type owns.owned⟩

instance {constant : Constant} [owns : manner.Owns here symbol] : manner.Admits here fun _ =>
    setConstant symbol constant :=
  ⟨manner.fixes constant owns.owned⟩

instance [manner.Keeps here operand] : manner.Admits here fun _ => inferredType entry operand := by
  unfold inferredType
  infer_instance

instance {declared : Option TypeId} [keeps : manner.KeepsAll here operand?.toList] :
    manner.Admits here fun _ => variableType entry declared operand? := by
  unfold variableType
  split
  · have value := keeps.head
    infer_instance
  · infer_instance
  · have value := keeps.head
    infer_instance
  · infer_instance

section Settling

variable [manner.Owns here symbol]

instance : manner.Admits here fun _ => fixValue symbol entry operand := by
  have fixes : manner.Admits here (fun _ => do
      if entry.has .isConst then
        if (← typeOf operand) ≠ .error then
          match ← constantOf? operand with
          | some constant => setConstant symbol constant
          | none => reportNotConstant operand s!"value of const `{entry.name}`") := by
    split
    · refine .after fun type => ?_
      split
      · refine .after fun constant? => ?_
        split <;> infer_instance
      · infer_instance
    · infer_instance
  unfold fixValue
  infer_instance

instance : manner.Admits here fun _ => settleVariable symbol := by
  unfold settleVariable
  refine .after fun _ => .after fun entry => ?_
  split
  · infer_instance
  refine .find fun kind => ?_
  have parts := manner.keepsAll_declared here kind
  split
  · rename_i written operand
    have value := (parts rfl).subset (show operand.toList ⊆ _ by simp [NodeKind.children])
    have names := (parts rfl).subset (show written.toList ⊆ _ by simp [NodeKind.children])
    refine .after fun declared => .after fun type => .after fun _ => ?_
    split <;> infer_instance
  · infer_instance

instance : manner.Admits here fun _ => settleAlias symbol := by
  unfold settleAlias
  refine .after fun _ => .after fun entry => ?_
  split
  · infer_instance
  refine .find fun kind => ?_
  have parts := manner.keepsAll_declared here kind
  split
  · rename_i target
    have aliased := (parts rfl).keeps (show target ∈ _ by simp [NodeKind.children])
    infer_instance
  · infer_instance

instance : manner.Admits here fun _ => settleDefine symbol := by
  unfold settleDefine
  refine .after fun _ => .after fun entry => ?_
  split
  · infer_instance
  refine .find fun kind => ?_
  have parts := manner.keepsAll_declared here kind
  split
  · rename_i operand
    have value := (parts rfl).keeps (show operand ∈ _ by simp [NodeKind.children])
    refine .after fun type => .after fun _ => .after fun _ => ?_
    split
    · infer_instance
    · refine .after fun constant? => ?_
      split <;> infer_instance
  · infer_instance

end Settling

/-! ## Functions -/

instance : manner.Admits here fun _ => checkOverride symbol type := by
  unfold checkOverride checkOverridden
  refine .after fun entry => ?_
  split <;> infer_instance

instance : manner.Admits here fun _ => argumentType symbol := by
  unfold argumentType
  infer_instance

instance [keeps : manner.KeepsAll here operand?.toList] : manner.Admits here fun _ =>
    resultType symbol entry operand? := by
  unfold resultType
  split
  · refine .after fun object? => ?_
    split <;> infer_instance
  · split
    · have value := keeps.head
      infer_instance
    · infer_instance

instance [manner.Owns here symbol] : manner.Admits here fun _ => settleFunction symbol := by
  unfold settleFunction
  refine .after fun _ => .after fun object? => ?_
  dsimp only
  split
  all_goals
    repeat refine .after fun _ => ?_
    split
    · infer_instance
    refine .find fun kind => ?_
    have parts := manner.keepsAll_declared here kind
    split
    · rename_i result _ _
      have value := (parts rfl).subset (show result.toList ⊆ _ from fun _ listed => by
        simp [NodeKind.children, Option.mem_toList.mp listed])
      infer_instance
    · infer_instance

/-! ## Enums -/

instance {owner : SymbolId} : manner.Admits here fun _ => impliedNumber owner symbol := by
  unfold impliedNumber
  refine .after fun values => .after fun entry => ?_
  split <;> split <;> infer_instance

instance [manner.Keeps here operand] : manner.Admits here fun _ =>
    writtenNumber symbol operand := by
  unfold writtenNumber
  refine .after fun _ => .after fun _ => .after fun constant? => ?_
  split <;> infer_instance

instance [manner.Owns here symbol] : manner.Admits here fun _ => settleEnumValue symbol := by
  unfold settleEnumValue
  refine .after fun _ => .after fun entry => ?_
  split
  · infer_instance
  refine .after fun owner => .after fun _ => .after fun entry => ?_
  split
  · infer_instance
  refine .find fun kind => ?_
  have parts := manner.keepsAll_declared here kind
  split
  · dsimp only
    split
    · rename_i operand
      have value := (parts rfl).keeps (show operand ∈ _ by simp [NodeKind.children])
      infer_instance
    · infer_instance
  · infer_instance

instance : manner.Admits here fun _ => registerOperators type := by
  unfold registerOperators
  infer_instance

/-! ## Objects -/

instance : manner.Admits here fun _ => inheritedConstructor? type := by
  unfold inheritedConstructor?
  refine .after fun base? => ?_
  split <;> infer_instance

instance : manner.Admits here fun _ => constructorArguments member := by
  unfold constructorArguments
  infer_instance

instance {members : List (String × MemberId)} : manner.Admits here fun _ => openFields members := by
  induction members with
  | nil => exact inferInstanceAs (manner.Holds here (pure ([], true)) (pure ([], true)))
  | cons member rest ih =>
    simp only [Admits, openFields]
    refine .after fun member => .after fun entry => ?_
    split
    · exact ih
    · refine .after fun _ => .after fun operand? => ?_
      split <;> infer_instance

section Bases

variable {isClass : Bool} {scope : ScopeId} {position : Nat}

instance [manner.Keeps here id] : manner.Admits here fun _ =>
    baseType? symbol isClass scope position id := by
  unfold baseType?
  refine .after fun type => ?_
  split
  · infer_instance
  refine .after fun entry => ?_
  split
  · infer_instance
  split <;> infer_instance

instance [keeps : manner.KeepsAll here bases] :
    manner.Admits here fun _ => baseTypes symbol isClass scope position bases := by
  have all := keeps
  induction bases generalizing position with
  | nil => exact inferInstanceAs (manner.Holds here (pure []) (pure []))
  | cons id rest ih =>
    have first := all.head
    exact .after fun type? => holds_bind (ih all.tail) fun types => inferInstance

instance : manner.Admits here fun _ => objectBases symbol isClass := by
  unfold objectBases
  refine .after fun entry => ?_
  split
  · infer_instance
  refine .find fun kind => ?_
  have parts := manner.keepsAll_declared here kind
  split
  · rename_i bases _
    have listed := (parts rfl).subset (show bases ⊆ _ from
      fun _ listed => by simp [NodeKind.children, listed])
    dsimp only
    split <;> infer_instance
  · infer_instance

end Bases

instance : manner.Admits here fun _ => checkImplemented symbol type := by
  unfold checkImplemented
  infer_instance

instance : manner.Admits here fun _ => recordOverride symbol member := by
  unfold recordOverride
  infer_instance

instance {own names : List (String × MemberId)} {inherited : Inheritance} :
    manner.Admits here fun _ => inheritFrom own names inherited := by
  induction names generalizing inherited with
  | nil => exact inferInstanceAs (manner.Holds here (pure inherited) (pure inherited))
  | cons entry rest ih =>
    unfold inheritFrom
    split
    · exact ih
    · split
      · exact .after fun _ => .after fun _ => ih
      · exact ih

instance : manner.Admits here fun _ => inheritedMember member := by
  unfold inheritedMember
  infer_instance

/-! ## Decorations -/

instance : manner.Admits here fun _ => registerEntryPoint symbol span := by
  unfold registerEntryPoint
  refine .after fun entry => .after fun fits => ?_
  split
  · infer_instance
  · refine .after fun store => ?_
    split <;> infer_instance

instance {token : String} : manner.Admits here fun _ => registerOperator symbol span token := by
  unfold registerOperator
  refine .after fun entry => ?_
  split
  · infer_instance
  split
  · infer_instance
  · refine .after fun arguments => ?_
    dsimp only
    split
    · infer_instance
    · split <;> infer_instance

instance {arguments : List String} : manner.Admits here fun _ =>
    applyDecoration symbol name span arguments := by
  unfold applyDecoration withArgument withoutArguments
  split
  all_goals first
    | infer_instance
    | split <;> infer_instance

instance [manner.Keeps here id] : manner.Admits here fun _ => decorationArgument id := by
  unfold decorationArgument
  refine .after fun type => .after fun _ => ?_
  split
  · infer_instance
  · refine .after fun constant? => ?_
    split <;> infer_instance

instance [manner.Keeps here id] : manner.Admits here fun _ => decorate symbol id := by
  unfold decorate
  refine .offer fun kind => ?_
  have parts := manner.keepsAll_keep here kind.offered
  split
  · rename_i name arguments
    have each : manner.KeepsAll _ arguments := parts
    infer_instance
  · infer_instance

instance : manner.Admits here fun _ => applyDecorations symbol := by
  unfold applyDecorations
  refine ⟨manner.decorates fun decorations => (?_ : manner.Holds _ _ _).holds⟩
  have each := manner.keepsAll_keep here decorations
  infer_instance

/-! ## Bodies of generated functions -/

section Free

variable [manner.Free] {arguments : List (String × TypeId)}

instance : manner.Admits here fun _ => currentNumber span := by
  unfold currentNumber
  infer_instance

instance {first : Int64} {names : List String} : manner.Admits here fun _ =>
    tableBody first names span := by
  unfold tableBody
  infer_instance

instance {values : List NodeId} {text : NodeId} : manner.Admits here fun _ =>
    returnCase values text span := by
  unfold returnCase
  infer_instance

instance {entry : Int64 × String} : manner.Admits here fun _ => nameCase span entry := by
  unfold nameCase
  infer_instance

instance {entries : List (Int64 × String)} : manner.Admits here fun _ =>
    casesBody entries span := by
  unfold casesBody
  infer_instance

instance {names : EnumNames} : manner.Admits here fun _ => namesBody names span := by
  unfold namesBody
  split <;> infer_instance

instance : manner.Admits here fun _ => generatedArgument span name type := by
  unfold generatedArgument
  infer_instance

instance : manner.Admits here fun _ => fieldParts span symbol := by
  unfold fieldParts
  infer_instance

instance : manner.Admits here fun _ => forwardingBody arguments span := by
  unfold forwardingBody
  infer_instance

end Free

end Manner
end Resolution
