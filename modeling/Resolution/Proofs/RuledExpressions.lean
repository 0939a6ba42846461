import Resolution.Proofs.Manner

/-!
# Expressions in every manner

The rule for every kind of expression keeps to a manner when it is run on a node that is kept,
because its steps do.  An operator that becomes a call lifts its operands.
-/

namespace Resolution
namespace Manner

open Resolve

-- Long rules are instances of many parts.
set_option synthInstance.maxSize 2000

variable {Stance : Type} {manner : Manner Stance} {here : Stance}
  {id left right operand target place : NodeId}
  {arguments elements : List NodeId} {type leftType rightType : TypeId} {context : Option TypeId}
  {op : BinaryOp}
  {symbol : SymbolId} {member : MemberId} {what name : String} {expected : List TypeId}

/-! ## Nodes and values -/

instance [keeps : manner.Keeps here id] : manner.Admits here fun _ =>
    Resolver.expression id context :=
  ⟨manner.expression here id context keeps.kept⟩

instance [keeps : manner.Keeps (manner.inner here) id] : manner.Admits (manner.inner here) fun _ =>
    Resolver.statement id :=
  ⟨manner.statement here id keeps.kept⟩

instance : manner.Admits here fun _ => Resolver.settle symbol := ⟨manner.settle here symbol⟩

instance {make : NodeId → NodeKind} [casing : NodeKind.Casing make] [keeps : manner.Keeps here id] :
    manner.Admits here fun _ => onTree (Tree.wrap id make) :=
  ⟨manner.wrap here id make casing keeps.kept⟩

instance : manner.Admits here fun _ => settleIfUntouched symbol := by
  unfold settleIfUntouched
  infer_instance

instance : manner.Admits here fun _ => ensureMembers type := by
  unfold ensureMembers
  refine .after fun _ => ?_
  split <;> infer_instance

instance : manner.Admits here fun _ => memberType member := by
  unfold memberType
  simp only [Admits, manner.fuel]
  refine .after fun _ => .after fun _ => .after fun _ => ?_
  split <;> infer_instance

instance [manner.Keeps here id] : manner.Admits here fun _ => valueType id context := by
  unfold valueType
  infer_instance

instance [manner.Keeps here id] : manner.Admits here fun _ => typeNamed id := by
  unfold typeNamed
  infer_instance

instance [manner.Keeps here id] : manner.Admits here fun _ => convertTo id type := by
  unfold convertTo
  infer_instance

instance [manner.Keeps here id] : manner.Admits here fun _ => condition id := by
  unfold condition
  infer_instance

instance [manner.Keeps here id] : manner.Admits here fun _ => valueOfType type id := by
  unfold valueOfType
  infer_instance

instance [keeps : manner.KeepsAll here arguments] : manner.Admits here fun _ =>
    valueTypes arguments expected := by
  have all := keeps
  induction arguments generalizing expected with
  | nil => exact inferInstanceAs (manner.Holds here (pure ()) (pure ()))
  | cons argument rest ih =>
    have first := all.head
    exact .after fun _ => ih all.tail

/-! ## Conversions -/

instance {types : List TypeId} [keeps : manner.KeepsAll here arguments] :
    manner.Admits here fun _ => convertArguments arguments types := by
  have all := keeps
  induction arguments generalizing types with
  | nil => exact inferInstanceAs (manner.Holds here (pure ()) (pure ()))
  | cons argument rest ih =>
    cases types with
    | nil => exact inferInstanceAs (manner.Holds here (pure ()) (pure ()))
    | cons type types =>
      have first := all.head
      exact .after fun _ => ih all.tail

instance [manner.KeepsAll here arguments] : manner.Admits here fun _ =>
    checkArguments id what expected arguments := by
  unfold checkArguments
  infer_instance

instance [manner.Keeps here left] [manner.Keeps here right] : manner.Admits here fun _ =>
    convertBoth left right type := by
  unfold convertBoth
  infer_instance

instance [manner.Keeps here left] [manner.Keeps here right] : manner.Admits here fun _ =>
    integerBinary left right := by
  unfold integerBinary
  infer_instance

instance [manner.Keeps here left] [manner.Keeps here right] : manner.Admits here fun _ =>
    numericBinary op left right := by
  unfold numericBinary
  split
  all_goals first
    | infer_instance
    | refine .after fun common? => ?_
      split <;> infer_instance

instance [manner.Keeps here left] [manner.Keeps here right] :
    manner.Admits here fun _ => testEquality id op left right leftType rightType := by
  unfold testEquality
  refine .after fun common? => ?_
  split <;> infer_instance

instance [manner.Keeps here right] : manner.Admits here fun _ => compoundNumeric op left right := by
  unfold compoundNumeric
  refine .after fun _ => .after fun _ => ?_
  split
  all_goals first
    | infer_instance
    | refine .after fun common? => ?_
      split <;> infer_instance

instance {op : UnaryOp} [manner.Keeps here operand] : manner.Admits here fun _ =>
    builtinUnary op operand type := by
  unfold builtinUnary
  split <;> infer_instance

instance {op : UnaryOp} : manner.Admits here fun _ => step id op operand type := by
  unfold step
  infer_instance

instance : manner.Admits here fun _ => currentInstance id := by
  unfold currentInstance
  refine .after fun _ => ?_
  split <;> infer_instance

/-! ## Literals and conditionals -/

instance [keeps : manner.KeepsAll here elements] : manner.Admits here fun _ =>
    joinElements what type elements := by
  have all := keeps
  induction elements generalizing type with
  | nil => exact inferInstanceAs (manner.Holds here (pure (some type)) (pure (some type)))
  | cons element rest ih =>
    have first := all.head
    refine .after fun _ => .after fun next? => ?_
    split
    · exact ih all.tail
    · infer_instance

instance [keeps : manner.KeepsAll here elements] : manner.Admits here fun _ =>
    commonElementType id what elements := by
  unfold commonElementType
  split
  · infer_instance
  · have first := keeps.head
    have rest := keeps.tail
    refine .after fun _ => .after fun common? => ?_
    split <;> infer_instance

instance [manner.KeepsAll here elements] : manner.Admits here fun _ =>
    listLiteral id elements context := by
  unfold listLiteral
  simp only [Admits, manner.fuel]
  refine .after fun arguments? => ?_
  split
  · refine .after fun _ => .after fun element? => ?_
    split <;> infer_instance
  · refine .after fun element? => ?_
    split <;> infer_instance

section Maps

variable {entries : List (NodeId × NodeId × NodeId)}

instance {key value : TypeId} [keeps : manner.KeepsAll here (entries.flatMap entryParts)] :
    manner.Admits here fun _ => expectedEntries key value entries := by
  have all := keeps
  induction entries with
  | nil => exact inferInstanceAs (manner.Holds here (pure ()) (pure ()))
  | cons entry rest ih =>
    have left : manner.Keeps here entry.2.1 := all.head
    have right : manner.Keeps here entry.2.2 := all.tail.head
    have after := ih all.tail.tail
    exact .after fun _ => .after fun _ => .after fun _ => after

instance [keeps : manner.KeepsAll here (entries.flatMap entryParts)] :
    manner.Admits here fun _ => inferredEntries id entries := by
  have part (select : NodeId × NodeId × NodeId → NodeId)
    (listed : ∀ entry, select entry ∈ entryParts entry) :
      manner.KeepsAll here (entries.map select) := by
    refine keeps.subset fun child inside => ?_
    obtain ⟨entry, isEntry, rfl⟩ := List.mem_map.mp inside
    exact List.mem_flatMap.mpr ⟨entry, isEntry, listed entry⟩
  have left := part (fun entry => entry.2.1) fun _ => List.mem_cons_self
  have right := part (fun entry => entry.2.2) fun _ => List.mem_cons_of_mem _ List.mem_cons_self
  unfold inferredEntries
  refine .after fun key? => ?_
  dsimp only
  split
  all_goals
    refine .after fun value? => .after fun _ => ?_
    split <;> infer_instance

instance [keeps : manner.KeepsAll here elements] : manner.Admits here fun _ =>
    mapLiteral id elements context := by
  unfold mapLiteral
  simp only [Admits, manner.fuel]
  refine ⟨manner.pairs keeps.kept fun pairs => (?_ : manner.Holds _ _ _).holds⟩
  have parts := manner.keepsAll_keep here (pairs.flatMap entryParts)
  refine .after fun arguments? => ?_
  split
  · refine .after fun _ => .after fun types? => ?_
    split <;> infer_instance
  · refine .after fun types? => ?_
    split <;> infer_instance

end Maps

section Conditionals

variable {test yes no : NodeId}

instance [manner.Keeps here yes] [manner.Keeps here no] : manner.Admits here fun _ =>
    branchTypes yes no context := by
  unfold branchTypes
  infer_instance

instance [manner.Keeps here test] [manner.Keeps here yes] [manner.Keeps here no] :
    manner.Admits here fun _ => conditional test yes no context := by
  unfold conditional
  refine .after fun _ => .after fun found => ?_
  split
  split
  · infer_instance
  · refine .after fun common? => ?_
    split <;> infer_instance

end Conditionals

/-! ## Names and members -/

instance {access : Access} : manner.Admits here fun _ => useMember id member access := by
  unfold useMember
  infer_instance

instance : manner.Admits here fun _ => bareName id name := by
  unfold bareName
  split
  · infer_instance
  · refine .after fun _ => .after fun found => ?_
    split <;> infer_instance

instance [manner.Keeps here target] : manner.Admits here fun _ => memberAccess id target name := by
  unfold memberAccess
  refine .after fun container => ?_
  split
  · infer_instance
  · refine .after fun _ => .after fun _ => .after fun found => ?_
    split <;> infer_instance

/-! ## Calls of operators -/

section Candidates

variable {overload : Overload} {gathered : List SymbolId × List Candidate}

instance {functions : List SymbolId} : manner.Admits here fun _ =>
    addCandidates type functions gathered := by
  induction functions generalizing gathered with
  | nil => exact inferInstanceAs (manner.Holds here (pure gathered) (pure gathered))
  | cons function rest ih =>
    refine .after fun name => .after fun member? => ?_
    split
    · exact ih
    · refine .after fun target => ?_
      split
      · exact ih
      · exact .after fun type => ih

instance {fuel : Nat} {pending visited : List TypeId} :
    manner.Admits here fun _ => gatherCandidates type overload fuel pending visited gathered := by
  induction fuel generalizing pending visited gathered with
  | zero =>
    cases pending with
    | nil => exact inferInstanceAs (manner.Holds here (pure gathered.2) (pure gathered.2))
    | cons type pending =>
      exact inferInstanceAs (manner.Holds here (throw .outOfFuel : Resolve (List Candidate))
        (throw .outOfFuel))
  | succ fuel ih =>
    cases pending with
    | nil => exact inferInstanceAs (manner.Holds here (pure gathered.2) (pure gathered.2))
    | cons type pending =>
      simp only [gatherCandidates]
      split
      · exact ih
      refine .after fun entry => ?_
      split
      · exact ih
      · exact .after fun _ => .after fun owner => .after fun gathered => ih

instance : manner.Admits here fun _ => candidatesOf type overload := by
  unfold candidatesOf
  simp only [Admits, manner.fuel]
  infer_instance

instance {position : Nat} : manner.Admits here fun _ => operatorContext type overload position := by
  unfold operatorContext
  refine .after fun _ => ?_
  split <;> infer_instance

end Candidates

instance [manner.Keeps here operand] : manner.Admits here fun _ => convertToText operand := by
  unfold convertToText
  refine .after fun type => ?_
  split
  · infer_instance
  split
  · infer_instance
  · refine .after fun _ => .after fun member? => ?_
    split <;> infer_instance

/-- The manner holds of the rules that put new nodes above operands that may be lifted. -/
class Rewrites (manner : Manner Stance) : Prop where
  callOperator : ∀ here id overload receiver arguments candidate, manner.lifted here id
    (receiver :: arguments) →
    manner.holds here (callOperator id overload receiver arguments candidate)
      (callOperator id overload receiver arguments candidate)
  powerCall : ∀ here id left right, manner.lifted here id [left, right] →
    manner.holds here (@powerCall manner.cut id left right) (@powerCall manner.whole id left right)

variable [rewrites : manner.Rewrites]

instance {overload : Overload} [lifts : manner.Lifts here id (target :: arguments)] :
    manner.Admits here fun _ => operatorCall id overload target arguments := by
  have calls (winner : Candidate) : manner.Admits here fun _ =>
    callOperator id overload target arguments winner :=
    ⟨rewrites.callOperator _ _ _ _ _ _ lifts.lifted⟩
  unfold operatorCall
  refine .after fun type => .after fun candidates => ?_
  split
  · infer_instance
  refine .after fun found => ?_
  split
  · infer_instance
  refine .after fun ranked => .after fun texts => ?_
  split <;> infer_instance

instance [lifts : manner.Lifts here id [left, right]] :
    manner.Admits here fun _ => calculate id op left right leftType rightType := by
  obtain ⟨keepsLeft, keepsRight⟩ := lifts.pair
  unfold calculate
  refine .after fun areNumbers => ?_
  dsimp only
  split
  all_goals
    refine .after fun builtin? => ?_
    split
    · infer_instance
    split
    all_goals
      refine .after fun call? => ?_
      split <;> infer_instance

instance [lifts : manner.Lifts here id [left, right]] :
    manner.Admits here fun _ => Resolve.compare id op left right leftType rightType := by
  obtain ⟨keepsLeft, keepsRight⟩ := lifts.pair
  unfold Resolve.compare
  refine .after fun areNumbers => ?_
  dsimp only
  split
  all_goals
    refine .after fun common? => ?_
    split <;> infer_instance

omit rewrites in
instance [manner.Keeps here left] [manner.Keeps here right] :
    manner.Admits here fun _ => concatenate left right leftType rightType := by
  unfold concatenate
  infer_instance

instance [lifts : manner.Lifts here id [left, right]] : manner.Admits here fun _ =>
    applyBinary id op left right := by
  obtain ⟨keepsLeft, keepsRight⟩ := lifts.pair
  have swapped : manner.Lifts here id [right, left] := ⟨manner.lifted_perm lifts.lifted (.swap ..)⟩
  have raises : manner.Admits here fun _ => powerCall id left right :=
    ⟨rewrites.powerCall _ _ _ _ lifts.lifted⟩
  unfold applyBinary
  refine .after fun leftType => .after fun rightType => ?_
  split
  · refine .after fun type? => ?_
    split <;> infer_instance
  all_goals infer_instance

instance [lifts : manner.Lifts here id [left, right]] : manner.Admits here fun _ =>
    binary id op left right := by
  obtain ⟨keepsLeft, keepsRight⟩ := lifts.pair
  unfold binary
  infer_instance

instance {op : UnaryOp} [lifts : manner.Lifts here id [operand]] :
    manner.Admits here fun _ => unary id op operand context := by
  have keeps := lifts.keepsAll.head
  unfold unary
  dsimp only
  split
  · infer_instance
  refine .after fun type => ?_
  split
  · infer_instance
  split
  · infer_instance
  refine .after fun result? => ?_
  split
  · infer_instance
  split
  all_goals
    refine .after fun call? => ?_
    split <;> infer_instance

instance [lifts : manner.Lifts here id [target, place]] : manner.Admits here fun _ =>
    element id target place := by
  obtain ⟨keepsTarget, keepsPlace⟩ := lifts.pair
  unfold element
  refine .after fun targetType => .after fun context => .after fun placeType => ?_
  split
  · infer_instance
  · refine .after fun type? => ?_
    split <;> infer_instance

/-! ## Assignments -/

section Assignments

omit rewrites

instance {base : BinaryOp} [manner.Keeps here right] :
    manner.Admits here fun _ => compoundAssignment id op base left right leftType rightType := by
  unfold compoundAssignment
  dsimp only
  split
  · infer_instance
  refine .after fun areNumbers => ?_
  split
  all_goals
    refine .after fun result? => ?_
    split <;> infer_instance

instance [manner.Keeps here left] [manner.Keeps here right] :
    manner.Admits here fun _ => assignVariable id op left right := by
  unfold assignVariable
  split <;> infer_instance

/-- Assignments that calculate resolve their target as any operand. -/
theorem holds_compound [manner.Keeps here left] [manner.Keeps here right]
    (compound : op ≠ .assign) :
    manner.Admits here fun _ => assignment id op left right := by
  unfold assignment
  refine .after fun kind => ?_
  split
  · unfold assignElement
    rw [if_pos compound, if_pos compound]
    infer_instance
  · infer_instance

end Assignments

theorem holds_assignElement [lifts : manner.Lifts here id [target, place, right]] :
    manner.Admits here fun _ => assignElement id .assign left target place right := by
  have keepsTarget := lifts.keepsAll.head
  have keepsPlace := lifts.keepsAll.tail.head
  have keepsRight := lifts.keepsAll.tail.tail.head
  simp only [Admits, assignElement, ne_eq, not_true_eq_false, ↓reduceIte]
  refine .after fun targetType => .after fun placeContext => .after fun valueContext => ?_
  refine .after fun placeType => .after fun found => ?_
  split
  · infer_instance
  · refine .after fun type? => ?_
    split <;> infer_instance

/-! ## Calls -/

section Calls

omit rewrites

instance {callee : Option SymbolId} {parameters : List TypeId} :
    manner.Admits here fun _ => inferCallee id callee type parameters arguments := by
  unfold inferCallee
  simp only [Admits, manner.fuel]
  refine .after fun _ => .after fun _ => .after fun _ => ?_
  split <;> infer_instance

variable [manner.KeepsAll here arguments]

instance : manner.Admits here fun _ => looseArguments arguments type := by
  unfold looseArguments
  infer_instance

instance : manner.Admits here fun _ => calleeType id target type arguments := by
  unfold calleeType
  infer_instance

instance [manner.Keeps here target] : manner.Admits here fun _ => call id target arguments := by
  unfold call
  infer_instance

instance : manner.Admits here fun _ => constructorCall id symbol type what arguments := by
  unfold constructorCall
  infer_instance

instance : manner.Admits here fun _ => instanceOf id type arguments := by
  unfold instanceOf
  refine .after fun _ => ?_
  split <;> infer_instance

instance [manner.Keeps here target] : manner.Admits here fun _ => creation id target arguments := by
  unfold creation
  infer_instance

omit [manner.KeepsAll here arguments] in
instance : manner.Admits here fun _ => baseConstructor? id := by
  unfold baseConstructor?
  refine .after fun context => ?_
  dsimp only
  -- Whether the function around the call is a constructor, and of which object, is read in one of
  -- two ways each.
  split
  all_goals
    repeat refine .after fun _ => ?_
    split
    · infer_instance
    split
    all_goals
      repeat refine .after fun _ => ?_
      split
      · infer_instance
      · refine .after fun _ => .after fun member? => ?_
        split <;> infer_instance

instance : manner.Admits here fun _ => superCall id arguments := by
  unfold superCall
  refine .after fun _ => ?_
  split <;> infer_instance

theorem holds_typeApplication [manner.Keeps here target] (makes : ∀ fuel generic found,
    manner.Admits here fun _ => onTypes (Types.parameterize fuel generic found)) :
    manner.Admits here fun _ => typeApplication id target arguments := by
  have applies (generic : TypeId) (found : List TypeId) :
      manner.Admits here fun _ => applyGeneric target generic found := by
    unfold applyGeneric
    simp only [Admits, manner.fuel]
    refine .after fun namesType => ?_
    split
    · infer_instance
    · refine .after fun node => ?_
      split <;> infer_instance
  unfold typeApplication
  infer_instance

end Calls

omit rewrites in
instance [manner.Keeps here target] [manner.Keeps here operand] :
    manner.Admits here fun _ => Resolve.cast id target operand := by
  unfold Resolve.cast
  infer_instance

/-! ## Manners without a ledger

Where every node is kept and whatever happens to the tree is fine, the rules hold of any node. -/

/-- Every node is kept, and the manner holds of mild changes of the tree. -/
class Free (manner : Manner Stance) : Prop where
  kept : ∀ here id, manner.kept here id
  lifted : ∀ here host nodes, manner.lifted here host nodes
  onTree : ∀ {α : Type} here (action : Action Tree α), action.Mild →
    manner.holds here (onTree action) (onTree action)

section Free

variable [free : manner.Free]

omit rewrites

instance : manner.Keeps here id := ⟨free.kept here id⟩

instance : manner.KeepsAll here arguments := ⟨fun id _ => free.kept here id⟩

instance : manner.Lifts here id arguments := ⟨free.lifted here id arguments⟩

instance {α : Type} {action : Action Tree α} [mild : action.Mild] : manner.Admits here fun _ =>
    onTree action :=
  ⟨free.onTree here action mild⟩

instance {kind : NodeKind} {span : Span} : manner.Admits here fun _ => alloc kind span := by
  unfold alloc
  infer_instance

instance : manner.Rewrites where
  callOperator here id overload receiver arguments candidate _ := by
    refine (?_ : manner.Holds here _ _).holds
    unfold callOperator
    refine .after fun _ => .after fun name => .after fun callee => ?_
    refine .after fun _ => .after fun _ => .after fun expected => ?_
    refine .after fun _ => .after fun result? => ?_
    split
    · infer_instance
    · refine .after fun kind => ?_
      split <;> infer_instance
  powerCall here id left right _ := by
    refine (?_ : manner.Holds here _ _).holds
    unfold powerCall
    refine .after fun _ => .after fun context => ?_
    split
    · infer_instance
    · refine .after fun member? => ?_
      split <;> infer_instance

instance : manner.Admits here fun _ => expectedMember id name context := by
  unfold expectedMember
  split <;> infer_instance

instance {target : Option NodeId} : manner.Admits here fun _ => dot id target name context := by
  unfold dot
  split <;> infer_instance

instance : manner.Admits here fun _ => assignment id op left right := by
  by_cases assigns : op = .assign
  · subst assigns
    unfold assignment
    refine .after fun _ => ?_
    split
    · exact holds_assignElement
    · infer_instance
  · exact holds_compound assigns

theorem holds_expressionRule
    (applies : ∀ target arguments, manner.Admits here fun _ =>
      typeApplication id target arguments) :
    manner.Admits here fun _ => expressionRule id context := by
  have resolves : manner.Admits here fun _ => expressionType id context := by
    unfold expressionType
    refine .after fun node => ?_
    split
    all_goals first
      | infer_instance
      | split <;> infer_instance
  unfold expressionRule
  infer_instance

end Free

end Manner
end Resolution
