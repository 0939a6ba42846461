import Resolution.Program

/-!
# Faults and reports of the bookkeeping

Three faults say that the resolution itself went wrong: a symbol was started twice, a symbol was
finished that was not started, or a level was left that was never entered.  Everything that works on
a part of the store alone is mild: it has none of them.  Of the reports, only those of cycles are
part of the bookkeeping; all others are ordinary.
-/

namespace Resolution

/-- Whether a fault says that the bookkeeping of a resolution went wrong. -/
@[reducible] def Fault.isBookkeeping : Fault → Bool
  | .startedTwice _ | .finishedUnstarted _ | .unmatchedExit => true
  | _ => false

/-- A test that fails.  Tests of constants fail by computation, so instances of this class are found
for them. -/
class Refuted (test : Bool) : Prop where
  eq_false : test = false

instance : Refuted false := ⟨rfl⟩

/-- Whether a code says that a symbol is on a cycle. -/
@[reducible] def Code.isCycle : Code → Bool
  | .cycle => true
  | _ => false

namespace Diagnostic

variable {message : String} {diagnostic : Diagnostic} {span : Span} {code : Code}

/-- A report of anything but a cycle. -/
class Ordinary (diagnostic : Diagnostic) : Prop where
  not_cycle : diagnostic.code.isCycle = false

instance [refuted : Refuted code.isCycle] : (error code message).Ordinary :=
  ⟨refuted.eq_false⟩

instance [refuted : Refuted code.isCycle] : (warning code message).Ordinary :=
  ⟨refuted.eq_false⟩

instance [ordinary : diagnostic.Ordinary] : (diagnostic.label span message).Ordinary :=
  ⟨ordinary.not_cycle⟩

instance [ordinary : diagnostic.Ordinary] : (diagnostic.related span message).Ordinary :=
  ⟨ordinary.not_cycle⟩

instance {remark : String} [ordinary : diagnostic.Ordinary] : (diagnostic.note remark).Ordinary :=
  ⟨ordinary.not_cycle⟩

instance {expected found : String} : (mismatch span expected found).Ordinary := ⟨rfl⟩

instance {name : String} : (undeclared span name).Ordinary := ⟨rfl⟩

instance {spans : List Span} [ordinary : diagnostic.Ordinary] :
    (spans.foldl (fun diagnostic span => diagnostic.related span message) diagnostic).Ordinary := by
  induction spans generalizing diagnostic with
  | nil => exact ordinary
  | cons span rest ih => exact ih

end Diagnostic

/-- A computation that has no fault of the bookkeeping. -/
class Mild {α : Type} (outcome : Except Fault α) : Prop where
  mild : ∀ fault, outcome = .error fault → fault.isBookkeeping = false

/-- A computation over a state that has no fault of the bookkeeping. -/
class Action.Mild {σ α : Type} (action : Action σ α) : Prop where
  mild : ∀ state fault final, action state = .error fault final → fault.isBookkeeping = false

section Except

variable {α β κ : Type} {next : κ → Except Fault (Option κ)} {outcome : Except Fault α}
  {items : List α}
  {fault : Fault} {step : α → Except Fault Bool}

theorem mild_bind {next : α → Except Fault β} (first : Mild outcome)
    (rest : ∀ value, Mild (next value)) : Mild (outcome >>= next) := by
  refine ⟨fun fault failed => ?_⟩
  cases outcome with
  | ok value => exact (rest value).mild fault failed
  | error other =>
    cases failed
    exact first.mild _ rfl

theorem Mild.after {next : α → Except Fault β} [first : Mild outcome]
    (rest : ∀ value, Mild (next value)) : Mild (outcome >>= next) :=
  mild_bind first rest

instance {next : α → Except Fault β} [first : Mild outcome] [rest : ∀ value, Mild (next value)] :
    Mild (outcome >>= next) :=
  mild_bind first rest

instance mild_pure (value : α) : Mild (pure value : Except Fault α) := ⟨nofun⟩

instance (value : α) : Mild (Except.ok value : Except Fault α) := ⟨nofun⟩

instance mild_error [refuted : Refuted fault.isBookkeeping] :
    Mild (Except.error fault : Except Fault α) :=
  ⟨fun _ same => Except.error.inj same ▸ refuted.eq_false⟩

instance mild_throw [Refuted fault.isBookkeeping] : Mild (throw fault : Except Fault α) :=
  mild_error

instance {condition : Prop} [Decidable condition] {yes no : Except Fault α} [first : Mild yes]
    [second : Mild no] :
    Mild (if condition then yes else no) := by
  split
  · exact first
  · exact second

instance {step : α → Except Fault β} [each : ∀ item, Mild (step item)] :
    Mild (items.mapM step) := by
  induction items with
  | nil => exact mild_pure []
  | cons item rest ih =>
    rw [List.mapM_cons]
    infer_instance

instance [each : ∀ item, Mild (step item)] : Mild (items.anyM step) := by
  induction items with
  | nil => exact mild_pure false
  | cons item rest ih =>
    refine mild_bind (each item) fun found => ?_
    cases found
    · exact ih
    · exact mild_pure true

instance [each : ∀ item, Mild (step item)] : Mild (items.allM step) := by
  induction items with
  | nil => exact mild_pure true
  | cons item rest ih =>
    refine mild_bind (each item) fun holds => ?_
    cases holds
    · exact mild_pure false
    · exact ih

instance mild_fetch [Handle κ] (table : Table κ α) (handle : κ) : Mild (table.fetch handle) := by
  unfold Table.fetch
  split <;> infer_instance

/-! ## Chains -/

instance Chain.mild_find? {test : κ → Except Fault (Option β)}
    [∀ here, Mild (next here)] [∀ here, Mild (test here)] (fuel : Nat) (here : κ) :
    Mild (find? next test fuel here) := by
  induction fuel generalizing here with
  | zero => exact mild_error
  | succ fuel ih =>
    refine .after fun answer => ?_
    cases answer with
    | some answer => exact mild_pure _
    | none =>
      refine .after fun there => ?_
      cases there with
      | none => exact mild_pure _
      | some there => exact ih there

instance Chain.mild_toList [∀ here, Mild (next here)] (fuel : Nat) (here : κ) :
    Mild (toList next fuel here) := by
  induction fuel generalizing here with
  | zero => exact mild_error
  | succ fuel ih =>
    refine .after fun there => ?_
    cases there with
    | none => exact mild_pure _
    | some there => exact mild_bind (ih there) fun _ => mild_pure _

instance Chain.mild_last [∀ here, Mild (next here)] (fuel : Nat) (here : κ) :
    Mild (last next fuel here) := by
  induction fuel generalizing here with
  | zero => exact mild_error
  | succ fuel ih =>
    refine .after fun there => ?_
    cases there with
    | none => exact mild_pure _
    | some there => exact ih there

instance Chain.mild_after [∀ here, Mild (next here)] (fuel : Nat) (here : κ) :
    Mild (after next fuel here) := by
  unfold after
  refine .after fun there => ?_
  split <;> infer_instance

end Except

/-! ## Reading -/

namespace Symbols

variable (symbols : Symbols) (id : SymbolId)

instance : Mild (symbols.forwardingOf id) := by
  unfold forwardingOf
  infer_instance

instance : Mild (symbols.enclosingOf id) := by
  unfold enclosingOf
  infer_instance

instance : Mild (symbols.target id) := by
  unfold target
  infer_instance

instance : Mild (symbols.enclosingChain id) := by
  unfold enclosingChain
  infer_instance

end Symbols

namespace Tree

variable (tree : Tree) (symbols : Symbols) (id : NodeId)

instance : Mild (tree.siblingOf id) := by
  unfold siblingOf
  infer_instance

instance : Mild (tree.fragments id) := by
  unfold fragments
  infer_instance

instance (fuel : Nat) : Mild (tree.needsContextWithin fuel id) := by
  induction fuel generalizing id with
  | zero => exact mild_error
  | succ fuel ih =>
    refine .after fun node => ?_
    split <;> infer_instance

instance : Mild (tree.namesPureCallee symbols id) := by
  unfold namesPureCallee
  refine .after fun node => ?_
  split <;> infer_instance

instance : Mild (tree.isPureHere symbols id) := by
  unfold isPureHere
  refine .after fun node => ?_
  split <;> infer_instance

instance : Mild (tree.isPure symbols id) := by
  suffices within : ∀ fuel id, Mild (tree.isPureWithin symbols fuel id) from within _ id
  intro fuel
  induction fuel with
  | zero => exact fun _ => mild_error
  | succ fuel ih =>
    intro id
    unfold isPureWithin
    infer_instance

instance : Mild (tree.constantOf? id) := by
  unfold constantOf?
  infer_instance

instance : Mild (tree.value? symbols id) := by
  unfold value?
  refine .after fun node => ?_
  split
  · split <;> infer_instance
  · split <;> infer_instance
  · infer_instance
  · infer_instance
  · infer_instance
  · refine .after fun value => ?_
    split <;> infer_instance
  · infer_instance

end Tree

namespace Types

variable (types : Types) (type : TypeId)

instance : Mild (types.entry type) := mild_fetch _ _

instance : Mild (types.kind type) := by
  unfold kind
  infer_instance

instance : Mild (types.symbol type) := by
  unfold symbol
  infer_instance

instance (id : MemberId) : Mild (types.member id) := mild_fetch _ _

instance (name : String) : Mild (types.findMember? type name) := by
  unfold findMember?
  infer_instance

instance : Mild (types.membersOf type) := by
  unfold membersOf
  infer_instance

instance : Mild (types.result? type) := by
  unfold result?
  refine .after fun entry => ?_
  split <;> infer_instance

instance : Mild (types.argumentsOf type) := by
  unfold argumentsOf
  refine .after fun entry => ?_
  split <;> infer_instance

instance : Mild (types.substitutionOf type) := by
  unfold substitutionOf
  refine .after fun entry => ?_
  split <;> infer_instance

instance : Mild (types.mentionsParameter type) := by
  suffices within : ∀ fuel type, Mild (types.mentionsWithin fuel type) from within _ type
  intro fuel
  induction fuel with
  | zero => exact fun _ => mild_error
  | succ fuel ih =>
    intro type
    unfold mentionsWithin
    refine .after fun entry => ?_
    split <;> infer_instance

instance (symbols : Symbols) : Mild (types.text symbols type) := by
  suffices within : ∀ fuel type, Mild (types.textWithin symbols fuel type) from within _ type
  intro fuel
  induction fuel with
  | zero => exact fun _ => mild_error
  | succ fuel ih =>
    intro type
    unfold textWithin
    refine .after fun entry => ?_
    split
    · infer_instance
    · infer_instance
    · infer_instance
    · split <;> infer_instance
    · dsimp only
      split
      all_goals
        refine .after fun name => ?_
        split <;> infer_instance

instance : Mild (types.isEnum type) := by
  unfold isEnum
  infer_instance

instance : Mild (types.isFlags type) := by
  unfold isFlags
  infer_instance

instance : Mild (types.isIntegerLike type) := by
  unfold isIntegerLike
  infer_instance

instance : Mild (types.isNumberLike type) := by
  unfold isNumberLike
  infer_instance

instance : Mild (types.isReference type) := by
  unfold isReference
  infer_instance

instance : Mild (types.baseClass? type) := by
  unfold baseClass?
  refine .after fun entry => ?_
  split
  · infer_instance
  · split <;> infer_instance

instance (base : TypeId) : Mild (types.hasBase type base) := by
  suffices within : ∀ fuel type, Mild (types.hasBaseWithin fuel type base) from within _ type
  intro fuel
  induction fuel with
  | zero => exact fun _ => mild_error
  | succ fuel ih =>
    intro type
    unfold hasBaseWithin
    infer_instance

instance (target : TypeId) : Mild (types.convertsImplicitly type target) := by
  unfold convertsImplicitly
  infer_instance

instance (target : TypeId) : Mild (types.convertsExplicitly type target) := by
  unfold convertsExplicitly
  infer_instance

instance (other : TypeId) : Mild (types.commonBase? type other) := by
  unfold commonBase?
  refine .after fun base => ?_
  split <;> infer_instance

set_option synthInstance.maxSize 1000 in
instance (other : TypeId) : Mild (types.common? type other) := by
  unfold common?
  infer_instance

instance (expected found : List TypeId) : Mild (types.rankArguments expected found) := by
  induction expected generalizing found with
  | nil =>
    cases found with
    | nil => exact mild_pure _
    | cons type rest => exact mild_pure _
  | cons type expected ih =>
    cases found with
    | nil => exact mild_pure _
    | cons other found =>
      unfold rankArguments
      have rest := ih found
      split
      · exact rest
      · refine .after fun converts => ?_
        split
        · refine mild_bind rest fun rank => ?_
          split <;> infer_instance
        · infer_instance

instance (arguments : List TypeId) : Mild (types.rank type arguments) := by
  unfold rank
  infer_instance

end Types

namespace Scopes

variable (scopes : Scopes) (types : Types) (scope : ScopeId) (name : String)

instance : Mild (scopes.parentOf scope) := by
  unfold parentOf
  infer_instance

instance : Mild (scopes.findLocal? types scope name) := by
  unfold findLocal?
  refine .after fun entry => ?_
  split
  · infer_instance
  · split <;> infer_instance

instance mild_find? : Mild (scopes.find? types scope name) := by
  unfold find?
  infer_instance

instance : Mild (scopes.chain scope) := by
  unfold chain
  infer_instance

end Scopes

namespace EnumNames

instance (next : Int64) (numbers : List Int64) : Mild (countsFrom next numbers) := by
  induction numbers generalizing next with
  | nil => exact mild_pure _
  | cons number rest ih =>
    unfold countsFrom
    infer_instance

instance (values : List (Int64 × String)) : Mild (ofValues values) := by
  unfold ofValues
  dsimp only
  split <;> infer_instance

end EnumNames

/-! ## Changes -/

namespace Action

variable {σ τ α β κ : Type} {action : Action σ α} {next : α → Action σ β} {items : List α}
  {step : α → Action σ β}

theorem mild_bind (first : action.Mild) (rest : ∀ value, (next value).Mild) :
    (action >>= next).Mild := by
  refine ⟨fun state fault final failed => ?_⟩
  change EStateM.bind action next state = _ at failed
  unfold EStateM.bind at failed
  cases run : action state with
  | ok value middle =>
    rw [run] at failed
    exact (rest value).mild middle fault final failed
  | error other middle =>
    rw [run] at failed
    cases failed
    exact first.mild state _ _ run

theorem Mild.after [first : action.Mild] (rest : ∀ value, (next value).Mild) :
    (action >>= next).Mild :=
  mild_bind first rest

instance [first : action.Mild] [rest : ∀ value, (next value).Mild] : (action >>= next).Mild :=
  mild_bind first rest

instance mild_pure (value : α) : (pure value : Action σ α).Mild := ⟨nofun⟩

instance : (get : Action σ σ).Mild := ⟨nofun⟩

instance (state : σ) : (set state : Action σ PUnit).Mild := ⟨nofun⟩

instance mild_modify (change : σ → σ) : (modify change : Action σ PUnit).Mild := ⟨nofun⟩

instance mild_throw {fault : Fault} [refuted : Refuted fault.isBookkeeping] :
    (throw fault : Action σ α).Mild := by
  refine ⟨fun _ _ _ failed => ?_⟩
  cases failed
  exact refuted.eq_false

theorem mild_outOfFuel : (throw .outOfFuel : Action σ α).Mild := mild_throw

instance {outcome : Except Fault α} [reads : Resolution.Mild outcome] :
    (ofExcept outcome : Action σ α).Mild := by
  refine ⟨fun _ fault _ failed => ?_⟩
  cases outcome with
  | ok value => cases failed
  | error other =>
    cases failed
    exact reads.mild _ rfl

instance {part : τ → σ} {restore : τ → σ → τ} [inner : action.Mild] :
    (zoom part restore action).Mild := by
  refine ⟨fun whole fault final failed => ?_⟩
  unfold zoom at failed
  split at failed
  · cases failed
  · rename_i other changed run
    cases failed
    exact inner.mild _ _ _ run

instance {condition : Prop} [Decidable condition] {yes no : Action σ α} [first : yes.Mild]
    [second : no.Mild] :
    (if condition then yes else no).Mild := by
  split
  · exact first
  · exact second

instance {step : α → Action σ PUnit} [each : ∀ item, (step item).Mild] :
    (items.forM step : Action σ PUnit).Mild := by
  induction items with
  | nil => exact mild_pure _
  | cons item rest ih => exact mild_bind (each item) fun _ => ih

instance [each : ∀ item, (step item).Mild] : (items.mapM step : Action σ (List β)).Mild := by
  induction items with
  | nil => exact mild_pure _
  | cons item rest ih =>
    rw [List.mapM_cons]
    infer_instance

instance {item : Option α} [each : ∀ item, (step item).Mild] :
    (item.mapM step : Action σ (Option β)).Mild := by
  cases item with
  | none => exact mild_pure _
  | some item =>
    rw [Option.mapM_some]
    exact mild_bind (each item) fun _ => mild_pure _

instance [Handle κ] (entry : α) : (Table.create entry : Action (Table κ α) κ).Mild := ⟨nofun⟩

instance [Handle κ] (handle : κ) (change : α → α) :
    (Table.update handle change : Action (Table κ α) Unit).Mild := by
  refine ⟨fun table fault final failed => ?_⟩
  unfold Table.update at failed
  split at failed
  · cases failed
  · cases failed
    rfl

end Action

namespace Tree

instance (parent : NodeId) (children : List NodeId) : (adopt parent children).Mild := by
  induction children with
  | nil => exact Action.mild_pure _
  | cons child rest ih => exact .after fun _ => ih

instance (kind : NodeKind) (span : Span) : (alloc kind span).Mild := by
  unfold alloc
  infer_instance

instance (id : NodeId) (kind : NodeKind) : (replace id kind).Mild := by
  unfold replace
  infer_instance

instance (id : NodeId) (make : NodeId → NodeKind) : (wrap id make).Mild := by
  unfold wrap
  infer_instance

instance (block statement : NodeId) : (pushStatement block statement).Mild := by
  unfold pushStatement
  refine .after fun _ => .after fun receiver => ?_
  dsimp only
  split <;> infer_instance

end Tree

namespace Types

variable {substitution : Substitution}

instance mild_updateType (type : TypeId) (change : TypeEntry → TypeEntry) :
    (Types.update type change).Mild := by
  unfold Types.update
  infer_instance

instance mild_push (entry : TypeEntry) : (push entry).Mild := by
  unfold push
  infer_instance

instance (kind : TypeKind) (symbol : SymbolId) : (createNamed kind symbol).Mild :=
  mild_push _

instance (type : TypeId) (symbol : SymbolId) : (bindBuiltin type symbol).Mild :=
  mild_updateType _ _

instance (type : TypeId) (related : List TypeId) : (setRelated type related).Mild :=
  mild_updateType _ _

instance (type : TypeId) (parameters : List TypeId) : (setParameters type parameters).Mild :=
  mild_updateType _ _

instance (member : Member) : (createMember member).Mild := by
  unfold createMember
  infer_instance

instance (id : MemberId) (change : Member → Member) : (updateMember id change).Mild := by
  unfold updateMember
  infer_instance

instance (type : TypeId) (name : String) (member : MemberId) : (setMember type name member).Mild :=
  mild_updateType _ _

instance (type : TypeId) (name : String) (member : MemberId) :
    (insertMember type name member).Mild := by
  unfold insertMember
  refine .after fun _ => .after fun entry => ?_
  split <;> infer_instance

instance (key : TypeKey) (type : TypeId) : (remember key type).Mild := Action.mild_modify _

instance (result : TypeId) (arguments : List TypeId) : (functionType result arguments).Mild := by
  unfold functionType
  refine .after fun types => ?_
  split <;> infer_instance

instance (type : TypeId) (members : List (String × MemberId)) :
    (copyMembers type members).Mild := by
  induction members with
  | nil => exact Action.mild_pure _
  | cons entry rest ih =>
    unfold copyMembers
    infer_instance

instance [∀ type parameters arguments, (substitution type parameters arguments).Mild]
    (type : TypeId) :
    (instantiate substitution type).Mild := by
  unfold instantiate
  refine .after fun _ => .after fun entry => ?_
  split <;> infer_instance

instance [∀ type parameters arguments, (substitution type parameters arguments).Mild]
    (generic : TypeId)
    (arguments : List TypeId) : (parameterizeVia substitution generic arguments).Mild := by
  unfold parameterizeVia
  split
  · infer_instance
  refine .after fun _ => .after fun definition => ?_
  split
  · infer_instance
  · refine .after fun types => ?_
    split <;> infer_instance

instance (fuel : Nat) (type : TypeId) (parameters arguments : List TypeId) :
    (substitute fuel type parameters arguments).Mild := by
  induction fuel generalizing type parameters arguments with
  | zero => exact Action.mild_outOfFuel
  | succ fuel ih =>
    unfold substitute
    split
    · infer_instance
    split
    · infer_instance
    refine .after fun _ => .after fun entry => ?_
    split
    all_goals first
      | infer_instance
      | refine .after fun replaced => ?_
        split
        · infer_instance
        · split <;> infer_instance

instance (fuel : Nat) (generic : TypeId) (arguments : List TypeId) :
    (parameterize fuel generic arguments).Mild := by
  unfold parameterize
  infer_instance

instance (fuel : Nat) (type : TypeId) : (complete fuel type).Mild := by
  unfold complete
  infer_instance

instance (symbols : Symbols) (fuel : Nat) (id : MemberId) : (memberType symbols fuel id).Mild := by
  induction fuel generalizing id with
  | zero => exact Action.mild_outOfFuel
  | succ fuel ih =>
    unfold memberType
    refine .after fun _ => .after fun member => ?_
    split
    · infer_instance
    dsimp only
    split
    all_goals
      refine .after fun base => ?_
      split <;> infer_instance

end Types

instance Environment.mild_insert (scope : ScopeId) (name : String) (member : MemberId) :
    (insert scope name member).Mild := by
  unfold insert
  refine .after fun _ => .after fun entry => ?_
  split
  · infer_instance
  · split <;> infer_instance

namespace Source

instance {α : Type} {action : Action Tree α} [action.Mild] : (onTree action).Mild := by
  unfold onTree
  infer_instance

instance (text : String) : (intern text).Mild := Action.mild_modify _

instance (id : NodeId) (constant : Constant) : (setLiteral id constant).Mild := by
  unfold setLiteral
  refine .after fun _ => .after fun node => ?_
  dsimp only
  split <;> infer_instance

instance (symbols : Symbols) (root : NodeId) : (fold symbols root).Mild := by
  suffices within : ∀ fuel id, (foldWithin symbols fuel id).Mild from
    .after fun _ => within _ _
  intro fuel
  induction fuel with
  | zero => exact fun _ => Action.mild_outOfFuel
  | succ fuel ih =>
    intro id
    unfold foldWithin
    refine .after fun _ => .after fun node => ?_
    refine .after fun _ => .after fun _ => .after fun value => ?_
    split <;> infer_instance

end Source

/-! ## Built-in declarations -/

namespace Build

instance mild_node (kind : NodeKind) : (node kind).Mild := by
  unfold node nextSpan onTree
  infer_instance

instance (name : String) : (intern name).Mild := Action.mild_modify _

instance (name : String) : (header name).Mild := by
  unfold header nextSpan
  infer_instance

instance (name : String) : (typeParameter name).Mild := by
  unfold typeParameter
  infer_instance

instance (statements : List NodeId) : (block statements).Mild := mild_node _

instance (header : Header) (parameters : List String) (arguments : List NodeId)
    (result : Option NodeId) : (function header parameters arguments result none).Mild := by
  unfold function optionalBlock
  infer_instance

end Build

namespace Prelude

open Build

instance (signature : Signature) (header : Header) : (buildSignature signature header).Mild := by
  unfold buildSignature buildArgument Build.name Build.argument
  infer_instance

instance (signature : Signature) : (buildFunction signature).Mild := by
  unfold buildFunction decoration string
  infer_instance

instance (shape : Shape) : (buildClass shape).Mild := by
  unfold buildClass object
  infer_instance

instance : extend.Mild := by
  unfold extend build buildMath space file
  infer_instance

end Prelude

end Resolution
