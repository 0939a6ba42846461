import Resolution.Program
import Resolution.Proofs.Advancing
import Resolution.Proofs.Grafting
import Resolution.Proofs.Looking

/-!
# Manners of running rules

Much of what is known of the resolution is known because every rule keeps to it: the store stays
consistent, the tree stays in order, two watches see the same course.  Each of these is a manner: it
holds of a rule if it holds of the steps that the rule is made of, and it is taken for granted of
what the rule asks the resolver for.  Rules are looked at once, for every manner.

A manner compares the run of a step under two resolvers, which may be the same one.  What is known
around a step is its stance: the nodes that are kept for it, the nodes that it may lift to one of
them, and the symbols that it settles.
-/

namespace Resolution

/-- A sort of node that stands around a single other node. -/
class NodeKind.Casing (make : NodeId → NodeKind) : Prop where
  single : ∀ inner, (make inner).children = [inner]
  plain : ∀ inner, (make inner).isDeclaration = false
  notIndex : ∀ inner, (make inner).isIndex = false
  assigned : ∀ inner, (make inner).assigned? = none

instance : NodeKind.Casing .implicitCast := ⟨fun _ => rfl, fun _ => rfl, fun _ => rfl, fun _ => rfl⟩

instance {name : String} : NodeKind.Casing fun inner => .dot (some inner) name :=
  ⟨fun _ => rfl, fun _ => rfl, fun _ => rfl, fun _ => rfl⟩

instance : NodeKind.Casing fun inner => .call inner [] :=
  ⟨fun _ => rfl, fun _ => rfl, fun _ => rfl, fun _ => rfl⟩

/-- A change of a symbol that others do not notice: progress, name, place, scopes and what is
published stay. -/
class Symbol.Detail (change : Symbol → Symbol) : Prop where
  progress : ∀ symbol, (change symbol).progress = symbol.progress
  name : ∀ symbol, (change symbol).name = symbol.name
  span : ∀ symbol, (change symbol).span = symbol.span
  ownScope : ∀ symbol, (change symbol).ownScope = symbol.ownScope
  published : ∀ symbol, (change symbol).published = symbol.published
  enclosing : ∀ symbol, (change symbol).enclosing = symbol.enclosing

section Details

instance {flags : Symbol → Flags} : Symbol.Detail fun entry =>
    { entry with flags := flags entry } :=
  ⟨fun _ => rfl, fun _ => rfl, fun _ => rfl, fun _ => rfl, fun _ => rfl, fun _ => rfl⟩

instance {parameters : List SymbolId} : Symbol.Detail fun entry => { entry with parameters } :=
  ⟨fun _ => rfl, fun _ => rfl, fun _ => rfl, fun _ => rfl, fun _ => rfl, fun _ => rfl⟩

instance {arguments : List SymbolId} : Symbol.Detail fun entry => { entry with arguments } :=
  ⟨fun _ => rfl, fun _ => rfl, fun _ => rfl, fun _ => rfl, fun _ => rfl, fun _ => rfl⟩

instance {overridden : Option MemberId} : Symbol.Detail fun entry => { entry with overridden } :=
  ⟨fun _ => rfl, fun _ => rfl, fun _ => rfl, fun _ => rfl, fun _ => rfl, fun _ => rfl⟩

instance {node : Option NodeId} : Symbol.Detail fun entry => { entry with node } :=
  ⟨fun _ => rfl, fun _ => rfl, fun _ => rfl, fun _ => rfl, fun _ => rfl, fun _ => rfl⟩

instance {overload : Overload} {function : SymbolId} : Symbol.Detail fun entry =>
    entry.register overload function :=
  ⟨fun _ => rfl, fun _ => rfl, fun _ => rfl, fun _ => rfl, fun _ => rfl, fun _ => rfl⟩

instance {emitAs : Option String} : Symbol.Detail fun entry => { entry with emitAs } :=
  ⟨fun _ => rfl, fun _ => rfl, fun _ => rfl, fun _ => rfl, fun _ => rfl, fun _ => rfl⟩

instance {includes : Symbol → List String} : Symbol.Detail fun entry =>
    { entry with includes := includes entry } :=
  ⟨fun _ => rfl, fun _ => rfl, fun _ => rfl, fun _ => rfl, fun _ => rfl, fun _ => rfl⟩

end Details

/-- Keys and values of map entries. -/
def Resolve.entryParts (entry : NodeId × NodeId × NodeId) : List NodeId := [entry.2.1, entry.2.2]

/-- Steps that write to the tree, the types or symbols in ways that no rule has to answer for. -/
class inductive Resolve.Basic : {α : Type} → Resolve α → Prop
  | setType (id : NodeId) (type : TypeId) : Basic (setType id type)
  | setSymbol (id : NodeId) (symbol : Option SymbolId) : Basic (setSymbol id symbol)
  | fold (id : NodeId) : Basic (fold id)
  | learn (fuel : Nat) (member : MemberId) :
      Basic (do let store ← get; onTypes (Types.memberType store.symbols fuel member))
  | functionType (result : TypeId) (arguments : List TypeId) :
    Basic (onTypes (Types.functionType result arguments))
  | substitute (fuel : Nat) (type : TypeId) (parameters arguments : List TypeId) :
      Basic (onTypes (Types.substitute fuel type parameters arguments))
  | list (fuel : Nat) (arguments : List TypeId) :
    Basic (onTypes (Types.parameterize fuel .list arguments))
  | map (fuel : Nat) (arguments : List TypeId) :
    Basic (onTypes (Types.parameterize fuel .map arguments))
  | detail (id : SymbolId) (change : Symbol → Symbol) [Symbol.Detail change] :
    Basic (updateSymbol id change)
  | entryPoint (entryPoint : Option SymbolId) :
    Basic (modify fun store => { store with entryPoint } : Resolve PUnit)
  | declareLocal (id : NodeId) : Basic (declareLocal id)

attribute [instance] Resolve.Basic.setType Resolve.Basic.setSymbol Resolve.Basic.fold
  Resolve.Basic.learn
  Resolve.Basic.functionType Resolve.Basic.substitute Resolve.Basic.list Resolve.Basic.map
    Resolve.Basic.detail
  Resolve.Basic.entryPoint Resolve.Basic.declareLocal

namespace Resolve

/-- A step that answers a context with a function that exists, if it has one. -/
class Locates (asks : Resolve Context) : Prop where
  houses : ∀ site store, store.Houses site.function →
    Returns asks site store fun context _ => store.Houses context.function

instance (id : SymbolId) : Locates (declarationContext id) where
  houses site store houses := by
    unfold declarationContext
    refine (looks_symbolOf id).bind fun symbol => ?_
    have inherited (scope : ScopeId) :
      Returns (do return { (← read).toContext with scope }) site store
        fun context _ => store.Houses context.function :=
          ensures_bind.mpr (ensures_read.mpr (.pure houses))
    dsimp only
    split
    · exact inherited _
    · exact inherited _
    · exact Looks.bind inferInstance fun _ => .pure (by rintro _ ⟨⟩)

instance (function : SymbolId) : Locates (bodyContext function) where
  houses site store houses := by
    unfold bodyContext
    refine ensures_bind.mpr (ensures_symbolOf.mpr fun symbol known => ?_)
    have housed : store.Houses (some function) := by
      rintro _ ⟨⟩
      exact ⟨symbol, known⟩
    dsimp only
    split
    · exact Looks.bind inferInstance fun _ => .pure housed
    · exact Looks.bind inferInstance fun _ => .pure housed

end Resolve

theorem Resolver.fuel_self [resolver : Resolver] : resolver.fuel = resolver.fuel :=
  rfl

open Resolve in
/-- A manner of running steps, with what rules take for granted. -/
structure Manner (Stance : Type) where
  cut : Resolver
  whole : Resolver
  holds : ∀ {α : Type}, Stance → Resolve α → Resolve α → Prop
  /-- The nodes that the rules around rely on. -/
  kept : Stance → NodeId → Prop
  lifted : Stance → NodeId → List NodeId → Prop
  /-- The symbols that are being settled. -/
  owned : Stance → SymbolId → Prop
  keep : Stance → List NodeId → Stance
  /-- The stance inside of bodies, where locals may be declared. -/
  inner : Stance → Stance
  /-- The stance in another scope. -/
  outer : Stance → Stance
  keep_inner : ∀ here nodes, keep (inner here) nodes = inner (keep here nodes)
  kept_keep : ∀ {here nodes id}, kept here id ∨ id ∈ nodes → kept (keep here nodes) id
  kept_inner : ∀ {here id}, kept here id → kept (inner here) id
  kept_outer : ∀ {here id}, kept here id → kept (outer here) id
  kept_of_lifted : ∀ {here host nodes}, lifted here host nodes → ∀ id ∈ nodes, kept here id
  lifted_perm : ∀ {here host nodes others}, lifted here host nodes → nodes.Perm others →
    lifted here host others
  owned_keep : ∀ {here nodes id}, owned here id → owned (keep here nodes) id
  fuel : cut.fuel = whole.fuel
  expression : ∀ here id context, kept here id → holds here (cut.expression id context)
    (whole.expression id context)
  statement : ∀ here id, kept (inner here) id → holds (inner here) (cut.statement id)
    (whole.statement id)
  settle : ∀ here id, holds here (cut.settle id) (whole.settle id)
  looks : ∀ {α : Type} {step : Resolve α} here, Looks step → holds here step step
  basic : ∀ {α : Type} {step : Resolve α} here, Basic step → holds here step step
  wrap : ∀ here id make, NodeKind.Casing make → kept here id →
    holds here (onTree (Tree.wrap id make)) (onTree (Tree.wrap id make))
  assigns : ∀ {here id} type, owned here id →
    holds here (setSymbolType id type) (setSymbolType id type)
  fixes : ∀ {here id} constant, owned here id → holds here (setConstant id constant)
    (setConstant id constant)
  blocks : ∀ here id, kept here id → holds here (@block cut id) (@block whole id)
  /-- A new scope is the scope of a body. -/
  enter : ∀ {here} {cut whole : Resolve Unit}, holds (inner here) cut whole →
    holds here (openBlockScope >>= fun scope => inScope scope cut) (openBlockScope >>= fun scope =>
      inScope scope whole)
  inserts : ∀ here symbol, holds (inner here) (insertLocal symbol) (insertLocal symbol)
  bind : ∀ {α β : Type} {here : Stance} {cut whole : Resolve α} {cutNext wholeNext : α → Resolve β},
    holds here cut whole →
    (∀ value, holds here (cutNext value) (wholeNext value)) →
      holds here (cut >>= cutNext) (whole >>= wholeNext)
  surrounded : ∀ {α : Type} {here : Stance} {change : Context → Context} {cut whole : Resolve α},
    (∀ context, (change context).function = context.function) →
    (∀ context, (change context).scope = context.scope) → holds here cut whole →
      holds here (withContext change cut) (withContext change whole)
  elsewhere : ∀ {α : Type} {here : Stance} {change : Context → Context} {cut whole : Resolve α},
    (∀ context, (change context).function = context.function) →
    holds (outer here) cut whole → holds here (withContext change cut) (withContext change whole)
  contexts : ∀ {α : Type} {here : Stance} {asks : Resolve Context} {cut whole : Resolve α},
    Looks asks → Locates asks → holds (outer here) cut whole →
      holds here (asks >>= fun context => inContext context cut)
        (asks >>= fun context => inContext context whole)
  nested : ∀ {α : Type} {here : Stance} {cutRefused wholeRefused cut whole : Resolve α},
    holds here cutRefused wholeRefused → holds here cut whole →
      holds here (deeper cutRefused cut) (deeper wholeRefused whole)
  offers : ∀ {α : Type} {here : Stance} {id : NodeId} {cut whole : NodeKind → Resolve α},
    kept here id →
    (∀ kind, holds (keep here kind.offered) (cut kind) (whole kind)) →
      holds here (kindOf id >>= cut) (kindOf id >>= whole)
  /-- A declaration leads to its parts. -/
  declares : ∀ {α : Type} {here : Stance} {id : NodeId} {cut whole : NodeKind → Resolve α},
    (∀ kind, holds (keep here kind.declared) (cut kind) (whole kind)) →
      holds here (kindOf id >>= cut) (kindOf id >>= whole)
  decorates : ∀ {α : Type} {here : Stance} {symbol : SymbolId}
    {cut whole : List NodeId → Resolve α},
    (∀ nodes, holds (keep here nodes) (cut nodes) (whole nodes)) →
      holds here (decorationsOf symbol >>= cut) (decorationsOf symbol >>= whole)
  /-- The entries of a map lead to their keys and values. -/
  pairs : ∀ {α : Type} {here : Stance} {entries : List NodeId}
    {cut whole : List (NodeId × NodeId × NodeId) → Resolve α},
    (∀ id ∈ entries, kept here id) →
      (∀ pairs, holds (keep here (pairs.flatMap entryParts)) (cut pairs) (whole pairs)) →
      holds here ((entries.mapM fun entry => do return (entry, ← pairOf entry)) >>= cut)
        ((entries.mapM fun entry => do return (entry, ← pairOf entry)) >>= whole)

namespace Manner

variable {Stance α β : Type}

/-- The manner holds of a step under its two resolvers. -/
class Holds (manner : Manner Stance) (here : Stance) (cut whole : Resolve α) : Prop where
  holds : manner.holds here cut whole

/-- The manner holds of a rule. -/
abbrev Admits (manner : Manner Stance) (here : Stance) (step : Resolver → Resolve α) : Prop :=
  manner.Holds here (step manner.cut) (step manner.whole)

class Keeps (manner : Manner Stance) (here : Stance) (id : NodeId) : Prop where
  kept : manner.kept here id

/-- The kept nodes. -/
abbrev Kept (manner : Manner Stance) (here : Stance) :
    Type := { id : NodeId // manner.kept here id }

class KeepsAll (manner : Manner Stance) (here : Stance) (nodes : List NodeId) : Prop where
  kept : ∀ id ∈ nodes, manner.kept here id

class Lifts (manner : Manner Stance) (here : Stance) (host : NodeId) (nodes : List NodeId) :
    Prop where
  lifted : manner.lifted here host nodes

class Owns (manner : Manner Stance) (here : Stance) (id : SymbolId) : Prop where
  owned : manner.owned here id

variable {manner : Manner Stance} {here : Stance} {id host : NodeId} {nodes others : List NodeId}

section Keeping

instance {item : manner.Kept here} : manner.Keeps here item := ⟨item.property⟩

instance [keeps : manner.Keeps here id] : manner.Keeps (manner.keep here nodes) id :=
  ⟨manner.kept_keep (.inl keeps.kept)⟩

instance [keeps : manner.Keeps here id] : manner.Keeps (manner.inner here) id :=
  ⟨manner.kept_inner keeps.kept⟩

instance [keeps : manner.Keeps here id] : manner.Keeps (manner.outer here) id :=
  ⟨manner.kept_outer keeps.kept⟩

instance [keeps : manner.KeepsAll here nodes] : manner.KeepsAll (manner.keep here others) nodes :=
  ⟨fun id listed => manner.kept_keep (.inl (keeps.kept id listed))⟩

instance [keeps : manner.KeepsAll here nodes] : manner.KeepsAll (manner.inner here) nodes :=
  ⟨fun id listed => manner.kept_inner (keeps.kept id listed)⟩

instance [keeps : manner.KeepsAll here nodes] : manner.KeepsAll (manner.outer here) nodes :=
  ⟨fun id listed => manner.kept_outer (keeps.kept id listed)⟩

instance {symbol : SymbolId} [owns : manner.Owns here symbol] :
    manner.Owns (manner.keep here nodes) symbol :=
  ⟨manner.owned_keep owns.owned⟩

theorem KeepsAll.keeps (keeps : manner.KeepsAll here nodes) (listed : id ∈ nodes) :
    manner.Keeps here id :=
  ⟨keeps.kept id listed⟩

theorem KeepsAll.subset (keeps : manner.KeepsAll here nodes) (subset : others ⊆ nodes) :
    manner.KeepsAll here others :=
  ⟨fun id listed => keeps.kept id (subset listed)⟩

theorem KeepsAll.head (keeps : manner.KeepsAll here (id :: nodes)) :
    manner.Keeps here id := keeps.keeps List.mem_cons_self

theorem KeepsAll.tail (keeps : manner.KeepsAll here (id :: nodes)) : manner.KeepsAll here nodes :=
  keeps.subset (List.subset_cons_self id nodes)

theorem Lifts.keepsAll (lifts : manner.Lifts here host nodes) : manner.KeepsAll here nodes :=
  ⟨manner.kept_of_lifted lifts.lifted⟩

theorem Lifts.pair {left right : NodeId} (lifts : manner.Lifts here host [left, right]) :
    manner.Keeps here left ∧ manner.Keeps here right :=
  ⟨lifts.keepsAll.head, lifts.keepsAll.tail.head⟩

theorem keepsAll_keep (manner : Manner Stance) (here : Stance) (nodes : List NodeId) :
    manner.KeepsAll (manner.keep here nodes) nodes :=
  ⟨fun _ listed => manner.kept_keep (.inr listed)⟩

theorem keepsAll_declared (manner : Manner Stance) (here : Stance) (kind : NodeKind)
    (declares : kind.isDeclaration = true) :
    manner.KeepsAll (manner.keep here kind.declared) kind.children := by
  unfold NodeKind.declared
  rw [if_pos declares]
  exact manner.keepsAll_keep here kind.children

end Keeping

/-! ## Composing steps -/

section Steps

variable {cut whole : Resolve α} {cutNext wholeNext : α → Resolve β} {step : Resolve α}

instance (priority := low) holds_of_looks [looks : Resolve.Looks step] :
    manner.Holds here step step :=
  ⟨manner.looks here looks⟩

instance (priority := low) holds_of_basic [basic : Resolve.Basic step] :
    manner.Holds here step step :=
  ⟨manner.basic here basic⟩

theorem holds_bind (first : manner.Holds here cut whole)
    (rest : ∀ value, manner.Holds here (cutNext value) (wholeNext value)) :
    manner.Holds here (cut >>= cutNext) (whole >>= wholeNext) :=
  ⟨manner.bind first.holds fun value => (rest value).holds⟩

theorem Holds.after [first : manner.Holds here cut whole]
    (rest : ∀ value, manner.Holds here (cutNext value) (wholeNext value)) :
    manner.Holds here (cut >>= cutNext) (whole >>= wholeNext) :=
  holds_bind first rest

theorem Holds.offer {cutNext wholeNext : NodeKind → Resolve α} [keeps : manner.Keeps here id]
    (rest : ∀ kind, manner.Holds (manner.keep here kind.offered) (cutNext kind) (wholeNext kind)) :
    manner.Holds here (Resolve.kindOf id >>= cutNext) (Resolve.kindOf id >>= wholeNext) :=
  ⟨manner.offers keeps.kept fun kind => (rest kind).holds⟩

/-- The parts of a declaration are kept from then on. -/
theorem Holds.find {cutNext wholeNext : NodeKind → Resolve α}
    (rest : ∀ kind, manner.Holds (manner.keep here kind.declared) (cutNext kind) (wholeNext kind)) :
    manner.Holds here (Resolve.kindOf id >>= cutNext) (Resolve.kindOf id >>= wholeNext) :=
  ⟨manner.declares fun kind => (rest kind).holds⟩

instance [first : manner.Holds here cut whole] [rest : ∀ value, manner.Holds here (cutNext value)
    (wholeNext value)] :
    manner.Holds here (cut >>= cutNext) (whole >>= wholeNext) :=
  holds_bind first rest

instance {convert : α → β} [first : manner.Holds here cut whole] :
    manner.Holds here (convert <$> cut) (convert <$> whole) := by
  rw [map_eq_pure_bind, map_eq_pure_bind]
  infer_instance

instance {condition : Prop} [Decidable condition] {cutNo wholeNo : Resolve α}
    [first : manner.Holds here cut whole]
    [second : manner.Holds here cutNo wholeNo] :
    manner.Holds here (if condition then cut else cutNo) (if condition then whole else wholeNo) :=
  by
  split
  · exact first
  · exact second

theorem holds_surrounded {change : Context → Context}
    (function : ∀ context, (change context).function = context.function)
    (scope : ∀ context, (change context).scope = context.scope)
    (holds : manner.Holds here cut whole) :
    manner.Holds here (Resolve.withContext change cut) (Resolve.withContext change whole) :=
  ⟨manner.surrounded function scope holds.holds⟩

instance {asks : Resolve Context} [looks : Resolve.Looks asks] [locates : Resolve.Locates asks]
    [holds : manner.Holds (manner.outer here) cut whole] :
    manner.Holds here (asks >>= fun context => Resolve.inContext context cut)
      (asks >>= fun context => Resolve.inContext context whole) :=
  ⟨manner.contexts looks locates holds.holds⟩

instance {scope : ScopeId} [holds : manner.Holds (manner.outer here) cut whole] :
    manner.Holds here (Resolve.inScope scope cut) (Resolve.inScope scope whole) :=
  ⟨manner.elsewhere (fun _ => rfl) holds.holds⟩

instance {cutRefused wholeRefused : Resolve α} [first : manner.Holds here cutRefused wholeRefused]
    [second : manner.Holds here cut whole] :
    manner.Holds here (Resolve.deeper cutRefused cut) (Resolve.deeper wholeRefused whole) :=
  ⟨manner.nested first.holds second.holds⟩

end Steps

section Loops

variable {γ : Type} {items : List γ} {cut whole : γ → Resolve PUnit} {seed : β} {item? : Option γ}

theorem holds_forM (each : ∀ item ∈ items, manner.Holds here (cut item) (whole item)) :
    manner.Holds here (items.forM cut) (items.forM whole) := by
  induction items with
  | nil => exact inferInstanceAs (manner.Holds here (pure PUnit.unit) (pure PUnit.unit))
  | cons item rest ih =>
    exact holds_bind (each item List.mem_cons_self) fun _ => ih fun other listed =>
      each other (List.mem_cons_of_mem _ listed)

theorem holds_mapM {cut whole : γ → Resolve β} (each : ∀ item ∈ items, manner.Holds here (cut item)
    (whole item)) :
    manner.Holds here (items.mapM cut) (items.mapM whole) := by
  induction items with
  | nil => exact inferInstanceAs (manner.Holds here (pure []) (pure []))
  | cons item rest ih =>
    rw [List.mapM_cons, List.mapM_cons]
    have first := each item List.mem_cons_self
    have others := ih fun other listed => each other (List.mem_cons_of_mem _ listed)
    infer_instance

theorem holds_foldlM {cut whole : β → γ → Resolve β}
    (each : ∀ value, ∀ item ∈ items, manner.Holds here (cut value item) (whole value item)) :
    manner.Holds here (items.foldlM cut seed) (items.foldlM whole seed) := by
  induction items generalizing seed with
  | nil => exact inferInstanceAs (manner.Holds here (pure seed) (pure seed))
  | cons item rest ih =>
    rw [List.foldlM_cons, List.foldlM_cons]
    exact holds_bind (each seed item List.mem_cons_self) fun value =>
      ih fun value other listed => each value other (List.mem_cons_of_mem _ listed)

theorem holds_optionMapM {cut whole : γ → Resolve β}
    (each : ∀ item ∈ item?.toList, manner.Holds here (cut item) (whole item)) :
    manner.Holds here (item?.mapM cut) (item?.mapM whole) := by
  cases item? with
  | none => exact inferInstanceAs (manner.Holds here (pure none) (pure none))
  | some item =>
    have first := each item List.mem_cons_self
    rw [Option.mapM_some, Option.mapM_some]
    infer_instance

theorem holds_optionForM (each : ∀ item ∈ item?.toList, manner.Holds here (cut item) (whole item)) :
    manner.Holds here (item?.forM cut) (item?.forM whole) := by
  cases item? with
  | none => exact inferInstanceAs (manner.Holds here (pure PUnit.unit) (pure PUnit.unit))
  | some item => exact each item List.mem_cons_self

instance [each : ∀ item, manner.Holds here (cut item) (whole item)] :
    manner.Holds here (items.forM cut) (items.forM whole) :=
  holds_forM fun item _ => each item

instance {cut whole : γ → Resolve β} [each : ∀ item, manner.Holds here (cut item) (whole item)] :
    manner.Holds here (items.mapM cut) (items.mapM whole) :=
  holds_mapM fun item _ => each item

instance {cut whole : β → γ → Resolve β} [each : ∀ value item, manner.Holds here (cut value item)
    (whole value item)] :
    manner.Holds here (items.foldlM cut seed) (items.foldlM whole seed) :=
  holds_foldlM fun value item _ => each value item

variable {nodes : List NodeId} {node? : Option NodeId}

instance {cut whole : NodeId → Resolve PUnit} [keeps : manner.KeepsAll here nodes]
    [each : ∀ item : manner.Kept here, manner.Holds here (cut item) (whole item)] :
    manner.Holds here (nodes.forM cut) (nodes.forM whole) :=
  holds_forM fun id listed => each ⟨id, keeps.kept id listed⟩

instance {cut whole : NodeId → Resolve β} [keeps : manner.KeepsAll here nodes]
    [each : ∀ item : manner.Kept here, manner.Holds here (cut item) (whole item)] :
    manner.Holds here (nodes.mapM cut) (nodes.mapM whole) :=
  holds_mapM fun id listed => each ⟨id, keeps.kept id listed⟩

instance {cut whole : β → NodeId → Resolve β} [keeps : manner.KeepsAll here nodes]
    [each : ∀ value, ∀ item : manner.Kept here, manner.Holds here (cut value item)
      (whole value item)] :
    manner.Holds here (nodes.foldlM cut seed) (nodes.foldlM whole seed) :=
  holds_foldlM fun value id listed => each value ⟨id, keeps.kept id listed⟩

instance {cut whole : NodeId → Resolve PUnit} [keeps : manner.KeepsAll here node?.toList]
    [each : ∀ item : manner.Kept here, manner.Holds here (cut item) (whole item)] :
    manner.Holds here (node?.forM cut) (node?.forM whole) :=
  holds_optionForM fun id listed => each ⟨id, keeps.kept id listed⟩

instance {cut whole : NodeId → Resolve β} [keeps : manner.KeepsAll here node?.toList]
    [each : ∀ item : manner.Kept here, manner.Holds here (cut item) (whole item)] :
    manner.Holds here (node?.mapM cut) (node?.mapM whole) :=
  holds_optionMapM fun id listed => each ⟨id, keeps.kept id listed⟩

end Loops

end Manner
end Resolution
