/-!
# Handles

Nodes, symbols, types, members and scopes live in tables and are named by their position in them.
Each table has a handle type of its own, so that a position of one table cannot be used in another.
-/

namespace Resolution

/-- A handle type is a relabelling of the natural numbers. -/
class Handle (κ : Type) where
  /-- Position the handle names. -/
  index : κ → Nat
  /-- Handle of a position. -/
  ofIndex : Nat → κ
  index_ofIndex : ∀ position, index (ofIndex position) = position
  ofIndex_index : ∀ handle, ofIndex (index handle) = handle

namespace Handle

variable {κ : Type} [Handle κ]

attribute [simp] index_ofIndex ofIndex_index

theorem index_injective {first second : κ} (same : index first = index second) :
    first = second := by
  rw [← ofIndex_index first, ← ofIndex_index second, same]

end Handle

/-- Position of a syntax node. -/
structure NodeId where
  index : Nat
  deriving DecidableEq, Repr, Inhabited

/-- Position of a symbol, in order of creation. -/
structure SymbolId where
  index : Nat
  deriving DecidableEq, Repr, Inhabited

/-- Position of a type. -/
structure TypeId where
  index : Nat
  deriving DecidableEq, Repr, Inhabited

/-- Position of a member. -/
structure MemberId where
  index : Nat
  deriving DecidableEq, Repr, Inhabited

/-- Position of a scope. -/
structure ScopeId where
  index : Nat
  deriving DecidableEq, Repr, Inhabited

instance : Handle NodeId := ⟨NodeId.index, NodeId.mk, fun _ => rfl, fun _ => rfl⟩

instance : Handle SymbolId := ⟨SymbolId.index, SymbolId.mk, fun _ => rfl, fun _ => rfl⟩

instance : Handle TypeId := ⟨TypeId.index, TypeId.mk, fun _ => rfl, fun _ => rfl⟩

instance : Handle MemberId := ⟨MemberId.index, MemberId.mk, fun _ => rfl, fun _ => rfl⟩

instance : Handle ScopeId := ⟨ScopeId.index, ScopeId.mk, fun _ => rfl, fun _ => rfl⟩

def NodeId.text (node : NodeId) : String := s!"NodeId({node.index})"

def SymbolId.text (symbol : SymbolId) : String := s!"SymbolId({symbol.index})"

def TypeId.text (type : TypeId) : String := s!"TypeId({type.index})"

def MemberId.text (member : MemberId) : String := s!"MemberId({member.index})"

def ScopeId.text (scope : ScopeId) : String := s!"ScopeId({scope.index})"

namespace TypeId

/-- Type of whatever failed to resolve. -/
@[match_pattern] def error : TypeId := ⟨0⟩

/-- Type of the `null` literal. -/
@[match_pattern] def null : TypeId := ⟨1⟩

/-- Type of a call that yields no value. -/
@[match_pattern] def void : TypeId := ⟨2⟩

/-- Truth values. -/
@[match_pattern] def bool : TypeId := ⟨3⟩

/-- Integers. -/
@[match_pattern] def int : TypeId := ⟨4⟩

/-- Reals of single precision. -/
@[match_pattern] def float : TypeId := ⟨5⟩

/-- Reals of double precision. -/
@[match_pattern] def double : TypeId := ⟨6⟩

/-- Texts. -/
@[match_pattern] def string : TypeId := ⟨7⟩

/-- The generic list definition. -/
@[match_pattern] def list : TypeId := ⟨8⟩

/-- The generic map definition. -/
@[match_pattern] def map : TypeId := ⟨9⟩

/-- Whether the type stands for a failed resolution. -/
def isError (type : TypeId) : Bool := type == error

@[simp] theorem isError_iff (type : TypeId) : type.isError = true ↔ type = error := by
  simp [isError]

end TypeId

end Resolution
