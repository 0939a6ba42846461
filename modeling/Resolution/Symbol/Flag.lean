import Resolution.Tree.Header

/-!
# Flags of symbols

Properties of a symbol, from its modifiers, its decorations and its surroundings.  A set of flags is
one bit per flag.
-/

namespace Resolution

/-- Property of a symbol. -/
inductive Flag where
  | isPublic
  | isPrivate
  | isProtected
  | isConst
  | isFinal
  | isPure
  | isStatic
  | isVirtual
  | isOverride
  | isAbstract
  | isInline
  /-- Provided from outside, without a body. -/
  | isImport
  | isExport
  | isEntryPoint
  | isExternC
  /-- Written by the resolution itself. -/
  | isSynthesized
  deriving DecidableEq, Repr

namespace Flag

/-- Every flag, in the order of the bits. -/
def all : List Flag :=
  [.isPublic, .isPrivate, .isProtected, .isConst, .isFinal, .isPure, .isStatic, .isVirtual,
    .isOverride, .isAbstract, .isInline, .isImport, .isExport, .isEntryPoint, .isExternC,
    .isSynthesized]

def bit : Flag → Nat
  | .isPublic => 0
  | .isPrivate => 1
  | .isProtected => 2
  | .isConst => 3
  | .isFinal => 4
  | .isPure => 5
  | .isStatic => 6
  | .isVirtual => 7
  | .isOverride => 8
  | .isAbstract => 9
  | .isInline => 10
  | .isImport => 11
  | .isExport => 12
  | .isEntryPoint => 13
  | .isExternC => 14
  | .isSynthesized => 15

/-- Printed name of a flag. -/
def label : Flag → String
  | .isPublic => "PUBLIC"
  | .isPrivate => "PRIVATE"
  | .isProtected => "PROTECTED"
  | .isConst => "CONST"
  | .isFinal => "FINAL"
  | .isPure => "PURE"
  | .isStatic => "STATIC"
  | .isVirtual => "VIRTUAL"
  | .isOverride => "OVERRIDE"
  | .isAbstract => "ABSTRACT"
  | .isInline => "INLINE"
  | .isImport => "IMPORT"
  | .isExport => "EXPORT"
  | .isEntryPoint => "ENTRY_POINT"
  | .isExternC => "EXTERN_C"
  | .isSynthesized => "SYNTHESIZED"

/-- Flag of a printed name. -/
def ofLabel? (written : String) : Option Flag := all.find? fun flag => flag.label == written

def ofModifier : Modifier → Flag
  | .isPublic => .isPublic
  | .isPrivate => .isPrivate
  | .isProtected => .isProtected
  | .isConst => .isConst
  | .isFinal => .isFinal
  | .isPure => .isPure
  | .isStatic => .isStatic
  | .isVirtual => .isVirtual
  | .isOverride => .isOverride
  | .isAbstract => .isAbstract
  | .isImport => .isImport
  | .isExport => .isExport
  | .isInline => .isInline

theorem bit_lt (flag : Flag) : flag.bit < 16 := by cases flag <;> decide

theorem bit_inj {first second : Flag} : first.bit = second.bit ↔ first = second := by
  cases first <;> cases second <;> decide

end Flag

/-- A set of flags. -/
structure Flags where
  bits : BitVec 16
  deriving DecidableEq, Repr, Inhabited

namespace Flags

def none : Flags := ⟨0⟩

def single (flag : Flag) : Flags := ⟨BitVec.twoPow 16 flag.bit⟩

/-- Flags of either set. -/
def union (first second : Flags) : Flags := ⟨first.bits ||| second.bits⟩

def has (flags : Flags) (flag : Flag) : Bool := flags.bits.getLsbD flag.bit

/-- Set a further flag. -/
def add (flags : Flags) (flag : Flag) : Flags := flags.union (single flag)

def ofList (flags : List Flag) : Flags := flags.foldl add none

def ofModifiers (modifiers : List Modifier) : Flags := ofList (modifiers.map Flag.ofModifier)

/-- The flags that are set, in the order of the bits. -/
def toList (flags : Flags) : List Flag := Flag.all.filter flags.has

/-- The set as a number. -/
def word (flags : Flags) : Nat := flags.bits.toNat

/-- Whether every flag of another set is set. -/
def contains (flags other : Flags) : Bool := other.toList.all flags.has

def visibility (flags : Flags) : Flags :=
  ofList ([Flag.isPublic, .isPrivate, .isProtected].filter flags.has)

@[simp] theorem has_none (flag : Flag) : none.has flag = false := by
  simp [none, has]

@[simp] theorem has_single (set flag : Flag) : (single set).has flag = decide (set = flag) := by
  cases set <;> cases flag <;> decide

@[simp] theorem has_union (first second : Flags) (flag : Flag) :
    (first.union second).has flag = (first.has flag || second.has flag) := by
  simp [union, has]

@[simp] theorem has_add (flags : Flags) (set flag : Flag) :
    (flags.add set).has flag = (flags.has flag || decide (set = flag)) := by
  simp [add]

theorem mem_toList (flags : Flags) (flag : Flag) : flag ∈ flags.toList ↔ flags.has flag = true := by
  have listed : flag ∈ Flag.all := by cases flag <;> decide
  simp [toList, listed]

end Flags

end Resolution
