/-!
# Sorts of symbols

What a symbol declares.  Four sorts only arise when inherited members are merged, and one is held by
a symbol between its creation and the moment its declaration is looked at.
-/

namespace Resolution

/-- What a symbol declares. -/
inductive SymbolKind where
  | space
  | enum
  | flags
  | classType
  | interface
  | globalFunction
  | instanceFunction
  | constructor
  | localFunction
  | globalVariable
  | instanceVariable
  | localVariable
  | argument
  | enumValue
  | typeParameter
  | alias
  | define
  /-- An inherited member that stands for one other symbol. -/
  | forwarded
  /-- Virtual functions of one type, inherited from several bases. -/
  | merged
  /-- A name that several bases declare for themselves. -/
  | ambiguous
  /-- Inherited members that were not yet looked at. -/
  | unmerged
  /-- A declaration that was not yet looked at. -/
  | placeholder
  deriving DecidableEq, Repr

namespace SymbolKind

def all : List SymbolKind :=
  [.space, .enum, .flags, .classType, .interface, .globalFunction, .instanceFunction, .constructor,
    .localFunction, .globalVariable, .instanceVariable, .localVariable, .argument, .enumValue,
    .typeParameter, .alias, .define, .forwarded, .merged, .ambiguous, .unmerged, .placeholder]

/-- One-word name of a sort. -/
def label : SymbolKind → String
  | .space => "Namespace"
  | .enum => "Enum"
  | .flags => "EnumFlags"
  | .classType => "Class"
  | .interface => "Interface"
  | .globalFunction => "GlobalFunction"
  | .instanceFunction => "InstanceFunction"
  | .constructor => "Constructor"
  | .localFunction => "LocalFunction"
  | .globalVariable => "GlobalVariable"
  | .instanceVariable => "InstanceVariable"
  | .localVariable => "LocalVariable"
  | .argument => "ArgumentVariable"
  | .enumValue => "EnumValue"
  | .typeParameter => "TypeParameter"
  | .alias => "Alias"
  | .define => "Define"
  | .forwarded => "Forwarded"
  | .merged => "MergedInstanceFunction"
  | .ambiguous => "Ambiguous"
  | .unmerged => "Unmerged"
  | .placeholder => "Automatic"

/-- Sort of a one-word name. -/
def ofLabel? (written : String) : Option SymbolKind := all.find? fun kind => kind.label == written

/-- Words for a sort in messages. -/
def describe : SymbolKind → String
  | .space => "namespace"
  | .enum => "enum"
  | .flags => "flags enum"
  | .classType => "class"
  | .interface => "interface"
  | .globalFunction => "global function"
  | .instanceFunction => "instance function"
  | .constructor => "constructor"
  | .localFunction => "local function"
  | .globalVariable => "global variable"
  | .instanceVariable => "instance variable"
  | .localVariable => "local variable"
  | .argument => "argument"
  | .enumValue => "enum value"
  | .typeParameter => "type parameter"
  | .alias => "alias"
  | .define => "define"
  | .forwarded => "forwarded member"
  | .merged => "merged instance function"
  | .ambiguous => "ambiguous member"
  | .unmerged => "unmerged member"
  | .placeholder => "declaration"

def isObject : SymbolKind → Bool
  | .classType | .interface => true
  | _ => false

def isEnum : SymbolKind → Bool
  | .enum | .flags => true
  | _ => false

/-- Sorts that name a type when they are referred to. -/
def isType : SymbolKind → Bool
  | .space | .enum | .flags | .classType | .interface | .typeParameter | .alias => true
  | _ => false

/-- Sorts that can be called. -/
def isFunction : SymbolKind → Bool
  | .globalFunction | .instanceFunction | .constructor | .localFunction | .merged => true
  | _ => false

/-- Sorts that hold a value. -/
def isVariable : SymbolKind → Bool
  | .globalVariable | .instanceVariable | .localVariable | .argument | .enumValue => true
  | _ => false

def isInstanceMember : SymbolKind → Bool
  | .instanceFunction | .instanceVariable | .merged => true
  | _ => false

/-- Symbols that live as long as a call. -/
def isLocal : SymbolKind → Bool
  | .localVariable | .argument | .localFunction => true
  | _ => false

end SymbolKind

end Resolution
