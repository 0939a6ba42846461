import Resolution.Tree.Basic

/-!
# Outlines of trees

A readable view of a tree: one row per node with its label, resolved type and symbol, and position.
How a type reads is up to the caller, since it depends on the known types.
-/

namespace Resolution

/-- Sixteen hexadecimal digits of a word. -/
def hexWord (word : UInt64) : String :=
  let digits := Nat.toDigits 16 word.toNat
  String.ofList (List.replicate (16 - digits.length) '0' ++ digits)

/-- A real number as the bits that represent it. -/
def doubleText (value : Float) : String := if value.isNaN then "nan" else hexWord value.toBits

/-- How types are written in an outline. -/
abbrev TypeText := TypeId → Except Fault String

namespace NodeKind

/-- Name, modifiers and number of decorations of a declaration. -/
def headerText (header : Header) : String :=
  let modifiers :=
    if header.modifiers.isEmpty then ""
    else
      let words := " ".intercalate (header.modifiers.map Modifier.word)
      s!" [{words}]"
  let decorations :=
    if header.decorations.isEmpty then "" else s!" @{header.decorations.length}"
  s!" {header.name}{modifiers}{decorations}"

/-- A letter where a slot is filled, a dash where it is empty. -/
def slotText (letter : String) (slot : Option NodeId) : String :=
  if slot.isSome then letter else "-"

/-- What a label says beside the description of the node. -/
def detail (typeText : TypeText) : NodeKind → Except Fault String
  | .objectDecl header _ parameters bases _ =>
    return s!"{headerText header} <{parameters.length}> :{bases.length}"
  | .functionDecl header parameters arguments result initializers body =>
    let shape := slotText "r" result ++ slotText "b" body
    return s!"{headerText header} <{parameters.length}> ({arguments.length}) " ++
      s!"i{initializers.length} {shape}"
  | .variableDecl header declared value =>
    let shape := slotText "t" declared ++ slotText "v" value
    return s!"{headerText header} {shape}"
  | .spaceDecl header _ | .enumDecl header _ _ | .extensionDecl header _ | .parameterDecl header
  | .aliasDecl header _ | .defineDecl header _ => return headerText header
  | .decoration written _ | .memberInitializer written _ | .name written | .dot _ written
  | .string written => return s!" {written}"
  | .switchCase values _ => return s!" {values.length}"
  | .forStmt setup test update _ =>
    let shape := slotText "s" setup ++ slotText "t" test ++ slotText "u" update
    return s!" {shape}"
  | .bool value => return s!" {value}"
  | .int value => return s!" {value}"
  | .double value => return s!" {doubleText value}"
  | .unary op _ => return s!" {op.spelling}"
  | .binary op _ _ => return s!" {op.symbol}"
  | .type known => do
    let written ← typeText known
    return s!" {written}"
  | _ => return ""

/-- Description of a node with its content. -/
def label (typeText : TypeText) (kind : NodeKind) : Except Fault String :=
  return kind.describe ++ (← kind.detail typeText)

end NodeKind

namespace Tree

/-- One node of an outline. -/
structure Row where
  depth : Nat
  label : String
  type : Option String
  symbol : Option SymbolId
  span : String

/-- One node of a listing of the whole table. -/
structure Listing where
  id : NodeId
  label : String
  children : List NodeId
  node : Node
  type : Option String

/-- Text of a resolved type, where there is one. -/
def typeColumn (typeText : TypeText) : Option TypeId → Except Fault (Option String)
  | none => return none
  | some type => return some (← typeText type)

/-- Rows of the tree below a node, parents before children. -/
def outlineWithin (typeText : TypeText) (tree : Tree) :
    Nat → Nat → NodeId → Except Fault (List Row)
  | 0, _, _ => .error .outOfFuel
  | fuel + 1, depth, id => do
    let node ← tree.fetch id
    let label ← node.kind.label typeText
    let type ← typeColumn typeText node.type
    let below ← node.kind.children.mapM (outlineWithin typeText tree fuel (depth + 1))
    return { depth, label, type, symbol := node.symbol, span := node.span.text } :: below.flatten

def outline (typeText : TypeText) (tree : Tree) (root : NodeId) : Except Fault (List Row) :=
  outlineWithin typeText tree (tree.size + 1) 0 root

/-- All nodes in order of creation. -/
def listing (typeText : TypeText) (tree : Tree) : Except Fault (List Listing) :=
  tree.handles.mapM fun id => do
    let node ← tree.fetch id
    let label ← node.kind.label typeText
    let type ← typeColumn typeText node.type
    return { id, label, children := node.kind.children, node, type }

end Tree

end Resolution
