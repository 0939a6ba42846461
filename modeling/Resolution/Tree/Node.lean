import Resolution.Tree.Header
import Resolution.Tree.Operator

/-!
# Syntax nodes

Each sort of node carries exactly the children its construct may have.  Beside its sort, a node
records its span, its parent, the next fragment of the same declaration, and what the resolution
found out about it: a type and a symbol.
-/

namespace Resolution

/-- Sort of an object declaration. -/
inductive ObjectSort where
  | classType
  | interface
  deriving DecidableEq, Repr

/-- Sort of a node, with its children and content. -/
inductive NodeKind where
  | program (files : List NodeId)
  | file (block : NodeId)
  | block (statements : List NodeId)
  /-- Branch of a switch; without values it is the default. -/
  | switchCase (values : List NodeId) (block : NodeId)
  /-- `@name(arguments…)` -/
  | decoration (name : String) (arguments : List NodeId)
  /-- `name = value` in a constructor's initializer list. -/
  | memberInitializer (name : String) (value : NodeId)
  | spaceDecl (header : Header) (block : NodeId)
  | enumDecl (header : Header) (isFlags : Bool) (block : NodeId)
  | objectDecl (header : Header) (sort : ObjectSort) (parameters bases : List NodeId)
      (block : NodeId)
  /-- Further members of a declaration made elsewhere. -/
  | extensionDecl (header : Header) (block : NodeId)
  /-- Function, method or constructor. -/
  | functionDecl (header : Header) (parameters arguments : List NodeId) (result : Option NodeId)
      (initializers : List NodeId) (body : Option NodeId)
  /-- Variable, argument or enum value. -/
  | variableDecl (header : Header) (type value : Option NodeId)
  | parameterDecl (header : Header)
  /-- Another name for a type. -/
  | aliasDecl (header : Header) (value : NodeId)
  /-- Named constant expression. -/
  | defineDecl (header : Header) (value : NodeId)
  | expression (value : NodeId)
  | returnStmt (value : Option NodeId)
  | breakStmt
  | continueStmt
  | ifStmt (test yes : NodeId) (no : Option NodeId)
  | whileStmt (test block : NodeId)
  | forStmt (setup test update : Option NodeId) (block : NodeId)
  | switchStmt (value : NodeId) (cases : List NodeId)
  | assertStmt (value : NodeId)
  | name (name : String)
  /-- Member access; without a target it takes its type from the context. -/
  | dot (target : Option NodeId) (name : String)
  | this
  | null
  | bool (value : Bool)
  | int (value : Int64)
  | double (value : Float)
  | string (value : String)
  | list (values : List NodeId)
  | map (entries : List NodeId)
  | pair (key value : NodeId)
  | call (target : NodeId) (arguments : List NodeId)
  | superCall (arguments : List NodeId)
  | new (type : NodeId) (arguments : List NodeId)
  /-- Written conversion. -/
  | cast (type value : NodeId)
  /-- Inserted conversion to the node's own type. -/
  | implicitCast (value : NodeId)
  /-- `test ? yes : no` -/
  | hook (test yes no : NodeId)
  /-- `target[index]` -/
  | index (target index : NodeId)
  /-- Generic applied to type arguments. -/
  | parameterize (target : NodeId) (arguments : List NodeId)
  | unary (op : UnaryOp) (value : NodeId)
  | binary (op : BinaryOp) (left right : NodeId)
  /-- Reference to a known type. -/
  | type (type : TypeId)
  deriving DecidableEq, Repr

namespace NodeKind

def header? : NodeKind → Option Header
  | .spaceDecl header _ | .enumDecl header _ _ | .objectDecl header _ _ _ _
  | .extensionDecl header _ | .functionDecl header _ _ _ _ _ | .variableDecl header _ _
  | .parameterDecl header | .aliasDecl header _ | .defineDecl header _ => some header
  | _ => none

/-- Children in source order; a declaration's decorations come first. -/
def children : NodeKind → List NodeId
  | .program files => files
  | .file body => [body]
  | .block statements => statements
  | .switchCase values body => values ++ [body]
  | .decoration _ arguments | .superCall arguments | .list arguments | .map arguments => arguments
  | .memberInitializer _ value | .expression value | .assertStmt value | .implicitCast value
  | .unary _ value => [value]
  | .spaceDecl header body | .extensionDecl header body | .enumDecl header _ body =>
    header.decorations ++ [body]
  | .objectDecl header _ parameters bases body =>
    header.decorations ++ parameters ++ bases ++ [body]
  | .functionDecl header parameters arguments result initializers body =>
    header.decorations ++ parameters ++ arguments ++ result.toList ++ initializers ++ body.toList
  | .variableDecl header declared value => header.decorations ++ declared.toList ++ value.toList
  | .parameterDecl header => header.decorations
  | .aliasDecl header value | .defineDecl header value => header.decorations ++ [value]
  | .returnStmt value => value.toList
  | .ifStmt test yes no => [test, yes] ++ no.toList
  | .whileStmt test body => [test, body]
  | .forStmt setup test update body => setup.toList ++ test.toList ++ update.toList ++ [body]
  | .switchStmt value cases => value :: cases
  | .dot target _ => target.toList
  | .pair key value => [key, value]
  | .call target arguments | .parameterize target arguments | .new target arguments =>
    target :: arguments
  | .cast target value => [target, value]
  | .hook test yes no => [test, yes, no]
  | .index target place => [target, place]
  | .binary _ left right => [left, right]
  | .breakStmt | .continueStmt | .name _ | .this | .null | .bool _ | .int _ | .double _ | .string _
  | .type _ => []

def isDeclaration (kind : NodeKind) : Bool := kind.header?.isSome

/-- Whether the node is a literal that constant folding produces. -/
def isConstant : NodeKind → Bool
  | .bool _ | .int _ | .double _ | .string _ => true
  | _ => false

def describe : NodeKind → String
  | .program _ => "program"
  | .file _ => "file"
  | .block _ => "block"
  | .switchCase _ _ => "case"
  | .decoration _ _ => "annotation"
  | .memberInitializer _ _ => "member initializer"
  | .spaceDecl _ _ => "namespace"
  | .enumDecl _ false _ => "enum"
  | .enumDecl _ true _ => "flags enum"
  | .objectDecl _ .classType _ _ _ => "class"
  | .objectDecl _ .interface _ _ _ => "interface"
  | .extensionDecl _ _ => "extension"
  | .functionDecl _ _ _ _ _ _ => "function"
  | .variableDecl _ _ _ => "variable"
  | .parameterDecl _ => "type parameter"
  | .aliasDecl _ _ => "alias"
  | .defineDecl _ _ => "define"
  | .expression _ => "expression statement"
  | .returnStmt _ => "return"
  | .breakStmt => "break"
  | .continueStmt => "continue"
  | .ifStmt _ _ _ => "if"
  | .whileStmt _ _ => "while"
  | .forStmt _ _ _ _ => "for"
  | .switchStmt _ _ => "switch"
  | .assertStmt _ => "assert"
  | .name _ => "name"
  | .dot _ _ => "member access"
  | .this => "this"
  | .null => "null"
  | .bool _ => "bool literal"
  | .int _ => "int literal"
  | .double _ => "double literal"
  | .string _ => "string literal"
  | .list _ => "list literal"
  | .map _ => "map literal"
  | .pair _ _ => "pair"
  | .call _ _ => "call"
  | .superCall _ => "super call"
  | .new _ _ => "new"
  | .cast _ _ => "cast"
  | .implicitCast _ => "implicit cast"
  | .hook _ _ _ => "hook"
  | .index _ _ => "index"
  | .parameterize _ _ => "type application"
  | .unary _ _ => "unary expression"
  | .binary _ _ _ => "binary expression"
  | .type _ => "type"

/-- Equality of content, with reals compared as numbers. -/
def agrees : NodeKind → NodeKind → Bool
  | .double first, .double second => first == second
  | first, second => decide (first = second)

end NodeKind

/-- A syntax node and what the resolution found out about it. -/
structure Node where
  kind : NodeKind
  span : Span
  parent : Option NodeId := none
  /-- Next fragment of the same declaration. -/
  sibling : Option NodeId := none
  type : Option TypeId := none
  symbol : Option SymbolId := none
  deriving DecidableEq, Repr

namespace Node

/-- Equality of nodes, with reals compared as numbers. -/
def agrees (first second : Node) : Bool :=
  first.kind.agrees second.kind && first.span == second.span && first.parent == second.parent &&
    first.sibling == second.sibling && first.type == second.type && first.symbol == second.symbol

end Node

end Resolution
