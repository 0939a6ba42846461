import Resolution.Tree.Source

/-!
# Building trees

A draft grows a tree for one file.  Every header and every node takes the next offset of the file,
so that positions increase in the order of construction, and every name is interned when it is first
written.
-/

namespace Resolution

/-- A tree under construction. -/
structure Draft extends Source where
  file : UInt32
  /-- Offset of the next header or node. -/
  offset : UInt32 := 0

/-- Construction steps on a draft. -/
abbrev Build := Action Draft

namespace Build

/-- Change the tree alone. -/
def onTree {α : Type} (action : Action Tree α) : Build α :=
  Action.zoom (fun draft => draft.tree) (fun draft tree => { draft with tree }) action

/-- Take the next position. -/
def nextSpan : Build Span := do
  let draft ← get
  set { draft with offset := draft.offset + 1 }
  return ⟨draft.file, draft.offset, draft.offset + 1⟩

def intern (name : String) : Build Unit :=
  modify fun draft => { draft with names := draft.names.note name }

/-- Store a node at the next position. -/
def node (kind : NodeKind) : Build NodeId := do
  let span ← nextSpan
  onTree (Tree.alloc kind span)

/-- Store a node without a position. -/
def unplaced (kind : NodeKind) : Build NodeId := onTree (Tree.alloc kind .dummy)

/-- Start a header at the next position. -/
def header (name : String) : Build Header := do
  let span ← nextSpan
  intern name
  return { name, span }

/-! ## Declarations -/

/-- `@name(arguments…)` -/
def decoration (name : String) (arguments : List NodeId) : Build NodeId := do
  intern name
  node (.decoration name arguments)

def block (statements : List NodeId) : Build NodeId := node (.block statements)

def space (header : Header) (members : List NodeId) : Build NodeId := do
  let body ← block members
  node (.spaceDecl header body)

/-- Further members of a declaration made elsewhere. -/
def extension (header : Header) (members : List NodeId) : Build NodeId := do
  let body ← block members
  node (.extensionDecl header body)

def enumeration (isFlags : Bool) (header : Header) (values : List NodeId) : Build NodeId := do
  let body ← block values
  node (.enumDecl header isFlags body)

def typeParameter (name : String) : Build NodeId := do
  let written ← header name
  node (.parameterDecl written)

/-- A class or interface with type parameters, bases and members. -/
def object (sort : ObjectSort) (header : Header) (parameters : List String)
    (bases members : List NodeId) :
    Build NodeId := do
  let parameters ← parameters.mapM typeParameter
  let body ← block members
  node (.objectDecl header sort parameters bases body)

def enumValue (name : String) (value : Option NodeId) : Build NodeId := do
  let written ← header name
  node (.variableDecl written none value)

def argument (name : String) (type : NodeId) : Build NodeId := do
  let written ← header name
  node (.variableDecl written (some type) none)

/-- The block of a body, where there is one. -/
def optionalBlock : Option (List NodeId) → Build (Option NodeId)
  | none => pure none
  | some statements => return some (← block statements)

/-- A function with type parameters, arguments, result and body. -/
def function (header : Header) (parameters : List String) (arguments : List NodeId)
    (result : Option NodeId) (body : Option (List NodeId)) : Build NodeId := do
  let parameters ← parameters.mapM typeParameter
  let body ← optionalBlock body
  node (.functionDecl header parameters arguments result [] body)

def constructorFunction (header : Header) (arguments initializers body : List NodeId) :
    Build NodeId := do
  let body ← block body
  node (.functionDecl header [] arguments none initializers (some body))

/-- `name = value` in an initializer list. -/
def memberInitializer (name : String) (value : NodeId) : Build NodeId := do
  intern name
  node (.memberInitializer name value)

def file (declarations : List NodeId) : Build NodeId := do
  let body ← block declarations
  node (.file body)

/-! ## Statements -/

/-- A two-way branch. -/
def conditional (test : NodeId) (yes : List NodeId) (no : Option (List NodeId)) : Build NodeId := do
  let yes ← block yes
  let no ← optionalBlock no
  node (.ifStmt test yes no)

def whileLoop (test : NodeId) (body : List NodeId) : Build NodeId := do
  let body ← block body
  node (.whileStmt test body)

/-- A loop with setup, test and update. -/
def forLoop (setup test update : Option NodeId) (body : List NodeId) : Build NodeId := do
  let body ← block body
  node (.forStmt setup test update body)

def switchCase (values body : List NodeId) : Build NodeId := do
  let body ← block body
  node (.switchCase values body)

/-! ## Expressions -/

def name (name : String) : Build NodeId := do
  intern name
  node (.name name)

/-- A member access. -/
def dot (target : Option NodeId) (name : String) : Build NodeId := do
  intern name
  node (.dot target name)

/-- A text literal. -/
def string (value : String) : Build NodeId := do
  intern value
  node (.string value)

/-- A map literal from keys and values. -/
def map (entries : List (NodeId × NodeId)) : Build NodeId := do
  let pairs ← entries.mapM fun entry => node (.pair entry.1 entry.2)
  node (.map pairs)

/-- `target.name(arguments…)` -/
def methodCall (target : NodeId) (name : String) (arguments : List NodeId) : Build NodeId := do
  let callee ← dot (some target) name
  node (.call callee arguments)

/-- `name<arguments…>` -/
def generic (name : String) (arguments : List NodeId) : Build NodeId := do
  let target ← Build.name name
  node (.parameterize target arguments)

end Build

end Resolution
