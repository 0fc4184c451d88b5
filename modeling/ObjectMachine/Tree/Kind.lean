/-
The kinds of program node, over any type of children. A kind is one layer
of a program: what the node is, its own data, and its children in their
places. Whole trees are layers of trees (Tree/Basic.lean); results of a
traversal sit in a layer in exactly the places of the children they came
from.

`children` lists the children in declaration order, and `map` and `mapM`
visit them in that same order.
-/
import ObjectMachine.Span

namespace ObjectMachine

/-- The identity of a node in a linked program. Like `ObjectId` and `ContextId`
it is a natural number, so there is always another one. A machine that stores
them in words of 32 bits behaves like this one as long as a program has fewer
than 2^32 nodes and an evaluation makes fewer than 2^32 objects and contexts. -/
abbrev NodeId := Nat

/-- The call a constructor makes before its own body: to a constructor of
the superclass, or to another one of its own class. -/
structure BaseCall (α : Type) where
  callsSuper : Bool
  args : List α
deriving Repr, DecidableEq

/-- Literal values. A collection names the class it instantiates; an
anonymous object is declared in place. -/
inductive Literal (α : Type) where
  | null
  | boolean (value : Bool)
  | number (value : Float)
  | string (value : String)
  | collection (module : α) (elements : List α)
  | singleton (object : α)
deriving Repr

/-- The kinds of node. -/
inductive Kind (α : Type) where
  | environment (members : List α)
  | package (name : String) (imports members : List α)
  | importDecl (entity : α) (generic : Bool)
  | program (name : String) (body : α)
  | test (name : String) (body : α)
  | describe (name : String) (members : List α)
  | classDecl (name : String) (superclass : Option α) (mixins members : List α)
  | singleton (name : Option String) (superclass : Option α)
      (supercallArgs mixins members : List α) (closure : Bool)
  | mixin (name : String) (mixins members : List α)
  | varDecl (name : String) (constant : Bool) (value : Option α)
  | field (name : String) (constant : Bool) (value : Option α)
  | method (name : String) (parameters : List α) (body : Option α) (native : Bool)
  | constructor (parameters : List α) (baseCall : Option (BaseCall α)) (body : α)
  | fixture (body : α)
  | parameter (name : String) (varArg : Bool)
  | block (sentences : List α)
  | catchClause (param : α) (type : Option α) (body : α)
  | namedArgument (name : String) (value : α)
  | returnStmt (value : Option α)
  | assignment (place value : α)
  | reference (name : String) (target : Option NodeId)
  | selfRef
  | literal (value : Literal α)
  | send (receiver : α) (message : String) (args : List α)
  | superSend (args : List α)
  | newInstance (instantiated : α) (args : List α)
  | ifElse (condition thenBody : α) (elseBody : Option α)
  | throwStmt (exception : α)
  | tryCatch (body : α) (catches : List α) (always : Option α)
deriving Repr

variable {α β : Type}

-- ==================================================== children in order

def Literal.children : Literal α → List α
  | .null | .boolean _ | .number _ | .string _ => []
  | .collection module elements => module :: elements
  | .singleton object => [object]

def Literal.map (f : α → β) : Literal α → Literal β
  | .null => .null
  | .boolean value => .boolean value
  | .number value => .number value
  | .string value => .string value
  | .collection module elements => .collection (f module) (elements.map f)
  | .singleton object => .singleton (f object)

def Literal.mapM {m : Type → Type} [Monad m] (f : α → m β) : Literal α → m (Literal β)
  | .null => pure .null
  | .boolean value => pure (.boolean value)
  | .number value => pure (.number value)
  | .string value => pure (.string value)
  | .collection module elements => do
    let module ← f module
    let elements ← elements.mapM f
    pure (.collection module elements)
  | .singleton object => do
    let object ← f object
    pure (.singleton object)

namespace Kind

/-- The direct children, in declaration order. -/
def children : Kind α → List α
  | .environment members => members
  | .package _ imports members => imports ++ members
  | .importDecl entity _ => [entity]
  | .program _ body => [body]
  | .test _ body => [body]
  | .describe _ members => members
  | .classDecl _ superclass mixins members => superclass.toList ++ mixins ++ members
  | .singleton _ superclass supercallArgs mixins members _ =>
    superclass.toList ++ supercallArgs ++ mixins ++ members
  | .mixin _ mixins members => mixins ++ members
  | .varDecl _ _ value => value.toList
  | .field _ _ value => value.toList
  | .method _ parameters body _ => parameters ++ body.toList
  | .constructor parameters baseCall body =>
    parameters ++ (baseCall.map BaseCall.args).getD [] ++ [body]
  | .fixture body => [body]
  | .parameter _ _ => []
  | .block sentences => sentences
  | .catchClause param type body => [param] ++ type.toList ++ [body]
  | .namedArgument _ value => [value]
  | .returnStmt value => value.toList
  | .assignment place value => [place, value]
  | .reference _ _ => []
  | .selfRef => []
  | .literal value => value.children
  | .send receiver _ args => receiver :: args
  | .superSend args => args
  | .newInstance instantiated args => instantiated :: args
  | .ifElse condition thenBody elseBody => [condition, thenBody] ++ elseBody.toList
  | .throwStmt exception => [exception]
  | .tryCatch body catches always => [body] ++ catches ++ always.toList

/-- The same layer with every child replaced. -/
def map (f : α → β) : Kind α → Kind β
  | .environment members => .environment (members.map f)
  | .package name imports members => .package name (imports.map f) (members.map f)
  | .importDecl entity generic => .importDecl (f entity) generic
  | .program name body => .program name (f body)
  | .test name body => .test name (f body)
  | .describe name members => .describe name (members.map f)
  | .classDecl name superclass mixins members =>
    .classDecl name (superclass.map f) (mixins.map f) (members.map f)
  | .singleton name superclass supercallArgs mixins members closure =>
    .singleton name (superclass.map f) (supercallArgs.map f) (mixins.map f) (members.map f) closure
  | .mixin name mixins members => .mixin name (mixins.map f) (members.map f)
  | .varDecl name constant value => .varDecl name constant (value.map f)
  | .field name constant value => .field name constant (value.map f)
  | .method name parameters body native => .method name (parameters.map f) (body.map f) native
  | .constructor parameters baseCall body =>
    .constructor (parameters.map f)
      (baseCall.map fun call => ⟨call.callsSuper, call.args.map f⟩) (f body)
  | .fixture body => .fixture (f body)
  | .parameter name varArg => .parameter name varArg
  | .block sentences => .block (sentences.map f)
  | .catchClause param type body => .catchClause (f param) (type.map f) (f body)
  | .namedArgument name value => .namedArgument name (f value)
  | .returnStmt value => .returnStmt (value.map f)
  | .assignment place value => .assignment (f place) (f value)
  | .reference name target => .reference name target
  | .selfRef => .selfRef
  | .literal value => .literal (value.map f)
  | .send receiver message args => .send (f receiver) message (args.map f)
  | .superSend args => .superSend (args.map f)
  | .newInstance instantiated args => .newInstance (f instantiated) (args.map f)
  | .ifElse condition thenBody elseBody =>
    .ifElse (f condition) (f thenBody) (elseBody.map f)
  | .throwStmt exception => .throwStmt (f exception)
  | .tryCatch body catches always => .tryCatch (f body) (catches.map f) (always.map f)

/-- The children of a mapped layer are the mapped children. -/
theorem children_map (f : α → β) (kind : Kind α) :
    (kind.map f).children = kind.children.map f := by
  cases kind with
  | constructor parameters baseCall body => cases baseCall <;> simp [map, children]
  | literal value =>
      cases value <;> simp [map, children, Literal.map, Literal.children]
  | _ => simp [map, children, Option.toList_map]

/-- An optional child, visited if it is there. -/
def mapOption {m : Type → Type} [Monad m] (f : α → m β) : Option α → m (Option β)
  | none => pure none
  | some a => do
    let b ← f a
    pure (some b)

/-- The arguments of a base call, visited if there is one. -/
def mapBaseCall {m : Type → Type} [Monad m] (f : α → m β) :
    Option (BaseCall α) → m (Option (BaseCall β))
  | none => pure none
  | some call => do
    let args ← call.args.mapM f
    pure (some ⟨call.callsSuper, args⟩)

/-- The same layer with every child replaced by the outcome of an action,
run in the order of `children`. -/
def mapM {m : Type → Type} [Monad m] (f : α → m β) : Kind α → m (Kind β)
  | .environment members => do
    let members ← members.mapM f
    pure (.environment members)
  | .package name imports members => do
    let imports ← imports.mapM f
    let members ← members.mapM f
    pure (.package name imports members)
  | .importDecl entity generic => do
    let entity ← f entity
    pure (.importDecl entity generic)
  | .program name body => do
    let body ← f body
    pure (.program name body)
  | .test name body => do
    let body ← f body
    pure (.test name body)
  | .describe name members => do
    let members ← members.mapM f
    pure (.describe name members)
  | .classDecl name superclass mixins members => do
    let superclass ← mapOption f superclass
    let mixins ← mixins.mapM f
    let members ← members.mapM f
    pure (.classDecl name superclass mixins members)
  | .singleton name superclass supercallArgs mixins members closure => do
    let superclass ← mapOption f superclass
    let supercallArgs ← supercallArgs.mapM f
    let mixins ← mixins.mapM f
    let members ← members.mapM f
    pure (.singleton name superclass supercallArgs mixins members closure)
  | .mixin name mixins members => do
    let mixins ← mixins.mapM f
    let members ← members.mapM f
    pure (.mixin name mixins members)
  | .varDecl name constant value => do
    let value ← mapOption f value
    pure (.varDecl name constant value)
  | .field name constant value => do
    let value ← mapOption f value
    pure (.field name constant value)
  | .method name parameters body native => do
    let parameters ← parameters.mapM f
    let body ← mapOption f body
    pure (.method name parameters body native)
  | .constructor parameters baseCall body => do
    let parameters ← parameters.mapM f
    let baseCall ← mapBaseCall f baseCall
    let body ← f body
    pure (.constructor parameters baseCall body)
  | .fixture body => do
    let body ← f body
    pure (.fixture body)
  | .parameter name varArg => pure (.parameter name varArg)
  | .block sentences => do
    let sentences ← sentences.mapM f
    pure (.block sentences)
  | .catchClause param type body => do
    let param ← f param
    let type ← mapOption f type
    let body ← f body
    pure (.catchClause param type body)
  | .namedArgument name value => do
    let value ← f value
    pure (.namedArgument name value)
  | .returnStmt value => do
    let value ← mapOption f value
    pure (.returnStmt value)
  | .assignment place value => do
    let place ← f place
    let value ← f value
    pure (.assignment place value)
  | .reference name target => pure (.reference name target)
  | .selfRef => pure .selfRef
  | .literal value => do
    let value ← value.mapM f
    pure (.literal value)
  | .send receiver message args => do
    let receiver ← f receiver
    let args ← args.mapM f
    pure (.send receiver message args)
  | .superSend args => do
    let args ← args.mapM f
    pure (.superSend args)
  | .newInstance instantiated args => do
    let instantiated ← f instantiated
    let args ← args.mapM f
    pure (.newInstance instantiated args)
  | .ifElse condition thenBody elseBody => do
    let condition ← f condition
    let thenBody ← f thenBody
    let elseBody ← mapOption f elseBody
    pure (.ifElse condition thenBody elseBody)
  | .throwStmt exception => do
    let exception ← f exception
    pure (.throwStmt exception)
  | .tryCatch body catches always => do
    let body ← f body
    let catches ← catches.mapM f
    let always ← mapOption f always
    pure (.tryCatch body catches always)

-- ======================================================== own data

/-- The declared name. Anonymous objects, and kinds that declare nothing,
have none. -/
def name? : Kind α → Option String
  | .package name _ _ => some name
  | .program name _ => some name
  | .test name _ => some name
  | .describe name _ => some name
  | .classDecl name _ _ _ => some name
  | .singleton name _ _ _ _ _ => name
  | .mixin name _ _ => some name
  | .varDecl name _ _ => some name
  | .field name _ _ => some name
  | .method name _ _ _ => some name
  | .parameter name _ => some name
  | .namedArgument name _ => some name
  | .reference name _ => some name
  | _ => none

/-- What messages call the kind. -/
def label : Kind α → String
  | .environment .. => "Environment"
  | .package .. => "Package"
  | .importDecl .. => "Import"
  | .program .. => "Program"
  | .test .. => "Test"
  | .describe .. => "Describe"
  | .classDecl .. => "Class"
  | .singleton .. => "Singleton"
  | .mixin .. => "Mixin"
  | .varDecl .. => "Variable"
  | .field .. => "Field"
  | .method .. => "Method"
  | .constructor .. => "Constructor"
  | .fixture .. => "Fixture"
  | .parameter .. => "Parameter"
  | .block .. => "Body"
  | .catchClause .. => "Catch"
  | .namedArgument .. => "NamedArgument"
  | .returnStmt .. => "Return"
  | .assignment .. => "Assignment"
  | .reference .. => "Reference"
  | .selfRef => "Self"
  | .literal .. => "Literal"
  | .send .. => "Send"
  | .superSend .. => "Super"
  | .newInstance .. => "New"
  | .ifElse .. => "If"
  | .throwStmt .. => "Throw"
  | .tryCatch .. => "Try"

/-- Classes, objects and mixins: what an object can be an instance of. -/
def isModule : Kind α → Bool
  | .classDecl .. | .singleton .. | .mixin .. => true
  | _ => false

/-- What may stand directly in a package. -/
def isEntity : Kind α → Bool
  | .package .. | .program .. | .test .. | .describe .. => true
  | .classDecl .. | .singleton .. | .mixin .. | .varDecl .. => true
  | _ => false

/-- What leaves a value when evaluated. -/
def isExpression : Kind α → Bool
  | .reference .. | .selfRef | .literal .. | .send .. => true
  | .superSend .. | .newInstance .. | .ifElse .. | .tryCatch .. => true
  | _ => false

def isPackage : Kind α → Bool
  | .package .. => true
  | _ => false

def isDescribe : Kind α → Bool
  | .describe .. => true
  | _ => false

def isTest : Kind α → Bool
  | .test .. => true
  | _ => false

def isField : Kind α → Bool
  | .field .. => true
  | _ => false

def isVariable : Kind α → Bool
  | .varDecl .. => true
  | _ => false

def isMethod : Kind α → Bool
  | .method .. => true
  | _ => false

def isConstructor : Kind α → Bool
  | .constructor .. => true
  | _ => false

/-- The mixins of a module, in declaration order. -/
def mixins : Kind α → List α
  | .classDecl _ _ mixins _ => mixins
  | .singleton _ _ _ mixins _ _ => mixins
  | .mixin _ mixins _ => mixins
  | _ => []

/-- The declared superclass of a class or object. -/
def superclass? : Kind α → Option α
  | .classDecl _ superclass _ _ => superclass
  | .singleton _ superclass _ _ _ _ => superclass
  | _ => none

/-- The members of packages, modules and describes. -/
def members : Kind α → List α
  | .environment members => members
  | .package _ _ members => members
  | .describe _ members => members
  | .classDecl _ _ _ members => members
  | .singleton _ _ _ _ members _ => members
  | .mixin _ _ members => members
  | _ => []

/-- The target of a reference that has one. -/
def target? : Kind α → Option NodeId
  | .reference _ target => target
  | _ => none

end Kind

end ObjectMachine
