/-
Writing trees by hand. Each function spells one construct of the language
with its children in place; names of entities become references, to be
resolved when the program is linked.
-/
import ObjectMachine.CoreNames
import ObjectMachine.Tree.Basic

namespace ObjectMachine.Build

-- ======================================================= expressions

def reference (name : String) : Tree := .of (.reference name none)

def self : Tree := .of .selfRef

def literal (value : Literal Tree) : Tree := .of (.literal value)

def null : Tree := literal .null

def boolean (value : Bool) : Tree := literal (.boolean value)

def number (value : Float) : Tree := literal (.number value)

def string (value : String) : Tree := literal (.string value)

def list (elements : List Tree) : Tree :=
  literal (.collection (reference CoreNames.listClass) elements)

def send (receiver : Tree) (message : String) (args : List Tree) : Tree :=
  .of (.send receiver message args)

def superSend (args : List Tree) : Tree := .of (.superSend args)

def new (className : String) (args : List Tree) : Tree :=
  .of (.newInstance (reference className) args)

/-- An instance whose fields are given by name. -/
def newNamed (className : String) (args : List (String × Tree)) : Tree :=
  .of (.newInstance (reference className)
    (args.map fun (name, value) => .of (.namedArgument name value)))

-- ========================================================= sentences

def block (sentences : List Tree) : Tree := .of (.block sentences)

def ifThen (condition : Tree) (thenSentences : List Tree) : Tree :=
  .of (.ifElse condition (block thenSentences) none)

def ifElse (condition : Tree) (thenSentences elseSentences : List Tree) : Tree :=
  .of (.ifElse condition (block thenSentences) (some (block elseSentences)))

def raise (exception : Tree) : Tree := .of (.throwStmt exception)

def tryCatch (sentences catches : List Tree) : Tree :=
  .of (.tryCatch (block sentences) catches none)

def tryAlways (sentences catches always : List Tree) : Tree :=
  .of (.tryCatch (block sentences) catches (some (block always)))

def answer (value : Tree) : Tree := .of (.returnStmt (some value))

def answerNothing : Tree := .of (.returnStmt none)

def assign (name : String) (value : Tree) : Tree :=
  .of (.assignment (reference name) value)

def var (name : String) (value : Tree) : Tree := .of (.varDecl name false (some value))

/-- A variable without initial value. -/
def bareVar (name : String) : Tree := .of (.varDecl name false none)

def const (name : String) (value : Tree) : Tree := .of (.varDecl name true (some value))

-- ========================================================== behaviour

/-- A parameter. A name that ends in three dots collects the remaining
arguments. -/
def param (name : String) : Tree :=
  match name.toList.reverse with
  | '.' :: '.' :: '.' :: rest => .of (.parameter (String.ofList rest.reverse) true)
  | _ => .of (.parameter name false)

def method (name : String) (parameters : List String) (sentences : List Tree) : Tree :=
  .of (.method name (parameters.map param) (some (block sentences)) false)

def nativeMethod (name : String) (parameters : List String) : Tree :=
  .of (.method name (parameters.map param) none true)

def abstractMethod (name : String) (parameters : List String) : Tree :=
  .of (.method name (parameters.map param) none false)

def constructor (parameters : List String) (sentences : List Tree) : Tree :=
  .of (.constructor (parameters.map param) none (block sentences))

/-- A constructor that first calls one of the superclass, or another one of
its own class. -/
def constructorCalling (parameters : List String) (callsSuper : Bool)
    (args sentences : List Tree) : Tree :=
  .of (.constructor (parameters.map param) (some ⟨callsSuper, args⟩) (block sentences))

def fixture (sentences : List Tree) : Tree := .of (.fixture (block sentences))

def field (name : String) (value : Tree) : Tree := .of (.field name false (some value))

/-- A field without initial value. -/
def bareField (name : String) : Tree := .of (.field name false none)

def constField (name : String) (value : Tree) : Tree := .of (.field name true (some value))

/-- A handler for exceptions of one class. -/
def catchTyped (parameter className : String) (sentences : List Tree) : Tree :=
  .of (.catchClause (param parameter) (some (reference className)) (block sentences))

/-- A handler for every exception. -/
def catchAny (parameter : String) (sentences : List Tree) : Tree :=
  .of (.catchClause (param parameter) none (block sentences))

/-- An anonymous object, as a literal. -/
def anonymous (members : List Tree) (closure : Bool) : Tree :=
  literal (.singleton (.of (.singleton none none [] [] members closure)))

def objectLiteral (members : List Tree) : Tree := anonymous members false

/-- Makes the last sentence, if it is an expression, the answer. -/
def answeringLast : List Tree → List Tree
  | [] => []
  | [last] => [if last.kind.isExpression then answer last else last]
  | sentence :: rest => sentence :: answeringLast rest

/-- A block of code as an object that understands `apply`. -/
def closure (parameters : List String) (sentences : List Tree) : Tree :=
  anonymous [method "apply" parameters (answeringLast sentences)] true

-- =========================================================== entities

def packageImporting (name : String) (imports members : List Tree) : Tree :=
  .of (.package name imports members)

def package (name : String) (members : List Tree) : Tree := packageImporting name [] members

def importEntity (name : String) : Tree := .of (.importDecl (reference name) false)

def importAll (name : String) : Tree := .of (.importDecl (reference name) true)

def program (name : String) (sentences : List Tree) : Tree :=
  .of (.program name (block sentences))

def test (name : String) (sentences : List Tree) : Tree := .of (.test name (block sentences))

def describe (name : String) (members : List Tree) : Tree := .of (.describe name members)

def classNamed (name : String) (members : List Tree) : Tree :=
  .of (.classDecl name none [] members)

def singleton (name : String) (members : List Tree) : Tree :=
  .of (.singleton (some name) none [] [] members false)

def mixin (name : String) (members : List Tree) : Tree := .of (.mixin name [] members)

end ObjectMachine.Build

-- ========================================================== modifiers

namespace ObjectMachine.Tree

/-- Sets the superclass of a class or object. -/
def inherits (t : Tree) (superclass : String) : Tree :=
  match t with
  | .node id span (.classDecl name _ mixins members) =>
    .node id span (.classDecl name (some (Build.reference superclass)) mixins members)
  | .node id span (.singleton name _ args mixins members closure) =>
    .node id span
      (.singleton name (some (Build.reference superclass)) args mixins members closure)
  | other => other

/-- Adds mixins after those a module already has. -/
def mixedWith (t : Tree) (names : List String) : Tree :=
  let added := names.map Build.reference
  match t with
  | .node id span (.classDecl name superclass mixins members) =>
    .node id span (.classDecl name superclass (mixins ++ added) members)
  | .node id span (.singleton name superclass args mixins members closure) =>
    .node id span (.singleton name superclass args (mixins ++ added) members closure)
  | .node id span (.mixin name mixins members) =>
    .node id span (.mixin name (mixins ++ added) members)
  | other => other

/-- Sets the arguments an object, named or literal, passes to the
constructor of its superclass. -/
def withSupercallArgs (t : Tree) (args : List Tree) : Tree :=
  match t with
  | .node id span (.singleton name superclass _ mixins members closure) =>
    .node id span (.singleton name superclass args mixins members closure)
  | .node id span (.literal (.singleton
      (.node innerId innerSpan (.singleton name superclass _ mixins members closure)))) =>
    .node id span (.literal (.singleton
      (.node innerId innerSpan (.singleton name superclass args mixins members closure))))
  | other => other

/-- Gives a node its place in the source. -/
def located (t : Tree) (span : Span) : Tree := .node t.id? (some span) t.kind

end ObjectMachine.Tree
