/-
The interchange form of trees: how trees travel as JSON.

A node is an object of its identity, its span and its kind; a kind is an
object with one member, named for the kind, that holds the fields. Written
trees have every field. Reading is more generous: optional fields may be
missing, fields nobody asks for are passed over unread, and a record may be
an array of its fields in order. A field given twice is refused.

Reading counts the arrays and objects it enters, and gives up when they are
nested too deeply; a text may nest `nestingLimit` of them.
-/
import ObjectMachine.Json.Printer
import ObjectMachine.Json.Reader
import ObjectMachine.Tree.Basic

namespace ObjectMachine

-- ============================================================ writing

def Pos.toJson (p : Pos) : Json :=
  .record [("offset", .nat p.offset), ("line", .nat p.line), ("column", .nat p.column)]

def Span.toJson (s : Span) : Json :=
  .record [("start", s.start.toJson), ("end", s.stop.toJson)]

/-- A tagged value: an object whose one member is named for the tag. -/
def Json.tagged (tag : String) (payload : Json) : Json := .record [(tag, payload)]

def BaseCall.toJson (call : BaseCall Json) : Json :=
  .record [("calls_super", .bool call.callsSuper), ("args", .array call.args)]

def Literal.toJson : Literal Json → Json
  | .null => .str "Null"
  | .boolean value => .tagged "Boolean" (.bool value)
  | .number value => .tagged "Number" (.real value)
  | .string value => .tagged "String" (.str value)
  | .collection module elements =>
    .tagged "Collection" (.record [("module", module), ("elements", .array elements)])
  | .singleton object => .tagged "Singleton" object

/-- An optional child, `null` when absent. -/
def Json.optional (value : Option Json) : Json := value.getD .null

/-- One layer, its children already written. -/
def Kind.toJson : Kind Json → Json
  | .environment members => .tagged "Environment" (.record [("members", .array members)])
  | .package name imports members => .tagged "Package" (.record
      [("name", .str name), ("imports", .array imports), ("members", .array members)])
  | .importDecl entity generic => .tagged "Import" (.record
      [("entity", entity), ("generic", .bool generic)])
  | .program name body => .tagged "Program" (.record [("name", .str name), ("body", body)])
  | .test name body => .tagged "Test" (.record [("name", .str name), ("body", body)])
  | .describe name members => .tagged "Describe" (.record
      [("name", .str name), ("members", .array members)])
  | .classDecl name superclass mixins members => .tagged "Class" (.record
      [("name", .str name), ("superclass", .optional superclass), ("mixins", .array mixins),
       ("members", .array members)])
  | .singleton name superclass supercallArgs mixins members closure =>
    .tagged "Singleton" (.record
      [("name", .option .str name), ("superclass", .optional superclass),
       ("supercall_args", .array supercallArgs), ("mixins", .array mixins),
       ("members", .array members), ("closure", .bool closure)])
  | .mixin name mixins members => .tagged "Mixin" (.record
      [("name", .str name), ("mixins", .array mixins), ("members", .array members)])
  | .varDecl name constant value => .tagged "Variable" (.record
      [("name", .str name), ("constant", .bool constant), ("value", .optional value)])
  | .field name constant value => .tagged "Field" (.record
      [("name", .str name), ("constant", .bool constant), ("value", .optional value)])
  | .method name parameters body native => .tagged "Method" (.record
      [("name", .str name), ("parameters", .array parameters), ("body", .optional body),
       ("native", .bool native)])
  | .constructor parameters baseCall body => .tagged "Constructor" (.record
      [("parameters", .array parameters), ("base_call", .option BaseCall.toJson baseCall),
       ("body", body)])
  | .fixture body => .tagged "Fixture" (.record [("body", body)])
  | .parameter name varArg => .tagged "Parameter" (.record
      [("name", .str name), ("var_arg", .bool varArg)])
  | .block sentences => .tagged "Body" (.record [("sentences", .array sentences)])
  | .catchClause param type body => .tagged "Catch" (.record
      [("parameter", param), ("parameter_type", .optional type), ("body", body)])
  | .namedArgument name value => .tagged "NamedArgument" (.record
      [("name", .str name), ("value", value)])
  | .returnStmt value => .tagged "Return" (.record [("value", .optional value)])
  | .assignment place value => .tagged "Assignment" (.record
      [("variable", place), ("value", value)])
  | .reference name target => .tagged "Reference" (.record
      [("name", .str name), ("target", .option .nat target)])
  | .selfRef => .str "SelfRef"
  | .literal value => .tagged "Literal" (.record [("value", value.toJson)])
  | .send receiver message args => .tagged "Send" (.record
      [("receiver", receiver), ("message", .str message), ("args", .array args)])
  | .superSend args => .tagged "Super" (.record [("args", .array args)])
  | .newInstance instantiated args => .tagged "New" (.record
      [("instantiated", instantiated), ("args", .array args)])
  | .ifElse condition thenBody elseBody => .tagged "If" (.record
      [("condition", condition), ("then_body", thenBody), ("else_body", .optional elseBody)])
  | .throwStmt exception => .tagged "Throw" (.record [("exception", exception)])
  | .tryCatch body catches always => .tagged "Try" (.record
      [("body", body), ("catches", .array catches), ("always", .optional always)])

/-- A tree in interchange form, every field written. -/
def Tree.toJson : Tree → Json :=
  fold fun t below => .record
    [("id", .option .nat t.id?), ("span", .option Span.toJson t.span?), ("kind", below.toJson)]

-- ============================================================ reading

namespace Interchange

/-- Reads a value, given how many more arrays and objects may be entered. -/
abbrev Reads (α : Type) := Nat → Json → Option α

variable {α : Type}

def text : Reads String
  | _, .text value => value
  | _, _ => none

def bool : Reads Bool
  | _, .bool value => some value
  | _, _ => none

/-- A natural number below a bound, written without point and exponent. -/
def natBelow (bound : Nat) : Reads Nat
  | _, .int (.ofNat n) => if n < bound then some n else none
  | _, _ => none

/-- Identities have 32 bits. -/
def nodeId : Reads NodeId := natBelow (Nat.pow 2 32)

/-- Offsets, lines and columns have 64 bits. -/
def position : Reads Nat := natBelow (Nat.pow 2 64)

/-- Any number that a float can come near. -/
def number : Reads Float
  | _, .int value =>
    let x := Number.ofDecimal (value < 0) value.natAbs 0
    if x.isFinite then some x else none
  | _, .real x => if x.isFinite then some x else none
  | _, _ => none

def listOf (read : Reads α) : Reads (List α)
  | level + 1, .array items => items.mapM (read level)
  | _, _ => none

/-- A field that must be there. -/
def required (read : Reads α) (level : Nat) : Option Json → Option α
  | some value => read level value
  | none => none

/-- A field that may be missing or `null`. -/
def optional (read : Reads α) (level : Nat) : Option Json → Option (Option α)
  | none => some none
  | some .null => some none
  | some value => (read level value).map some

/-- A field with a default for when it is missing. -/
def defaulting (read : Reads α) (default : α) (level : Nat) : Option Json → Option α
  | some value => read level value
  | none => some default

/-- The fields of a record by name, in the order of `names`. As an array a
record has all of them, except that the last `spare` may be left off. -/
def fields (names : List String) (spare : Nat) : Json → Option (List (Option Json))
  | .object members =>
    let once (name : String) : Bool := members.countP (fun m => m.1 == some name) ≤ 1
    if members.all (fun m => m.1.isSome) && names.all once then
      some (names.map fun name => members.lookup (some name))
    else none
  | .array items =>
    if items.length ≤ names.length ∧ names.length ≤ items.length + spare then
      some (items.map some ++ List.replicate (names.length - items.length) none)
    else none
  | _ => none

/-- Enters a record and reads its fields. -/
def record (names : List String) (spare : Nat) (read : Nat → List (Option Json) → Option α) :
    Reads α
  | level + 1, value => (fields names spare value).bind (read level)
  | 0, _ => none

def pos : Reads Pos :=
  record ["offset", "line", "column"] 0 (fun
    | level, [offset, line, column] => do
      let offset ← required position level offset
      let line ← required position level line
      let column ← required position level column
      return ⟨offset, line, column⟩
    | _, _ => none)

def span : Reads Span :=
  record ["start", "end"] 0 (fun
    | level, [start, stop] => do
      let start ← required pos level start
      let stop ← required pos level stop
      return ⟨start, stop⟩
    | _, _ => none)

/-- A tagged value. A tag without fields may stand alone as a string. -/
def tagged (plain : String → Option α) (read : String → Reads α) : Reads α
  | _, .text (some tag) => plain tag
  | level + 1, .object [(some tag, payload)] => read tag level payload
  | _, _ => none

/-- The payload of a tag without fields. -/
def nothing (value : α) : Reads α
  | _, .null => some value
  | _, _ => none

section

variable (tree : Reads Tree)

def baseCall : Reads (BaseCall Tree) :=
  record ["calls_super", "args"] 0 (fun
    | level, [callsSuper, args] => do
      let callsSuper ← required bool level callsSuper
      let args ← required (listOf tree) level args
      return ⟨callsSuper, args⟩
    | _, _ => none)

/-- The payload of a literal. -/
def literalFields (tag : String) : Reads (Literal Tree) :=
  match tag with
  | "Null" => nothing .null
  | "Boolean" => fun level value => (bool level value).map .boolean
  | "Number" => fun level value => (number level value).map .number
  | "String" => fun level value => (text level value).map .string
  | "Collection" => record ["module", "elements"] 0 (fun
    | level, [module, elements] => do
      let module ← required tree level module
      let elements ← required (listOf tree) level elements
      return .collection module elements
    | _, _ => none)
  | "Singleton" => fun level value => (tree level value).map .singleton
  | _ => fun _ _ => none

def literal : Reads (Literal Tree) :=
  tagged (fun tag => if tag = "Null" then some .null else none) (literalFields tree)

/-- The payload of a kind. -/
def kindFields (tag : String) : Reads (Kind Tree) :=
  match tag with
  | "Environment" => record ["members"] 0 (fun
    | level, [members] => do
      let members ← required (listOf tree) level members
      return .environment members
    | _, _ => none)
  | "Package" => record ["name", "imports", "members"] 0 (fun
    | level, [name, imports, members] => do
      let name ← required text level name
      let imports ← required (listOf tree) level imports
      let members ← required (listOf tree) level members
      return .package name imports members
    | _, _ => none)
  | "Import" => record ["entity", "generic"] 0 (fun
    | level, [entity, generic] => do
      let entity ← required tree level entity
      let generic ← required bool level generic
      return .importDecl entity generic
    | _, _ => none)
  | "Program" => record ["name", "body"] 0 (fun
    | level, [name, body] => do
      let name ← required text level name
      let body ← required tree level body
      return .program name body
    | _, _ => none)
  | "Test" => record ["name", "body"] 0 (fun
    | level, [name, body] => do
      let name ← required text level name
      let body ← required tree level body
      return .test name body
    | _, _ => none)
  | "Describe" => record ["name", "members"] 0 (fun
    | level, [name, members] => do
      let name ← required text level name
      let members ← required (listOf tree) level members
      return .describe name members
    | _, _ => none)
  | "Class" => record ["name", "superclass", "mixins", "members"] 0 (fun
    | level, [name, superclass, mixins, members] => do
      let name ← required text level name
      let superclass ← optional tree level superclass
      let mixins ← required (listOf tree) level mixins
      let members ← required (listOf tree) level members
      return .classDecl name superclass mixins members
    | _, _ => none)
  | "Singleton" =>
    record ["name", "superclass", "supercall_args", "mixins", "members", "closure"] 1 (fun
    | level, [name, superclass, supercallArgs, mixins, members, closure] => do
      let name ← optional text level name
      let superclass ← optional tree level superclass
      let supercallArgs ← required (listOf tree) level supercallArgs
      let mixins ← required (listOf tree) level mixins
      let members ← required (listOf tree) level members
      let closure ← defaulting bool false level closure
      return .singleton name superclass supercallArgs mixins members closure
    | _, _ => none)
  | "Mixin" => record ["name", "mixins", "members"] 0 (fun
    | level, [name, mixins, members] => do
      let name ← required text level name
      let mixins ← required (listOf tree) level mixins
      let members ← required (listOf tree) level members
      return .mixin name mixins members
    | _, _ => none)
  | "Variable" => record ["name", "constant", "value"] 0 (fun
    | level, [name, constant, value] => do
      let name ← required text level name
      let constant ← required bool level constant
      let value ← optional tree level value
      return .varDecl name constant value
    | _, _ => none)
  | "Field" => record ["name", "constant", "value"] 0 (fun
    | level, [name, constant, value] => do
      let name ← required text level name
      let constant ← required bool level constant
      let value ← optional tree level value
      return .field name constant value
    | _, _ => none)
  | "Method" => record ["name", "parameters", "body", "native"] 0 (fun
    | level, [name, parameters, body, native] => do
      let name ← required text level name
      let parameters ← required (listOf tree) level parameters
      let body ← optional tree level body
      let native ← required bool level native
      return .method name parameters body native
    | _, _ => none)
  | "Constructor" => record ["parameters", "base_call", "body"] 0 (fun
    | level, [parameters, call, body] => do
      let parameters ← required (listOf tree) level parameters
      let call ← optional (baseCall tree) level call
      let body ← required tree level body
      return .constructor parameters call body
    | _, _ => none)
  | "Fixture" => record ["body"] 0 (fun
    | level, [body] => do
      let body ← required tree level body
      return .fixture body
    | _, _ => none)
  | "Parameter" => record ["name", "var_arg"] 0 (fun
    | level, [name, varArg] => do
      let name ← required text level name
      let varArg ← required bool level varArg
      return .parameter name varArg
    | _, _ => none)
  | "Body" => record ["sentences"] 0 (fun
    | level, [sentences] => do
      let sentences ← required (listOf tree) level sentences
      return .block sentences
    | _, _ => none)
  | "Catch" => record ["parameter", "parameter_type", "body"] 0 (fun
    | level, [param, type, body] => do
      let param ← required tree level param
      let type ← optional tree level type
      let body ← required tree level body
      return .catchClause param type body
    | _, _ => none)
  | "NamedArgument" => record ["name", "value"] 0 (fun
    | level, [name, value] => do
      let name ← required text level name
      let value ← required tree level value
      return .namedArgument name value
    | _, _ => none)
  | "Return" => record ["value"] 0 (fun
    | level, [value] => do
      let value ← optional tree level value
      return .returnStmt value
    | _, _ => none)
  | "Assignment" => record ["variable", "value"] 0 (fun
    | level, [place, value] => do
      let place ← required tree level place
      let value ← required tree level value
      return .assignment place value
    | _, _ => none)
  | "Reference" => record ["name", "target"] 1 (fun
    | level, [name, target] => do
      let name ← required text level name
      let target ← optional nodeId level target
      return .reference name target
    | _, _ => none)
  | "SelfRef" => nothing .selfRef
  | "Literal" => record ["value"] 0 (fun
    | level, [value] => do
      let value ← required (literal tree) level value
      return .literal value
    | _, _ => none)
  | "Send" => record ["receiver", "message", "args"] 0 (fun
    | level, [receiver, message, args] => do
      let receiver ← required tree level receiver
      let message ← required text level message
      let args ← required (listOf tree) level args
      return .send receiver message args
    | _, _ => none)
  | "Super" => record ["args"] 0 (fun
    | level, [args] => do
      let args ← required (listOf tree) level args
      return .superSend args
    | _, _ => none)
  | "New" => record ["instantiated", "args"] 0 (fun
    | level, [instantiated, args] => do
      let instantiated ← required tree level instantiated
      let args ← required (listOf tree) level args
      return .newInstance instantiated args
    | _, _ => none)
  | "If" => record ["condition", "then_body", "else_body"] 0 (fun
    | level, [condition, thenBody, elseBody] => do
      let condition ← required tree level condition
      let thenBody ← required tree level thenBody
      let elseBody ← optional tree level elseBody
      return .ifElse condition thenBody elseBody
    | _, _ => none)
  | "Throw" => record ["exception"] 0 (fun
    | level, [exception] => do
      let exception ← required tree level exception
      return .throwStmt exception
    | _, _ => none)
  | "Try" => record ["body", "catches", "always"] 0 (fun
    | level, [body, catches, always] => do
      let body ← required tree level body
      let catches ← required (listOf tree) level catches
      let always ← optional tree level always
      return .tryCatch body catches always
    | _, _ => none)
  | _ => fun _ _ => none

def kind : Reads (Kind Tree) :=
  tagged (fun tag => if tag = "SelfRef" then some .selfRef else none) (kindFields tree)

end

/-- A tree. Every node enters at least one object or array, so no more
nodes than levels stand above one another. -/
def treeWithin : Nat → Reads Tree
  | 0 => fun _ _ => none
  | fuel + 1 => record ["id", "span", "kind"] 0 (fun
    | level, [id, span?, kind?] => do
      let id ← optional nodeId level id
      let span ← optional span level span?
      let kind ← required (kind (treeWithin fuel)) level kind?
      return .node id span kind
    | _, _ => none)

end Interchange

/-- The tree a JSON value describes. -/
def Tree.ofJson? (value : Json) : Option Tree :=
  Interchange.treeWithin value.depth value.depth value

/-- How many arrays and objects a text may nest. -/
def Interchange.nestingLimit : Nat := 127

/-- The trees a text describes: one JSON array of them. -/
def Tree.parseForest? (text : String) : Option (List Tree) :=
  (Json.parse? text).bind
    (Interchange.listOf (Interchange.treeWithin Interchange.nestingLimit) Interchange.nestingLimit)

/-- Trees as text. -/
def Tree.renderForest (trees : List Tree) : String := (Json.list Tree.toJson trees).render

end ObjectMachine
