/-
From program trees to code.

Every expression compiles to code that leaves one object on the operand
stack, and so does every other sentence: declarations and assignments leave
`void`. Branches and protected blocks become nested code that ends in the
interruption which hands its value to the frame that started it.
-/
import ObjectMachine.Code.Instruction
import ObjectMachine.Program.Hierarchy

namespace ObjectMachine

/-- Why a tree has no code. -/
inductive CompileError where
  | notAnExpression (label : String) (node : NodeId)
  | notAValue (name : String)
  | unlinked (name : String)
  | missingModule (name : String)
  | superOutsideMethod (node : NodeId)
  | noSuperclass (name : String)
  | noBody (name : String)
deriving Repr, DecidableEq

def CompileError.message : CompileError → String
  | .notAnExpression label node => label ++ " node " ++ toString node ++ " is not an expression"
  | .notAValue name => "`" ++ name ++ "` does not name a value"
  | .unlinked name => "reference `" ++ name ++ "` was never linked"
  | .missingModule name => "missing core module " ++ name
  | .superOutsideMethod node =>
    "`super` used outside of a method (node " ++ toString node ++ ")"
  | .noSuperclass name => name ++ " has no superclass to delegate to"
  | .noBody name => name ++ " has no body to compile"

/-- The local that holds the exception while a handler is chosen. -/
def exceptionLocal : String := "<exception>"

/-- The local that holds the pending value while an always block runs. -/
def previousLocal : String := "<previous_interruption>"

namespace Program

variable (p : Program)

-- ========================================================== references

/-- A module of the library. -/
def coreModule (name : String) : Except CompileError NodeId :=
  match p.entity? name with
  | some id => .ok id
  | none => .error (.missingModule name)

/-- The target of a linked reference. -/
def linkedTarget (reference : Tree) : Except CompileError NodeId :=
  match reference.kind.target? with
  | some target => .ok target
  | none => .error (.unlinked (reference.name?.getD ""))

/-- The name under which a global lives: named objects, and the variables
of packages. -/
def globalName? (target : NodeId) : Option String :=
  match p.kind? target with
  | some (.singleton (some _) _ _ _ _ _) => some (p.qualifiedName target)
  | some (.varDecl _ _ _) =>
    if ((p.parent? target).bind p.kind?).any Kind.isPackage then some (p.qualifiedName target)
    else none
  | _ => none

/-- The name that reads what a reference stands for. -/
def valueName (reference : Tree) : Except CompileError String := do
  let target ← linkedTarget reference
  match p.globalName? target with
  | some name => .ok name
  | none =>
    match p.kind? target with
    | some (.varDecl name _ _) => .ok name
    | some (.field name _ _) => .ok name
    | some (.parameter name _) => .ok name
    | _ => .error (.notAValue (reference.name?.getD ""))

/-- The name that an assignment writes to. -/
def placeName (reference : Tree) : Except CompileError String := do
  let target ← linkedTarget reference
  return (p.globalName? target).getD (reference.name?.getD "")

/-- The method that a super call continues, with its owner. -/
def superMethod (node : NodeId) : Except CompileError (String × NodeId) :=
  match p.enclosingMethod? node with
  | none => .error (.superOutsideMethod node)
  | some method =>
    match p.parent? method with
    | none => .error (.superOutsideMethod node)
    | some owner => .ok ((p.name? method).getD "", owner)

/-- Whether an argument list is given by name. -/
def hasNamedArguments (args : List Tree) : Bool :=
  args.any fun arg => match arg.kind with
    | .namedArgument .. => true
    | _ => false

/-- Code that leaves the object of the last sentence: every other object is
dropped before the next sentence starts. -/
def joinSentences : List Code → Code
  | [] => [.push .void]
  | code :: rest => code ++ rest.flatMap fun next => .pop :: next

-- ============================================== sentences, expressions

mutual

/-- Code that leaves the value of an expression. -/
def expressionCode : Tree → Except CompileError Code
  | .node id span (.reference name target) => do
    let name ← p.valueName (.node id span (.reference name target))
    return [.load name]
  | .node _ _ .selfRef => return [.load "self"]
  | .node _ _ (.literal .null) => return [.push .null]
  | .node _ _ (.literal (.boolean value)) => return [.push (.ofBool value)]
  | .node _ _ (.literal (.number value)) => do
    let module ← p.coreModule CoreNames.numberClass
    return [.instantiate module (some (.number value))]
  | .node _ _ (.literal (.string value)) => do
    let module ← p.coreModule CoreNames.stringClass
    return [.instantiate module (some (.string value))]
  | .node _ _ (.literal (.collection module elements)) => do
    let module ← linkedTarget module
    let elementsCode ← argumentsCode elements
    return elementsCode ++ [.instantiate module (some (.collection elements.length))]
  | .node _ _ (.literal (.singleton (.node id _ (.singleton _ _ args _ _ _)))) => do
    let object := id.getD 0
    let argsCode ← argumentsCode args
    return argsCode ++ [.instantiate object none, .init args.length object true]
  | .node _ _ (.literal (.singleton object)) =>
    return [.instantiate object.identity none, .init 0 object.identity true]
  | .node _ _ (.send receiver message args) => do
    let receiverCode ← expressionCode receiver
    let argsCode ← argumentsCode args
    return receiverCode ++ argsCode ++ [.call message args.length none]
  | .node id _ (.superSend args) => do
    let (message, owner) ← p.superMethod (id.getD 0)
    let argsCode ← argumentsCode args
    return [.load "self"] ++ argsCode ++ [.call message args.length (some owner)]
  | .node _ _ (.newInstance instantiated args) => do
    let module ← linkedTarget instantiated
    if hasNamedArguments args then
      let namedCode ← namedArgumentsCode args
      return [.instantiate module none, .init 0 module true] ++ namedCode
        ++ [.dup, .call "initialize" 0 none, .pop]
    else
      let argsCode ← argumentsCode args
      return argsCode ++ [.instantiate module none, .init args.length module true]
  | .node _ _ (.ifElse condition thenBody elseBody) => do
    let conditionCode ← expressionCode condition
    let thenCode ← blockCode thenBody
    let elseCode ← optionalBlockCode elseBody
    return conditionCode
      ++ [.ifThenElse (thenCode ++ [.interrupt .result]) (elseCode ++ [.interrupt .result])]
  | .node _ _ (.tryCatch body catches always) => do
    let bodyCode ← blockCode body
    let handlersCode ← handlersCode catches
    let alwaysCode ← optionalBlockCode always
    return [.tryCatchAlways
      (bodyCode ++ [.interrupt .result])
      ([.store exceptionLocal false] ++ handlersCode
        ++ [.load exceptionLocal, .interrupt .exception])
      ([.store previousLocal false] ++ alwaysCode
        ++ [.pop, .load previousLocal, .resumeInterruption])]
  | .node id _ kind => .error (.notAnExpression kind.label (id.getD 0))
termination_by structural t => t

/-- Code that leaves the values of expressions, in order. -/
def argumentsCode : List Tree → Except CompileError Code
  | [] => return []
  | arg :: rest => do
    let argCode ← expressionCode arg
    let restCode ← argumentsCode rest
    return argCode ++ restCode

/-- Code that sets the fields given by name of the object on the stack.
Other arguments are passed over. -/
def namedArgumentsCode : List Tree → Except CompileError Code
  | [] => return []
  | .node _ _ (.namedArgument name value) :: rest => do
    let valueCode ← expressionCode value
    let restCode ← namedArgumentsCode rest
    return [.dup] ++ valueCode ++ [.set name] ++ restCode
  | _ :: rest => namedArgumentsCode rest

/-- Code that leaves the value of an expression, or what is given when
there is none. -/
def optionalCode (missing : ObjectId) : Option Tree → Except CompileError Code
  | some value => expressionCode value
  | none => return [.push missing]

/-- The code of each sentence. Every one leaves one object. -/
def sentenceCodes : List Tree → Except CompileError (List Code)
  | [] => return []
  | .node _ _ (.varDecl name _ value) :: rest => do
    let valueCode ← optionalCode .null value
    let codes ← sentenceCodes rest
    return (valueCode ++ [.store name false, .push .void]) :: codes
  | .node _ _ (.assignment place value) :: rest => do
    let valueCode ← expressionCode value
    let name ← p.placeName place
    let codes ← sentenceCodes rest
    return (valueCode ++ [.store name true, .push .void]) :: codes
  | .node _ _ (.returnStmt value) :: rest => do
    let valueCode ← optionalCode .void value
    let codes ← sentenceCodes rest
    return (valueCode ++ [.interrupt .return]) :: codes
  | .node _ _ (.throwStmt exception) :: rest => do
    let exceptionCode ← expressionCode exception
    let codes ← sentenceCodes rest
    return (exceptionCode ++ [.interrupt .exception]) :: codes
  | sentence :: rest => do
    let code ← expressionCode sentence
    let codes ← sentenceCodes rest
    return code :: codes

/-- Code for the sentences of a block; anything else counts as empty. -/
def blockCode : Tree → Except CompileError Code
  | .node _ _ (.block sentences) => do
    let codes ← sentenceCodes sentences
    return joinSentences codes
  | _ => return [.push .void]

def optionalBlockCode : Option Tree → Except CompileError Code
  | some body => blockCode body
  | none => return [.push .void]

/-- Code that tries handlers in order on the exception in its local. A
handler for one class is skipped unless the exception inherits from it. -/
def handlersCode : List Tree → Except CompileError Code
  | [] => return []
  | .node _ _ (.catchClause param none body) :: rest => do
    let bodyCode ← blockCode body
    let restCode ← handlersCode rest
    return [.load exceptionLocal, .store (param.name?.getD "") false] ++ bodyCode
      ++ [.interrupt .result] ++ restCode
  | .node _ _ (.catchClause param (some type) body) :: rest => do
    let module ← linkedTarget type
    let bodyCode ← blockCode body
    let restCode ← handlersCode rest
    return [.load exceptionLocal, .inherits module]
      ++ Code.guarded ([.load exceptionLocal, .store (param.name?.getD "") false] ++ bodyCode
        ++ [.interrupt .result])
      ++ restCode
  | _ :: rest => handlersCode rest

end

-- ==================================================== units of a program

/-- Code that leaves the object of the last of some sentences. -/
def sentencesCode (sentences : List Tree) : Except CompileError Code := do
  let codes ← p.sentenceCodes sentences
  return joinSentences codes

/-- The name of a method with that of its owner. -/
def methodName (method : NodeId) : String :=
  let own := (p.name? method).getD ""
  match p.parent? method with
  | some owner => p.qualifiedName owner ++ "." ++ own
  | none => own

/-- The code of a method: its body, then a return of `void`. -/
def methodCode (method : NodeId) : Except CompileError Code :=
  match p.kind? method with
  | some (.method _ _ (some body) _) => do
    let code ← p.blockCode body
    return code ++ [.push .void, .interrupt .return]
  | _ => .error (.noBody (p.methodName method))

/-- The fields that construction sets up. A describe keeps its variables
with them. -/
def initializedFields (module : NodeId) : List Tree :=
  p.fieldsOf module ++
    match p.kind? module with
    | some (.describe _ members) => members.filter fun member => member.kind.isVariable
    | _ => []

/-- Code that sets fields of `self` to their initial values, in order. -/
def fieldsCode : List Tree → Except CompileError Code
  | [] => return []
  | field :: rest => do
    let code ← match field.kind with
      | .field name _ value => do
        let valueCode ← p.optionalCode .null value
        pure ([.load "self"] ++ valueCode ++ [.set name])
      | .varDecl name _ value => do
        let valueCode ← p.optionalCode .null value
        pure ([.load "self"] ++ valueCode ++ [.set name])
      | _ => pure []
    let restCode ← fieldsCode rest
    return code ++ restCode

/-- Code that runs another constructor on `self` before this one's body: the
one that is called for, or else that of the superclass without
arguments. -/
def baseCallCode (owner : NodeId) : Option (BaseCall Tree) → Except CompileError Code
  | some call => do
    let start ← if call.callsSuper then
        match p.superclass? owner with
        | some superclass => pure superclass
        | none => .error (.noSuperclass (p.qualifiedName owner))
      else pure owner
    let argsCode ← p.argumentsCode call.args
    return argsCode ++ [.load "self", .init call.args.length start false, .pop]
  | none =>
    match p.superclass? owner with
    | some superclass => return [.load "self", .init 0 superclass false, .pop]
    | none => return []

/-- Code of a constructor: the other constructor first, then its own
body. -/
def constructorCode (constructor : NodeId) : Except CompileError Code :=
  let missing := CompileError.noBody ("constructor " ++ toString constructor)
  match p.kind? constructor, p.parent? constructor with
  | some (.constructor _ baseCall body), some owner => do
    let baseCode ← p.baseCallCode owner baseCall
    let bodyCode ← p.blockCode body
    return baseCode ++ bodyCode ++ [.pop]
  | _, _ => .error missing

/-- Code that constructs `self` as an instance of `start` and returns it:
fields, then the constructor if there is one. -/
def initCode (start : NodeId) (constructor : Option NodeId) (initFields : Bool) :
    Except CompileError Code := do
  let fieldsCode ← if initFields then p.fieldsCode (p.initializedFields start) else pure []
  let constructorCode ← match constructor with
    | some constructor => p.constructorCode constructor
    | none => pure []
  return fieldsCode ++ constructorCode ++ [.load "self", .interrupt .return]

/-- Code that initializes named objects already bound to their names. -/
def singletonsCode : List NodeId → Except CompileError Code
  | [] => return []
  | object :: rest => do
    let args := match p.kind? object with
      | some (.singleton _ _ args _ _ _) => args
      | _ => []
    let argsCode ← p.argumentsCode args
    let restCode ← singletonsCode rest
    return argsCode ++ [.load (p.qualifiedName object), .init args.length object true, .pop]
      ++ restCode

/-- Code that binds the variables of packages to their values. -/
def variablesCode : List NodeId → Except CompileError Code
  | [] => return []
  | variableId :: rest => do
    let code ← match p.kind? variableId with
      | some (.varDecl _ _ value) => do
        let valueCode ← p.optionalCode .null value
        pure (valueCode ++ [.store (p.qualifiedName variableId) false])
      | _ => pure []
    let restCode ← variablesCode rest
    return code ++ restCode

/-- Code that sets up the globals: named objects first, then variables. -/
def globalsCode (objects vars : List NodeId) : Except CompileError Code := do
  let singletonsCode ← p.singletonsCode objects
  let variablesCode ← p.variablesCode vars
  return singletonsCode ++ variablesCode ++ [.push .void]

end Program

end ObjectMachine
