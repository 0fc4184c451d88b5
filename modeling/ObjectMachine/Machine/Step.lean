/-
One step of the machine.

Returning, throwing and ending a nested block are one mechanism: an
interruption leaves the running frame and then every frame that does not
wait for it, and its value is pushed on the frame that does. A fault in an
instruction becomes an exception of the program, raised in the same way.
-/
import ObjectMachine.Machine.Native

namespace ObjectMachine

/-- What follows an instruction: the next one, or an interruption. -/
inductive Flow where
  | next
  | interrupt (kind : Interruption) (value : ObjectId)
deriving Repr, DecidableEq

namespace Engine

open ObjectMachine.Action

-- ==================================================== starting methods

/-- Binds arguments to parameters in order. One that collects arguments gets
a list of all that are left; one without argument is null. -/
def bindParameters (w : World) (context : ContextId) :
    List Tree → List ObjectId → Action Unit
  | [], _ => pure ()
  | parameter :: rest, args => do
    match parameter.kind with
    | .parameter name true =>
      let collected ← newList w args
      declare context name collected
    | .parameter name false => declare context name (args.headD .null)
    | _ => pure ()
    bindParameters w context rest args.tail

/-- Code, or the fault that there is none. -/
def compiled (code : Except CompileError Code) : Action Code :=
  match code with
  | .ok code => pure code
  | .error error => throw (.compile error)

/-- Constructs an object as an instance of `start`: its fields, if wanted,
are null before any initial value is computed. -/
def construct (e : Engine) (receiver : ObjectId) (start : NodeId) (args : List ObjectId)
    (initFields : Bool) : Action Unit := do
  let p := e.program
  let constructor := p.lookupConstructor? start args.length
  if constructor.isNone && !args.isEmpty then
    throw (.noConstructor (p.qualifiedName start) args.length)
  if initFields then
    clearFields receiver ((p.initializedFields start).filterMap Tree.name?)
  let code ← compiled (p.initCode start constructor initFields)
  let context ← newContext (.object receiver)
  -- A closure does not answer `self`, but its own construction needs it.
  declare context "self" receiver
  match constructor.bind p.kind? with
  | some (.constructor parameters _ _) => bindParameters e.toWorld context parameters args
  | _ => pure ()
  pushReturning e.toWorld code context

/-- Runs a native method. -/
def invokeNative (e : Engine) (method : NodeId) (selector : String) (receiver : ObjectId)
    (args : List ObjectId) : Action Unit := do
  let owner := ((e.program.parent? method).map e.program.qualifiedName).getD ""
  match e.natives.get? owner selector with
  | some native =>
    if native.arity = args.length then native.perform e.toWorld receiver args
    else throw (.missingNative owner selector)
  | none => throw (.missingNative owner selector)

/-- Starts a method on a receiver. -/
def invoke (e : Engine) (method : NodeId) (receiver : ObjectId) (args : List ObjectId) :
    Action Unit := do
  match e.program.kind? method with
  | some (.method selector parameters _ native) =>
    if native then e.invokeNative method selector receiver args
    else
      let code ← compiled (e.program.methodCode method)
      let context ← newContext (.object receiver)
      bindParameters e.toWorld context parameters args
      pushReturning e.toWorld code context
  | _ => throw (.compile (.noBody ("node " ++ toString method)))

/-- The message sent when no method answers another message. -/
def fallbackSelector : String := "messageNotUnderstood"

/-- Sends a message. What no method answers goes to the fallback, with the
selector and a list of the arguments. -/
def dispatch (e : Engine) (receiver : ObjectId) (message : String) (args : List ObjectId)
    (start : Option NodeId) : Action Unit := do
  let p := e.program
  let module := (← object receiver).module
  let method := match start with
    | some start => p.lookupMethodAfter? module message args.length start
    | none => p.lookupMethod? module message args.length
  match method with
  | some method => e.invoke method receiver args
  | none =>
    match p.lookupMethod? module fallbackSelector 2 with
    | some fallback =>
      let selector ← newString e.toWorld message
      let list ← newList e.toWorld args
      e.invoke fallback receiver [selector, list]
    | none => throw (.messageNotUnderstood (p.qualifiedName module) message args.length)

-- ======================================================== instructions

/-- A new instance of a module. Anonymous objects hang from the running
context, and closures leave `self` to it. -/
def instantiate (e : Engine) (module : NodeId) (value : Option Primitive) :
    Action ObjectId := do
  match value with
  | some (.number value) => onHeap fun h => h.number value module
  | some (.string value) => onHeap fun h => h.string value module
  | some (.collection count) =>
    let elements ← popMany count
    onHeap fun h => h.allocate { module, inner := some (.collection elements) }
  | none =>
    match e.program.kind? module with
    | some (.singleton none _ _ _ _ closure) =>
      let context := (← frame).context
      onHeap fun h => h.allocate { module, parent := context, answersSelf := !closure }
    | _ => onHeap fun h => h.allocate { module }

/-- Starts nested code in a context inside that of the running frame. -/
def pushBlock (e : Engine) (parent : ContextId) (code : Code) (resume : List Interruption) :
    Action Unit := do
  let context ← newContext (.context parent)
  pushFrame e.toWorld { code, context, resume }

/-- Executes one instruction of the running frame. -/
def execute (e : Engine) : Instruction → Action Flow
  | .load name => do
    let context := (← frame).context
    match (← heap).lookup context name with
    | some value => push value
    | none => throw (.unknownName name)
    return .next
  | .store name lookup => do
    let value ← pop
    let context := (← frame).context
    if lookup then
      let bound ← onHeap fun h => h.assign context name value
      if !bound then throw (.unknownName name)
    else declare context name value
    return .next
  | .push id => do
    push id
    return .next
  | .pop => do
    let _ ← pop
    return .next
  | .dup => do
    let value ← peek
    push value
    return .next
  | .swap => do
    let first ← pop
    let second ← pop
    push first
    push second
    return .next
  | .get name => do
    let receiver ← pop
    let value ← field e.toWorld receiver name
    push value
    return .next
  | .set name => do
    let value ← pop
    let receiver ← pop
    setField e.toWorld receiver name value
    return .next
  | .instantiate module value => do
    let id ← e.instantiate module value
    push id
    return .next
  | .init arity start initFields => do
    let receiver ← pop
    let args ← popMany arity
    e.construct receiver start args initFields
    return .next
  | .call message arity start => do
    let args ← popMany arity
    let receiver ← pop
    e.dispatch receiver message args start
    return .next
  | .inherits module => do
    let value ← pop
    let own := (← object value).module
    push (.ofBool (e.program.inherits own module))
    return .next
  | .conditionalJump count => do
    let condition ← pop
    if !(← boolean e.toWorld condition) then skip count
    return .next
  | .ifThenElse thenBranch elseBranch => do
    let condition ← pop
    let branch := if (← boolean e.toWorld condition) then thenBranch else elseBranch
    let parent := (← frame).context
    await .result
    e.pushBlock parent branch []
    return .next
  | .tryCatchAlways body handler always => do
    let parent := (← frame).context
    await .result
    e.pushBlock parent always Interruption.all
    e.pushBlock parent handler [.exception]
    e.pushBlock parent body []
    return .next
  | .interrupt kind => do
    let value ← pop
    return .interrupt kind value
  | .resumeInterruption => do
    match (← frame).pending with
    | some kind =>
      let value ← pop
      return .interrupt kind value
    | none => throw .noPendingInterruption

-- ============================================================== steps

/-- Leaves the running frame with an interruption. -/
def interrupt (e : Engine) (kind : Interruption) (value : ObjectId) :
    EStateM Failure Machine Unit := fun m =>
  match unwind kind m.frames.tail with
  | frame :: rest => .ok () { m with frames := frame.push value :: rest }
  | [] =>
    let failure := match kind with
      | .exception =>
        .unhandledException (e.className m.heap value) (e.exceptionMessage m.heap value)
      | kind => .unhandledInterruption kind
    .error failure { m with frames := [] }

/-- Raises a fault as an exception of the program. -/
def raise (e : Engine) (fault : Fault) : EStateM Failure Machine Unit := fun m =>
  match fault with
  | .thrown exception => e.interrupt .exception exception m
  | fault =>
    match newWithMessage e.toWorld e.core.evaluationError fault.message m with
    | .ok exception m => e.interrupt .exception exception m
    | .error fault m => .error (.fault fault) m

/-- Executes the next instruction of the running frame. A frame at the end
of its code is left. -/
def step (e : Engine) : EStateM Failure Machine Unit := fun m =>
  match m.frames with
  | [] => .error (.fault .noActiveFrame) m
  | frame :: rest =>
    match frame.code[frame.pc]? with
    | none => .ok () { m with frames := rest }
    | some instruction =>
      match e.execute instruction
          { m with frames := { frame with pc := frame.pc + 1 } :: rest } with
      | .ok .next m => .ok () m
      | .ok (.interrupt kind value) m => e.interrupt kind value m
      | .error fault m => e.raise fault m

end Engine

end ObjectMachine
