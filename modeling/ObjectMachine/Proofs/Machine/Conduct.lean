/-
What an instruction does, to the letter.

Machine/Effects.lean says of an instruction what every run relies on: which
frames there are afterwards, and that what is held exists. What the objects
and contexts are afterwards is said here, by one case for each way in which
an instruction can end (`Conduct`). There are no others, as is shown in
Machine/Conducted.lean. Nothing is asked of the machine: one that is out of
operands has its case too.

Starting a method or a construction is cut into parts that can be read off
a heap: arguments are bound by `World.bindAll`, fields are set to null by
`Heap.putAll`, and a message is put into a new exception by
`World.withMessage`. What a native method does is in Library/Conduct.lean.
-/
import Mathlib
import ObjectMachine.Proofs.Machine.Execute

namespace ObjectMachine

-- ====================================================== parts of heaps

namespace Heap

/-- Sets several fields of an object to one value. -/
def putAll (h : Heap) (id : ObjectId) (names : List String) (value : ObjectId) : Heap :=
  names.foldl (fun h name => h.putField id name value) h

end Heap

namespace World

/-- The heap once arguments are bound to parameters; one that collects arguments
gets a new list. -/
def bindAll (w : World) (context : ContextId) : List Tree → List ObjectId → Heap → Heap
  | [], _, h => h
  | parameter :: rest, args, h =>
    bindAll w context rest args.tail <|
      match parameter.kind with
      | .parameter name true =>
        (h.allocate { module := w.core.list, inner := some (.collection args) }).2.declare context
          name h.size
      | .parameter name false => h.declare context name (args.headD .null)
      | _ => h

/-- The names of the fields that instances of a module have. -/
def fieldNames (w : World) (module : NodeId) : List String :=
  (w.program.fieldsOf module).filterMap Tree.name?

/-- The heap with one more object, which carries a message. -/
def withMessage (w : World) (module : NodeId) (message : String) (h : Heap) : Heap :=
  let text := (h.allocate { module }).2.string message w.core.string
  (text.2.putAll h.size (w.fieldNames module) .null).putField h.size "message" text.1

end World

namespace Engine

/-- A new instance: anonymous objects hang from the context they are made
in. -/
def instanceIn (e : Engine) (context : ContextId) (module : NodeId) : Object :=
  match e.program.kind? module with
  | some (.singleton none _ _ _ _ closure) =>
    { module, parent := context, answersSelf := !closure }
  | _ => { module }

theorem instanceIn_module (e : Engine) (context : ContextId) (module : NodeId) :
    (e.instanceIn context module).module = module := by
  unfold instanceIn
  split <;> rfl

/-- The parameters of a constructor, if there is one. -/
def parametersOf (e : Engine) (constructor : Option NodeId) : List Tree :=
  match constructor.bind e.program.kind? with
  | some (.constructor parameters _ _) => parameters
  | _ => []

/-- The heap in which an instance of `start` is constructed, with its fields set
to null if `initFields`. -/
def prepared (e : Engine) (receiver : ObjectId) (start : NodeId) (initFields : Bool) (h : Heap) :
    Heap :=
  if initFields then
    h.putAll receiver ((e.program.initializedFields start).filterMap Tree.name?) .null
  else h

/-- The heap once a construction has a context: `prepared`, with `self` and the
arguments bound. -/
def constructing (e : Engine) (receiver : ObjectId) (start : NodeId) (args : List ObjectId)
    (initFields : Bool) (h : Heap) : Heap :=
  e.toWorld.bindAll h.contexts.size
    (e.parametersOf (e.program.lookupConstructor? start args.length)) args
    (((e.prepared receiver start initFields h).newContext (.object receiver)).2.declare
      h.contexts.size "self" receiver)

/-- The heap once a method has a context, which hangs from the receiver and in
which the arguments are bound. -/
def invoking (e : Engine) (receiver : ObjectId) (parameters : List Tree) (args : List ObjectId)
    (h : Heap) : Heap :=
  e.toWorld.bindAll h.contexts.size parameters args (h.newContext (.object receiver)).2

/-- The method that answers a message, seen from the module `start` if the
message goes to `super`. -/
def methodFor (e : Engine) (module : NodeId) (message : String) (arity : Nat)
    (start : Option NodeId) : Option NodeId :=
  match start with
  | some start => e.program.lookupMethodAfter? module message arity start
  | none => e.program.lookupMethod? module message arity

/-- The heap with the selector and the arguments of a message that nobody
answers. -/
def misunderstood (e : Engine) (message : String) (args : List ObjectId) (h : Heap) : Heap :=
  ((h.string message e.core.string).2.allocate
    { module := e.core.list, inner := some (.collection args) }).2

end Engine

/-- The machine in which an action or a run ends. -/
def stateOf {ε α : Type} : EStateM.Result ε Machine α → Machine
  | .ok _ m => m
  | .error _ m => m

/-- A fault that carries no exception. -/
def Fault.Unthrown (fault : Fault) : Prop := ∀ id, fault ≠ .thrown id

-- =================================================== the ways to end

/-- Code is started on a receiver, with `heap` the heap once its context is
there; or there are too many frames. The frame `g` waits for the answer. -/
inductive World.Started (w : World) (code : Code) (context : ContextId) (heap : Heap)
    (g : Frame) (rest : List Frame) (m : Machine) : EStateM.Result Fault Machine Unit → Prop
  | runs : Started w code context heap g rest m
      (.ok () { m with heap, frames := { code, context } :: g.resuming [.return] :: rest })
  | full : Started w code context heap g rest m
      (.error (.stackOverflow w.maxFrames) { m with heap, frames := g.resuming [.return] :: rest })

namespace Engine

variable (e : Engine)

/-- How `construct` ends. -/
inductive Constructs (receiver : ObjectId) (start : NodeId) (args : List ObjectId)
    (initFields : Bool) (g : Frame) (rest : List Frame) (m : Machine) :
    EStateM.Result Fault Machine Unit → Prop
  | refused {fault : Fault} (unthrown : fault.Unthrown) :
      Constructs receiver start args initFields g rest m (.error fault m)
  | uncompiled {error : CompileError} :
      Constructs receiver start args initFields g rest m
        (.error (.compile error) { m with heap := e.prepared receiver start initFields m.heap })
  | started {code : Code} {r : EStateM.Result Fault Machine Unit}
      (compiles : e.program.initCode start (e.program.lookupConstructor? start args.length)
        initFields = .ok code)
      (ends : e.toWorld.Started code m.heap.contexts.size
        (e.constructing receiver start args initFields m.heap) g rest m r) :
      Constructs receiver start args initFields g rest m r

/-- How `invoke` ends. -/
inductive Invokes (method : NodeId) (receiver : ObjectId) (args : List ObjectId) (g : Frame)
    (rest : List Frame) (m : Machine) : EStateM.Result Fault Machine Unit → Prop
  | refused {fault : Fault} (plain : fault.plain = true) :
      Invokes method receiver args g rest m (.error fault m)
  | native {owner selector : String} {native : Native}
      (found : e.natives.get? owner selector = some native) (arity : native.arity = args.length) :
      Invokes method receiver args g rest m ((native.perform e.toWorld receiver args).run m)
  | started {selector : String} {parameters : List Tree} {body : Option Tree} {isNative : Bool}
      {code : Code} {r : EStateM.Result Fault Machine Unit}
      (isMethod : e.program.kind? method = some (.method selector parameters body isNative))
      (compiles : e.program.methodCode method = .ok code)
      (ends : e.toWorld.Started code m.heap.contexts.size
        (e.invoking receiver parameters args m.heap) g
        rest m r) :
      Invokes method receiver args g rest m r

/-- How `dispatch` ends. -/
inductive Dispatches (receiver : ObjectId) (message : String) (args : List ObjectId)
    (start : Option NodeId) (g : Frame) (rest : List Frame) (m : Machine) :
    EStateM.Result Fault Machine Unit → Prop
  | refused {fault : Fault} (unthrown : fault.Unthrown) :
      Dispatches receiver message args start g rest m (.error fault m)
  | answered {object : Object} {method : NodeId} {r : EStateM.Result Fault Machine Unit}
      (known : m.heap.object? receiver = some object)
      (found : e.methodFor object.module message args.length start = some method)
      (ends : e.Invokes method receiver args g rest m r) :
      Dispatches receiver message args start g rest m r
  | fallback {object : Object} {method : NodeId} {r : EStateM.Result Fault Machine Unit}
      (known : m.heap.object? receiver = some object)
      (missing : e.methodFor object.module message args.length start = none)
      (found : e.program.lookupMethod? object.module fallbackSelector 2 = some method)
      (ends : e.Invokes method receiver
        [(m.heap.string message e.core.string).1, (m.heap.string message e.core.string).2.size] g
        rest { m with heap := e.misunderstood message args m.heap } r) :
      Dispatches receiver message args start g rest m r

/-- The contexts of a protected block, as far as they were made. -/
def sheltered (f : Frame) (count : Nat) (h : Heap) : Heap :=
  (List.range count).foldl (fun h _ => (h.newContext (.context f.context)).2) h

/-- How `execute` ends, for an instruction of the frame `f` on top of `rest`. -/
inductive Conduct (f : Frame) (rest : List Frame) (m : Machine) :
    Instruction → EStateM.Result Fault Machine Flow → Prop
  /-- Nothing but the running frame has changed. -/
  | fault {i : Instruction} {fault : Fault} {m' : Machine} (unthrown : fault.Unthrown)
      (heap : m'.heap = m.heap) (tail : m'.frames.tail = rest) :
      Conduct f rest m i (.error fault m')
  | load {name : String} {value : ObjectId} (found : m.heap.lookup f.context name = some value) :
      Conduct f rest m (.load name) (.ok .next { m with frames := f.push value :: rest })
  | bind {name : String} {value : ObjectId} {others : List ObjectId}
      (top : f.operands = value :: others) :
      Conduct f rest m (.store name false)
        (.ok .next { m with
          heap := m.heap.declare f.context name value
          frames := { f with operands := others } :: rest })
  | assign {name : String} {value : ObjectId} {others : List ObjectId} {heap : Heap}
      (top : f.operands = value :: others)
      (found : m.heap.assign f.context name value = (true, heap)) :
      Conduct f rest m (.store name true)
        (.ok .next { m with heap, frames := { f with operands := others } :: rest })
  | push {id : ObjectId} :
      Conduct f rest m (.push id) (.ok .next { m with frames := f.push id :: rest })
  | pop {value : ObjectId} {others : List ObjectId} (top : f.operands = value :: others) :
      Conduct f rest m .pop
        (.ok .next { m with frames := { f with operands := others } :: rest })
  | dup {value : ObjectId} {others : List ObjectId} (top : f.operands = value :: others) :
      Conduct f rest m .dup (.ok .next { m with frames := f.push value :: rest })
  | swap {first second : ObjectId} {others : List ObjectId}
      (top : f.operands = first :: second :: others) :
      Conduct f rest m .swap
        (.ok .next { m with frames := { f with operands := second :: first :: others } :: rest })
  | get {name : String} {receiver value : ObjectId} {object : Object} {others : List ObjectId}
      (top : f.operands = receiver :: others) (known : m.heap.object? receiver = some object)
      (held : object.fields.get? name = some value) :
      Conduct f rest m (.get name)
        (.ok .next { m with frames := { f with operands := value :: others } :: rest })
  | set {name : String} {receiver value old : ObjectId} {object : Object} {others : List ObjectId}
      (top : f.operands = value :: receiver :: others)
      (known : m.heap.object? receiver = some object)
      (held : object.fields.get? name = some old) :
      Conduct f rest m (.set name)
        (.ok .next { m with
          heap := m.heap.putField receiver name value
          frames := { f with operands := others } :: rest })
  | number {module : NodeId} {value : Float} :
      Conduct f rest m (.instantiate module (some (.number value)))
        (.ok .next { m with
          heap := (m.heap.number value module).2
          frames := f.push (m.heap.number value module).1 :: rest })
  | string {module : NodeId} {value : String} :
      Conduct f rest m (.instantiate module (some (.string value)))
        (.ok .next { m with
          heap := (m.heap.string value module).2
          frames := f.push (m.heap.string value module).1 :: rest })
  | collection {module : NodeId} {count : Nat} (enough : count ≤ f.operands.length) :
      Conduct f rest m (.instantiate module (some (.collection count)))
        (.ok .next { m with
          heap := (m.heap.allocate
            { module, inner := some (.collection (f.operands.take count).reverse) }).2
          frames := (f.dropping count).push m.heap.size :: rest })
  | make {module : NodeId} :
      Conduct f rest m (.instantiate module none)
        (.ok .next { m with
          heap := (m.heap.allocate (e.instanceIn f.context module)).2
          frames := f.push m.heap.size :: rest })
  | init {arity : Nat} {start : NodeId} {initFields : Bool} {receiver : ObjectId}
      {others : List ObjectId} {m' : Machine} (top : f.operands = receiver :: others)
      (enough : arity ≤ others.length)
      (ends : e.Constructs receiver start (others.take arity).reverse initFields
        (f.dropping (arity + 1)) rest { m with frames := f.dropping (arity + 1) :: rest }
        (.ok () m')) :
      Conduct f rest m (.init arity start initFields) (.ok .next m')
  | initFails {arity : Nat} {start : NodeId} {initFields : Bool} {receiver : ObjectId}
      {others : List ObjectId} {fault : Fault} {m' : Machine}
      (top : f.operands = receiver :: others) (enough : arity ≤ others.length)
      (ends : e.Constructs receiver start (others.take arity).reverse initFields
        (f.dropping (arity + 1)) rest { m with frames := f.dropping (arity + 1) :: rest }
        (.error fault m')) :
      Conduct f rest m (.init arity start initFields) (.error fault m')
  | call {message : String} {arity : Nat} {start : Option NodeId} {receiver : ObjectId}
      {others : List ObjectId} {m' : Machine} (enough : arity ≤ f.operands.length)
      (top : f.operands.drop arity = receiver :: others)
      (ends : e.Dispatches receiver message (f.operands.take arity).reverse start
        (f.dropping (arity + 1)) rest { m with frames := f.dropping (arity + 1) :: rest }
        (.ok () m')) :
      Conduct f rest m (.call message arity start) (.ok .next m')
  | callFails {message : String} {arity : Nat} {start : Option NodeId} {receiver : ObjectId}
      {others : List ObjectId} {fault : Fault} {m' : Machine} (enough : arity ≤ f.operands.length)
      (top : f.operands.drop arity = receiver :: others)
      (ends : e.Dispatches receiver message (f.operands.take arity).reverse start
        (f.dropping (arity + 1)) rest { m with frames := f.dropping (arity + 1) :: rest }
        (.error fault m')) :
      Conduct f rest m (.call message arity start) (.error fault m')
  | inherits {module : NodeId} {value : ObjectId} {object : Object} {others : List ObjectId}
      (top : f.operands = value :: others) (known : m.heap.object? value = some object) :
      Conduct f rest m (.inherits module)
        (.ok .next { m with
          frames := { f with
            operands := .ofBool (e.program.inherits object.module module) :: others } :: rest })
  | jump {count : Nat} {condition : ObjectId} {others : List ObjectId} (taken : Bool)
      (top : f.operands = condition :: others) :
      Conduct f rest m (.conditionalJump count)
        (.ok .next { m with
          frames := { f with
            operands := others, pc := if taken then f.pc + count else f.pc } :: rest })
  | branch {thenBranch elseBranch : Code} {condition : Bool} {others : List ObjectId}
      (top : f.operands = .ofBool condition :: others) :
      Conduct f rest m (.ifThenElse thenBranch elseBranch)
        (.ok .next { m with
          heap := (m.heap.newContext (.context f.context)).2
          frames := { code := if condition then thenBranch else elseBranch
                      context := m.heap.contexts.size }
            :: (f.dropping 1).resuming [.result] :: rest })
  | branchFull {thenBranch elseBranch : Code} :
      Conduct f rest m (.ifThenElse thenBranch elseBranch)
        (.error (.stackOverflow e.maxFrames) { m with
          heap := (m.heap.newContext (.context f.context)).2
          frames := (f.dropping 1).resuming [.result] :: rest })
  | protect {body handler always : Code} :
      Conduct f rest m (.tryCatchAlways body handler always)
        (.ok .next { m with
          heap := sheltered f 3 m.heap
          frames := { code := body, context := m.heap.contexts.size + 2 }
            :: { code := handler, context := m.heap.contexts.size + 1, resume := [.exception] }
            :: { code := always, context := m.heap.contexts.size, resume := Interruption.all }
            :: f.resuming [.result] :: rest })
  | protectFull {body handler always : Code} (count : Nat) (few : count < 3) :
      Conduct f rest m (.tryCatchAlways body handler always)
        (.error (.stackOverflow e.maxFrames) { m with
          heap := sheltered f (count + 1) m.heap
          frames := ([{ code := always, context := m.heap.contexts.size
                        resume := Interruption.all : Frame },
                      { code := handler, context := m.heap.contexts.size + 1
                        resume := [.exception] }].take count).reverse
            ++ f.resuming [.result] :: rest })
  | interrupt {kind : Interruption} {value : ObjectId} {others : List ObjectId}
      (top : f.operands = value :: others) :
      Conduct f rest m (.interrupt kind)
        (.ok (.interrupt kind value) { m with frames := { f with operands := others } :: rest })
  | resume {kind : Interruption} {value : ObjectId} {others : List ObjectId}
      (pending : f.pending = some kind) (top : f.operands = value :: others) :
      Conduct f rest m .resumeInterruption
        (.ok (.interrupt kind value) { m with frames := { f with operands := others } :: rest })

-- ============================================================== steps

/-- The exception that `exceptionOf` makes of a fault, and the machine in which
it is raised. -/
inductive Raises (m : Machine) : Fault → ObjectId → Machine → Prop
  | thrown {id : ObjectId} : Raises m (.thrown id) id m
  | made {fault : Fault} (unthrown : fault.Unthrown) :
      Raises m fault m.heap.size { m with
        heap := e.toWorld.withMessage e.core.evaluationError fault.message m.heap }

/-- How `interrupt` ends: frames are left until one accepts the interruption, if
any does. -/
inductive Unwinds (kind : Interruption) (value : ObjectId) (m : Machine) :
    EStateM.Result Failure Machine Unit → Prop
  | caught {g : Frame} {below : List Frame} (unwinds : unwind kind m.frames.tail = g :: below) :
      Unwinds kind value m (.ok () { m with frames := g.push value :: below })
  | uncaught {failure : Failure} (unwinds : unwind kind m.frames.tail = []) :
      Unwinds kind value m (.error failure { m with frames := [] })

/-- How `step` ends, taken by the frame `f` on top of `rest`. -/
inductive Steps (f : Frame) (rest : List Frame) (m : Machine) :
    EStateM.Result Failure Machine Unit → Prop
  | done (ended : f.code[f.pc]? = none) : Steps f rest m (.ok () { m with frames := rest })
  | next {i : Instruction} {m' : Machine} (instruction : f.code[f.pc]? = some i)
      (does : e.Conduct f.next rest { m with frames := f.next :: rest } i (.ok .next m')) :
      Steps f rest m (.ok () m')
  | leaves {i : Instruction} {kind : Interruption} {value : ObjectId} {m' : Machine}
      {r : EStateM.Result Failure Machine Unit} (instruction : f.code[f.pc]? = some i)
      (does : e.Conduct f.next rest { m with frames := f.next :: rest } i
        (.ok (.interrupt kind value) m'))
      (ends : Unwinds kind value m' r) : Steps f rest m r
  | raises {i : Instruction} {fault : Fault} {value : ObjectId} {m' m'' : Machine}
      {r : EStateM.Result Failure Machine Unit} (instruction : f.code[f.pc]? = some i)
      (does : e.Conduct f.next rest { m with frames := f.next :: rest } i (.error fault m'))
      (raised : e.Raises m' fault value m'') (ends : Unwinds .exception value m'' r) :
      Steps f rest m r

end Engine

end ObjectMachine
