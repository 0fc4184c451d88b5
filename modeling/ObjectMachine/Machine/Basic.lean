/-
The state of an evaluation and the actions on it.

A `World` is what an evaluation reads and never changes: the program, the
library modules the machine itself needs, and the limit on frames. The
`Machine` is what changes. An `Action` changes the machine and may fault;
what it had changed before the fault stays changed.
-/
import ObjectMachine.Machine.Frame

namespace ObjectMachine

/-- The library modules that the machine itself instantiates. -/
structure CoreModules where
  object : NodeId
  boolean : NodeId
  number : NodeId
  string : NodeId
  list : NodeId
  evaluationError : NodeId
deriving Repr, DecidableEq

/-- What an evaluation runs in. -/
structure World where
  program : Program
  core : CoreModules
  maxFrames : Nat

/-- How far an evaluation has got: its objects, its frames with the running
one first, and the lines printed. -/
structure Progress where
  heap : Heap
  frames : List Frame := []
  console : Array String := #[]

/-- An evaluation. What is `kept` belongs to native methods that a host adds to
the library's: one of them may store a copy of the `Progress` it runs in
(`Natives.keepProgress`), and the host finds it here when the evaluation has
gone on. The machine does not read it, and no method of `Natives.core` reads or
writes it. -/
structure Machine extends Progress where
  kept : Option Progress := none

/-- An action on the machine, which may fault. -/
abbrev Action := EStateM Fault Machine

namespace World

/-- Finds the library modules that the machine needs; the error names the
first that is missing. -/
def core? (program : Program) : Except String CoreModules := do
  let find (name : String) : Except String NodeId :=
    match program.entity? name with
    | some id => .ok id
    | none => .error name
  let object ← find CoreNames.objectClass
  let boolean ← find CoreNames.booleanClass
  let number ← find CoreNames.numberClass
  let string ← find CoreNames.stringClass
  let list ← find CoreNames.listClass
  let evaluationError ← find CoreNames.evaluationError
  return { object, boolean, number, string, list, evaluationError }

/-- The heap an evaluation starts with. -/
def initialHeap (w : World) : Heap :=
  .initial w.core.object w.core.boolean w.core.object

-- ====================================================== texts of objects

/-- The qualified name of an object's module. -/
def className (w : World) (h : Heap) (id : ObjectId) : String :=
  match h.object? id with
  | some object => w.program.qualifiedName object.module
  | none => id.text

/-- A class name with its article. -/
def withArticle (name : String) : String :=
  let vowel := match name.toList.head? with
    | some c => "AEIOU".toList.contains c
    | none => false
  (if vowel then "an " else "a ") ++ name

/-- An object without inner value: a named object by its name, any other by
its class. -/
def instanceText (w : World) (module : NodeId) : String :=
  match w.program.kind? module with
  | some (.singleton (some name) _ _ _ _ _) => name
  | _ => withArticle ((dotted (w.program.qualifiedName module)).getLastD "")

/-- The text of an object, collections with their elements in order. There is
none where the texts of elements go on for ever, and nothing ends them: a
collection may be inside itself. -/
def display? (w : World) (h : Heap) (id : ObjectId) : Option String :=
  if id ≤ ObjectId.void then some id.text
  else
    match h.object? id with
    | none => some id.text
    | some object =>
      match object.inner with
      | some (.number value) => some (Number.display value)
      | some (.string value) => some value
      | some (.collection elements) => do
        let items ← elements.mapM (w |>.display? h)
        return "[" ++ String.intercalate ", " items ++ "]"
      | none => some (w.instanceText object.module)
partial_fixpoint

/-- The text of an object, in messages and in printed lines. What has none
would be shown by its identity, if `display?` came to an end there. -/
def display (w : World) (h : Heap) (id : ObjectId) : String := (w.display? h id).getD id.text

/-- The message an exception carries. -/
def exceptionMessage (w : World) (h : Heap) (exception : ObjectId) : String :=
  match (h.object? exception).bind fun object => object.fields.get? "message" with
  | some message => if message = ObjectId.null then "" else w.display h message
  | none => ""

end World

-- ====================================================== the top frame

namespace Action

/-- The running frame. -/
def frame : Action Frame := fun m =>
  match m.frames with
  | frame :: _ => .ok frame m
  | [] => .error .noActiveFrame m

/-- Changes the running frame, if it can be done. -/
def onFrame {α : Type} (f : Frame → Option (α × Frame)) : Action α := fun m =>
  match m.frames with
  | frame :: rest =>
    match f frame with
    | some (value, frame) => .ok value { m with frames := frame :: rest }
    | none => .error .stackUnderflow m
  | [] => .error .noActiveFrame m

/-- Pops the top operand. -/
def pop : Action ObjectId := onFrame Frame.pop?

/-- Pops operands, the one pushed first at the front. -/
def popMany (count : Nat) : Action (List ObjectId) := onFrame fun f => f.popMany? count

/-- Pushes an operand. -/
def push (value : ObjectId) : Action Unit := onFrame fun f => some ((), f.push value)

/-- The top operand. -/
def peek : Action ObjectId := onFrame fun f => f.operands.head?.map fun value => (value, f)

/-- Skips instructions. -/
def skip (count : Nat) : Action Unit := onFrame fun f => some ((), { f with pc := f.pc + count })

/-- Makes the running frame wait for an interruption. -/
def await (kind : Interruption) : Action Unit := onFrame fun f => some ((), f.resuming [kind])

/-- Starts a frame, unless there are too many. -/
def pushFrame (w : World) (frame : Frame) : Action Unit := fun m =>
  if m.frames.length < w.maxFrames then .ok () { m with frames := frame :: m.frames }
  else .error (.stackOverflow w.maxFrames) m

/-- Runs code in a new frame whose return comes back to the running one. -/
def pushReturning (w : World) (code : Code) (context : ContextId) : Action Unit := do
  await .return
  pushFrame w { code, context }

-- ============================================================ the heap

/-- Changes the heap. -/
def onHeap {α : Type} (f : Heap → α × Heap) : Action α := fun m =>
  let (value, heap) := f m.heap
  .ok value { m with heap }

/-- Reads the heap. -/
def heap : Action Heap := fun m => .ok m.heap m

def newContext (parent : Link) : Action ContextId := onHeap fun h => h.newContext parent

def declare (context : ContextId) (name : String) (value : ObjectId) : Action Unit :=
  onHeap fun h => ((), h.declare context name value)

def newNumber (w : World) (value : Float) : Action ObjectId :=
  onHeap fun h => h.number value w.core.number

def newString (w : World) (value : String) : Action ObjectId :=
  onHeap fun h => h.string value w.core.string

def newList (w : World) (elements : List ObjectId) : Action ObjectId :=
  onHeap fun h => h.allocate { module := w.core.list, inner := some (.collection elements) }

/-- A line for the console. -/
def print (line : String) : Action Unit := fun m =>
  .ok () { m with console := m.console.push line }

/-- An object that exists. -/
def object (id : ObjectId) : Action Object := do
  match (← heap).object? id with
  | some object => pure object
  | none => throw (.unknownObject id)

/-- The field of an object. -/
def field (w : World) (receiver : ObjectId) (name : String) : Action ObjectId := do
  let object ← object receiver
  match object.fields.get? name with
  | some value => pure value
  | none => throw (.missingField (w.program.qualifiedName object.module) name)

/-- Sets a field that the object has. -/
def setField (w : World) (receiver : ObjectId) (name : String) (value : ObjectId) :
    Action Unit := do
  let _ ← field w receiver name
  onHeap fun h => ((), h.putField receiver name value)

/-- Gives an object fields, all of them null. -/
def clearFields (receiver : ObjectId) (names : List String) : Action Unit := do
  let _ ← object receiver
  onHeap fun h => ((), names.foldl (fun h name => h.putField receiver name .null) h)

/-- A new object with every field null but its message. -/
def newWithMessage (w : World) (module : NodeId) (message : String) : Action ObjectId := do
  let id ← onHeap fun h => h.allocate { module }
  let message ← newString w message
  clearFields id ((w.program.fieldsOf module).filterMap Tree.name?)
  onHeap fun h => ((), h.putField id "message" message)
  return id

/-- A new exception of a class, given by name. -/
def newException (w : World) (className message : String) : Action ObjectId :=
  match w.program.entity? className with
  | some module => newWithMessage w module message
  | none => throw (.missingModule className)

-- ====================================================== inner values

/-- The fault of an object that is not what is needed. -/
def mismatch {α : Type} (w : World) (expected : String) (got : ObjectId) : Action α := do
  throw (.typeMismatch expected (w.display (← heap) got))

/-- The value inside an object. -/
def inner (id : ObjectId) : Action (Option Inner) := do
  return ((← heap).object? id).bind Object.inner

def number (w : World) (id : ObjectId) : Action Float := do
  match (← inner id) with
  | some (.number value) => pure value
  | _ => mismatch w "Number" id

def string (w : World) (id : ObjectId) : Action String := do
  match (← inner id) with
  | some (.string value) => pure value
  | _ => mismatch w "String" id

def list (w : World) (id : ObjectId) : Action (List ObjectId) := do
  match (← inner id) with
  | some (.collection elements) => pure elements
  | _ => mismatch w "List" id

def boolean (w : World) (id : ObjectId) : Action Bool :=
  if id = ObjectId.true then pure true
  else if id = ObjectId.false then pure false
  else mismatch w "Boolean" id

/-- Adds an element to the end of a list. -/
def listAdd (w : World) (receiver element : ObjectId) : Action Unit := do
  let elements ← list w receiver
  onHeap fun h => ((), h.updateObject receiver fun object =>
    { object with inner := some (.collection (elements ++ [element])) })

/-- The text of an object. -/
def display (w : World) (id : ObjectId) : Action String := do
  return w.display (← heap) id

end Action

end ObjectMachine
