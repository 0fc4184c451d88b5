/-
The native methods of the library.

Each gets the receiver and its arguments and pushes one answer. The methods
of lists that call back into the program instead start code that sends
`apply` once for every element the list has at that moment.
-/
import ObjectMachine.Machine.Native
import ObjectMachine.Text.Uppercase

namespace ObjectMachine.Natives

open ObjectMachine.Action

/-- What a native method does with its receiver and arguments. -/
abbrev Behaviour := World → ObjectId → List ObjectId → Action Unit

/-- The argument at a position. -/
def argument (args : List ObjectId) (index : Nat) : Action ObjectId :=
  match args[index]? with
  | some arg => pure arg
  | none => throw .stackUnderflow

def pushBool (value : Bool) : Action Unit := push (.ofBool value)

def pushNumber (w : World) (value : Float) : Action Unit := do
  let id ← newNumber w value
  push id

def pushString (w : World) (value : String) : Action Unit := do
  let id ← newString w value
  push id

/-- Throws a new exception of a class of the library. -/
def throwNew (w : World) (className message : String) : Action Unit := do
  let exception ← newException w className message
  throw (.thrown exception)

-- ============================================================ objects

/-- Two objects are equal when they are the same. -/
def same : Behaviour := fun _ receiver args => do
  let other ← argument args 0
  pushBool (receiver == other)

def identity : Behaviour := fun w receiver _ => pushNumber w (Float.ofNat receiver)

def toText : Behaviour := fun w receiver _ => do
  let text ← display w receiver
  pushString w text

def className : Behaviour := fun w receiver _ => do
  let name := w.className (← heap) receiver
  pushString w name

def messageNotUnderstood : Behaviour := fun w receiver args => do
  let selector ← string w (← argument args 0)
  let arity := (← list w (← argument args 1)).length
  let text ← display w receiver
  throwNew w CoreNames.messageNotUnderstood
    (text ++ " does not understand " ++ selector ++ "/" ++ toString arity)

-- =========================================================== booleans

/-- Both operands are evaluated before the method is called. -/
def booleanOperation (f : Bool → Bool → Bool) : Behaviour := fun w receiver args => do
  let a ← boolean w receiver
  let b ← boolean w (← argument args 0)
  pushBool (f a b)

def negate : Behaviour := fun w receiver _ => do
  let value ← boolean w receiver
  pushBool (!value)

-- ============================================================ numbers

/-- The receiver and the argument as numbers. -/
def operands (w : World) (receiver : ObjectId) (args : List ObjectId) :
    Action (Float × Float) := do
  let a ← number w receiver
  let b ← number w (← argument args 0)
  return (a, b)

def arithmetic (f : Float → Float → Float) : Behaviour := fun w receiver args => do
  let (a, b) ← operands w receiver args
  pushNumber w (f a b)

/-- Operations that need a divisor other than zero. -/
def division (f : Float → Float → Float) : Behaviour := fun w receiver args => do
  let (a, b) ← operands w receiver args
  if b == 0.0 then throw .divisionByZero
  pushNumber w (f a b)

def comparison (f : Float → Float → Bool) : Behaviour := fun w receiver args => do
  let (a, b) ← operands w receiver args
  pushBool (f a b)

def absolute : Behaviour := fun w receiver _ => do
  let value ← number w receiver
  pushNumber w value.abs

-- ============================================================ strings

/-- Anything can be appended to a string: it is appended as text. -/
def concatenate : Behaviour := fun w receiver args => do
  let text ← string w receiver
  let other ← display w (← argument args 0)
  pushString w (text ++ other)

/-- The number of characters. -/
def stringSize : Behaviour := fun w receiver _ => do
  let text ← string w receiver
  pushNumber w (Float.ofNat text.length)

def toUpperCase : Behaviour := fun w receiver _ => do
  let text ← string w receiver
  pushString w (Text.uppercase text)

-- ============================================================== lists

def addElement : Behaviour := fun w receiver args => do
  let element ← argument args 0
  listAdd w receiver element
  push .void

/-- The element at an index, counted from zero. -/
def elementAt : Behaviour := fun w receiver args => do
  let index ← number w (← argument args 0)
  let elements ← list w receiver
  match (Number.natural? index).bind fun n => elements[n]? with
  | some element => push element
  | none => throw (.indexOutOfRange index elements.length)

def listSize : Behaviour := fun w receiver _ => do
  let elements ← list w receiver
  pushNumber w (Float.ofNat elements.length)

def listIsEmpty : Behaviour := fun w receiver _ => do
  let elements ← list w receiver
  pushBool elements.isEmpty

/-- Code that sends `apply` to a block with one element. -/
def applyCode (block element : ObjectId) : Code :=
  [.push block, .push element, .call "apply" 1 none]

/-- Applies a block to every element and answers nothing. -/
def forEach : Behaviour := fun w receiver args => do
  let block ← argument args 0
  let elements ← list w receiver
  let code := elements.flatMap fun element => applyCode block element ++ [.pop]
  pushReturning w (code ++ [.push .void, .interrupt .return]) rootContext

/-- Applies a block to every element and answers the list of results. -/
def mapElements : Behaviour := fun w receiver args => do
  let block ← argument args 0
  let elements ← list w receiver
  let code := elements.flatMap fun element => applyCode block element
  pushReturning w
    (code ++ [.instantiate w.core.list (some (.collection elements.length)), .interrupt .return])
    rootContext

-- ======================================================= known objects

def println : Behaviour := fun w _ args => do
  let line ← display w (← argument args 0)
  print line
  push .void

def assertThat (expected : Bool) (message : String) : Behaviour := fun w _ args => do
  let value ← boolean w (← argument args 0)
  if value == expected then push .void
  else throwNew w CoreNames.assertionException message

def assertEquals : Behaviour := fun w _ args => do
  let expected ← argument args 0
  let actual ← argument args 1
  if expected = actual then push .void
  else
    let expectedText ← display w expected
    let actualText ← display w actual
    throwNew w CoreNames.assertionException
      ("Expected <" ++ expectedText ++ "> but got <" ++ actualText ++ ">")

/-- For hosts that look into an evaluation while it runs. It is no method of the
library, and not in `core`. What is kept is the evaluation as it is while the
method runs: receiver and arguments are off the stack, and there is no answer
yet. -/
def keepProgress : Behaviour := fun _ _ _ => do
  modify fun m => { m with kept := some m.toProgress }
  push .void

-- ========================================================== the table

/-- The native methods of the library. -/
def core : Natives :=
  [ entry CoreNames.objectClass "==" 1 same,
    entry CoreNames.objectClass "identity" 0 identity,
    entry CoreNames.objectClass "toString" 0 toText,
    entry CoreNames.objectClass "className" 0 className,
    entry CoreNames.objectClass "messageNotUnderstood" 2 messageNotUnderstood,
    entry CoreNames.booleanClass "&&" 1 (booleanOperation (· && ·)),
    entry CoreNames.booleanClass "||" 1 (booleanOperation (· || ·)),
    entry CoreNames.booleanClass "negate" 0 negate,
    entry CoreNames.booleanClass "toString" 0 toText,
    entry CoreNames.numberClass "+" 1 (arithmetic (· + ·)),
    entry CoreNames.numberClass "-" 1 (arithmetic (· - ·)),
    entry CoreNames.numberClass "*" 1 (arithmetic (· * ·)),
    entry CoreNames.numberClass "/" 1 (division (· / ·)),
    entry CoreNames.numberClass "%" 1 (division Number.remainder),
    entry CoreNames.numberClass "<" 1 (comparison fun a b => a < b),
    entry CoreNames.numberClass ">" 1 (comparison fun a b => a > b),
    entry CoreNames.numberClass "<=" 1 (comparison fun a b => a ≤ b),
    entry CoreNames.numberClass ">=" 1 (comparison fun a b => a ≥ b),
    entry CoreNames.numberClass "abs" 0 absolute,
    entry CoreNames.numberClass "toString" 0 toText,
    entry CoreNames.stringClass "+" 1 concatenate,
    entry CoreNames.stringClass "size" 0 stringSize,
    entry CoreNames.stringClass "toUpperCase" 0 toUpperCase,
    entry CoreNames.stringClass "toString" 0 toText,
    entry CoreNames.listClass "add" 1 addElement,
    entry CoreNames.listClass "get" 1 elementAt,
    entry CoreNames.listClass "size" 0 listSize,
    entry CoreNames.listClass "isEmpty" 0 listIsEmpty,
    entry CoreNames.listClass "forEach" 1 forEach,
    entry CoreNames.listClass "map" 1 mapElements,
    entry CoreNames.console "println" 1 println,
    entry CoreNames.assertObject "that" 1 (assertThat true "Value was not true"),
    entry CoreNames.assertObject "notThat" 1 (assertThat false "Value was not false"),
    entry CoreNames.assertObject "equals" 2 assertEquals ]
where
  /-- One line of the table. -/
  entry (module selector : String) (arity : Nat) (perform : Behaviour) :
      (String × String) × Native :=
    ((module, selector), { arity, perform })

end ObjectMachine.Natives
