/-
The instructions of the stack machine. Code is a list of them; branches
and protected blocks are code inside an instruction, run in a frame of
their own.
-/
import ObjectMachine.Tree.Kind

namespace ObjectMachine

/-- The identity of an object on the heap. -/
abbrev ObjectId := Nat

namespace ObjectId

/-! The first identities belong to the objects that every heap starts with. -/

def null : ObjectId := 0

def true : ObjectId := 1

def false : ObjectId := 2

/-- What sentences without a value of their own answer. -/
def void : ObjectId := 3

def ofBool (value : Bool) : ObjectId := if value then ObjectId.true else ObjectId.false

def text (id : ObjectId) : String :=
  if id = null then "null"
  else if id = ObjectId.true then "true"
  else if id = ObjectId.false then "false"
  else if id = void then "void"
  else "@" ++ toString id

end ObjectId

/-- The ways in which a frame is left: a method returns, an exception is
thrown, or a nested block ends with its value. -/
inductive Interruption where
  | «return»
  | exception
  | result
deriving Repr, DecidableEq

/-- Every kind of interruption. -/
def Interruption.all : List Interruption := [.result, .return, .exception]

def Interruption.text : Interruption → String
  | .return => "return"
  | .exception => "exception"
  | .result => "result"

/-- The inner value of a primitive object. A collection takes its elements
off the operand stack, the first one from furthest below. -/
inductive Primitive where
  | number (value : Float)
  | string (value : String)
  | collection (count : Nat)
deriving Repr

/-- One instruction. -/
inductive Instruction where
  /-- Push what a name is bound to. -/
  | load (name : String)
  /-- Pop a value and bind it: to the nearest binding of the name there is,
  or to a new one in the current context. -/
  | store (name : String) (lookup : Bool)
  | push (id : ObjectId)
  | pop
  | dup
  | swap
  /-- Pop an object and push its field. -/
  | get (field : String)
  /-- Pop a value, then an object, and set the object's field. -/
  | set (field : String)
  /-- Push a new instance, or the shared one of a number or string. -/
  | instantiate (module : NodeId) (value : Option Primitive)
  /-- Pop an object, then arguments, and construct the object as an instance
  of `start`. -/
  | init (arity : Nat) (start : NodeId) (initFields : Bool)
  /-- Pop arguments, then a receiver, and send the message. A start restricts
  the lookup to the modules after it. -/
  | call (message : String) (arity : Nat) (start : Option NodeId)
  /-- Pop an object and push whether its module inherits from another. -/
  | inherits (module : NodeId)
  /-- Pop a boolean and, if it is false, skip instructions. -/
  | conditionalJump (count : Nat)
  /-- Pop a boolean and run one of two branches. -/
  | ifThenElse (thenBranch elseBranch : List Instruction)
  /-- Run code with a handler for its exceptions and a block that runs
  however it ends. -/
  | tryCatchAlways (body handler always : List Instruction)
  /-- Pop a value and leave frames with it. -/
  | interrupt (kind : Interruption)
  /-- Pop a value and leave the frame as it was going to be left. -/
  | resumeInterruption
deriving Repr

/-- A list of instructions. -/
abbrev Code := List Instruction

/-- Code that is skipped when the boolean on the stack is false. -/
def Code.guarded (code : Code) : Code := .conditionalJump code.length :: code

end ObjectMachine
