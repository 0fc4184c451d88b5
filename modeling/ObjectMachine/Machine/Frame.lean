/-
Frames: one activation of code each.

`resume` lists the interruptions a frame waits for. A frame that runs adds
an entry before it starts another frame, and the entry is used up when that
frame hands back its value. A frame that has not started is a handler: the
first interruption it accepts starts it, is kept as pending, and ends its
waiting for others.
-/
import ObjectMachine.Machine.Fault
import ObjectMachine.Machine.Heap

namespace ObjectMachine

/-- An activation of code. The operand on top of the stack comes first. -/
structure Frame where
  code : Code
  context : ContextId
  pc : Nat := 0
  operands : List ObjectId := []
  resume : List Interruption := []
  pending : Option Interruption := none

namespace Frame

/-- A frame that waits for more interruptions. -/
def resuming (f : Frame) (kinds : List Interruption) : Frame :=
  { f with resume := f.resume ++ kinds }

def push (f : Frame) (value : ObjectId) : Frame := { f with operands := value :: f.operands }

/-- Takes the top operand. -/
def pop? (f : Frame) : Option (ObjectId × Frame) :=
  match f.operands with
  | value :: rest => some (value, { f with operands := rest })
  | [] => none

/-- Takes operands, the one pushed first at the front. -/
def popMany? (f : Frame) (count : Nat) : Option (List ObjectId × Frame) :=
  if count ≤ f.operands.length then
    some ((f.operands.take count).reverse, { f with operands := f.operands.drop count })
  else none

/-- Uses up an entry for an interruption, if there is one. -/
def takeResume? (f : Frame) (kind : Interruption) : Option Frame :=
  if kind ∈ f.resume then some { f with resume := f.resume.erase kind } else none

/-- Accepts an interruption that the frame waits for. -/
def receive? (f : Frame) (kind : Interruption) : Option Frame :=
  (f.takeResume? kind).map fun f =>
    if f.pc = 0 then { f with resume := [], pending := some kind } else f

end Frame

/-- Leaves frames until one accepts the interruption; none are left if no
frame does. -/
def unwind (kind : Interruption) : List Frame → List Frame
  | [] => []
  | frame :: rest =>
    match frame.receive? kind with
    | some frame => frame :: rest
    | none => unwind kind rest

end ObjectMachine
