/-
Running code to its end. A run may go on for ever, so it is given a number
of steps; running out of them is an outcome of its own.
-/
import ObjectMachine.Machine.Step

namespace ObjectMachine

/-- Why a run stopped before its end. -/
inductive Stop where
  | failed (failure : Failure)
  | outOfSteps
deriving Repr

/-- A run: it changes the machine and may stop. -/
abbrev Run := EStateM Stop Machine

namespace Run

/-- Stops with a failure. -/
def fail {α : Type} (failure : Failure) : Run α := throw (.failed failure)

/-- Runs one action, a fault of which ends the run. -/
def act {α : Type} (action : Action α) : Run α := fun m =>
  match action m with
  | .ok value m => .ok value m
  | .error fault m => .error (.failed (.fault fault)) m

/-- Code, or the failure that there is none. -/
def compiled (code : Except CompileError Code) : Run Code :=
  match code with
  | .ok code => pure code
  | .error error => fail (.compile error)

end Run

/-- More than `n` elements. -/
def deeperThan {α : Type} : Nat → List α → Bool
  | _, [] => false
  | 0, _ :: _ => true
  | n + 1, _ :: rest => deeperThan n rest

namespace Engine

/-- One step of a run. -/
def stepRun (e : Engine) : Run Unit := fun m =>
  match e.step m with
  | .ok () m => .ok () m
  | .error failure m => .error (.failed failure) m

/-- Steps until no more than `depth` frames are left. -/
def runAbove (e : Engine) (depth : Nat) : Nat → Run Unit
  | 0 => throw .outOfSteps
  | steps + 1 => do
    if deeperThan depth (← get).frames then
      e.stepRun
      runAbove e depth steps
    else pure ()

/-- Steps until no frame is left. -/
def runAll (e : Engine) (steps : Nat) : Run Unit := e.runAbove 0 steps

/-- Leaves the running frame and takes its top operand. -/
def takeResult : Run ObjectId := fun m =>
  match m.frames with
  | [] => .error (.failed (.fault .noActiveFrame)) m
  | frame :: rest =>
    match frame.operands with
    | value :: _ => .ok value { m with frames := rest }
    | [] => .error (.failed (.fault .stackUnderflow)) { m with frames := rest }

/-- Runs code to its end in a context. The value is what the code leaves or
returns: a frame without code holds the place where it arrives. -/
def runCode (e : Engine) (steps : Nat) (code : Code) (context : ContextId) : Run ObjectId := do
  let base := (← get).frames.length
  Run.act (Action.pushFrame e.toWorld { code := [], context, resume := [.result, .return] })
  Run.act (Action.pushFrame e.toWorld { code := code ++ [.interrupt .result], context })
  e.runAbove (base + 1) steps
  takeResult

end Engine

end ObjectMachine
