/-
Code as text, one instruction to a line. The code inside an instruction
follows it, labelled and indented.
-/
import ObjectMachine.Code.Instruction
import ObjectMachine.Number.Shortest
import ObjectMachine.Text.Quoted

namespace ObjectMachine

def Primitive.text : Primitive → String
  | .number value => Number.shortestText value
  | .string value => Text.quoted value
  | .collection count => "[" ++ toString count ++ "]"

namespace Instruction

/-- The number of instructions in a nested list. -/
def lengthText (code : Code) : String := " [" ++ toString code.length ++ "]"

/-- A module, by its identity. -/
def moduleText (module : NodeId) : String := "#" ++ toString module

/-- An instruction on one line. -/
def text : Instruction → String
  | .load name => "Load " ++ name
  | .store name lookup => "Store " ++ name ++ (if lookup then " ^" else "")
  | .push id => "Push " ++ id.text
  | .pop => "Pop"
  | .dup => "Dup"
  | .swap => "Swap"
  | .get field => "Get " ++ field
  | .set field => "Set " ++ field
  | .instantiate module value =>
    "Instantiate " ++ moduleText module ++ (value.map fun v => " " ++ v.text).getD ""
  | .init arity start initFields =>
    "Init " ++ toString arity ++ " " ++ moduleText start ++ (if initFields then " fields" else "")
  | .call message arity start =>
    "Call " ++ message ++ "/" ++ toString arity
      ++ (start.map fun module => " after " ++ moduleText module).getD ""
  | .inherits module => "Inherits " ++ moduleText module
  | .conditionalJump count => "ConditionalJump +" ++ toString count
  | .ifThenElse thenBranch elseBranch =>
    "IfThenElse" ++ lengthText thenBranch ++ lengthText elseBranch
  | .tryCatchAlways body handler always =>
    "TryCatchAlways" ++ lengthText body ++ lengthText handler ++ lengthText always
  | .interrupt kind => "Interrupt " ++ kind.text
  | .resumeInterruption => "ResumeInterruption"

end Instruction

namespace Code

/-- A number right-aligned in four columns. -/
def column (n : Nat) : String :=
  let digits := toString n
  String.ofList (List.replicate (4 - digits.length) ' ') ++ digits

mutual

/-- The lines of code from position `pc` on. -/
def linesFrom (indent : String) : Nat → Code → List String
  | _, [] => []
  | pc, instruction :: rest =>
    (indent ++ column pc ++ "  " ++ instruction.text)
      :: (nestedLines indent instruction ++ linesFrom indent (pc + 1) rest)

/-- The lines of the code inside an instruction. -/
def nestedLines (indent : String) : Instruction → List String
  | .ifThenElse thenBranch elseBranch =>
    (indent ++ "      then:") :: linesFrom (indent ++ "  ") 0 thenBranch
      ++ (indent ++ "      else:") :: linesFrom (indent ++ "  ") 0 elseBranch
  | .tryCatchAlways body handler always =>
    (indent ++ "      try:") :: linesFrom (indent ++ "  ") 0 body
      ++ (indent ++ "      catch:") :: linesFrom (indent ++ "  ") 0 handler
      ++ (indent ++ "      always:") :: linesFrom (indent ++ "  ") 0 always
  | _ => []

end

/-- Code as text, every line ended. -/
def listing (code : Code) : String :=
  String.join ((linesFrom "" 0 code).map (· ++ "\n"))

end Code

end ObjectMachine
