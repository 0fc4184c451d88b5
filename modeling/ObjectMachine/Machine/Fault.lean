/-
What can go wrong. A `Fault` stops one instruction; inside a program it
becomes an exception that the program can catch. A `Failure` ends the
evaluation.
-/
import ObjectMachine.Code.Compile
import ObjectMachine.Number.Shortest

namespace ObjectMachine

/-- Why an instruction cannot be executed. -/
inductive Fault where
  | stackUnderflow
  | noActiveFrame
  | stackOverflow (limit : Nat)
  | unknownName (name : String)
  | unknownObject (id : ObjectId)
  | missingField (module field : String)
  | typeMismatch (expected got : String)
  | divisionByZero
  | indexOutOfRange (index : Float) (size : Nat)
  | messageNotUnderstood (module message : String) (arity : Nat)
  | missingNative (module selector : String)
  | noConstructor (module : String) (arity : Nat)
  | missingModule (name : String)
  | noPendingInterruption
  | compile (error : CompileError)
  /-- An exception of the program, thrown by a native method. -/
  | thrown (exception : ObjectId)
deriving Repr

def Fault.message : Fault → String
  | .stackUnderflow => "operand stack underflow"
  | .noActiveFrame => "no active frame"
  | .stackOverflow limit => "stack overflow: more than " ++ toString limit ++ " frames"
  | .unknownName name => "unknown name `" ++ name ++ "`"
  | .unknownObject id => "unknown object " ++ id.text
  | .missingField module field => module ++ " has no field `" ++ field ++ "`"
  | .typeMismatch expected got => "expected " ++ expected ++ " but got " ++ got
  | .divisionByZero => "division by zero"
  | .indexOutOfRange index size =>
    "index " ++ Number.shortestText index ++ " out of range for size " ++ toString size
  | .messageNotUnderstood module message arity =>
    module ++ " does not understand " ++ message ++ "/" ++ toString arity
  | .missingNative module selector => "no native implementation for " ++ module ++ "." ++ selector
  | .noConstructor module arity =>
    module ++ " has no constructor for " ++ toString arity ++ " arguments"
  | .missingModule name => "no module `" ++ name ++ "`"
  | .noPendingInterruption => "no pending interruption to resume"
  | .compile error => error.message
  | .thrown exception => "exception " ++ exception.text ++ " thrown"

/-- Why an evaluation ended without a value. -/
inductive Failure where
  | unhandledException (module message : String)
  | unhandledInterruption (kind : Interruption)
  | compile (error : CompileError)
  | fault (cause : Fault)
  | unknownEntity (name : String)
deriving Repr

def Failure.message : Failure → String
  | .unhandledException module message => "unhandled " ++ module ++ ": " ++ message
  | .unhandledInterruption kind => "unhandled " ++ kind.text ++ " interruption"
  | .compile error => error.message
  | .fault cause => cause.message
  | .unknownEntity name => "no entity named `" ++ name ++ "`"

end ObjectMachine
