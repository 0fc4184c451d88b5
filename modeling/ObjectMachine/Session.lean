/-
Running programs and tests.

An evaluation starts by setting up the globals. Programs run one after
another on the same evaluation; every test runs on a copy of its own, so
that no test sees what another one did.
-/
import ObjectMachine.Library.Natives
import ObjectMachine.Library.Prelude
import ObjectMachine.Machine.Run
import ObjectMachine.Program.Link
import ObjectMachine.Tree.Defaults

namespace ObjectMachine

/-- Fills in defaults and links, after the library if it is wanted. -/
def linkPackages (withLibrary : Bool) (packages : List Tree) : Except LinkError Program :=
  Program.link none (Tree.fillAll ((if withLibrary then Prelude.forest else []) ++ packages))

/-- The frames an evaluation may have unless it is told otherwise. -/
def defaultMaxFrames : Nat := 1024

namespace Engine

/-- An engine for a program, if it has the modules the machine needs. -/
def create (program : Program) (natives : Natives) (maxFrames : Nat) : Except Failure Engine :=
  match World.core? program with
  | .ok core => .ok { program, core, maxFrames, natives }
  | .error name => .error (.unknownEntity name)

variable (e : Engine)

-- ============================================================ globals

/-- What stands directly in packages. -/
def packageMembers : List NodeId :=
  (e.program.descendantIds e.program.rootId).filter fun id =>
    ((e.program.parent? id).bind e.program.kind?).any Kind.isPackage

/-- The named objects of packages. -/
def namedObjects : List NodeId :=
  e.packageMembers.filter (e.program.isKind fun kind => match kind with
    | .singleton (some _) _ _ _ _ _ => true
    | _ => false)

/-- The variables of packages. -/
def packageVariables : List NodeId :=
  e.packageMembers.filter (e.program.isKind Kind.isVariable)

/-- Makes a named object and binds it to its qualified name. -/
def declareObject (id : NodeId) : Action Unit := do
  let object ← Action.onHeap fun h => h.allocate { module := id }
  Action.declare rootContext (e.program.qualifiedName id) object

/-- Sets up the globals: all named objects exist before the first of them is
initialized, and variables follow in order. -/
def initializeGlobals (steps : Nat) : Run Unit := do
  let objects := e.namedObjects
  objects.forM fun id => Run.act (e.declareObject id)
  let code ← Run.compiled (e.program.globalsCode objects e.packageVariables)
  let _ ← e.runCode steps code rootContext
  return ()

/-- A new evaluation with its globals set up. -/
def start (steps : Nat) : EStateM.Result Stop Machine Unit :=
  e.initializeGlobals steps { heap := e.initialHeap }

-- =========================================================== programs

/-- Runs a program, given by name, and answers the value of its last
sentence. -/
def runProgram (steps : Nat) (name : String) : Run ObjectId := do
  match (e.program.entity? name).bind e.program.kind? with
  | some (.program _ body) =>
    let code ← Run.compiled (e.program.blockCode body)
    let context ← Run.act (Action.newContext (.context rootContext))
    e.runCode steps code context
  | _ => Run.fail (.unknownEntity name)

-- ============================================================== tests

/-- Every test, in declaration order. -/
def tests : List NodeId :=
  (e.program.descendantIds e.program.rootId).filter (e.program.isKind Kind.isTest)

/-- Runs the fixtures among the members of a describe on its instance. -/
def runFixtures (steps : Nat) (describeInstance : ObjectId) : List Tree → Run Unit
  | [] => pure ()
  | member :: rest => do
    match member.kind with
    | .fixture body =>
      let code ← Run.compiled (e.program.blockCode body)
      let context ← Run.act (Action.newContext (.object describeInstance))
      let _ ← e.runCode steps code context
    | _ => pure ()
    runFixtures steps describeInstance rest

/-- An instance of a describe, its fixtures run. -/
def describeInstance (steps : Nat) (describe : NodeId) : Run ObjectId := do
  let code : Code := [.instantiate describe none, .init 0 describe true]
  let created ← e.runCode steps code rootContext
  e.runFixtures steps created (e.program.membersOf describe)
  return created

/-- Runs a test. The tests of a describe see its fields. -/
def runTest (steps : Nat) (test : NodeId) : Run ObjectId := do
  match e.program.kind? test with
  | some (.test _ body) =>
    let parent ← match (e.program.parent? test).filter (e.program.isKind Kind.isDescribe) with
      | some describe => do
        let created ← e.describeInstance steps describe
        pure (Link.object created)
      | none => pure (Link.context rootContext)
    let context ← Run.act (Action.newContext parent)
    let code ← Run.compiled (e.program.blockCode body)
    e.runCode steps code context
  | _ => Run.fail (.unknownEntity (e.program.qualifiedName test))

end Engine

/-- How a test ended. `printed` holds the lines it wrote. -/
structure TestResult where
  name : String
  failure : Option Failure
  printed : List String

/-- How all tests ended. -/
abbrev TestReport := List TestResult

namespace TestReport

def passed (report : TestReport) : Nat := report.countP fun result => result.failure.isNone

def total (report : TestReport) : Nat := report.length

def isSuccess (report : TestReport) : Bool := report.passed == report.total

end TestReport

/-- Runs tests, each on its own copy of an evaluation. -/
def Engine.runTests (e : Engine) (steps : Nat) (base : Machine) :
    List NodeId → Except Stop TestReport
  | [] => .ok []
  | test :: rest => do
    let result (failure : Option Failure) (m : Machine) : TestResult :=
      { name := e.program.qualifiedName test, failure
        printed := m.console.toList.drop base.console.size }
    let outcome ← match e.runTest steps test base with
      | .ok _ m => .ok (result none m)
      | .error (.failed failure) m => .ok (result (some failure) m)
      | .error .outOfSteps _ => .error .outOfSteps
    let outcomes ← runTests e steps base rest
    return outcome :: outcomes

end ObjectMachine
