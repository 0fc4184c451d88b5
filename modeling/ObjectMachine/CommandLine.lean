/-
The command line without its input and output: what the arguments ask for,
and what is written and how it ends, given what the files hold.
-/
import ObjectMachine.Code.Listing
import ObjectMachine.Session
import ObjectMachine.Tree.Interchange

namespace ObjectMachine.CommandLine

/-- What is asked for. -/
inductive Command where
  /-- Run a program, given by its qualified name. -/
  | run (program : String)
  /-- Run every test. -/
  | test
  /-- Show the code of a program, a test or the methods of a name. -/
  | dump (entity : String)
deriving Repr

/-- What is asked for and how it is to run. -/
structure Options where
  maxFrames : Nat := defaultMaxFrames
  withLibrary : Bool := true
  command : Command

-- ========================================================== arguments

/-- The options and the files they apply to. -/
structure Arguments where
  files : List String
  options : Options

/-- Files and options in any order, then the command with what it needs. -/
def arguments? : List String → Option Arguments
  | ["run", program] => some ⟨[], { command := .run program }⟩
  | ["test"] => some ⟨[], { command := .test }⟩
  | ["dump", entity] => some ⟨[], { command := .dump entity }⟩
  | "--max-frames" :: count :: rest => do
    let maxFrames ← count.toNat?
    let given ← arguments? rest
    return { given with options.maxFrames := maxFrames }
  | "--no-prelude" :: rest => do
    let given ← arguments? rest
    return { given with options.withLibrary := false }
  | file :: rest => do
    let given ← arguments? rest
    return { given with files := file :: given.files }
  | [] => none

def usage : String :=
  "usage: FILE... [--max-frames N] [--no-prelude] (run PROGRAM | test | dump ENTITY)"

-- ============================================================ outcomes

/-- How it ended. -/
inductive Ending where
  | done
  | testsFailed
  /-- A file that cannot be read, or that holds no trees. -/
  | unreadable (file cause : String)
  /-- Anything else that went wrong, in words. -/
  | failed (message : String)
deriving Repr, DecidableEq

structure Outcome where
  stdout : String := ""
  ending : Ending := .done

/-- The complaint about a file. -/
def unreadableText (file : String) : String := "Error reading file '" ++ file ++ "'"

def Outcome.exitCode (outcome : Outcome) : Nat :=
  match outcome.ending with
  | .done => 0
  | _ => 1

def Outcome.stderr (outcome : Outcome) : String :=
  match outcome.ending with
  | .done => ""
  | .testsFailed => ""
  | .unreadable file cause => unreadableText file ++ ": " ++ cause ++ "\n"
  | .failed message => message ++ "\n"

-- =============================================================== dump

/-- A text split at its last dot. -/
def splitLastDot? (name : String) : Option (String × String) :=
  match (dotted name).reverse with
  | [] => none
  | [_] => none
  | last :: initial => some (joinDots initial.reverse, last)

/-- The listings of all methods of that name among members. -/
def methodListings (p : Program) (selector : String) : List Tree → Except String String
  | [] => .ok ""
  | member :: rest => do
    let listing ←
      if member.kind.isMethod && member.name? == some selector then
        match p.methodCode member.identity with
        | .ok code => pure (p.methodName member.identity ++ ":\n" ++ code.listing)
        | .error error => .error error.message
      else pure ""
    let listings ← methodListings p selector rest
    return listing ++ listings

/-- The code of an entity as text, or why there is none. -/
def dump (p : Program) (entity : String) : Except String String :=
  let missing (name : String) := "no entity named `" ++ name ++ "`"
  let blockListing (body : Tree) := match p.blockCode body with
    | .ok code => .ok code.listing
    | .error error => .error error.message
  match (p.entity? entity).bind p.kind? with
  | some (.program _ body) => blockListing body
  | some (.test _ body) => blockListing body
  | some kind => .error ("cannot dump a " ++ kind.label)
  | none =>
    match splitLastDot? entity with
    | none => .error (missing entity)
    | some (module, selector) =>
      match p.entity? module with
      | none => .error (missing module)
      | some id => do
        let listings ← methodListings p selector (p.membersOf id)
        if listings.isEmpty then
          .error ("no method `" ++ selector ++ "` in `" ++ entity ++ "`")
        else return listings

-- =========================================================== commands

/-- Lines as they are printed. -/
def printed (lines : List String) : String := String.join (lines.map (· ++ "\n"))

/-- The text of what stopped a run. -/
def stopText : Stop → String
  | .failed failure => failure.message
  | .outOfSteps => "out of steps"

/-- Runs a program on a new evaluation. -/
def runProgram (e : Engine) (steps : Nat) (program : String) : Outcome :=
  let failed (stop : Stop) := Ending.failed ("Error running " ++ program ++ ": " ++ stopText stop)
  let run : Run ObjectId := do
    e.initializeGlobals steps
    e.runProgram steps program
  match run { heap := e.initialHeap } with
  | .ok _ m => { stdout := printed m.console.toList }
  | .error stop m => { stdout := printed m.console.toList, ending := failed stop }

/-- The line for a test, if it failed. -/
def failureLine? (result : TestResult) : Option String :=
  result.failure.map fun failure => "FAIL " ++ result.name ++ ": " ++ failure.message

/-- Runs all tests on a new evaluation. -/
def runTests (e : Engine) (steps : Nat) : Outcome :=
  let failed (stop : Stop) := Ending.failed ("Error initializing globals: " ++ stopText stop)
  match e.start steps with
  | .error stop m => { stdout := printed m.console.toList, ending := failed stop }
  | .ok () base =>
    match e.runTests steps base e.tests with
    | .error stop => { ending := failed stop }
    | .ok report =>
      let summary := toString report.passed ++ "/" ++ toString report.total ++ " tests passed"
      { stdout := printed (base.console.toList ++ report.flatMap TestResult.printed
          ++ report.filterMap failureLine? ++ [summary])
        ending := if report.isSuccess then .done else .testsFailed }

/-- Executes the command on a linked program. -/
def execute (options : Options) (steps : Nat) (p : Program) : Outcome :=
  match options.command with
  | .dump entity =>
    match dump p entity with
    | .ok text => { stdout := text }
    | .error cause => { ending := .failed ("Error dumping " ++ entity ++ ": " ++ cause) }
  | .run program =>
    match Engine.create p Natives.core options.maxFrames with
    | .ok e => runProgram e steps program
    | .error failure =>
      { ending := .failed ("Error running " ++ program ++ ": " ++ failure.message) }
  | .test =>
    match Engine.create p Natives.core options.maxFrames with
    | .ok e => runTests e steps
    | .error failure =>
      { ending := .failed ("Error initializing globals: " ++ failure.message) }

/-- The trees of all files in order. A file is its name with its text, or
with the reason why it has none. -/
def readFiles : List (String × Except String String) → Except Ending (List Tree)
  | [] => .ok []
  | (file, .error cause) :: _ => .error (.unreadable file cause)
  | (file, .ok text) :: rest =>
    match Tree.parseForest? text with
    | none => .error (.unreadable file "not a list of package trees")
    | some trees => do
      let more ← readFiles rest
      return trees ++ more

/-- What comes of a command on files. -/
def outcome (options : Options) (steps : Nat) (files : List (String × Except String String)) :
    Outcome :=
  match readFiles files with
  | .error ending => { ending }
  | .ok trees =>
    match linkPackages options.withLibrary trees with
    | .error error => { ending := .failed ("Error linking: " ++ error.message) }
    | .ok p => execute options steps p

end ObjectMachine.CommandLine
