/-
Code with notes on where it comes from.

The machine runs code and knows nothing of the tree it was compiled from.
What a run has to do with the tree is said by notes kept beside the code,
one for each instruction: `Tree.expressionNotes` and its companions follow
the compilation function by function and note, for every load that stands
for a reference, which reference that is.

`Laid p zone code notes` says of code and its notes that the code runs in a
context of the zone: what it binds there belongs there, what it reads,
makes and starts is sited there. It describes code from an instruction on,
to its end, so a frame in the middle of its code is described by what is
left of it.
-/
import Mathlib
import ObjectMachine.Code.Compile
import ObjectMachine.Program.Scope
import ObjectMachine.Proofs.Program.Zones

namespace ObjectMachine

/-- What an instruction comes from. Nested code has notes of its own. -/
inductive Note where
  | plain
  /-- A load that reads what a reference stands for. -/
  | reference (node : NodeId)
  | branches (thenNotes elseNotes : List Note)
  | protection (body handler always : List Note)

namespace Tree

-- ============================================== sentences, expressions

/-- Notes of sentences that `joinSentences` puts together. -/
def joinNotes : List (List Note) → List Note
  | [] => [.plain]
  | notes :: rest => notes ++ rest.flatMap fun next => .plain :: next

mutual

def expressionNotes : Tree → List Note
  | .node id _ (.reference _ _) => [.reference (id.getD 0)]
  | .node _ _ .selfRef => [.plain]
  | .node _ _ (.literal .null) => [.plain]
  | .node _ _ (.literal (.boolean _)) => [.plain]
  | .node _ _ (.literal (.number _)) => [.plain]
  | .node _ _ (.literal (.string _)) => [.plain]
  | .node _ _ (.literal (.collection _ elements)) => argumentsNotes elements ++ [.plain]
  | .node _ _ (.literal (.singleton (.node _ _ (.singleton _ _ args _ _ _)))) =>
    argumentsNotes args ++ [.plain, .plain]
  | .node _ _ (.literal (.singleton _)) => [.plain, .plain]
  | .node _ _ (.send receiver _ args) =>
    expressionNotes receiver ++ argumentsNotes args ++ [.plain]
  | .node _ _ (.superSend args) => [.plain] ++ argumentsNotes args ++ [.plain]
  | .node _ _ (.newInstance _ args) =>
    if Program.hasNamedArguments args then
      [.plain, .plain] ++ namedArgumentsNotes args ++ [.plain, .plain, .plain]
    else argumentsNotes args ++ [.plain, .plain]
  | .node _ _ (.ifElse condition thenBody elseBody) =>
    expressionNotes condition
      ++ [.branches (blockNotes thenBody ++ [.plain]) (optionalBlockNotes elseBody ++ [.plain])]
  | .node _ _ (.tryCatch body catches always) =>
    [.protection (blockNotes body ++ [.plain])
      ([.plain] ++ handlersNotes catches ++ [.plain, .plain])
      ([.plain] ++ optionalBlockNotes always ++ [.plain, .plain, .plain])]
  | _ => []
termination_by structural t => t

def argumentsNotes : List Tree → List Note
  | [] => []
  | arg :: rest => expressionNotes arg ++ argumentsNotes rest

def namedArgumentsNotes : List Tree → List Note
  | [] => []
  | .node _ _ (.namedArgument _ value) :: rest =>
    [.plain] ++ expressionNotes value ++ [.plain] ++ namedArgumentsNotes rest
  | _ :: rest => namedArgumentsNotes rest

def optionalNotes : Option Tree → List Note
  | some value => expressionNotes value
  | none => [.plain]

def sentencesNotes : List Tree → List (List Note)
  | [] => []
  | .node _ _ (.varDecl _ _ value) :: rest =>
    (optionalNotes value ++ [.plain, .plain]) :: sentencesNotes rest
  | .node _ _ (.assignment _ value) :: rest =>
    (expressionNotes value ++ [.plain, .plain]) :: sentencesNotes rest
  | .node _ _ (.returnStmt value) :: rest =>
    (optionalNotes value ++ [.plain]) :: sentencesNotes rest
  | .node _ _ (.throwStmt exception) :: rest =>
    (expressionNotes exception ++ [.plain]) :: sentencesNotes rest
  | sentence :: rest => expressionNotes sentence :: sentencesNotes rest

def blockNotes : Tree → List Note
  | .node _ _ (.block sentences) => joinNotes (sentencesNotes sentences)
  | _ => [.plain]

def optionalBlockNotes : Option Tree → List Note
  | some body => blockNotes body
  | none => [.plain]

def handlersNotes : List Tree → List Note
  | [] => []
  | .node _ _ (.catchClause _ none body) :: rest =>
    [.plain, .plain] ++ blockNotes body ++ [.plain] ++ handlersNotes rest
  | .node _ _ (.catchClause _ (some _) body) :: rest =>
    [.plain, .plain] ++ (.plain :: ([.plain, .plain] ++ blockNotes body ++ [.plain]))
      ++ handlersNotes rest
  | _ :: rest => handlersNotes rest

end

end Tree

-- ==================================================== units of a program

namespace Program

variable (p : Program)

def methodNotes (method : NodeId) : List Note :=
  match p.kind? method with
  | some (.method _ _ (some body) _) => body.blockNotes ++ [.plain, .plain]
  | _ => []

def fieldNotes (field : Tree) : List Note :=
  match field.kind with
  | .field _ _ value => [.plain] ++ Tree.optionalNotes value ++ [.plain]
  | .varDecl _ _ value => [.plain] ++ Tree.optionalNotes value ++ [.plain]
  | _ => []

def baseCallNotes (owner : NodeId) : Option (BaseCall Tree) → List Note
  | some call => Tree.argumentsNotes call.args ++ [.plain, .plain, .plain]
  | none => if (p.superclass? owner).isSome then [.plain, .plain, .plain] else []

def constructorNotes (constructor : NodeId) : List Note :=
  match p.kind? constructor, p.parent? constructor with
  | some (.constructor _ baseCall body), some owner =>
    p.baseCallNotes owner baseCall ++ body.blockNotes ++ [.plain]
  | _, _ => []

def initNotes (start : NodeId) (constructor : Option NodeId) (initFields : Bool) : List Note :=
  (if initFields then (p.initializedFields start).flatMap fieldNotes else [])
    ++ (constructor.map p.constructorNotes).getD [] ++ [.plain, .plain]

/-- The zone of `initCode`: that of the body of its constructor. -/
def initZone (constructor : Option NodeId) : Zone :=
  match constructor.bind p.kind? with
  | some (.constructor _ _ body) => .block body.identity
  | _ => .loose

-- =========================================================== the grammar

variable {p}

/-- The names that a node introduces to the nodes inside (`contribution`). -/
def introducedNames (p : Program) (id : NodeId) : List String :=
  (p.contribution .inherited id).map Prod.fst

/-- The names that may be bound in the context of a block: the `introducedNames`
of the block and of the node it is the body of, and those the machine needs. -/
def MayBind (p : Program) (body : NodeId) (name : String) : Prop :=
  name ∈ p.introducedNames body
    ∨ (∃ above, p.parent? body = some above ∧ name ∈ p.introducedNames above)
    ∨ name ∈ ["", exceptionLocal, previousLocal]

/-- The names that code may bind in the context it runs in. -/
def Binds (p : Program) (name : String) : Zone → Prop
  | .globals => '.' ∈ name.toList
  | .loose => True
  | .handlers _ => name = exceptionLocal
  | .block body => p.MayBind body name

/-- The name that an assignment of the program writes to. -/
def Assigns (p : Program) (name : String) : Prop :=
  ∃ t ∈ p.root.preorder, ∃ place value, t.kind = .assignment place value
    ∧ p.placeName place = .ok name

/-- The name that reads a reference, by `valueName`. -/
def ReadsAs (p : Program) (node : NodeId) (name : String) : Prop :=
  ∃ t, p.tree? node = some t ∧ p.valueName t = .ok name

/-- The body of a constructor. -/
def IsBodyOf (p : Program) (body constructor : NodeId) : Prop :=
  ∃ parameters baseCall block, p.kind? constructor = some (.constructor parameters baseCall block)
    ∧ block.identity = body

/-- The body of a constructor, and the module whose construction it may pass
on to. -/
def Delegates (p : Program) (body start : NodeId) : Prop :=
  ∃ constructor owner, p.IsBodyOf body constructor ∧ p.parent? constructor = some owner
    ∧ (start = owner ∨ p.superclass? owner = some start)

/-- The body of a handler of a protected block, and the name it gives the
exception. -/
def Handles (p : Program) (protection body : NodeId) (name : String) : Prop :=
  p.MayBind body name ∧ ∀ zone, p.Sited zone protection → p.Sited zone body

end Program

/-- Instructions that may stand anywhere. What is instantiated with a value
has a name, and only named objects are constructed by an instruction
alone. -/
def Instruction.Simple (p : Program) : Instruction → Prop
  | .instantiate module (some _) => module < p.size ∧ (p.name? module).isSome
  | .init _ start initFields => initFields = true ∧ p.isKind Kind.isNamedObject start
  | .load _ | .push _ | .pop | .dup | .swap | .get _ | .set _ | .call _ _ _ => True
  | .inherits _ | .resumeInterruption => True
  | _ => False

/-- Code that runs in a zone, with its notes. -/
inductive Laid (p : Program) : Zone → Code → List Note → Prop
  | nil {zone : Zone} : Laid p zone [] []
  | plain {zone : Zone} {i : Instruction} {code : Code} {notes : List Note} (simple : i.Simple p)
      (rest : Laid p zone code notes) : Laid p zone (i :: code) (.plain :: notes)
  | reference {zone : Zone} {node : NodeId} {name : String} {code : Code} {notes : List Note}
      (reads : p.ReadsAs node name) (sited : p.Sited zone node) (rest : Laid p zone code notes) :
      Laid p zone (.load name :: code) (.reference node :: notes)
  | bind {zone : Zone} {name : String} {code : Code} {notes : List Note}
      (binds : p.Binds name zone) (rest : Laid p zone code notes) :
      Laid p zone (.store name false :: code) (.plain :: notes)
  | assign {zone : Zone} {name : String} {code : Code} {notes : List Note}
      (assigns : p.Assigns name) (rest : Laid p zone code notes) :
      Laid p zone (.store name true :: code) (.plain :: notes)
  /-- A new object is constructed at once. -/
  | make {zone : Zone} {module : NodeId} {arity : Nat} {code : Code} {notes : List Note}
      (known : module < p.size) (sited : p.isKind Kind.isAnonymous module → p.Sited zone module)
      (rest : Laid p zone code notes) :
      Laid p zone (.instantiate module none :: .init arity module true :: code)
        (.plain :: .plain :: notes)
  /-- A constructor passes `self` on to another one. -/
  | delegate {body start : NodeId} {arity : Nat} {code : Code} {notes : List Note}
      (delegates : p.Delegates body start) (rest : Laid p (.block body) code notes) :
      Laid p (.block body) (.load "self" :: .init arity start false :: code)
        (.plain :: .plain :: notes)
  | jump {zone : Zone} {count : Nat} {code : Code} {notes : List Note}
      (stays : Laid p zone code notes)
      (skips : Laid p zone (code.drop count) (notes.drop count)) :
      Laid p zone (.conditionalJump count :: code) (.plain :: notes)
  | branch {zone thenZone elseZone : Zone} {thenCode elseCode code : Code}
      {thenNotes elseNotes notes : List Note} (thenInside : p.Inside zone thenZone)
      (thenLaid : Laid p thenZone thenCode thenNotes) (elseInside : p.Inside zone elseZone)
      (elseLaid : Laid p elseZone elseCode elseNotes) (rest : Laid p zone code notes) :
      Laid p zone (.ifThenElse thenCode elseCode :: code) (.branches thenNotes elseNotes :: notes)
  | protect {zone bodyZone handlerZone alwaysZone : Zone} {body handler always code : Code}
      {bodyNotes handlerNotes alwaysNotes notes : List Note} (bodyInside : p.Inside zone bodyZone)
      (bodyLaid : Laid p bodyZone body bodyNotes) (handlerInside : p.Inside zone handlerZone)
      (handlerLaid : Laid p handlerZone handler handlerNotes)
      (alwaysInside : p.Inside zone alwaysZone) (alwaysLaid : Laid p alwaysZone always alwaysNotes)
      (rest : Laid p zone code notes) :
      Laid p zone (.tryCatchAlways body handler always :: code)
        (.protection bodyNotes handlerNotes alwaysNotes :: notes)
  /-- A handler is chosen: from here on its body runs. -/
  | handle {protection body : NodeId} {name : String} {code : Code} {notes : List Note}
      (handles : p.Handles protection body name) (rest : Laid p (.block body) code notes) :
      Laid p (.handlers protection) (.store name false :: code) (.plain :: notes)
  /-- What follows an interruption is reached by a jump, if at all. -/
  | leave {zone : Zone} {kind : Interruption} {code : Code} {notes : List Note} (after : Zone)
      (rest : Laid p after code notes) : Laid p zone (.interrupt kind :: code) (.plain :: notes)

/-- `Laid` has a note for every instruction. -/
theorem Laid.length_eq {p : Program} {zone : Zone} {code : Code} {notes : List Note}
    (h : Laid p zone code notes) : code.length = notes.length := by
  induction h with
  | nil => rfl
  | _ => simp_all

-- ======================================================= pieces of code

/-- A piece of code that can be followed by any other code of the zone. -/
def Program.Lays (p : Program) (zone : Zone) (code : Code) (notes : List Note) : Prop :=
  ∀ rest restNotes, Laid p zone rest restNotes → Laid p zone (code ++ rest) (notes ++ restNotes)

namespace Program.Lays

variable {p : Program} {zone : Zone} {code more : Code} {notes moreNotes : List Note}

theorem nil : p.Lays zone [] [] := fun _ _ h => h

theorem append (h : p.Lays zone code notes) (h' : p.Lays zone more moreNotes) :
    p.Lays zone (code ++ more) (notes ++ moreNotes) := by
  intro rest restNotes hrest
  rw [List.append_assoc, List.append_assoc]
  exact h _ _ (h' _ _ hrest)

theorem plain {i : Instruction} (h : i.Simple p) : p.Lays zone [i] [.plain] :=
  fun _ _ hrest => .plain h hrest

theorem laid (h : p.Lays zone code notes) : Laid p zone code notes := by
  simpa using h [] [] .nil

theorem length_eq (h : p.Lays zone code notes) : code.length = notes.length := h.laid.length_eq

/-- Code that `Lays` and ends in an interruption is `Laid`. -/
theorem leave (h : p.Lays zone code notes) (kind : Interruption) :
    Laid p zone (code ++ [.interrupt kind]) (notes ++ [.plain]) :=
  h _ _ (.leave zone .nil)

end Program.Lays

end ObjectMachine
