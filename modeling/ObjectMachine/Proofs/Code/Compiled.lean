/-
What the compiler emits, described once.

`Compiled p P zone a b code notes` relates code to the nodes it comes from.
The code turns `a` operands into `b` on top of anything, it runs in a
context of `zone`, and `notes` are its notes. Every piece that means more
than its instructions do says which node it comes from: what reads a
reference, what assigns, what makes an object, what calls `super` or
returns, and what starts nested code.

Where those nodes stand is left to a `Placement`. It assigns zones to nodes
by any rule that agrees with how expressions, sentences and blocks pass
their zones on to their parts.

The one induction over the functions of Code/Compile.lean is the one here,
ending in `Program.expressionCode_compiled` and its companions. What holds
of compiled code is proved by induction over `Compiled`, with a placement
that carries what is known of the nodes: that it keeps to its operands
(`Compiled.emits`), that it keeps to its zones (`Compiled.lays`), what it
does with `self` (`Compiled.stacks`) and what it declares
(`Compiled.declaresNothing`).
-/
import Mathlib
import ObjectMachine.Proofs.Code.Depth
import ObjectMachine.Proofs.Code.Notes
import ObjectMachine.Proofs.Tree.Nodes

namespace ObjectMachine

-- ==================================================== nodes in one piece

/-- The children whose code is part of the code of a node. -/
def Kind.inlined {α : Type} : Kind α → List α
  | .literal (.collection _ elements) => elements
  | .literal (.singleton object) => [object]
  | .singleton _ _ args _ _ _ => args
  | .send receiver _ args => receiver :: args
  | .superSend args => args
  | .newInstance _ args => args
  | .namedArgument _ value => [value]
  | .ifElse condition thenBody elseBody => [condition, thenBody] ++ elseBody.toList
  | .tryCatch body catches always => [body] ++ catches ++ always.toList
  | .catchClause _ _ body => [body]
  | .block sentences => sentences
  | .varDecl _ _ value => value.toList
  | .field _ _ value => value.toList
  | .constructor _ baseCall body => (baseCall.map BaseCall.args).getD [] ++ [body]
  | .assignment _ value => [value]
  | .returnStmt value => value.toList
  | .throwStmt exception => [exception]
  | _ => []

theorem Kind.mem_children_of_mem_inlined {α : Type} {kind : Kind α} {c : α}
    (h : c ∈ kind.inlined) : c ∈ kind.children := by
  cases kind with
  | literal value =>
      cases value <;> simp_all [Kind.inlined, Kind.children, Literal.children]
  | _ => simp_all [Kind.inlined, Kind.children]

theorem Kind.mem_inlined_of_mem_detached {α : Type} {kind : Kind α} {c : α}
    (h : c ∈ kind.detached) : c ∈ kind.inlined := by
  cases kind <;> simp_all [Kind.inlined, Kind.detached]

-- ============================================================ placements

/-- Which nodes may have their code in which zone (`Stands`), which blocks may
run (`Opens`), and which names the code of a zone may declare (`Declares`). -/
structure Placement where
  Stands : Zone → Tree → Prop
  Opens : Tree → Prop
  Declares : Zone → String → Prop
  /-- A sentence or an expression hands its zone on to its `inlined` parts. -/
  part : ∀ {zone : Zone} {t c : Tree},
    Stands zone t → t.kind.isInline → c ∈ t.kind.inlined → Stands zone c
  /-- So does an object to the arguments of its supercall. -/
  detached : ∀ {zone : Zone} {t c : Tree}, Stands zone t → c ∈ t.kind.detached → Stands zone c
  opens : ∀ {zone : Zone} {t : Tree}, Stands zone t → Opens t
  /-- A block starts a zone of its own, and declares its variables there. -/
  sentence : ∀ {t c : Tree} {sentences : List Tree},
    Opens t → t.kind = .block sentences → c ∈ sentences → Stands (.block t.identity) c
  declares : ∀ {t c : Tree} {sentences : List Tree} {name : String},
    Opens t → t.kind = .block sentences → c ∈ sentences → c.kind.isVariable →
      c.name? = some name → Declares (.block t.identity) name

/-- A module that has a name: one of the library (`coreModule`), or one that a
node refers to. -/
inductive Placement.Names (P : Placement) (p : Program) (zone : Zone) : NodeId → Prop
  | core {name : String} {module : NodeId} (known : p.coreModule name = .ok module) :
      P.Names p zone module
  | linked {t reference : Tree} {module : NodeId} (stands : P.Stands zone t)
      (child : reference ∈ t.children) (target : Program.linkedTarget reference = .ok module) :
      P.Names p zone module

/-- The nodes whose code `initCode` runs stand in the zone it runs in. -/
structure Placement.Constructs (P : Placement) (p : Program) (start : NodeId)
    (constructor : Option NodeId) : Prop where
  fields : ∀ field ∈ p.initializedFields start, ∀ c ∈ field.kind.inlined,
    P.Stands (p.initZone constructor) c
  args : ∀ id ∈ constructor, ∀ {parameters : List Tree} {baseCall : Option (BaseCall Tree)}
    {body : Tree}, p.kind? id = some (.constructor parameters baseCall body) →
      ∀ c ∈ (baseCall.map BaseCall.args).getD [], P.Stands (.block body.identity) c
  body : ∀ id ∈ constructor, ∀ {parameters : List Tree} {baseCall : Option (BaseCall Tree)}
    {body : Tree}, p.kind? id = some (.constructor parameters baseCall body) → P.Opens body

/-- The nodes whose code `globalsCode` runs stand in the zone of globals. -/
structure Placement.SetsUp (P : Placement) (p : Program) (objects vars : List NodeId) : Prop where
  named : ∀ id ∈ objects, p.isKind Kind.isNamedObject id
  args : ∀ id ∈ objects, ∀ kind, p.kind? id = some kind → ∀ c ∈ kind.detached, P.Stands .globals c
  values : ∀ id ∈ vars, ∀ {name : String} {constant : Bool} {value : Option Tree},
    p.kind? id = some (.varDecl name constant value) → ∀ c ∈ value.toList, P.Stands .globals c
  declares : ∀ id ∈ vars, P.Declares .globals (p.qualifiedName id)

/-- The zone of a block that may be missing. -/
def Program.bodyZone : Option Tree → Zone
  | some body => .block body.identity
  | none => .loose

/-- Instructions that come from no node in particular: they read, drop and
copy operands, set fields, and send messages to objects. -/
def Instruction.isPlain : Instruction → Bool
  | .load _ | .pop | .dup | .set _ | .call _ _ none | .inherits _ => true
  | _ => false

-- ========================================================= the description

/-- Code of a zone that turns `a` operands into `b`, with its notes: one rule
for each shape that compilation puts together. -/
inductive Compiled (p : Program) (P : Placement) : Zone → Nat → Nat → Code → List Note → Prop
  | nil {zone : Zone} (k : Nat) : Compiled p P zone k k [] []
  | append {zone : Zone} {a b c : Nat} {code more : Code} {notes moreNotes : List Note}
      (first : Compiled p P zone a b code notes) (second : Compiled p P zone b c more moreNotes) :
      Compiled p P zone a c (code ++ more) (notes ++ moreNotes)
  /-- What code does is the same on top of more operands. -/
  | lift {zone : Zone} {a b : Nat} {code : Code} {notes : List Note}
      (below : Compiled p P zone a b code notes) (k : Nat) :
      Compiled p P zone (a + k) (b + k) code notes
  | plain {zone : Zone} {i : Instruction} {takes leaves : Nat}
      (effect : i.effect? = some (takes, leaves)) (plain : i.isPlain) :
      Compiled p P zone takes leaves [i] [.plain]
  /-- One of the objects that every heap starts with. -/
  | push {zone : Zone} {id : ObjectId} (reserved : id ≤ ObjectId.void) :
      Compiled p P zone 0 1 [.push id] [.plain]
  | reference {zone : Zone} {t : Tree} {name : String} (stands : P.Stands zone t)
      (reads : p.valueName t = .ok name) :
      Compiled p P zone 0 1 [.load name] [.reference t.identity]
  | declare {zone : Zone} {name : String} (declares : P.Declares zone name) :
      Compiled p P zone 1 0 [.store name false] [.plain]
  | assign {zone : Zone} {t place value : Tree} {name : String} (stands : P.Stands zone t)
      (kind : t.kind = .assignment place value) (writes : p.placeName place = .ok name) :
      Compiled p P zone 1 0 [.store name true] [.plain]
  /-- A new object that stands for a value. -/
  | value {zone : Zone} {module : NodeId} {value : Primitive} {takes : Nat}
      (names : P.Names p zone module)
      (effect : (Instruction.instantiate module (some value)).effect? = some (takes, 1)) :
      Compiled p P zone takes 1 [.instantiate module (some value)] [.plain]
  /-- A new instance of a module that has a name. -/
  | construct {zone : Zone} {module : NodeId} (names : P.Names p zone module) (arity : Nat) :
      Compiled p P zone arity 1 [.instantiate module none, .init arity module true]
        [.plain, .plain]
  /-- The object that a literal describes. -/
  | object {zone : Zone} {t : Tree} (stands : P.Stands zone t) (arity : Nat) :
      Compiled p P zone arity 1 [.instantiate t.identity none, .init arity t.identity true]
        [.plain, .plain]
  /-- A named object is there already. -/
  | setUp {zone : Zone} {object : NodeId} (named : p.isKind Kind.isNamedObject object)
      (arity : Nat) : Compiled p P zone (arity + 1) 1 [.init arity object true] [.plain]
  /-- A constructor passes `self` on to another one. -/
  | delegate {body start : NodeId} (delegates : p.Delegates body start) (arity : Nat) :
      Compiled p P (.block body) arity 1 [.load "self", .init arity start false] [.plain, .plain]
  /-- A call that goes to `super`: the receiver is `self`. -/
  | superSend {zone : Zone} {t : Tree} {args : List Tree} {message : String} {owner : NodeId}
      {code : Code} {notes : List Note} (stands : P.Stands zone t) (kind : t.kind = .superSend args)
      (method : p.superMethod t.identity = .ok (message, owner))
      (arguments : Compiled p P zone 0 args.length code notes) :
      Compiled p P zone 0 1
        ([Instruction.load "self"] ++ code ++ [Instruction.call message args.length (some owner)])
        ([Note.plain] ++ notes ++ [Note.plain])
  /-- After an interruption the depth is whatever it should be. -/
  | leave {zone : Zone} {t : Tree} {value : Option Tree} (stands : P.Stands zone t)
      (kind : t.kind = .returnStmt value) (k : Nat) :
      Compiled p P zone 1 k [.interrupt .return] [.plain]
  | raise {zone : Zone} (k : Nat) : Compiled p P zone 1 k [.interrupt .exception] [.plain]
  | ifThenElse {zone : Zone} {t condition thenBody : Tree} {elseBody : Option Tree}
      {thenCode elseCode : Code} {thenNotes elseNotes : List Note} (stands : P.Stands zone t)
      (kind : t.kind = .ifElse condition thenBody elseBody)
      (yes : Compiled p P (.block thenBody.identity) 0 1 thenCode thenNotes)
      (no : Compiled p P (Program.bodyZone elseBody) 0 1 elseCode elseNotes) :
      Compiled p P zone 1 1
        [.ifThenElse (thenCode ++ [.interrupt .result]) (elseCode ++ [.interrupt .result])]
        [.branches (thenNotes ++ [.plain]) (elseNotes ++ [.plain])]
  | tryCatchAlways {zone : Zone} {t body : Tree} {catches : List Tree} {always : Option Tree}
      {bodyCode handlersCode alwaysCode : Code} {bodyNotes handlersNotes alwaysNotes : List Note}
      (stands : P.Stands zone t) (kind : t.kind = .tryCatch body catches always)
      (inner : Compiled p P (.block body.identity) 0 1 bodyCode bodyNotes)
      (caught : Compiled p P (.handlers t.identity) 0 0 handlersCode handlersNotes)
      (last : Compiled p P (Program.bodyZone always) 0 1 alwaysCode alwaysNotes) :
      Compiled p P zone 0 1
        [.tryCatchAlways (bodyCode ++ [Instruction.interrupt .result])
          ([Instruction.store exceptionLocal false] ++ handlersCode
            ++ [Instruction.load exceptionLocal, .interrupt .exception])
          ([Instruction.store previousLocal false] ++ alwaysCode
            ++ [Instruction.pop, .load previousLocal, .resumeInterruption])]
        [.protection (bodyNotes ++ [Note.plain])
          ([Note.plain] ++ handlersNotes ++ [Note.plain, .plain])
          ([Note.plain] ++ alwaysNotes ++ [Note.plain, .plain, .plain])]
  /-- A handler that is chosen: the exception is bound to its parameter, and
  the value of its body is the result of the protected block. -/
  | handler {zone : Zone} {t clause body param handlerBody : Tree} {catches : List Tree}
      {always type : Option Tree} {code : Code} {notes : List Note} (stands : P.Stands zone t)
      (kind : t.kind = .tryCatch body catches always) (among : clause ∈ catches)
      (clauseKind : clause.kind = .catchClause param type handlerBody)
      (inner : Compiled p P (.block handlerBody.identity) 0 1 code notes) :
      Compiled p P (.handlers t.identity) 0 0
        ([Instruction.load exceptionLocal, .store (param.name?.getD "") false] ++ code
          ++ [Instruction.interrupt .result])
        ([Note.plain, .plain] ++ notes ++ [Note.plain])
  | guarded {zone : Zone} {code : Code} {notes : List Note}
      (inner : Compiled p P zone 0 0 code notes) :
      Compiled p P zone 1 0 (Code.guarded code) (.plain :: notes)

namespace Compiled

variable {p : Program} {P : Placement} {zone : Zone} {n : Nat} {code more : Code}
  {notes moreNotes : List Note}

-- ======================================================== shapes of code

theorem pop : Compiled p P zone 1 0 [.pop] [.plain] := .plain rfl rfl

theorem dup : Compiled p P zone 1 2 [.dup] [.plain] := .plain rfl rfl

/-- A message to an object, with its arguments. -/
theorem send (receiver : Compiled p P zone 0 1 code notes)
    (args : Compiled p P zone 0 n more moreNotes) (message : String) :
    Compiled p P zone 0 1 (code ++ more ++ [Instruction.call message n none])
      (notes ++ moreNotes ++ [Note.plain]) :=
  (receiver.append (args.lift 1)).append (.plain rfl rfl)

/-- One field of the object on the stack, set to a value. -/
theorem setField (value : Compiled p P zone 0 1 code notes) (name : String) :
    Compiled p P zone 1 1 ([Instruction.dup] ++ code ++ [Instruction.set name])
      ([Note.plain] ++ notes ++ [Note.plain]) := by
  have hset : Compiled p P zone 2 0 [.set name] [.plain] := .plain rfl rfl
  exact (dup.append (value.lift 2)).append (hset.lift 1)

/-- The object on the stack is told that it is complete. -/
theorem initialized :
    Compiled p P zone 1 1 [.dup, .call "initialize" 0 none, .pop] [.plain, .plain, .plain] := by
  have hcall : Compiled p P zone 1 1 [.call "initialize" 0 none] [.plain] := .plain rfl rfl
  exact dup.append ((hcall.lift 1).append (pop.lift 1))

/-- A field of `self`, set to a value. -/
theorem setSelf (value : Compiled p P zone 0 1 code notes) (name : String) :
    Compiled p P zone 0 0 ([Instruction.load "self"] ++ code ++ [Instruction.set name])
      ([Note.plain] ++ notes ++ [Note.plain]) := by
  have hself : Compiled p P zone 0 1 [.load "self"] [.plain] := .plain rfl rfl
  exact (hself.append (value.lift 1)).append (.plain rfl rfl)

/-- `void` stands where a value was put away. -/
theorem void (put : Compiled p P zone 1 0 code notes) :
    Compiled p P zone 1 1 (code ++ [Instruction.push .void]) (notes ++ [Note.plain]) :=
  put.append (.push le_rfl)

/-- The test of a handler for one class. -/
theorem test (module : NodeId) : Compiled p P zone 0 1 [.load exceptionLocal, .inherits module]
    [.plain, .plain] := by
  have hload : Compiled p P zone 0 1 [.load exceptionLocal] [.plain] := .plain rfl rfl
  exact hload.append (.plain rfl rfl)

/-- Sentences after the first one each replace the operand left by the one
before, which a `pop` drops. -/
theorem flatMap_pop {codes : List Code} {notes : List (List Note)}
    (h : List.Forall₂ (Compiled p P zone 0 1) codes notes) :
    Compiled p P zone 1 1 (codes.flatMap fun next => .pop :: next)
      (notes.flatMap fun next => .plain :: next) := by
  induction h with
  | nil => exact .nil 1
  | cons hfirst _ ih =>
      rw [List.flatMap_cons, List.flatMap_cons]
      exact (pop.append hfirst).append ih

/-- `joinSentences` of sentences that leave one operand each leaves one. -/
theorem joinSentences {codes : List Code} {notes : List (List Note)}
    (h : List.Forall₂ (Compiled p P zone 0 1) codes notes) :
    Compiled p P zone 0 1 (Program.joinSentences codes) (Tree.joinNotes notes) := by
  cases h with
  | nil => exact .push le_rfl
  | cons hfirst hrest => exact hfirst.append (flatMap_pop hrest)

end Compiled

namespace Program

variable {p : Program} {P : Placement}

-- ============================================== sentences, expressions

mutual

/-- `expressionCode` leaves one operand. The theorems of this block are one
induction, along the functions that compile. -/
theorem expressionCode_compiled :
    ∀ (t : Tree) {zone : Zone} {code : Code}, P.Stands zone t → p.expressionCode t = .ok code →
      Compiled p P zone 0 1 code t.expressionNotes
  | .node id span kind, zone, code, ht, h => by
      cases kind with
      | reference name target =>
          simp only [expressionCode, bind_ok_iff, pure_ok_iff] at h
          obtain ⟨name, hname, rfl⟩ := h
          exact .reference ht hname
      | selfRef =>
          simp only [expressionCode, pure_ok_iff] at h
          subst h
          exact .plain rfl rfl
      | literal value => exact literalCode_compiled value ht h
      | send receiver message args =>
          simp only [expressionCode, bind_ok_iff, pure_ok_iff] at h
          obtain ⟨receiverCode, hreceiver, argsCode, hargs, rfl⟩ := h
          have h1 := expressionCode_compiled receiver (P.part ht rfl List.mem_cons_self) hreceiver
          have h2 := argumentsCode_compiled args
            (fun c hc => P.part ht rfl (List.mem_cons_of_mem _ hc)) hargs
          exact h1.send h2 message
      | superSend args =>
          simp only [expressionCode, bind_ok_iff, pure_ok_iff] at h
          obtain ⟨⟨message, owner⟩, hmethod, argsCode, hargs, rfl⟩ := h
          exact .superSend ht rfl hmethod
            (argumentsCode_compiled args (fun c hc => P.part ht rfl hc) hargs)
      | newInstance instantiated args =>
          simp only [expressionCode, bind_ok_iff] at h
          obtain ⟨module, hmodule, h⟩ := h
          have hnames : P.Names p zone module := .linked ht List.mem_cons_self hmodule
          have hargs : ∀ c ∈ args, P.Stands zone c := fun c hc => P.part ht rfl hc
          rw [Tree.expressionNotes]
          split at h
          · next hgiven =>
            simp only [bind_ok_iff, pure_ok_iff] at h
            obtain ⟨namedCode, hcode, rfl⟩ := h
            rw [if_pos hgiven]
            have hnew : Compiled p P zone 0 1 _ _ := .construct hnames 0
            exact (hnew.append (namedArgumentsCode_compiled args hargs hcode)).append .initialized
          · next hgiven =>
            simp only [bind_ok_iff, pure_ok_iff] at h
            obtain ⟨argsCode, hcode, rfl⟩ := h
            rw [if_neg hgiven]
            exact (argumentsCode_compiled args hargs hcode).append (.construct hnames _)
      | ifElse condition thenBody elseBody =>
          simp only [expressionCode, bind_ok_iff, pure_ok_iff] at h
          obtain ⟨conditionCode, hcondition, thenCode, hthen, elseCode, helse, rfl⟩ := h
          have h1 := expressionCode_compiled condition
            (P.part ht rfl (by simp [Tree.kind, Kind.inlined])) hcondition
          have h2 := blockCode_compiled thenBody
            (P.opens (P.part ht rfl (by simp [Tree.kind, Kind.inlined]))) hthen
          have h3 := optionalBlockCode_compiled elseBody
            (fun c hc => P.opens (P.part ht rfl (List.mem_append_right _ hc))) helse
          exact h1.append (.ifThenElse ht rfl h2 h3)
      | tryCatch body catches always =>
          simp only [expressionCode, bind_ok_iff, pure_ok_iff] at h
          obtain ⟨bodyCode, hbody, handlers, hhandlers, alwaysCode, halways, rfl⟩ := h
          have h1 := blockCode_compiled body
            (P.opens (P.part ht rfl (by simp [Tree.kind, Kind.inlined]))) hbody
          have h2 := handlersCode_compiled ht rfl catches (fun c hc => hc) hhandlers
          have h3 := optionalBlockCode_compiled always
            (fun c hc => P.opens (P.part ht rfl (List.mem_append_right _ hc))) halways
          exact .tryCatchAlways ht rfl h1 h2 h3
      | _ => simp [expressionCode] at h
termination_by structural t => t

theorem literalCode_compiled {id : Option NodeId} {span : Option Span} :
    ∀ (value : Literal Tree) {zone : Zone} {code : Code},
      P.Stands zone (.node id span (.literal value)) →
      p.expressionCode (.node id span (.literal value)) = .ok code →
      Compiled p P zone 0 1 code (Tree.node id span (.literal value)).expressionNotes
  | .null, zone, code, ht, h => by
      simp only [expressionCode, pure_ok_iff] at h
      subst h
      exact .push (by decide)
  | .boolean value, zone, code, ht, h => by
      simp only [expressionCode, pure_ok_iff] at h
      subst h
      exact .push (by cases value <;> decide)
  | .number value, zone, code, ht, h => by
      simp only [expressionCode, bind_ok_iff, pure_ok_iff] at h
      obtain ⟨module, hmodule, rfl⟩ := h
      exact .value (.core hmodule) rfl
  | .string value, zone, code, ht, h => by
      simp only [expressionCode, bind_ok_iff, pure_ok_iff] at h
      obtain ⟨module, hmodule, rfl⟩ := h
      exact .value (.core hmodule) rfl
  | .collection module elements, zone, code, ht, h => by
      simp only [expressionCode, bind_ok_iff, pure_ok_iff] at h
      obtain ⟨target, hmodule, elementsCode, hcode, rfl⟩ := h
      have h1 := argumentsCode_compiled elements (fun c hc => P.part ht rfl hc) hcode
      exact h1.append (.value (.linked ht List.mem_cons_self hmodule) rfl)
  | .singleton (.node id' span' kind), zone, code, ht, h => by
      have hobject : P.Stands zone (.node id' span' kind) := P.part ht rfl List.mem_cons_self
      cases kind with
      | singleton name superclass args mixins members closure =>
          simp only [expressionCode, bind_ok_iff, pure_ok_iff] at h
          obtain ⟨argsCode, hargs, rfl⟩ := h
          have h1 := argumentsCode_compiled args (fun c hc => P.detached hobject hc) hargs
          exact h1.append (.object hobject _)
      | _ =>
          simp only [expressionCode, pure_ok_iff] at h
          subst h
          exact .object hobject 0
termination_by structural value => value

/-- `argumentsCode` leaves one operand for each argument. -/
theorem argumentsCode_compiled :
    ∀ (ts : List Tree) {zone : Zone} {code : Code}, (∀ t ∈ ts, P.Stands zone t) →
      p.argumentsCode ts = .ok code → Compiled p P zone 0 ts.length code (Tree.argumentsNotes ts)
  | [], zone, code, ht, h => by
      simp only [argumentsCode, pure_ok_iff] at h
      subst h
      exact .nil 0
  | arg :: rest, zone, code, ht, h => by
      simp only [argumentsCode, bind_ok_iff, pure_ok_iff] at h
      obtain ⟨argCode, harg, restCode, hrest, rfl⟩ := h
      have h1 := expressionCode_compiled arg (ht arg List.mem_cons_self) harg
      have h2 := argumentsCode_compiled rest (fun t h => ht t (List.mem_cons_of_mem _ h)) hrest
      exact h1.append (h2.lift 1)
termination_by structural ts => ts

/-- `namedArgumentsCode` sets fields of the operand on top. -/
theorem namedArgumentsCode_compiled :
    ∀ (ts : List Tree) {zone : Zone} {code : Code}, (∀ t ∈ ts, P.Stands zone t) →
      p.namedArgumentsCode ts = .ok code →
      Compiled p P zone 1 1 code (Tree.namedArgumentsNotes ts)
  | [], zone, code, ht, h => by
      simp only [namedArgumentsCode, pure_ok_iff] at h
      subst h
      exact .nil 1
  | .node id span kind :: rest, zone, code, ht, h => by
      have hrestStands : ∀ t ∈ rest, P.Stands zone t := fun t h => ht t (List.mem_cons_of_mem _ h)
      cases kind with
      | namedArgument name value =>
          simp only [namedArgumentsCode, bind_ok_iff, pure_ok_iff] at h
          obtain ⟨valueCode, hvalue, restCode, hrest, rfl⟩ := h
          have h1 := expressionCode_compiled value
            (P.part (ht _ List.mem_cons_self) rfl List.mem_cons_self) hvalue
          exact (h1.setField name).append (namedArgumentsCode_compiled rest hrestStands hrest)
      | _ =>
          simp only [namedArgumentsCode] at h
          exact namedArgumentsCode_compiled rest hrestStands h
termination_by structural ts => ts

/-- `optionalCode` leaves one operand, that of the expression or of its
default. -/
theorem optionalCode_compiled {missing : ObjectId} (hmissing : missing ≤ ObjectId.void) :
    ∀ (t : Option Tree) {zone : Zone} {code : Code}, (∀ s ∈ t.toList, P.Stands zone s) →
      p.optionalCode missing t = .ok code → Compiled p P zone 0 1 code (Tree.optionalNotes t)
  | some value, zone, code, ht, h => by
      simp only [optionalCode] at h
      exact expressionCode_compiled value (ht value List.mem_cons_self) h
  | none, zone, code, ht, h => by
      simp only [optionalCode, pure_ok_iff] at h
      subst h
      exact .push hmissing
termination_by structural t => t

/-- Each of `sentenceCodes` leaves one operand. -/
theorem sentenceCodes_compiled :
    ∀ (ts : List Tree) {zone : Zone} {codes : List Code}, (∀ t ∈ ts, P.Stands zone t) →
      (∀ t ∈ ts, t.kind.isVariable → ∀ name, t.name? = some name → P.Declares zone name) →
      p.sentenceCodes ts = .ok codes →
      List.Forall₂ (Compiled p P zone 0 1) codes (Tree.sentencesNotes ts)
  | [], zone, codes, ht, hd, h => by
      simp only [sentenceCodes, pure_ok_iff] at h
      subst h
      exact .nil
  | .node id span kind :: rest, zone, codes, ht, hd, h => by
      have hown := ht _ List.mem_cons_self
      have hrest {codes : List Code} (h : p.sentenceCodes rest = .ok codes) :=
        sentenceCodes_compiled rest (fun t h => ht t (List.mem_cons_of_mem _ h))
          (fun t h => hd t (List.mem_cons_of_mem _ h)) h
      cases kind with
      | varDecl name constant value =>
          simp only [sentenceCodes, bind_ok_iff, pure_ok_iff] at h
          obtain ⟨valueCode, hvalue, codes, hcodes, rfl⟩ := h
          have h1 := optionalCode_compiled (by decide) value (fun c hc => P.part hown rfl hc) hvalue
          have hstore : Compiled p P zone 1 0 [.store name false] [.plain] :=
            .declare (hd _ List.mem_cons_self rfl name rfl)
          exact .cons (h1.append hstore.void) (hrest hcodes)
      | assignment place value =>
          simp only [sentenceCodes, bind_ok_iff, pure_ok_iff] at h
          obtain ⟨valueCode, hvalue, name, hname, codes, hcodes, rfl⟩ := h
          have h1 := expressionCode_compiled value (P.part hown rfl List.mem_cons_self) hvalue
          have hstore : Compiled p P zone 1 0 [.store name true] [.plain] := .assign hown rfl hname
          exact .cons (h1.append hstore.void) (hrest hcodes)
      | returnStmt value =>
          simp only [sentenceCodes, bind_ok_iff, pure_ok_iff] at h
          obtain ⟨valueCode, hvalue, codes, hcodes, rfl⟩ := h
          have h1 := optionalCode_compiled (by decide) value (fun c hc => P.part hown rfl hc) hvalue
          exact .cons (h1.append (.leave hown rfl 1)) (hrest hcodes)
      | throwStmt exception =>
          simp only [sentenceCodes, bind_ok_iff, pure_ok_iff] at h
          obtain ⟨exceptionCode, hexception, codes, hcodes, rfl⟩ := h
          have h1 := expressionCode_compiled exception (P.part hown rfl List.mem_cons_self)
            hexception
          exact .cons (h1.append (.raise 1)) (hrest hcodes)
      | _ =>
          simp only [sentenceCodes, bind_ok_iff, pure_ok_iff] at h
          obtain ⟨code, hcode, codes, hcodes, rfl⟩ := h
          exact .cons (expressionCode_compiled _ hown hcode) (hrest hcodes)
termination_by structural ts => ts

/-- `blockCode` leaves one operand, and starts a zone of its own. -/
theorem blockCode_compiled :
    ∀ (t : Tree) {code : Code}, P.Opens t → p.blockCode t = .ok code →
      Compiled p P (.block t.identity) 0 1 code t.blockNotes
  | .node id span kind, code, ht, h => by
      cases kind with
      | block sentences =>
          simp only [blockCode, bind_ok_iff, pure_ok_iff] at h
          obtain ⟨codes, hcodes, rfl⟩ := h
          exact .joinSentences (sentenceCodes_compiled sentences
            (fun c hc => P.sentence ht rfl hc)
            (fun c hc hvariable name hname => P.declares ht rfl hc hvariable hname) hcodes)
      | _ =>
          simp only [blockCode, pure_ok_iff] at h
          subst h
          exact .push le_rfl
termination_by structural t => t

theorem optionalBlockCode_compiled :
    ∀ (t : Option Tree) {code : Code}, (∀ s ∈ t.toList, P.Opens s) →
      p.optionalBlockCode t = .ok code →
      Compiled p P (bodyZone t) 0 1 code (Tree.optionalBlockNotes t)
  | some body, code, ht, h => by
      simp only [optionalBlockCode] at h
      exact blockCode_compiled body (ht body List.mem_cons_self) h
  | none, code, ht, h => by
      simp only [optionalBlockCode, pure_ok_iff] at h
      subst h
      exact .push le_rfl
termination_by structural t => t

/-- `handlersCode` shares a zone until one of the handlers is chosen. Those that
do not apply leave the operands as they were. -/
theorem handlersCode_compiled {zone : Zone} {t body : Tree} {catches : List Tree}
    {always : Option Tree} (ht : P.Stands zone t) (hkind : t.kind = .tryCatch body catches always) :
    ∀ (ts : List Tree) {code : Code}, (∀ c ∈ ts, c ∈ catches) → p.handlersCode ts = .ok code →
      Compiled p P (.handlers t.identity) 0 0 code (Tree.handlersNotes ts)
  | [], code, hc, h => by
      simp only [handlersCode, pure_ok_iff] at h
      subst h
      exact .nil 0
  | .node id span kind :: rest, code, hc, h => by
      have hclause := hc _ List.mem_cons_self
      have hrest {code : Code} (h : p.handlersCode rest = .ok code) :=
        handlersCode_compiled ht hkind rest (fun c h => hc c (List.mem_cons_of_mem _ h)) h
      cases kind with
      | catchClause param type handlerBody =>
          have hstands : P.Stands zone (.node id span (.catchClause param type handlerBody)) := by
            refine P.part ht (by rw [hkind]; rfl) ?_
            rw [hkind]
            simp [Kind.inlined, hclause]
          have hopens := P.opens (P.part hstands rfl List.mem_cons_self)
          have hhandler {code : Code} (h : p.blockCode handlerBody = .ok code) :=
            Compiled.handler ht hkind hclause rfl (blockCode_compiled handlerBody hopens h)
          cases type with
          | none =>
              simp only [handlersCode, bind_ok_iff, pure_ok_iff] at h
              obtain ⟨bodyCode, hcode, restCode, hcodes, rfl⟩ := h
              exact (hhandler hcode).append (hrest hcodes)
          | some type =>
              simp only [handlersCode, bind_ok_iff, pure_ok_iff] at h
              obtain ⟨module, -, bodyCode, hcode, restCode, hcodes, rfl⟩ := h
              exact ((Compiled.test module).append (hhandler hcode).guarded).append (hrest hcodes)
      | _ =>
          simp only [handlersCode] at h
          exact hrest h
termination_by structural ts => ts

end

-- ==================================================== units of a program

/-- `methodCode` is the `blockCode` of the body, and then returns. -/
theorem methodCode_parts {method : NodeId} {code : Code} (h : p.methodCode method = .ok code) :
    ∃ name parameters body native bodyCode,
      p.kind? method = some (.method name parameters (some body) native)
        ∧ p.blockCode body = .ok bodyCode
        ∧ code = bodyCode ++ [Instruction.push .void, .interrupt .return] := by
  unfold methodCode at h
  split at h
  · next name parameters body native hkind =>
    simp only [bind_ok_iff, pure_ok_iff] at h
    obtain ⟨bodyCode, hbody, hcode⟩ := h
    exact ⟨name, parameters, body, native, bodyCode, hkind, hbody, hcode.symm⟩
  · cases h

/-- `membersOf` are nodes of the program. -/
theorem membersOf_mem {id : NodeId} {member : Tree} (h : member ∈ p.membersOf id) :
    member ∈ p.root.preorder := by
  unfold membersOf at h
  cases hk : p.kind? id with
  | none => simp [hk] at h
  | some kind =>
      rw [hk] at h
      exact kind?_child_mem hk (Kind.mem_children_of_mem_members h)

/-- `fieldsOf` are nodes of the program. -/
theorem fieldsOf_mem {id : NodeId} {field : Tree} (h : field ∈ p.fieldsOf id) :
    field ∈ p.root.preorder := by
  unfold fieldsOf at h
  obtain ⟨ancestor, -, h⟩ := List.mem_flatMap.1 h
  exact membersOf_mem (List.mem_of_mem_filter h)

theorem initializedFields_mem {id : NodeId} {field : Tree}
    (h : field ∈ p.initializedFields id) : field ∈ p.root.preorder := by
  unfold initializedFields at h
  rcases List.mem_append.1 h with h | h
  · exact fieldsOf_mem h
  · split at h
    · next name members hkind =>
      exact kind?_child_mem hkind (List.mem_of_mem_filter h)
    · cases h

/-- `fieldsCode` leaves no operand. -/
theorem fieldsCode_compiled {zone : Zone} :
    ∀ (fields : List Tree) {code : Code},
      (∀ field ∈ fields, ∀ c ∈ field.kind.inlined, P.Stands zone c) →
      p.fieldsCode fields = .ok code → Compiled p P zone 0 0 code (fields.flatMap fieldNotes)
  | [], code, hf, h => by
      simp only [fieldsCode, pure_ok_iff] at h
      subst h
      exact .nil 0
  | .node id span kind :: rest, code, hf, h => by
      have hown := hf _ List.mem_cons_self
      have hrest {code : Code} (h : p.fieldsCode rest = .ok code) :=
        fieldsCode_compiled rest (fun t h => hf t (List.mem_cons_of_mem _ h)) h
      have hset {value : Option Tree} {code : Code} (name : String)
          (hstands : ∀ c ∈ value.toList, P.Stands zone c)
          (h : p.optionalCode .null value = .ok code) :=
        (optionalCode_compiled (by decide) value hstands h).setSelf name
      rw [List.flatMap_cons]
      cases kind with
      | field name constant value =>
          simp only [fieldsCode, Tree.kind, bind_ok_iff, pure_ok_iff] at h
          obtain ⟨valueCode, hvalue, _, rfl, restCode, hcode, rfl⟩ := h
          exact (hset name hown hvalue).append (hrest hcode)
      | varDecl name constant value =>
          simp only [fieldsCode, Tree.kind, bind_ok_iff, pure_ok_iff] at h
          obtain ⟨valueCode, hvalue, _, rfl, restCode, hcode, rfl⟩ := h
          exact (hset name hown hvalue).append (hrest hcode)
      | _ =>
          simp only [fieldsCode, Tree.kind, bind_ok_iff, pure_ok_iff] at h
          obtain ⟨_, rfl, restCode, hcode, rfl⟩ := h
          exact hrest hcode

/-- `baseCallCode` passes `self` on before the body runs. -/
theorem baseCallCode_compiled {owner body : NodeId} {code : Code} (call : Option (BaseCall Tree))
    (hargs : ∀ t ∈ (call.map BaseCall.args).getD [], P.Stands (.block body) t)
    (hdelegates : ∀ start, start = owner ∨ p.superclass? owner = some start →
      p.Delegates body start)
    (h : p.baseCallCode owner call = .ok code) :
    Compiled p P (.block body) 0 0 code (p.baseCallNotes owner call) := by
  have hpass {start : NodeId} (hstart : start = owner ∨ p.superclass? owner = some start)
      (arity : Nat) : Compiled p P (.block body) arity 0
        [.load "self", .init arity start false, .pop] [.plain, .plain, .plain] :=
    (Compiled.delegate (hdelegates start hstart) arity).append .pop
  cases call with
  | some call =>
      simp only [baseCallCode] at h
      obtain ⟨start, hstart, argsCode, hcode, rfl⟩ : ∃ start,
          (start = owner ∨ p.superclass? owner = some start) ∧ ∃ argsCode,
            p.argumentsCode call.args = .ok argsCode
              ∧ argsCode ++ [.load "self", .init call.args.length start false, .pop] = code := by
        split at h
        · split at h
          · next superclass hs =>
            simp only [bind_ok_iff, pure_ok_iff] at h
            obtain ⟨_, rfl, argsCode, hcode, heq⟩ := h
            exact ⟨superclass, .inr hs, argsCode, hcode, heq⟩
          · simp only [bind_ok_iff] at h
            obtain ⟨start, hstart, -⟩ := h
            cases hstart
        · simp only [bind_ok_iff, pure_ok_iff] at h
          obtain ⟨_, rfl, argsCode, hcode, heq⟩ := h
          exact ⟨owner, .inl rfl, argsCode, hcode, heq⟩
      exact (argumentsCode_compiled call.args hargs hcode).append (hpass hstart _)
  | none =>
      simp only [baseCallCode] at h
      rw [baseCallNotes]
      split at h
      · next superclass hs =>
        simp only [pure_ok_iff] at h
        subst h
        rw [hs]
        exact hpass (.inr hs) 0
      · next hs =>
        simp only [pure_ok_iff] at h
        subst h
        rw [hs]
        exact .nil 0

theorem constructorCode_compiled {start constructor : NodeId} {code : Code}
    (hP : P.Constructs p start (some constructor)) (h : p.constructorCode constructor = .ok code) :
    Compiled p P (p.initZone (some constructor)) 0 0 code (p.constructorNotes constructor) := by
  unfold constructorCode at h
  split at h
  · next parameters baseCall body owner hkind hparent =>
    simp only [bind_ok_iff, pure_ok_iff] at h
    obtain ⟨baseCode, hbase, bodyCode, hbody, rfl⟩ := h
    have hdelegates : ∀ start, start = owner ∨ p.superclass? owner = some start →
        p.Delegates body.identity start := fun start hstart =>
      ⟨constructor, owner, ⟨parameters, baseCall, body, hkind, rfl⟩, hparent, hstart⟩
    have h1 := baseCallCode_compiled baseCall (hP.args _ rfl hkind) hdelegates hbase
    have h2 := blockCode_compiled body (hP.body _ rfl hkind) hbody
    simp only [initZone, constructorNotes, Option.bind_some, hkind, hparent]
    exact (h1.append h2).append .pop
  · cases h

/-- `initCode` runs in the zone of the body of its constructor, and returns
`self`. -/
theorem initCode_compiled {start : NodeId} {constructor : Option NodeId} {initFields : Bool}
    {code : Code} (hP : P.Constructs p start constructor)
    (h : p.initCode start constructor initFields = .ok code) :
    ∃ inner notes, Compiled p P (p.initZone constructor) 0 0 inner notes
      ∧ code = inner ++ [Instruction.load "self", .interrupt .return]
      ∧ p.initNotes start constructor initFields = notes ++ [Note.plain, .plain] := by
  have hfields {code : Code} (h : p.fieldsCode (p.initializedFields start) = .ok code) :=
    fieldsCode_compiled _ hP.fields h
  cases initFields <;> cases constructor <;>
    simp only [initCode, bind_ok_iff, pure_ok_iff, if_true, Bool.false_eq_true, if_false] at h
  · obtain ⟨_, rfl, _, rfl, hcode⟩ := h
    exact ⟨[], [], .nil 0, hcode.symm, rfl⟩
  · obtain ⟨_, rfl, ctorCode, hctor, hcode⟩ := h
    exact ⟨ctorCode, _, constructorCode_compiled hP hctor, hcode.symm, rfl⟩
  · obtain ⟨fieldsCode, hcodes, _, rfl, hcode⟩ := h
    exact ⟨_, _, (hfields hcodes).append (.nil 0), hcode.symm, rfl⟩
  · obtain ⟨fieldsCode, hcodes, ctorCode, hctor, hcode⟩ := h
    exact ⟨_, _, (hfields hcodes).append (constructorCode_compiled hP hctor), hcode.symm, rfl⟩

-- ============================================================= globals

theorem singletonsCode_compiled :
    ∀ (objects : List NodeId) {vars : List NodeId} {code : Code}, P.SetsUp p objects vars →
      p.singletonsCode objects = .ok code → ∃ notes, Compiled p P .globals 0 0 code notes
  | [], vars, code, hP, h => by
      simp only [singletonsCode, pure_ok_iff] at h
      subst h
      exact ⟨[], .nil 0⟩
  | object :: rest, vars, code, hP, h => by
      simp only [singletonsCode, bind_ok_iff, pure_ok_iff] at h
      obtain ⟨argsCode, hargs, restCode, hrest, rfl⟩ := h
      have h1 : Compiled p P .globals 0 _ argsCode _ :=
        argumentsCode_compiled _ (fun t ht => ?_) hargs
      · have hload : Compiled p P .globals 0 1 [.load (p.qualifiedName object)] [.plain] :=
          .plain rfl rfl
        obtain ⟨notes, h2⟩ := singletonsCode_compiled rest
          { hP with
            named := fun id hid => hP.named id (List.mem_cons_of_mem _ hid)
            args := fun id hid => hP.args id (List.mem_cons_of_mem _ hid) } hrest
        have hinit (arity : Nat) : Compiled p P .globals arity 0
            [.load (p.qualifiedName object), .init arity object true, .pop]
            [.plain, .plain, .plain] := by
          have hobject := hload.lift arity
          rw [Nat.zero_add, Nat.add_comm] at hobject
          have hmade : Compiled p P .globals (arity + 1) 1 [.init arity object true] [.plain] :=
            .setUp (hP.named object List.mem_cons_self) arity
          exact hobject.append (hmade.append .pop)
        exact ⟨_, (h1.append (hinit _)).append h2⟩
      · split at ht
        · next name superclass args mixins members closure hkind =>
          exact hP.args object List.mem_cons_self _ hkind t ht
        · cases ht

theorem variablesCode_compiled :
    ∀ (vars : List NodeId) {objects : List NodeId} {code : Code}, P.SetsUp p objects vars →
      p.variablesCode vars = .ok code → ∃ notes, Compiled p P .globals 0 0 code notes
  | [], objects, code, hP, h => by
      simp only [variablesCode, pure_ok_iff] at h
      subst h
      exact ⟨[], .nil 0⟩
  | id :: rest, objects, code, hP, h => by
      have hrest {code : Code} (h : p.variablesCode rest = .ok code) :=
        variablesCode_compiled rest
          { hP with
            values := fun id hid => hP.values id (List.mem_cons_of_mem _ hid)
            declares := fun id hid => hP.declares id (List.mem_cons_of_mem _ hid) } h
      unfold variablesCode at h
      split at h
      · next name constant value hkind =>
        simp only [bind_ok_iff, pure_ok_iff] at h
        obtain ⟨valueCode, hvalue, _, rfl, restCode, hcode, rfl⟩ := h
        have h1 := optionalCode_compiled (by decide) value (hP.values id List.mem_cons_self hkind)
          hvalue
        obtain ⟨notes, h2⟩ := hrest hcode
        exact ⟨_, (h1.append (.declare (hP.declares id List.mem_cons_self))).append h2⟩
      · simp only [bind_ok_iff, pure_ok_iff] at h
        obtain ⟨_, rfl, restCode, hcode, rfl⟩ := h
        exact hrest hcode

/-- `globalsCode` leaves `void`. -/
theorem globalsCode_compiled {objects vars : List NodeId} {code : Code}
    (hP : P.SetsUp p objects vars) (h : p.globalsCode objects vars = .ok code) :
    ∃ notes, Compiled p P .globals 0 1 code notes := by
  simp only [globalsCode, bind_ok_iff, pure_ok_iff] at h
  obtain ⟨objectsCode, hobjects, varsCode, hvars, rfl⟩ := h
  obtain ⟨notes, h1⟩ := singletonsCode_compiled objects hP hobjects
  obtain ⟨notes', h2⟩ := variablesCode_compiled vars hP hvars
  exact ⟨_, (h1.append h2).append (.push le_rfl)⟩

end Program

end ObjectMachine
