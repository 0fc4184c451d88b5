/-
Objects and contexts. Both live in tables and are named by their index;
nothing is ever taken away.

A name is looked up along a chain of links: a context knows its locals, an
object knows its fields and, unless it is a closure, answers `self`. The
context of a method hangs from its receiver. Objects hang from the root
context, except literals, which hang from the context they were written in.

Numbers and strings are shared: one object for each value, found by its
key.
-/
import ObjectMachine.Code.Instruction
import ObjectMachine.Number.Canonical

namespace ObjectMachine

/-- The identity of a context. -/
abbrev ContextId := Nat

/-- The context of globals, where every chain ends. -/
def rootContext : ContextId := 0

-- =========================================================== bindings

/-- Names with the objects they are bound to, each name once. -/
abbrev Bindings := List (String × ObjectId)

namespace Bindings

def get? (bindings : Bindings) (name : String) : Option ObjectId := bindings.lookup name

/-- Binds a name, replacing what it was bound to. -/
def insert : Bindings → String → ObjectId → Bindings
  | [], name, value => [(name, value)]
  | (key, old) :: rest, name, value =>
    if key = name then (key, value) :: rest else (key, old) :: insert rest name value

end Bindings

-- ==================================================== objects, contexts

/-- Where a lookup goes on. -/
inductive Link where
  | context (id : ContextId)
  | object (id : ObjectId)
deriving Repr, DecidableEq

/-- A scope of locals. Only the root has no parent. -/
structure Context where
  parent : Option Link := none
  locals : Bindings := []

/-- The value inside a primitive object. -/
inductive Inner where
  | number (value : Float)
  | string (value : String)
  | collection (elements : List ObjectId)
deriving Repr

/-- An object: its identity, its module, its fields, the value inside if it
is primitive, and the context it hangs from. -/
structure Object where
  id : ObjectId := 0
  module : NodeId
  fields : Bindings := []
  inner : Option Inner := none
  parent : ContextId := rootContext
  answersSelf : Bool := true

/-- The table of objects, the table of contexts, and the shared objects by
key. -/
structure Heap where
  objects : Array Object := #[]
  contexts : Array Context := #[{}]
  interned : List (String × ObjectId) := []

namespace Heap

/-- The number of objects. -/
def size (h : Heap) : Nat := h.objects.size

def object? (h : Heap) (id : ObjectId) : Option Object := h.objects[id]?

def context? (h : Heap) (id : ContextId) : Option Context := h.contexts[id]?

/-- Adds an object under the next identity. -/
def allocate (h : Heap) (object : Object) : ObjectId × Heap :=
  (h.objects.size, { h with objects := h.objects.push { object with id := h.objects.size } })

/-- Adds a context. -/
def newContext (h : Heap) (parent : Link) : ContextId × Heap :=
  (h.contexts.size, { h with contexts := h.contexts.push { parent := some parent } })

/-- The object shared under a key, made on first use. -/
def intern (h : Heap) (key : String) (module : NodeId) (inner : Inner) : ObjectId × Heap :=
  match h.interned.lookup key with
  | some id => (id, h)
  | none =>
    let (id, h) := h.allocate { module, inner := some inner }
    (id, { h with interned := (key, id) :: h.interned })

/-- The key of a string; those of numbers start differently. -/
def stringKey (value : String) : String := "S!" ++ value

/-- The object of a number. -/
def number (h : Heap) (value : Float) (module : NodeId) : ObjectId × Heap :=
  h.intern (Number.key value) module (.number (Number.canonical value))

/-- The object of a string. -/
def string (h : Heap) (value : String) (module : NodeId) : ObjectId × Heap :=
  h.intern (stringKey value) module (.string value)

/-- A heap with the objects every program finds: null, the two booleans and
`void`. -/
def initial (nullModule booleanModule voidModule : NodeId) : Heap :=
  { objects := #[{ id := .null, module := nullModule }, { id := .true, module := booleanModule },
      { id := .false, module := booleanModule }, { id := .void, module := voidModule }] }

def updateObject (h : Heap) (id : ObjectId) (f : Object → Object) : Heap :=
  { h with objects := h.objects.modify id f }

def updateContext (h : Heap) (id : ContextId) (f : Context → Context) : Heap :=
  { h with contexts := h.contexts.modify id f }

/-- Sets a field, whether the object has it already or not. -/
def putField (h : Heap) (id : ObjectId) (name : String) (value : ObjectId) : Heap :=
  h.updateObject id fun object => { object with fields := object.fields.insert name value }

/-- Binds a name in a context itself. -/
def declare (h : Heap) (id : ContextId) (name : String) (value : ObjectId) : Heap :=
  h.updateContext id fun context => { context with locals := context.locals.insert name value }

-- ============================================================= lookup

/-- What a name is bound to along at most `fuel` links. -/
def lookupFrom (h : Heap) (name : String) : Nat → Link → Option ObjectId
  | 0, _ => none
  | fuel + 1, .context id =>
    match h.context? id with
    | none => none
    | some context =>
      match context.locals.get? name with
      | some value => some value
      | none => context.parent.bind (lookupFrom h name fuel)
  | fuel + 1, .object id =>
    match h.object? id with
    | none => none
    | some object =>
      if object.answersSelf && name == "self" then some id
      else
        match object.fields.get? name with
        | some value => some value
        | none => lookupFrom h name fuel (.context object.parent)

/-- The nearest context or object along at most `fuel` links that binds a
name. -/
def holderFrom (h : Heap) (name : String) : Nat → Link → Option Link
  | 0, _ => none
  | fuel + 1, .context id =>
    match h.context? id with
    | none => none
    | some context =>
      match context.locals.get? name with
      | some _ => some (.context id)
      | none => context.parent.bind (holderFrom h name fuel)
  | fuel + 1, .object id =>
    match h.object? id with
    | none => none
    | some object =>
      match object.fields.get? name with
      | some _ => some (.object id)
      | none => holderFrom h name fuel (.context object.parent)

/-- No chain has more links than there are contexts and objects. -/
def chainBound (h : Heap) : Nat := h.contexts.size + h.objects.size + 1

/-- What a name is bound to, seen from a context. -/
def lookup (h : Heap) (id : ContextId) (name : String) : Option ObjectId :=
  h.lookupFrom name h.chainBound (.context id)

/-- Rebinds a name where it is bound, and says whether it was. -/
def assign (h : Heap) (id : ContextId) (name : String) (value : ObjectId) : Bool × Heap :=
  match h.holderFrom name h.chainBound (.context id) with
  | some (.context holder) => (true, h.declare holder name value)
  | some (.object holder) => (true, h.putField holder name value)
  | none => (false, h)

end Heap

end ObjectMachine
