/-
Inheritance. A module's hierarchy lists the module and everything it
inherits from, in the order in which methods are looked for: each mixin
with all it brings, then the superclass. A module already listed is not
listed again, so the list is finite even where declarations run in a
circle.
-/
import ObjectMachine.Program.Names

namespace ObjectMachine.Program

variable (p : Program)

-- ========================================================= supertypes

/-- The superclass of a class or object. A describe inherits the root class
without saying so. -/
def superclass? (id : NodeId) : Option NodeId :=
  match p.kind? id with
  | some (.describe ..) => (p.entity? CoreNames.objectClass).filter p.isModule
  | some kind => p.declaredSuperclass? kind
  | none => none

/-- The mixins of a module, then its superclass. -/
def supertypes (id : NodeId) : List NodeId :=
  let mixins := ((p.kind? id).map Kind.mixins).getD []
  (mixins.filterMap fun reference => reference.kind.target?).filter p.isModule
    ++ (p.superclass? id).toList

/-- Adds a module and what it inherits from to the modules listed so far. -/
def expand : Nat → List NodeId → NodeId → List NodeId
  | 0, listed, _ => listed
  | fuel + 1, listed, id =>
    if id ∈ listed then listed
    else (p.supertypes id).foldl (expand fuel) (listed ++ [id])

/-- The module and all it inherits from, in lookup order. Every step down
lists a new module, so the number of nodes bounds the depth. -/
def hierarchy (id : NodeId) : List NodeId := p.expand (p.size + 1) [] id

def inherits (id ancestor : NodeId) : Bool := ancestor ∈ p.hierarchy id

-- ============================================================ members

/-- The members of a module. -/
def membersOf (id : NodeId) : List Tree := ((p.kind? id).map Kind.members).getD []

/-- The fields of the whole hierarchy, those declared furthest up first. -/
def fieldsOf (id : NodeId) : List Tree :=
  (p.hierarchy id).reverse.flatMap fun ancestor =>
    (p.membersOf ancestor).filter fun member => member.kind.isField

/-- Whether parameters accept that many arguments. A last parameter that
collects arguments takes any number of them. -/
def acceptsArity (parameters : List Tree) (arity : Nat) : Bool :=
  match parameters.getLast?.map Tree.kind with
  | some (.parameter _ true) => parameters.length ≤ arity + 1
  | _ => arity == parameters.length

/-- A method of that name, not abstract, that accepts that many
arguments. -/
def answers (name : String) (arity : Nat) (member : Tree) : Bool :=
  match member.kind with
  | .method own parameters body native =>
    own == name && (body.isSome || native) && acceptsArity parameters arity
  | _ => false

/-- The first method a module itself declares for a message. -/
def declaredMethod? (id : NodeId) (name : String) (arity : Nat) : Option NodeId :=
  ((p.membersOf id).find? (answers name arity)).map Tree.identity

/-- The method a module answers a message with. -/
def lookupMethod? (id : NodeId) (name : String) (arity : Nat) : Option NodeId :=
  (p.hierarchy id).findSome? fun ancestor => p.declaredMethod? ancestor name arity

/-- The method for a message among the modules that come after `start` in
the hierarchy. -/
def lookupMethodAfter? (id : NodeId) (name : String) (arity : Nat) (start : NodeId) :
    Option NodeId :=
  ((p.hierarchy id).dropWhile (· != start)).tail.findSome? fun ancestor =>
    p.declaredMethod? ancestor name arity

/-- A constructor that accepts that many arguments. -/
def constructs (arity : Nat) (member : Tree) : Bool :=
  match member.kind with
  | .constructor parameters _ _ => acceptsArity parameters arity
  | _ => false

/-- The constructor for that many arguments, passing on to the superclass
while a module declares none at all. -/
def constructorWithin : Nat → NodeId → Nat → Option NodeId
  | 0, _, _ => none
  | fuel + 1, id, arity =>
    match (p.membersOf id).filter fun member => member.kind.isConstructor with
    | [] => (p.superclass? id).bind fun superclass => constructorWithin fuel superclass arity
    | constructors => (constructors.find? (constructs arity)).map Tree.identity

/-- The constructor for that many arguments. Where superclasses run in a
circle without any constructor, there is none. -/
def lookupConstructor? (id : NodeId) (arity : Nat) : Option NodeId :=
  p.constructorWithin (p.size + 1) id arity

end ObjectMachine.Program
