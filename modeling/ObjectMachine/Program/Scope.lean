/-
Scopes. A node introduces names for everything below it; the scope of a
node is what the nodes above it introduce, outermost first, and the last
entry for a name counts.

Supertypes are resolved before anything is inherited, so there the fields
a module inherits are not yet part of what it introduces: `Visibility`
says which of the two is meant.
-/
import ObjectMachine.Program.Hierarchy

namespace ObjectMachine

/-- Names with what they stand for; later entries win. -/
abbrev Scope := List (String × NodeId)

/-- What a name stands for. -/
def Scope.get? (scope : Scope) (name : String) : Option NodeId := scope.reverse.lookup name

/-- What a name stands for where scopes lie inside each other, the innermost
first. -/
def Scope.nested? (scopes : List Scope) (name : String) : Option NodeId :=
  scopes.findSome? fun scope => scope.get? name

/-- Whether fields that a module inherits are among the names it
introduces. -/
inductive Visibility where
  | lexical
  | inherited
deriving Repr, DecidableEq

/-- The nodes of a list that have names, under them. -/
def namedNodes (trees : List Tree) : Scope :=
  trees.filterMap fun t => t.name?.map fun name => (name, t.identity)

namespace Program

variable (p : Program)

/-- The fields that a module declares itself. -/
def ownFields (id : NodeId) : Scope :=
  namedNodes ((p.membersOf id).filter fun member => member.kind.isField)

/-- The names an import brings: those of all members of its target, or that
of the target alone. -/
def imported (declaration : Tree) : Scope :=
  match declaration.kind with
  | .importDecl entity generic =>
    match entity.kind.target?.bind p.tree? with
    | some target => if generic then namedNodes target.members else namedNodes [target]
    | none => []
  | _ => []

/-- The members of every package inside the global package: they are
visible everywhere. -/
def globals (topLevel : List Tree) : Scope :=
  match topLevel.find? fun t => t.kind.isPackage && t.name? == some CoreNames.globalPackage with
  | some library =>
    (library.members.filter fun member => member.kind.isPackage).flatMap fun package =>
      namedNodes package.members
  | none => []

/-- The names a node introduces for what is below it. -/
def contribution (visibility : Visibility) (id : NodeId) : Scope :=
  match p.kind? id with
  | some (.environment members) => globals members ++ namedNodes members
  | some (.package _ imports members) => imports.flatMap p.imported ++ namedNodes members
  | some (.classDecl ..) | some (.singleton ..) | some (.mixin ..) =>
    match visibility with
    | .lexical => p.ownFields id
    | .inherited => (p.hierarchy id).reverse.flatMap p.ownFields
  | some (.describe _ members) =>
    namedNodes (members.filter fun member => member.kind.isField || member.kind.isVariable)
  | some (.method _ parameters _ _) => namedNodes parameters
  | some (.constructor parameters _ _) => namedNodes parameters
  | some (.block sentences) =>
    namedNodes (sentences.filter fun sentence => sentence.kind.isVariable)
  | some (.catchClause param _ _) => namedNodes [param]
  | _ => []

/-- The names visible at a node, from the outermost inwards. -/
def scopeWith (visibility : Visibility) (id : NodeId) : Scope :=
  (p.ancestors id).reverse.flatMap (p.contribution visibility)

/-- The names visible at a node. -/
def scope (id : NodeId) : Scope := p.scopeWith .inherited id

/-- What a name stands for. Of a dotted name `lookup` gives the head, and
the rest is followed through members. -/
def resolveName? (lookup : String → Option NodeId) (name : String) : Option NodeId :=
  match dotted name with
  | [] => none
  | head :: rest =>
    ((lookup head).bind p.tree?).bind fun t => (t.walk rest).map Tree.identity

end Program

end ObjectMachine
