/-
Linking: from loose trees to a program.

Packages of one name become one package, nodes without identity are
numbered, parents before children, and every reference is given its
target. References are resolved in three rounds, each on the result of the
one before: imports from the root, supertypes in the scope of declared
names, everything else in the full scope. A program can be linked on top
of another one, whose nodes keep their identities and targets.
-/
import ObjectMachine.Program.Scope

namespace ObjectMachine

/-- Why trees do not link. -/
inductive LinkError where
  /-- A name that stands for nothing where it is used. -/
  | unresolvedReference (name : String) (span : Option Span)
  /-- A node without parent, or a module whose supertype is no module. -/
  | missingAncestor (id : NodeId)
  /-- Two nodes that came with the same identity. -/
  | duplicateIdentity (id : NodeId)
  /-- A gap in the identities that nodes came with. -/
  | missingIdentity (id : NodeId)
deriving Repr, DecidableEq

def LinkError.message : LinkError → String
  | .unresolvedReference name span =>
    "unresolved reference `" ++ name ++ "`" ++ (span.map fun s => " at " ++ s.text).getD ""
  | .missingAncestor id => "node " ++ toString id ++ " has no reachable ancestor"
  | .duplicateIdentity id => "malformed base environment: duplicate identity " ++ toString id
  | .missingIdentity id => "malformed base environment: no node with identity " ++ toString id

-- ============================================================ merging

namespace Tree

/-- Applies `f` to the first element that passes the test, if there is
one. -/
def updateFirst? {α : Type} (test : α → Bool) (f : α → α) : List α → Option (List α)
  | [] => none
  | a :: rest => if test a then some (f a :: rest) else (updateFirst? test f rest).map (a :: ·)

/-- A package of that name. -/
def isPackageNamed (name : Option String) (t : Tree) : Bool :=
  t.kind.isPackage && t.name? == name

/-- Replaces the imports and members of a package. -/
def extendPackage (imports : List Tree) (members : List Tree → List Tree) : Tree → Tree
  | .node id span (.package name oldImports oldMembers) =>
    .node id span (.package name (oldImports ++ imports) (members oldMembers))
  | other => other

mutual

/-- Adds a tree to its siblings. A package joins the first package of its
name, and anything else that shares its name with a package is left out. -/
def mergeInto (siblings : List Tree) : Tree → List Tree
  | .node id span (.package name imports members) =>
    (updateFirst? (isPackageNamed (some name))
        (extendPackage imports fun old => mergeMembers old members) siblings).getD
      (siblings ++ [.node id span (.package name imports members)])
  | other =>
    if siblings.any (isPackageNamed other.name?) then siblings else siblings ++ [other]

/-- Adds the members of one package to those of another. Only packages are
merged. -/
def mergeMembers (members : List Tree) : List Tree → List Tree
  | [] => members
  | t :: rest =>
    mergeMembers (if t.kind.isPackage then mergeInto members t else members ++ [t]) rest

end

/-- Merges trees one after another into those already there. -/
def mergeAll (base forest : List Tree) : List Tree := forest.foldl mergeInto base

-- ========================================================== numbering

/-- Gives an identity to every node that has none, counting up from the
state, parents before children. -/
def number : Tree → StateM NodeId Tree :=
  fold fun t below => do
    let id ← match t.id? with
      | some id => pure id
      | none => modifyGet fun next => (next, next + 1)
    let kind ← below.mapM fun child => child
    return .node (some id) t.span? kind

/-- The identities in the order in which subtrees are completed. -/
def identities (root : Tree) : List NodeId := root.postorder.map identity

/-- The first entry that repeats an earlier one. -/
def firstRepeated? : List NodeId → List NodeId → Option NodeId
  | _, [] => none
  | seen, id :: rest => if id ∈ seen then some id else firstRepeated? (id :: seen) rest

/-- Checks that the identities are exactly 0, 1, 2, …, each once. -/
def checkNumbered (root : Tree) : Except LinkError Unit :=
  let ids := root.identities
  match firstRepeated? [] ids with
  | some id => .error (.duplicateIdentity id)
  | none =>
    match (List.range ids.length).find? (· ∉ ids) with
    | some id => .error (.missingIdentity id)
    | none => .ok ()

-- ============================================================ targets

/-- A reference without target. -/
def isPending (t : Tree) : Bool :=
  match t.kind with
  | .reference _ none => true
  | _ => false

/-- Sets the targets of the references listed. -/
def setTargets (targets : List (NodeId × NodeId)) : Tree → Tree :=
  rebuild fun t =>
    match t with
    | .node id span (.reference name target) =>
      .node id span (.reference name ((targets.lookup t.identity).or target))
    | other => other

end Tree

namespace Program

variable (p : Program)

/-- The program with the targets of the references listed. -/
def withTargets (targets : List (NodeId × NodeId)) : Program :=
  ofTree (p.root.setTargets targets)

/-- The error for a reference that stands for nothing. -/
def unresolved (reference : Tree) : LinkError :=
  .unresolvedReference (reference.name?.getD "") reference.span?

/-- The references of imports that have no target yet. -/
def pendingImports : List Tree :=
  p.sites.toList.filterMap fun site =>
    match site.tree.kind with
    | .importDecl entity _ => if entity.isPending then some entity else none
    | _ => none

/-- The references to supertypes that have no target yet, each with its
module; mixins come before the superclass. -/
def pendingSupertypes : List (NodeId × Tree) :=
  p.sites.toList.flatMap fun site =>
    let kind := site.tree.kind
    ((kind.mixins ++ kind.superclass?.toList).filter Tree.isPending).map fun reference =>
      (site.tree.identity, reference)

/-- Imports name entities from the root. -/
def resolveImport (reference : Tree) : Except LinkError (NodeId × NodeId) :=
  match p.resolveQualified? (reference.name?.getD "") with
  | some target => .ok (reference.identity, target)
  | none => .error (unresolved reference)

/-- Supertypes see declared names only, and they must be modules. -/
def resolveSupertype (module : NodeId) (reference : Tree) :
    Except LinkError (NodeId × NodeId) :=
  let scope := p.scopeWith .lexical reference.identity
  match p.resolveName? scope.get? (reference.name?.getD "") with
  | some target =>
    if p.isModule target then .ok (reference.identity, target)
    else .error (.missingAncestor module)
  | none => .error (unresolved reference)

/-- All other references see the full scope. The tree is walked once from
the top; `scopes` holds what the nodes around it introduce, the innermost
first. -/
def resolveBelow : Tree → List Scope → Except LinkError (List (NodeId × NodeId)) :=
  Tree.fold fun t below scopes =>
    if t.isPending then
      match p.resolveName? (Scope.nested? scopes) (t.name?.getD "") with
      | some target => .ok [(t.identity, target)]
      | none => .error (unresolved t)
    else do
      let inner := p.contribution .inherited t.identity :: scopes
      let found ← below.children.mapM fun child => child inner
      return found.flatten

/-- Gives every reference of a numbered program its target. -/
def resolve : Except LinkError Program := do
  let imports ← p.pendingImports.mapM p.resolveImport
  let p := p.withTargets imports
  let supertypes ← p.pendingSupertypes.mapM fun (module, reference) =>
    p.resolveSupertype module reference
  let p := p.withTargets supertypes
  let references ← p.resolveBelow p.root []
  return p.withTargets references

/-- Numbers trees under one root, on top of a program if there is one. -/
def numbered (base : Option Program) (trees : List Tree) : Tree :=
  let root := Tree.node (base.map rootId) none (.environment trees)
  (root.number.run ((base.map size).getD 0)).1

/-- Links trees whose defaults are filled in, on top of a program if one is
given. -/
def link (base : Option Program) (forest : List Tree) : Except LinkError Program := do
  let trees := Tree.mergeAll ((base.map topLevel).getD []) forest
  let root := numbered base trees
  root.checkNumbered
  (ofTree root).resolve

end Program

end ObjectMachine
