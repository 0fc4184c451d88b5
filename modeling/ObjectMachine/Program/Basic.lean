/-
Programs: one tree whose nodes carry the identities 0, 1, 2, … and are
found by them.

A program is its tree. The array of sites is an index over it, so that a
node, its subtree and its parent are found from its identity without a
search; `sites_eq` says that it holds nothing else.
-/
import ObjectMachine.CoreNames
import ObjectMachine.Tree.Basic

namespace ObjectMachine

/-- A place in a program: the subtree that stands there, and the identity
of the node above it. -/
structure Site where
  parent : Option NodeId
  tree : Tree

namespace Tree

/-- Every node of a numbered tree with its site, parents before children. -/
def placed : Tree → Option NodeId → List (NodeId × Site) :=
  fold fun t below parent =>
    (t.identity, ⟨parent, t⟩) :: (below.children.map fun child => child (some t.identity)).flatten

/-- The sites of a numbered tree by identity. -/
def sites (root : Tree) : Array Site :=
  let placed := root.placed none
  ((List.range placed.length).filterMap fun id => placed.lookup id).toArray

end Tree

/-- A program whose nodes are numbered. -/
structure Program where
  root : Tree
  sites : Array Site := root.sites
  sites_eq : sites = root.sites := by rfl

namespace Program

/-- The program of a numbered tree. -/
def ofTree (root : Tree) : Program := { root }

variable (p : Program)

/-- The number of nodes. -/
def size : Nat := p.sites.size

def rootId : NodeId := p.root.identity

def site? (id : NodeId) : Option Site := p.sites[id]?

/-- The subtree at a node. -/
def tree? (id : NodeId) : Option Tree := (p.site? id).map Site.tree

def kind? (id : NodeId) : Option (Kind Tree) := (p.tree? id).map Tree.kind

/-- The declared name of a node. -/
def name? (id : NodeId) : Option String := (p.kind? id).bind Kind.name?

/-- The node whose children include this one. -/
def parent? (id : NodeId) : Option NodeId := (p.site? id).bind Site.parent

/-- The identities of the children, in order. -/
def childIds (id : NodeId) : List NodeId :=
  ((p.tree? id).map fun t => t.children.map Tree.identity).getD []

/-- The identities of everything below, parents before children. -/
def descendantIds (id : NodeId) : List NodeId :=
  ((p.tree? id).map fun t => t.descendants.map Tree.identity).getD []

/-- The trees at the top level, with identities and targets. -/
def topLevel : List Tree := p.root.members

/-- The target of a reference. -/
def target? (id : NodeId) : Option NodeId := (p.kind? id).bind Kind.target?

/-- Whether a node is of a kind. An identity that names nothing is not. -/
def isKind (test : Kind Tree → Bool) (id : NodeId) : Bool := (p.kind? id).any test

def isModule (id : NodeId) : Bool := p.isKind Kind.isModule id

/-- Climbs at most `fuel` parents. -/
def climb : Nat → NodeId → List NodeId
  | 0, _ => []
  | fuel + 1, id =>
    match p.parent? id with
    | some parent => parent :: climb fuel parent
    | none => []

/-- The nodes above this one, nearest first. No chain of parents is longer
than the program. -/
def ancestors (id : NodeId) : List NodeId := p.climb p.size id

/-- The nearest module or describe around a node. -/
def enclosingModule? (id : NodeId) : Option NodeId :=
  (p.ancestors id).find? (p.isKind fun kind => kind.isModule || kind.isDescribe)

/-- The nearest method around a node. -/
def enclosingMethod? (id : NodeId) : Option NodeId :=
  (p.ancestors id).find? (p.isKind Kind.isMethod)

end Program

end ObjectMachine
