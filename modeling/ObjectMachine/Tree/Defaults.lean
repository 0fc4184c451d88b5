/-
Filling in what a program may leave out: a missing superclass is the root
class (for blocks of code, the closure class), a missing initial value is
null, a missing branch is empty. Only the root class itself, which is
found by its name and the packages around it, stays without superclass.
Nodes that are added carry neither identity nor span.
-/
import ObjectMachine.Tree.Build

namespace ObjectMachine.Tree

/-- A class named `Object` directly in the package `wollok.lang`. -/
def isRootClass (name : String) (path : List String) : Bool :=
  name == "Object" && path == ["wollok", "lang"]

/-- Fills one layer; `path` names the packages around it. -/
def fillLayer (path : List String) : Kind Tree → Kind Tree
  | .classDecl name none mixins members =>
    .classDecl name
      (if isRootClass name path then none else some (Build.reference CoreNames.objectClass))
      mixins members
  | .singleton name none args mixins members closure =>
    let superclass := if closure then CoreNames.closureClass else CoreNames.objectClass
    .singleton name (some (Build.reference superclass)) args mixins members closure
  | .varDecl name constant none => .varDecl name constant (some Build.null)
  | .field name constant none => .field name constant (some Build.null)
  | .ifElse condition thenBody none => .ifElse condition thenBody (some (Build.block []))
  | .tryCatch body catches none => .tryCatch body catches (some (Build.block []))
  | other => other

/-- The packages around the children of a node. -/
def innerPath (kind : Kind Tree) (path : List String) : List String :=
  match kind with
  | .package name _ _ => path ++ [name]
  | _ => path

/-- Fills a tree that stands inside the packages `path`, bottom-up. -/
def fill : Tree → List String → Tree :=
  fold fun t below path =>
    let inner := innerPath t.kind path
    .node t.id? t.span? (fillLayer inner (below.map fun child => child inner))

/-- Fills the trees of a whole program. -/
def fillAll (forest : List Tree) : List Tree := forest.map fun t => t.fill []

end ObjectMachine.Tree
