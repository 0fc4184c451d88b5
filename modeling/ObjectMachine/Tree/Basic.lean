/-
Program trees. A tree is a node with its identity and source span, if it
has them, and a layer of subtrees.

Most traversals are instances of one: `fold` hands a function each node
together with the results of its children, in the children's places. What is
below a node is listed with a stack of the trees still to come.
-/
import ObjectMachine.Tree.Kind

namespace ObjectMachine

/-- A program tree. Identities are given out by linking; trees written by
hand have none. -/
inductive Tree where
  | node (id : Option NodeId) (span : Option Span) (kind : Kind Tree)

namespace Tree

/-- A node without identity and span. -/
def of (kind : Kind Tree) : Tree := .node none none kind

instance : Inhabited Tree := ⟨of .selfRef⟩

def id? : Tree → Option NodeId
  | .node id _ _ => id

def span? : Tree → Option Span
  | .node _ span _ => span

def kind : Tree → Kind Tree
  | .node _ _ kind => kind

/-- The identity of a numbered node. -/
def identity (t : Tree) : NodeId := t.id?.getD 0

def name? (t : Tree) : Option String := t.kind.name?

def children (t : Tree) : List Tree := t.kind.children

def members (t : Tree) : List Tree := t.kind.members

-- =========================================================== the fold

variable {β : Type}

mutual

/-- The result of `f` at the root, given the results of `f` everywhere
below. -/
def fold (f : Tree → Kind β → β) : Tree → β
  | .node id span kind => f (.node id span kind) (foldKind f kind)

/-- The results of the children, in the children's places. -/
def foldKind (f : Tree → Kind β → β) : Kind Tree → Kind β
  | .environment members => .environment (foldList f members)
  | .package name imports members => .package name (foldList f imports) (foldList f members)
  | .importDecl entity generic => .importDecl (fold f entity) generic
  | .program name body => .program name (fold f body)
  | .test name body => .test name (fold f body)
  | .describe name members => .describe name (foldList f members)
  | .classDecl name superclass mixins members =>
    .classDecl name (foldOption f superclass) (foldList f mixins) (foldList f members)
  | .singleton name superclass supercallArgs mixins members closure =>
    .singleton name (foldOption f superclass) (foldList f supercallArgs) (foldList f mixins)
      (foldList f members) closure
  | .mixin name mixins members => .mixin name (foldList f mixins) (foldList f members)
  | .varDecl name constant value => .varDecl name constant (foldOption f value)
  | .field name constant value => .field name constant (foldOption f value)
  | .method name parameters body native =>
    .method name (foldList f parameters) (foldOption f body) native
  | .constructor parameters baseCall body =>
    .constructor (foldList f parameters) (foldBaseCall f baseCall) (fold f body)
  | .fixture body => .fixture (fold f body)
  | .parameter name varArg => .parameter name varArg
  | .block sentences => .block (foldList f sentences)
  | .catchClause param type body =>
    .catchClause (fold f param) (foldOption f type) (fold f body)
  | .namedArgument name value => .namedArgument name (fold f value)
  | .returnStmt value => .returnStmt (foldOption f value)
  | .assignment place value => .assignment (fold f place) (fold f value)
  | .reference name target => .reference name target
  | .selfRef => .selfRef
  | .literal value => .literal (foldLiteral f value)
  | .send receiver message args => .send (fold f receiver) message (foldList f args)
  | .superSend args => .superSend (foldList f args)
  | .newInstance instantiated args => .newInstance (fold f instantiated) (foldList f args)
  | .ifElse condition thenBody elseBody =>
    .ifElse (fold f condition) (fold f thenBody) (foldOption f elseBody)
  | .throwStmt exception => .throwStmt (fold f exception)
  | .tryCatch body catches always =>
    .tryCatch (fold f body) (foldList f catches) (foldOption f always)

def foldList (f : Tree → Kind β → β) : List Tree → List β
  | [] => []
  | t :: ts => fold f t :: foldList f ts

def foldOption (f : Tree → Kind β → β) : Option Tree → Option β
  | none => none
  | some t => some (fold f t)

def foldBaseCall (f : Tree → Kind β → β) : Option (BaseCall Tree) → Option (BaseCall β)
  | none => none
  | some ⟨callsSuper, args⟩ => some ⟨callsSuper, foldList f args⟩

def foldLiteral (f : Tree → Kind β → β) : Literal Tree → Literal β
  | .null => .null
  | .boolean value => .boolean value
  | .number value => .number value
  | .string value => .string value
  | .collection module elements => .collection (fold f module) (foldList f elements)
  | .singleton object => .singleton (fold f object)

end

theorem foldList_eq_map (f : Tree → Kind β → β) (ts : List Tree) :
    foldList f ts = ts.map (fold f) := by
  induction ts with
  | nil => simp [foldList]
  | cons t ts ih => simp [foldList, ih]

theorem foldOption_eq_map (f : Tree → Kind β → β) (t : Option Tree) :
    foldOption f t = t.map (fold f) := by
  cases t <;> simp [foldOption]

theorem foldKind_eq_map (f : Tree → Kind β → β) (kind : Kind Tree) :
    foldKind f kind = kind.map (fold f) := by
  cases kind with
  | constructor parameters baseCall body =>
    cases baseCall <;> simp [foldKind, Kind.map, foldBaseCall, foldList_eq_map]
  | literal value =>
    cases value <;> simp [foldKind, Kind.map, foldLiteral, Literal.map, foldList_eq_map]
  | _ => simp [foldKind, Kind.map, foldList_eq_map, foldOption_eq_map]

/-- The law of the fold. -/
theorem fold_eq (f : Tree → Kind β → β) (t : Tree) :
    fold f t = f t (t.kind.map (fold f)) := by
  cases t
  simp [fold, kind, foldKind_eq_map]

-- ========================================================= traversals

/-- The node and everything below it, parents before children and children
in order. -/
def preorder : Tree → List Tree :=
  fold fun t below => t :: below.children.flatten

/-- A node comes before all that its children hold. -/
theorem preorder_eq (t : Tree) : t.preorder = t :: t.children.flatMap preorder := by
  rw [preorder, fold_eq, Kind.children_map]
  rfl

/-- Puts trees on a stack, one after another. The last one is on top. -/
def pushAll (ts stack : List Tree) : List Tree := ts.foldl (fun stack t => t :: stack) stack

theorem pushAll_reverse (ts stack : List Tree) : pushAll ts.reverse stack = ts ++ stack := by
  rw [pushAll, List.foldl_reverse]
  exact List.foldr_cons_eq_append'

/-- Takes trees off a stack until it is empty. Each leaves its children
there, the first one on top. -/
@[semireducible] def popAll : List Tree → List Tree
  | [] => []
  | t :: stack => t :: popAll (pushAll t.children.reverse stack)
-- what is still to come loses one tree each time
termination_by stack => (stack.flatMap preorder).length
decreasing_by
  rw [pushAll_reverse, List.flatMap_append, List.flatMap_cons, preorder_eq t]
  exact Nat.lt_succ_self _

/-- Everything below the node, parents before children. -/
def descendants (t : Tree) : List Tree := popAll (pushAll t.children.reverse [])

/-- Rebuilds a tree bottom-up: `f` sees each node after its children have
been rebuilt. -/
def rebuild (f : Tree → Tree) : Tree → Tree :=
  fold fun t kind => f (.node t.id? t.span? kind)

/-- The nodes in the order in which `rebuild` meets them. -/
def postorder : Tree → List Tree :=
  fold fun t below => below.children.flatten ++ [t]

/-- The names a container declares directly. -/
def memberNames (t : Tree) : List String := t.members.filterMap name?

end Tree

end ObjectMachine
