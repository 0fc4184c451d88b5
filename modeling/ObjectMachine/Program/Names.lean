/-
Qualified names. The path of a node names the packages and describes
around it; entities that stand where a path can reach them are found by
it. Anonymous objects are named for their superclass and their identity.
-/
import ObjectMachine.Program.Basic

namespace ObjectMachine

/-- The pieces of a text between its dots. There is always one more piece
than there are dots. -/
def dotted (name : String) : List String :=
  let (piece, pieces) := split name.toList
  String.ofList piece :: pieces.map String.ofList
where
  /-- The first piece and the others. -/
  split : List Char → List Char × List (List Char)
    | [] => ([], [])
    | c :: rest =>
      let (piece, pieces) := split rest
      if c = '.' then ([], piece :: pieces) else (c :: piece, pieces)

/-- Joins pieces with dots. -/
def joinDots (pieces : List String) : String := String.intercalate "." pieces

/-- Follows names down through members. Where siblings share a name, the
first is taken. -/
def Tree.walk (t : Tree) : List String → Option Tree
  | [] => some t
  | name :: rest =>
    match t.members.find? fun member => member.name? == some name with
    | some member => member.walk rest
    | none => none

namespace Program

variable (p : Program)

/-- The superclass a class or object declares, if it is a module. -/
def declaredSuperclass? (kind : Kind Tree) : Option NodeId :=
  (kind.superclass?.bind fun reference => reference.kind.target?).filter p.isModule

/-- The names of the packages and describes around a node, outermost
first. -/
def path (id : NodeId) : List String :=
  (((p.ancestors id).filter (p.isKind fun kind => kind.isPackage || kind.isDescribe)).filterMap
    p.name?).reverse

/-- The name of a node, following at most `fuel` anonymous objects to their
superclasses. -/
def nameWithin : Nat → NodeId → String
  | fuel, id =>
    match p.kind? id with
    | some (.singleton none superclass args mixins members closure) =>
      let kind := Kind.singleton none superclass args mixins members closure
      let base := match p.declaredSuperclass? kind, fuel with
        | some superclass, fuel + 1 => nameWithin fuel superclass
        | _, _ => CoreNames.objectClass
      base ++ "#" ++ toString id
    | some kind => joinDots (p.path id ++ [kind.name?.getD kind.label])
    | none => ""

/-- The qualified name of a node. -/
def qualifiedName (id : NodeId) : String := p.nameWithin p.size id

/-- An entity that its path reaches: it stands in the root or a package, or
it is a test of a describe. -/
def isAddressable (id : NodeId) : Bool :=
  match p.kind? id, (p.parent? id).bind p.kind? with
  | some kind, some parent =>
    kind.isEntity && kind.name?.isSome &&
      match parent with
      | .environment _ => true
      | .package .. => true
      | .describe .. => kind.isTest
      | _ => false
  | _, _ => false

/-- The entity of that qualified name. Of several, the last one declared. -/
def entity? (name : String) : Option NodeId :=
  (p.descendantIds p.rootId).reverse.find? fun id =>
    p.isAddressable id && p.qualifiedName id == name

/-- The node that a qualified name reaches from the root. Of several
members with one name, the first one is followed. -/
def resolveQualified? (name : String) : Option NodeId :=
  (p.root.walk (dotted name)).map Tree.identity

end Program

end ObjectMachine
