/-
Where the code of a node runs.

A frame runs in a context of its own, and the contexts of a program come in
few sorts (`Zone`). The code of a sentence or an expression runs in the
zone of the block around it: in between are only sentences and
expressions, whose parts run where they run themselves (`Program.Sits`).

Some parts are not evaluated where they stand. The initial value of a field
is computed while some object is constructed; the arguments of a base call
are computed before the body whose locals they end up next to; those of a
supercall outside of the object they are written in. Nothing is said about
the zone in which such a part runs: it is `Loose`.
-/
import Mathlib
import ObjectMachine.Proofs.Program.Sites

namespace ObjectMachine

/-- The sorts of contexts. -/
inductive Zone where
  /-- The context of globals. -/
  | globals
  /-- A context of which nothing is known. -/
  | loose
  /-- The context in which a protected block looks for a handler. -/
  | handlers (protection : NodeId)
  /-- The context of a block; anything else that stands in the place of one
  counts as an empty block. -/
  | block (body : NodeId)
deriving Repr, DecidableEq

namespace Kind

variable {α : Type}

/-- Sentences and expressions that run their parts where they run. -/
def isInline : Kind α → Bool
  | .varDecl .. | .assignment .. | .returnStmt .. | .throwStmt .. => true
  | .namedArgument .. | .catchClause .. | .literal .. | .send .. => true
  | .superSend .. | .newInstance .. | .ifElse .. | .tryCatch .. => true
  | _ => false

def isBlock : Kind α → Bool
  | .block .. => true
  | _ => false

/-- An object without a name. -/
def isAnonymous : Kind α → Bool
  | .singleton none _ _ _ _ _ => true
  | _ => false

/-- An object with a name. -/
def isNamedObject : Kind α → Bool
  | .singleton (some _) _ _ _ _ _ => true
  | _ => false

/-- The parts of a node that are not evaluated where they stand. -/
def detached : Kind α → List α
  | .field _ _ value => value.toList
  | .singleton _ _ args _ _ _ => args
  | .constructor _ baseCall _ => (baseCall.map BaseCall.args).getD []
  | _ => []

theorem mem_children_of_mem_detached {kind : Kind α} {c : α} (h : c ∈ kind.detached) :
    c ∈ kind.children := by
  cases kind <;> simp_all [detached, children]

end Kind

namespace Program

variable {p : Program}

/-- The zone in which the code of a node runs. -/
inductive Sits (p : Program) : Zone → NodeId → Prop
  | sentence {node body : NodeId} (parent : p.parent? node = some body)
      (block : p.isKind Kind.isBlock body) : Sits p (.block body) node
  /-- The value of a variable of a package. -/
  | global {node declaration package : NodeId} (parent : p.parent? node = some declaration)
      (variable_ : p.isKind Kind.isVariable declaration)
      (above : p.parent? declaration = some package) (isPackage : p.isKind Kind.isPackage package) :
      Sits p .globals node
  | inside {zone : Zone} {node part : NodeId} (parent : p.parent? part = some node)
      (inline : p.isKind Kind.isInline node) (sits : Sits p zone node) : Sits p zone part

/-- A part that is not evaluated where it stands. The variables of a describe
are set up like fields. -/
def Detached (p : Program) (node : NodeId) : Prop :=
  ∃ above kind, p.parent? node = some above ∧ p.kind? above = some kind
    ∧ (node ∈ kind.detached.map Tree.identity
      ∨ kind.isVariable ∧ ((p.parent? above).bind p.kind?).any Kind.isDescribe)

/-- A `Detached` part, or what is inside it up to the next block. -/
inductive Loose (p : Program) : NodeId → Prop
  | detached {node : NodeId} (apart : p.Detached node) : Loose p node
  | inside {node part : NodeId} (parent : p.parent? part = some node)
      (inline : p.isKind Kind.isInline node) (loose : Loose p node) : Loose p part

/-- The code of a node may run in a zone: it `Sits` there, or is `Loose`. -/
def Sited (p : Program) (zone : Zone) (node : NodeId) : Prop := p.Sits zone node ∨ p.Loose node

/-- A zone inside that of a frame. -/
def Inside (p : Program) (zone : Zone) : Zone → Prop
  | .globals => False
  | .loose => True
  | .handlers protection => p.Sited zone protection
  | .block body => p.Sited zone body

/-- Where nothing is known, only `Loose` parts run. -/
theorem Sits.known {zone : Zone} {node : NodeId} (h : p.Sits zone node) :
    zone = .globals ∨ ∃ body, zone = .block body := by
  induction h with
  | sentence => exact .inr ⟨_, rfl⟩
  | global => exact .inl rfl
  | inside _ _ _ ih => exact ih

-- ============================================================= children

section

variable (hp : p.root.Numbered) {t c : Tree} (ht : t ∈ p.root.preorder)
include hp ht

theorem isKind_of_mem (test : Kind Tree → Bool) : p.isKind test t.identity = test t.kind := by
  rw [isKind, kind?_of_mem hp ht]
  rfl

theorem Sited.child {zone : Zone} (h : p.Sited zone t.identity) (hinline : t.kind.isInline)
    (hc : c ∈ t.children) : p.Sited zone c.identity := by
  have hparent := parent?_of_child hp ht hc
  have hkind : p.isKind Kind.isInline t.identity := by rwa [isKind_of_mem hp ht]
  rcases h with h | h
  · exact .inl (.inside hparent hkind h)
  · exact .inr (.inside hparent hkind h)

theorem sited_sentence (hblock : t.kind.isBlock) (hc : c ∈ t.children) :
    p.Sited (.block t.identity) c.identity :=
  .inl (.sentence (parent?_of_child hp ht hc) (by rwa [isKind_of_mem hp ht]))

theorem sited_detached (zone : Zone) (hc : c ∈ t.kind.detached) : p.Sited zone c.identity := by
  refine .inr (.detached ⟨t.identity, t.kind, ?_, kind?_of_mem hp ht, .inl ?_⟩)
  · exact parent?_of_child hp ht (Kind.mem_children_of_mem_detached hc)
  · exact List.mem_map_of_mem hc

/-- The initial value of a variable of a describe is `Loose`. -/
theorem sited_described (zone : Zone) (hvariable : t.kind.isVariable)
    (hdescribe : ((p.parent? t.identity).bind p.kind?).any Kind.isDescribe)
    (hc : c ∈ t.children) : p.Sited zone c.identity :=
  .inr (.detached ⟨t.identity, t.kind, parent?_of_child hp ht hc, kind?_of_mem hp ht,
    .inr ⟨hvariable, hdescribe⟩⟩)

/-- The initial value of a variable of a package is `Sited` among the
globals. -/
theorem sited_global (hvariable : t.kind.isVariable) {package : NodeId}
    (hparent : p.parent? t.identity = some package) (hpackage : p.isKind Kind.isPackage package)
    (hc : c ∈ t.children) : p.Sited .globals c.identity :=
  .inl (.global (parent?_of_child hp ht hc) (by rwa [isKind_of_mem hp ht]) hparent hpackage)

end

end Program

end ObjectMachine
