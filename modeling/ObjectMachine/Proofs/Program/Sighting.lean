/-
Fields, seen from the code that names them.

A reference is resolved from the inside out: of the nodes around it the
first that introduces its name says what it stands for. `Sighted` follows
that way node by node, and counts the nodes on it.

Where the name stands for a field the way does not go far. Only modules and
describes introduce fields (`introduces_field`), and in a flat program they
stand in packages; so the way ends at the first module with a name, and only
from an object without one can it go on, to the code that the object is
written in.
-/
import Mathlib
import ObjectMachine.Proofs.Code.Layout
import ObjectMachine.Proofs.Program.Layering
import ObjectMachine.Proofs.Program.Zones

namespace ObjectMachine

open Relation

/-- What an import names, and whether it brings in the members of it. -/
def Tree.import? (t : Tree) : Option (Tree × Bool) :=
  match t.kind with
  | .importDecl entity generic => some (entity, generic)
  | _ => none

theorem mem_namedNodes {trees : List Tree} {name : String} {id : NodeId}
    (h : (name, id) ∈ namedNodes trees) : ∃ t ∈ trees, t.name? = some name ∧ t.identity = id := by
  obtain ⟨t, ht, hname⟩ := List.mem_filterMap.1 h
  obtain ⟨own, hown, heq⟩ := Option.map_eq_some_iff.1 hname
  cases heq
  exact ⟨t, ht, hown, rfl⟩

/-- What code consists of. -/
def Kind.isCode {α : Type} (kind : Kind α) : Bool := kind.isInline || kind.isBlock

/-- What holds members, objects without a name apart. -/
def Kind.isContainer {α : Type} : Kind α → Bool
  | .environment .. | .package .. | .describe .. => true
  | .classDecl .. | .mixin .. | .singleton (some _) .. => true
  | _ => false

/-- Packages are neither modules nor describes, so they declare no fields. -/
theorem Kind.not_owner_of_isPackage {α : Type} {kind : Kind α} (h : kind.isPackage) :
    kind.isModule = false ∧ kind.isDescribe = false := by
  cases kind with
  | package => exact ⟨rfl, rfl⟩
  | _ => cases h

namespace Program

-- ======================================================== flat programs

/-- A program in which modules are not nested. Whatever `isContainer` stands in
a package or at the top level, and imports name such entities, those that bring
in members packages. -/
structure Flat (p : Program) : Prop where
  stands : ∀ t ∈ p.root.preorder, t.kind.isContainer →
    ∀ above ∈ p.parent? t.identity, above = p.rootId ∨ p.isKind Kind.isPackage above
  imports : ∀ t ∈ p.root.preorder, ∀ entry ∈ t.import?, ∀ target ∈ entry.1.kind.target?,
    p.isKind Kind.isEntity target ∧ (entry.2 → p.isKind Kind.isPackage target)

/-- A field, and the module or describe that declares it. -/
structure FieldOf (p : Program) (owner field : NodeId) : Prop where
  isField : p.isKind Kind.isField field
  parent : p.parent? field = some owner
  owner : p.isModule owner ∨ p.isKind Kind.isDescribe owner

variable {p : Program} {owner field node : NodeId} {name : String}

theorem inherits_iff_follows {module ancestor : NodeId} :
    p.inherits module ancestor ↔ ReflTransGen p.Follows module ancestor := by
  rw [inherits, decide_eq_true_iff, mem_hierarchy_iff]

theorem inherits_self (p : Program) (module : NodeId) : p.inherits module module :=
  inherits_iff_follows.2 .refl

theorem inherits_trans {module middle ancestor : NodeId} (h : p.inherits module middle)
    (h' : p.inherits middle ancestor) : p.inherits module ancestor :=
  inherits_iff_follows.2 ((inherits_iff_follows.1 h).trans (inherits_iff_follows.1 h'))

/-- Two tests that no kind passes both tell nodes apart. -/
theorem not_isKind_of_isKind {test other : Kind Tree → Bool}
    (hdisjoint : ∀ kind, test kind = true → other kind = false) {id : NodeId}
    (h : p.isKind test id) : ¬ p.isKind other id := by
  intro hother
  obtain ⟨kind, hkind, htest⟩ := (Option.any_eq_true _ _).1 h
  rw [isKind, hkind, Option.any_some, hdisjoint kind htest] at hother
  cases hother

theorem isKind_mono {test other : Kind Tree → Bool}
    (himplies : ∀ kind, test kind = true → other kind = true) {id : NodeId}
    (h : p.isKind test id) : p.isKind other id := by
  obtain ⟨kind, hkind, htest⟩ := (Option.any_eq_true _ _).1 h
  rw [isKind, hkind, Option.any_some]
  exact himplies kind htest

/-- Kinds that are neither modules nor describes declare no fields. -/
theorem not_owner_of_isKind {test : Kind Tree → Bool}
    (hdisjoint : ∀ kind, test kind = true → kind.isModule = false ∧ kind.isDescribe = false)
    {id : NodeId} (h : p.isKind test id) : ¬ (p.isModule id ∨ p.isKind Kind.isDescribe id) := by
  rintro (hother | hother)
  · exact not_isKind_of_isKind (fun kind hkind => (hdisjoint kind hkind).1) h hother
  · exact not_isKind_of_isKind (fun kind hkind => (hdisjoint kind hkind).2) h hother

section

variable (hp : p.root.Numbered)
include hp

theorem parent?_of_member {module : NodeId} {member : Tree} (h : member ∈ p.membersOf module) :
    p.parent? member.identity = some module := by
  unfold membersOf at h
  cases hkind : p.kind? module with
  | none =>
      rw [hkind] at h
      cases h
  | some kind =>
      obtain ⟨t, htree, rfl⟩ := Option.map_eq_some_iff.1 hkind
      obtain ⟨ht, rfl⟩ := (tree?_eq_some_iff hp).1 htree
      rw [hkind] at h
      exact parent?_of_child hp ht (Kind.mem_children_of_mem_members h)

/-- A field stands under its owner only. -/
theorem FieldOf.owner_eq (h : p.FieldOf owner field) {t c : Tree} (ht : t ∈ p.root.preorder)
    (hc : c ∈ t.children) (hid : c.identity = field) : t.identity = owner := by
  have hparent := parent?_of_child hp ht hc
  rw [hid, h.parent] at hparent
  exact (Option.some.inj hparent).symm

/-- A node that is neither module nor describe has no field among its
children. -/
theorem FieldOf.not_child (h : p.FieldOf owner field) {t c : Tree} (ht : t ∈ p.root.preorder)
    (hmodule : t.kind.isModule = false) (hdescribe : t.kind.isDescribe = false)
    (hc : c ∈ t.children) : c.identity ≠ field := by
  intro hid
  have heq := h.owner_eq hp ht hc hid
  rcases h.owner with howner | howner
  · rw [← heq, isModule, isKind_of_mem hp ht, hmodule] at howner
    cases howner
  · rw [← heq, isKind_of_mem hp ht, hdescribe] at howner
    cases howner

theorem FieldOf.not_mem_namedNodes (h : p.FieldOf owner field) {t : Tree} {trees : List Tree}
    (ht : t ∈ p.root.preorder) (hmodule : t.kind.isModule = false)
    (hdescribe : t.kind.isDescribe = false) (htrees : trees ⊆ t.children) :
    (name, field) ∉ namedNodes trees := by
  intro hmem
  obtain ⟨c, hc, -, hid⟩ := mem_namedNodes hmem
  exact h.not_child hp ht hmodule hdescribe (htrees hc) hid

/-- In a `Flat` program imports do not bring in fields. -/
theorem FieldOf.not_imported (hflat : p.Flat) (h : p.FieldOf owner field) {declaration : Tree}
    (hd : declaration ∈ p.root.preorder) : (name, field) ∉ p.imported declaration := by
  intro hmem
  unfold imported at hmem
  split at hmem
  · next entity generic hkind =>
    split at hmem
    · next target htarget =>
      obtain ⟨id, hid, htree⟩ := Option.bind_eq_some_iff.1 htarget
      obtain ⟨hmember, rfl⟩ := (tree?_eq_some_iff hp).1 htree
      have hentry : (entity, generic) ∈ declaration.import? := by
        rw [Tree.import?, hkind]
        rfl
      obtain ⟨hentity, hpackage⟩ := hflat.imports declaration hd _ hentry _ hid
      split at hmem
      · next hgeneric =>
        have hpackage := hpackage hgeneric
        rw [isKind_of_mem hp hmember] at hpackage
        obtain ⟨hmodule, hdescribe⟩ := Kind.not_owner_of_isPackage hpackage
        exact h.not_mem_namedNodes hp hmember hmodule hdescribe
          (fun c hc => Kind.mem_children_of_mem_members hc) hmem
      · obtain ⟨c, hc, -, hsame⟩ := mem_namedNodes hmem
        rw [List.mem_singleton.1 hc] at hsame
        rw [hsame] at hentity
        refine not_isKind_of_isKind (fun kind hkind => ?_) h.isField hentity
        cases kind <;> simp_all [Kind.isField, Kind.isEntity]
    · cases hmem
  · cases hmem

theorem FieldOf.not_global (h : p.FieldOf owner field) {members : List Tree}
    (hmembers : ∀ t ∈ members, t ∈ p.root.preorder) : (name, field) ∉ globals members := by
  intro hmem
  unfold globals at hmem
  split at hmem
  · next library hlibrary =>
    obtain ⟨package, hpackage, hmem⟩ := List.mem_flatMap.1 hmem
    obtain ⟨hmember, hkind⟩ := List.mem_filter.1 hpackage
    have hinside : package ∈ p.root.preorder := Tree.mem_preorder_trans
      (hmembers library (List.mem_of_find?_eq_some hlibrary)) (Tree.mem_preorder_of_member hmember)
    obtain ⟨hmodule, hdescribe⟩ := Kind.not_owner_of_isPackage hkind
    exact h.not_mem_namedNodes hp hinside hmodule hdescribe
      (fun c hc => Kind.mem_children_of_mem_members hc) hmem
  · cases hmem

/-- The inherited `contribution` of a node has a field if the node is its
describe, or a module that inherits from the one that declares it. -/
theorem introduces_field (hflat : p.Flat) (h : p.FieldOf owner field)
    (hmem : (name, field) ∈ p.contribution .inherited node) :
    p.inherits node owner ∧ (p.isModule node ∨ p.isKind Kind.isDescribe node) := by
  cases hkind : p.kind? node with
  | none =>
      rw [contribution, hkind] at hmem
      cases hmem
  | some kind =>
      obtain ⟨t, htree, rfl⟩ := Option.map_eq_some_iff.1 hkind
      obtain ⟨ht, rfl⟩ := (tree?_eq_some_iff hp).1 htree
      -- what introduces its own children only, and is no owner of fields
      have hother {trees : List Tree} (hmodule : t.kind.isModule = false)
          (hdescribe : t.kind.isDescribe = false) (htrees : trees ⊆ t.kind.children)
          (hmem : (name, field) ∈ namedNodes trees) : False :=
        h.not_mem_namedNodes hp ht hmodule hdescribe htrees hmem
      have hinherited (hmem : (name, field) ∈ (p.hierarchy t.identity).reverse.flatMap p.ownFields)
          (hmodule : p.isModule t.identity) : p.inherits t.identity owner
            ∧ (p.isModule t.identity ∨ p.isKind Kind.isDescribe t.identity) := by
        obtain ⟨ancestor, hancestor, hmem⟩ := List.mem_flatMap.1 hmem
        obtain ⟨c, hc, -, hid⟩ := mem_namedNodes hmem
        obtain ⟨hc, -⟩ := List.mem_filter.1 hc
        have hparent := parent?_of_member hp hc
        rw [hid, h.parent] at hparent
        rw [List.mem_reverse, ← Option.some.inj hparent] at hancestor
        exact ⟨decide_eq_true hancestor, .inl hmodule⟩
      have hself := isKind_of_mem hp ht
      rw [contribution, hkind] at hmem
      cases hk : t.kind with
      | environment members =>
          rw [hk] at hmem hother
          rcases List.mem_append.1 hmem with hmem | hmem
          · have hmembers : ∀ c ∈ members, c ∈ p.root.preorder := fun c hc =>
              kind?_child_mem hkind (hk ▸ hc)
            exact (h.not_global hp hmembers hmem).elim
          · exact (hother rfl rfl (List.Subset.refl _) hmem).elim
      | package own imports members =>
          rw [hk] at hmem hother
          rcases List.mem_append.1 hmem with hmem | hmem
          · obtain ⟨declaration, hd, hmem⟩ := List.mem_flatMap.1 hmem
            have hinside : declaration ∈ p.root.preorder :=
              kind?_child_mem hkind (hk ▸ List.mem_append_left _ hd)
            exact (h.not_imported hp hflat hinside hmem).elim
          · exact (hother rfl rfl (List.subset_append_right _ _) hmem).elim
      | classDecl | singleton | mixin =>
          rw [hk] at hmem
          refine hinherited hmem ?_
          rw [isModule, hself, hk]
          rfl
      | describe own members =>
          rw [hk] at hmem
          obtain ⟨c, hc, -, hid⟩ := mem_namedNodes hmem
          have hchild : c ∈ t.children := by
            rw [Tree.children, hk]
            exact (List.mem_filter.1 hc).1
          rw [← h.owner_eq hp ht hchild hid]
          refine ⟨p.inherits_self _, .inr ?_⟩
          rw [hself, hk]
          rfl
      | method own parameters body native =>
          rw [hk] at hmem hother
          exact (hother rfl rfl (List.subset_append_left _ _) hmem).elim
      | constructor parameters baseCall body =>
          rw [hk] at hmem hother
          refine (hother rfl rfl (fun c hc => ?_) hmem).elim
          rw [Kind.children, List.append_assoc]
          exact List.mem_append_left _ hc
      | block sentences =>
          rw [hk] at hmem hother
          exact (hother rfl rfl (List.filter_subset_self _) hmem).elim
      | catchClause param type body =>
          rw [hk] at hmem hother
          exact (hother rfl rfl (List.subset_append_of_subset_left _ (List.subset_append_left _ _))
            hmem).elim
      | _ =>
          rw [hk] at hmem
          cases hmem

end

-- ============================================================== sightings

/-- From a node outwards `depth` nodes do not introduce the name, and the
next one introduces it for the target. -/
inductive Sighted (p : Program) (name : String) (target : NodeId) : Nat → NodeId → Prop
  | here {node : NodeId}
      (found : Scope.get? (p.contribution .inherited node) name = some target) :
      Sighted p name target 0 node
  | above {depth : Nat} {node parent : NodeId}
      (missing : Scope.get? (p.contribution .inherited node) name = none)
      (up : p.parent? node = some parent) (seen : Sighted p name target depth parent) :
      Sighted p name target (depth + 1) node

variable {depth : Nat}

theorem not_owner_of_isCode (h : p.isKind Kind.isCode node) :
    ¬ (p.isModule node ∨ p.isKind Kind.isDescribe node) := by
  refine not_owner_of_isKind (fun kind hkind => ?_) h
  cases kind <;> first | exact ⟨rfl, rfl⟩ | cases hkind

section

variable (hp : p.root.Numbered)
include hp

/-- What the `scope` of a node has is `Sighted` from its parent. -/
theorem sighted_of_scope {target : NodeId} {t : Tree} (ht : t ∈ p.root.preorder)
    (h : (p.scope t.identity).get? name = some target) :
    ∃ parent depth, p.parent? t.identity = some parent ∧ p.Sighted name target depth parent := by
  obtain ⟨above, hbelow⟩ := Tree.exists_below_of_mem .root ht
  rw [scope_of_below hp hbelow, ← Scope.nested?_eq] at h
  clear ht
  induction hbelow with
  | root => cases h
  | @child above t c hbelow hc ih =>
      refine ⟨t.identity, ?_⟩
      rw [Scope.nested?, List.map_cons, List.findSome?_cons] at h
      have hparent := parent?_of_child hp hbelow.mem hc
      split at h
      · next found hfound =>
        cases h
        exact ⟨0, hparent, .here hfound⟩
      · next hnone =>
        obtain ⟨parent, depth, hup, hseen⟩ := ih h
        exact ⟨depth + 1, hparent, .above hnone hup hseen⟩

variable (hflat : p.Flat) (h : p.FieldOf owner field)
include hflat h

/-- Nothing but modules and describes ends the search for a field, so elsewhere
it is `Sighted` from the parent. -/
theorem Sighted.up (hseen : p.Sighted name field depth node)
    (hnode : ¬ (p.isModule node ∨ p.isKind Kind.isDescribe node)) :
    ∃ less parent, depth = less + 1 ∧ p.parent? node = some parent
      ∧ p.Sighted name field less parent := by
  cases hseen with
  | here found => exact absurd (introduces_field hp hflat h (Scope.mem_of_get? found)).2 hnode
  | above _ up seen => exact ⟨_, _, rfl, up, seen⟩

end

section

variable (hp : p.Complete) (hflat : p.Flat) (h : p.FieldOf owner field)
include hp hflat h

/-- No field is `Sighted` from packages. -/
theorem not_sighted_of_isPackage
    (hnode : node = p.rootId ∨ p.isKind Kind.isPackage node) :
    ¬ p.Sighted name field depth node := by
  intro hseen
  induction depth generalizing node with
  | zero =>
      cases hseen with
      | here found =>
          have howner := (introduces_field hp.numbered hflat h (Scope.mem_of_get? found)).2
          rcases hnode with rfl | hpackage
          · have hroot := isKind_of_mem hp.numbered p.root.mem_preorder_self
            rw [isModule, rootId, hroot, hroot, hp.environment] at howner
            rcases howner with howner | howner <;> cases howner
          · exact not_owner_of_isKind (fun _ => Kind.not_owner_of_isPackage) hpackage howner
  | succ depth ih =>
      cases hseen with
      | above _ up seen =>
          rcases hnode with rfl | hpackage
          · have hroot : p.parent? p.root.identity = none := parent?_of_below hp.numbered .root
            rw [rootId, hroot] at up
            cases up
          · obtain ⟨kind, hkind, htest⟩ := (Option.any_eq_true _ _).1 hpackage
            obtain ⟨t, htree, rfl⟩ := Option.map_eq_some_iff.1 hkind
            obtain ⟨ht, rfl⟩ := (tree?_eq_some_iff hp.numbered).1 htree
            refine ih (hflat.stands t ht ?_ _ up) seen
            cases hk : t.kind <;> first | rfl | (rw [hk] at htest; cases htest)

/-- From code that `Sits` in a zone the search leads to the block of the
zone. -/
theorem Sits.sighted {zone : Zone} (hsits : p.Sits zone node) {above : NodeId}
    (hup : p.parent? node = some above) (hseen : p.Sighted name field depth above) :
    ∃ body less, less ≤ depth ∧ zone = .block body ∧ p.isKind Kind.isBlock body
      ∧ p.Sighted name field less body := by
  induction hsits generalizing depth above with
  | sentence parent block =>
      cases parent.symm.trans hup
      exact ⟨_, depth, le_rfl, rfl, block, hseen⟩
  | global parent variable_ above' isPackage =>
      cases parent.symm.trans hup
      have hcode : p.isKind Kind.isCode _ := isKind_mono
        (fun kind hk => by cases kind <;> first | rfl | cases hk) variable_
      obtain ⟨less, package, -, hparent, hseen⟩ :=
        hseen.up hp.numbered hflat h (not_owner_of_isCode hcode)
      cases above'.symm.trans hparent
      exact (not_sighted_of_isPackage hp hflat h (.inr isPackage) hseen).elim
  | inside parent inline _ ih =>
      cases parent.symm.trans hup
      have hcode : p.isKind Kind.isCode _ := isKind_mono
        (fun kind hk => by rw [Kind.isCode, hk, Bool.true_or]) inline
      obtain ⟨less, outer, rfl, hparent, hseen⟩ :=
        hseen.up hp.numbered hflat h (not_owner_of_isCode hcode)
      obtain ⟨body, least, hle, hzone, hblock, hseen⟩ := ih hparent hseen
      exact ⟨body, least, hle.trans (Nat.le_succ _), hzone, hblock, hseen⟩

end

-- ================================================================ layers

namespace Continues

variable {base : Program} (h : base.Continues p)
include h

/-- Below the root, `tree?` of what is no package is as it was. -/
theorem tree?_of_not_package {id : NodeId} {t : Tree} (ht : base.tree? id = some t)
    (hroot : id ≠ base.rootId) (hpackage : ¬ t.kind.isPackage) : p.tree? id = some t := by
  obtain ⟨hmem, rfl⟩ := (tree?_eq_some_iff h.before.numbered).1 ht
  rw [h.before.preorder_root] at hmem
  rcases List.mem_cons.1 hmem with rfl | hmem
  · exact absurd rfl hroot
  · exact h.tree?_of_topLevel hmem hpackage

/-- What is neither a package nor the root has the same `contribution`. -/
theorem contribution_eq {id : NodeId} (hid : id < base.size) (hroot : id ≠ base.rootId)
    (hpackage : ¬ base.isKind Kind.isPackage id) :
    p.contribution .inherited id = base.contribution .inherited id := by
  obtain ⟨t, -, ht, -, -⟩ := h.exists_tree? hid
  have hkind : base.kind? id = some t.kind := by rw [kind?, ht]; rfl
  have hother : ¬ t.kind.isPackage := by rwa [isKind, hkind] at hpackage
  have hkind' : p.kind? id = some t.kind := by
    rw [kind?, h.tree?_of_not_package ht hroot hother]
    rfl
  rw [contribution, contribution, hkind, hkind']
  have hinherited (hmodule : t.kind.isModule) : (p.hierarchy id).reverse.flatMap p.ownFields
      = (base.hierarchy id).reverse.flatMap base.ownFields := by
    have hmodule : base.isModule id := by rwa [isModule, isKind, hkind]
    rw [h.hierarchy_eq hmodule]
    refine List.flatMap_congr fun ancestor hmem => ?_
    rw [ownFields, ownFields,
      h.membersOf_eq (isModule_of_mem_hierarchy hmodule (List.mem_reverse.1 hmem))]
  cases hk : t.kind with
  | classDecl | singleton | mixin => exact hinherited (by rw [hk]; rfl)
  | package => rw [hk] at hother; exact absurd rfl hother
  | _ => rfl

theorem fieldOf (hfield : p.FieldOf owner field) (hid : field < base.size) :
    base.FieldOf owner field := by
  have hparent := hfield.parent
  rw [h.parent?_eq hid] at hparent
  have howner := lt_size_of_parent? h.before.numbered hparent
  have htest {t t' : Tree} (hcarried : Carried t t') : t'.kind.isField = t.kind.isField := by
    cases hcarried <;> rfl
  refine ⟨?_, hparent, ?_⟩
  · rw [← h.isKind_eq htest hid]
    exact hfield.isField
  · rw [← h.isModule_eq howner, ← h.isKind_eq Carried.isDescribe howner]
    exact hfield.owner

/-- A program that a `Flat` one continues is `Flat`. -/
theorem flat (hflat : p.Flat) : base.Flat where
  stands t ht hstands above habove := by
    obtain ⟨t', ht', hcarried⟩ := h.carried ht
    have hid := lt_size_of_mem h.before.numbered ht
    have hup : above ∈ p.parent? t'.identity := by
      rw [hcarried.identity, h.parent?_eq hid]
      exact habove
    have hcontainer : t'.kind.isContainer := by cases hcarried <;> exact hstands
    have hplace := hflat.stands t' ht' hcontainer above hup
    rwa [h.root, h.isKind_eq Carried.isPackage
      (lt_size_of_parent? h.before.numbered (Option.mem_def.1 habove))] at hplace
  imports t ht entry hentry target htarget := by
    have hentity : entry.1 ∈ t.children := by
      unfold Tree.import? at hentry
      split at hentry
      · next entity generic hkind =>
        cases hentry
        rw [Tree.children, hkind]
        exact List.mem_cons_self
      · cases hentry
    have hid : target < base.size :=
      h.before.target_lt (Tree.mem_preorder_trans ht
        (Tree.mem_preorder_of_child hentity entry.1.mem_preorder_self)) (Option.mem_def.1 htarget)
    have hkept : t ∈ p.root.preorder := by
      have hroot : t.identity ≠ base.rootId := fun heq => by
        have hsame := h.before.numbered.eq_of_identity ht base.root.mem_preorder_self heq
        rw [hsame, Tree.import?, h.before.environment] at hentry
        cases hentry
      have hpackage : ¬ t.kind.isPackage := fun hpackage => by
        unfold Tree.import? at hentry
        split at hentry
        · next hkind => rw [hkind] at hpackage; cases hpackage
        · cases hentry
      exact tree?_mem (h.tree?_of_not_package
        ((tree?_eq_some_iff h.before.numbered).2 ⟨ht, rfl⟩) hroot hpackage)
    have htest {t t' : Tree} (hcarried : Carried t t') : t'.kind.isEntity = t.kind.isEntity := by
      cases hcarried <;> rfl
    have hnames := hflat.imports t hkept entry hentry target htarget
    rwa [h.isKind_eq htest hid, h.isKind_eq Carried.isPackage hid] at hnames

/-- What is `Sighted` in the base is `Sighted` in what continues it. -/
theorem sighted (hflat : p.Flat) (hfield : p.FieldOf owner field) (hid : field < base.size)
    (hnode : node < base.size) (hseen : base.Sighted name field depth node) :
    p.Sighted name field depth node := by
  have hbefore := h.fieldOf hfield hid
  have hkept {node : NodeId} {depth : Nat} (hnode : node < base.size)
      (hseen : base.Sighted name field depth node) :
      p.contribution .inherited node = base.contribution .inherited node := by
    refine h.contribution_eq hnode (fun hroot => ?_) fun hpackage => ?_
    · exact not_sighted_of_isPackage h.before (h.flat hflat) hbefore (.inl hroot) hseen
    · exact not_sighted_of_isPackage h.before (h.flat hflat) hbefore (.inr hpackage) hseen
  induction hseen with
  | here found =>
      refine .here ?_
      rwa [hkept hnode (.here found)]
  | above missing up seen ih =>
      refine .above ?_ ?_ (ih (lt_size_of_parent? h.before.numbered up))
      · rwa [hkept hnode (.above missing up seen)]
      · rwa [h.parent?_eq hnode]

end Continues

-- ============================================================ references

/-- `dotted` of a name without dots is one piece. -/
theorem dotted_of_undotted (h : '.' ∉ name.toList) : dotted name = [name] := by
  have hsplit : ∀ {cs : List Char}, '.' ∉ cs → dotted.split cs = (cs, []) := by
    intro cs hcs
    induction cs with
    | nil => rfl
    | cons c rest ih =>
        have hc : c ≠ '.' := fun hdot => hcs (hdot ▸ List.mem_cons_self)
        have hrest : '.' ∉ rest := fun hmem => hcs (List.mem_cons_of_mem _ hmem)
        rw [dotted.split, ih hrest]
        exact if_neg hc
  rw [dotted, hsplit h]
  simp

/-- `resolveName?` of a name without dots is what is looked up. -/
theorem resolveName?_of_undotted (hp : p.root.Numbered) {lookup : String → Option NodeId}
    {target : NodeId} (hdots : '.' ∉ name.toList)
    (h : p.resolveName? lookup name = some target) : lookup name = some target := by
  rw [resolveName?, dotted_of_undotted hdots] at h
  obtain ⟨t, htree, hwalk⟩ := Option.bind_eq_some_iff.1 h
  obtain ⟨id, hlookup, htree⟩ := Option.bind_eq_some_iff.1 htree
  cases hwalk
  rw [hlookup, ((tree?_eq_some_iff hp).1 htree).2]

/-- A reference in code is neither that of an import nor a supertype, so
`Explains` looks it up in its scope. -/
theorem Explains.of_code (hp : p.root.Numbered) {id above target : NodeId}
    (h : p.Explains id name target) (hparent : p.parent? id = some above)
    (hcode : p.isKind Kind.isCode above) :
    p.resolveName? (p.scope id).get? name = some target := by
  have hplace {node : NodeId} {kind : Kind Tree} (hkind : p.kind? node = some kind) {c : Tree}
      (hc : c ∈ kind.children) (hid : c.identity = id) : kind.isCode := by
    obtain ⟨t, htree, rfl⟩ := Option.map_eq_some_iff.1 hkind
    obtain ⟨ht, rfl⟩ := (tree?_eq_some_iff hp).1 htree
    have hup := parent?_of_child hp ht hc
    rw [hid, hparent] at hup
    rwa [Option.some.inj hup, isKind_of_mem hp ht] at hcode
  refine h.other ?_ ?_
  · rintro ⟨declaration, entity, generic, hkind, hid⟩
    cases hplace hkind List.mem_cons_self hid
  · rintro ⟨module, kind, hkind, reference, hmem, hid⟩
    have hcode := hplace hkind (Kind.mem_children_of_supertype hmem) hid
    cases kind <;> first | exact List.not_mem_nil hmem | cases hcode

/-- A reference in code to a field is `Sighted` from its parent. The induction
is over the layers of `Linked`: one of the base keeps its target. -/
theorem Linked.sighted (h : p.Linked) (hflat : p.Flat) (hfield : p.FieldOf owner field)
    {id above : NodeId} (hkind : p.kind? id = some (.reference name (some field)))
    (hdots : '.' ∉ name.toList) (hparent : p.parent? id = some above)
    (hcode : p.isKind Kind.isCode above) : ∃ depth, p.Sighted name field depth above := by
  induction h with
  | @link base forest p hbase hbare hlink ih =>
      obtain ⟨root, targets, hlinks⟩ := links_of_link hlink
      have hcomplete : ∀ b ∈ base, b.Complete := fun b hb => (hbase b hb).complete
      obtain ⟨s, htree, hs⟩ := Option.map_eq_some_iff.1 hkind
      obtain ⟨hmem, rfl⟩ := (tree?_eq_some_iff hlinks.numbered_outcome).1 htree
      obtain ⟨entity, -, htarget, hcases⟩ := hlinks.reference_target hcomplete hbare hmem hs
      cases htarget
      rcases hcases with ⟨-, hexplains⟩ | ⟨b, hb, hold, hkind'⟩
      · have hscope := resolveName?_of_undotted hlinks.numbered_outcome hdots
          (hexplains.of_code hlinks.numbered_outcome hparent hcode)
        obtain ⟨parent, depth, hup, hseen⟩ :=
          sighted_of_scope hlinks.numbered_outcome hmem hscope
        cases hparent.symm.trans hup
        exact ⟨depth, hseen⟩
      · obtain rfl := Option.mem_def.1 hb
        have hcontinues := hlinks.continues (hcomplete b hb) hbare
        have hlt : field < b.size := by
          obtain ⟨t, htree, hkind'⟩ := Option.map_eq_some_iff.1 hkind'
          exact (hcomplete b hb).target_lt (tree?_mem htree) (by rw [hkind']; rfl)
        rw [hcontinues.parent?_eq hold] at hparent
        have habove := lt_size_of_parent? (hcomplete b hb).numbered hparent
        have htest {t t' : Tree} (hcarried : Carried t t') : t'.kind.isCode = t.kind.isCode := by
          cases hcarried <;> rfl
        rw [hcontinues.isKind_eq htest habove] at hcode
        obtain ⟨depth, hseen⟩ := ih b hb (hcontinues.flat hflat) (hcontinues.fieldOf hfield hlt)
          hkind'
          hparent hcode
        exact ⟨depth, hcontinues.sighted hflat hfield hlt habove hseen⟩

-- ========================================================== field names

/-- The names of the fields that instances of a module have. -/
def fieldNames (p : Program) (module : NodeId) : List String :=
  (p.fieldsOf module).filterMap Tree.name?

/-- The inherited `contribution` of a module has the `fieldNames` of its
instances. -/
theorem mem_fieldNames_iff {module : NodeId} (hmodule : p.isModule module) :
    name ∈ p.fieldNames module ↔ ∃ id, (name, id) ∈ p.contribution .inherited module := by
  have hcontribution : p.contribution .inherited module
      = (p.hierarchy module).reverse.flatMap p.ownFields := by
    obtain ⟨kind, hkind, htest⟩ := (Option.any_eq_true _ _).1 hmodule
    rw [contribution, hkind]
    cases kind with
    | classDecl | singleton | mixin => rfl
    | _ => cases htest
  rw [hcontribution]
  constructor
  · intro hmem
    obtain ⟨t, ht, hname⟩ := List.mem_filterMap.1 hmem
    obtain ⟨ancestor, hancestor, ht⟩ := List.mem_flatMap.1 ht
    refine ⟨t.identity, List.mem_flatMap.2 ⟨ancestor, hancestor, List.mem_filterMap.2 ⟨t, ht, ?_⟩⟩⟩
    rw [hname]
    rfl
  · rintro ⟨id, hmem⟩
    obtain ⟨ancestor, hancestor, hmem⟩ := List.mem_flatMap.1 hmem
    obtain ⟨t, ht, hname, -⟩ := mem_namedNodes hmem
    exact List.mem_filterMap.2 ⟨t, List.mem_flatMap.2 ⟨ancestor, hancestor, ht⟩, hname⟩

theorem not_mem_fieldNames {module : NodeId} (hmodule : p.isModule module)
    (h : Scope.get? (p.contribution .inherited module) name = none) :
    name ∉ p.fieldNames module := by
  intro hmem
  obtain ⟨id, hentry⟩ := (mem_fieldNames_iff hmodule).1 hmem
  have hmissing := List.lookup_eq_none_iff.1 h _ (List.mem_reverse.2 hentry)
  rw [bne_self_eq_false] at hmissing
  cases hmissing

/-- What `inherits` from a module has its `fieldNames`. -/
theorem fieldNames_subset {module ancestor : NodeId} (h : p.inherits module ancestor) :
    p.fieldNames ancestor ⊆ p.fieldNames module := by
  intro name hmem
  obtain ⟨t, ht, hname⟩ := List.mem_filterMap.1 hmem
  obtain ⟨outer, houter, ht⟩ := List.mem_flatMap.1 ht
  refine List.mem_filterMap.2 ⟨t, List.mem_flatMap.2 ⟨outer, List.mem_reverse.2 ?_, ht⟩, hname⟩
  have hinherits : p.inherits ancestor outer := decide_eq_true (List.mem_reverse.1 houter)
  exact of_decide_eq_true (inherits_trans h hinherits)

/-- Supertypes have names. -/
theorem Follows.named (hp : p.Linked) {module supertype : NodeId} (h : p.Follows module supertype) :
    (p.name? supertype).isSome := by
  rcases List.mem_append.1 h with h | h
  · obtain ⟨reference, hreference, htarget⟩ := List.mem_filterMap.1 (List.mem_filter.1 h).1
    cases hkind : p.kind? module with
    | none =>
        rw [hkind] at hreference
        cases hreference
    | some kind =>
        rw [hkind] at hreference
        have hmem := kind?_child_mem hkind
          (Kind.mem_children_of_supertype (List.mem_append_left _ hreference))
        exact hp.named reference hmem supertype htarget
  · have h := Option.mem_toList.1 h
    unfold superclass? at h
    split at h
    · exact (entity?_named hp.complete.numbered (Option.filter_eq_some_iff.1 h).1).2
    · next kind hkind =>
      obtain ⟨htarget, -⟩ := Option.filter_eq_some_iff.1 h
      obtain ⟨reference, hreference, htarget⟩ := Option.bind_eq_some_iff.1 htarget
      have hmem := kind?_child_mem hkind (Kind.mem_children_of_supertype
        (List.mem_append_right _ (Option.mem_toList.2 hreference)))
      exact hp.named reference hmem supertype htarget
    · cases h

/-- Nobody inherits from an object without a name but itself. -/
theorem eq_of_inherits_anonymous (hp : p.Linked) {module ancestor : NodeId}
    (h : p.inherits module ancestor) (hanonymous : p.isKind Kind.isAnonymous ancestor) :
    module = ancestor := by
  rcases ReflTransGen.cases_tail (inherits_iff_follows.1 h) with rfl | ⟨_, _, hlast⟩
  · rfl
  · exact absurd hanonymous (not_anonymous_of_name? (hlast.named hp))

-- ======================================================= attached nodes

/-- A node that is evaluated where it stands, as is all that is around it: none
of them is `Detached`. -/
def Attached (p : Program) (node : NodeId) : Prop :=
  ∀ above ∈ node :: p.ancestors node, ¬ p.Detached above

theorem ancestors_eq_cons (hp : p.root.Numbered) {above : NodeId}
    (h : p.parent? node = some above) : p.ancestors node = above :: p.ancestors above := by
  obtain ⟨site, hsite, -⟩ := Option.bind_eq_some_iff.1 h
  obtain ⟨t, ht, rfl⟩ := exists_mem_of_lt_size hp (Array.getElem?_eq_some_iff.1 hsite).1
  obtain ⟨path, hbelow⟩ := Tree.exists_below_of_mem .root ht
  rw [parent?_of_below hp hbelow] at h
  rw [ancestors_of_below hp hbelow]
  cases hbelow with
  | root => cases h
  | child hbelow _ =>
      cases h
      rw [ancestors_of_below hp hbelow]
      rfl

theorem Attached.up (hp : p.root.Numbered) {above : NodeId} (h : p.Attached node)
    (hup : p.parent? node = some above) : p.Attached above := by
  intro outer hmem
  refine h outer (List.mem_cons_of_mem _ ?_)
  rwa [ancestors_eq_cons hp hup]

theorem Attached.not_loose (hp : p.root.Numbered) (h : p.Attached node) : ¬ p.Loose node := by
  intro hloose
  induction hloose with
  | detached apart => exact h _ List.mem_cons_self apart
  | inside parent _ _ ih => exact ih (h.up hp parent)

theorem Attached.sits (hp : p.root.Numbered) (h : p.Attached node) {zone : Zone}
    (hsited : p.Sited zone node) : p.Sits zone node :=
  hsited.resolve_right (h.not_loose hp)

/-- What `Sits` in a zone stands in code. -/
theorem Sits.parent {zone : Zone} (h : p.Sits zone node) :
    ∃ above, p.parent? node = some above ∧ p.isKind Kind.isCode above := by
  cases h with
  | sentence parent block =>
      exact ⟨_, parent, isKind_mono (fun kind hk => by rw [Kind.isCode, hk, Bool.or_true]) block⟩
  | global parent variable_ _ _ =>
      refine ⟨_, parent, isKind_mono (fun kind hk => ?_) variable_⟩
      cases kind <;> first | rfl | cases hk
  | inside parent inline _ =>
      exact ⟨_, parent, isKind_mono (fun kind hk => by rw [Kind.isCode, hk, Bool.true_or]) inline⟩

end Program

end ObjectMachine
