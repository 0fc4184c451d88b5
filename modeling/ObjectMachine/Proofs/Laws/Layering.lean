/-
What linking on top of a program leaves as it is.

Trees can be linked on top of a program any number of times. Nothing is
ever wrong with the identities of such a base. What is new comes after it,
and of the base only packages change: they may be extended, at the end of
their imports and of their members. So whoever asks about a module of the
base gets the same answers from the program on top.
-/
import Mathlib
import ObjectMachine.Proofs.Laws.Linking
import ObjectMachine.Proofs.Program.Layering

namespace ObjectMachine

/-- Errors about the identities that the nodes of a base came with. -/
def LinkError.isMalformed : LinkError → Bool
  | .duplicateIdentity _ | .missingIdentity _ => true
  | .unresolvedReference _ _ | .missingAncestor _ => false

/-- `mapM` fails at one of the elements. -/
theorem mapM_error {α β ε : Type} {f : α → Except ε β} {l : List α} {error : ε}
    (h : l.mapM f = .error error) : ∃ a ∈ l, f a = .error error := by
  induction l with
  | nil => cases h
  | cons a rest ih =>
      rw [List.mapM_cons] at h
      cases hfirst : f a with
      | error other =>
          rw [hfirst] at h
          cases h
          exact ⟨a, List.mem_cons_self, hfirst⟩
      | ok b =>
          cases hrest : rest.mapM f with
          | error other =>
              rw [hfirst, hrest] at h
              cases h
              obtain ⟨a', ha', heq⟩ := ih hrest
              exact ⟨a', List.mem_cons_of_mem _ ha', heq⟩
          | ok bs =>
              rw [hfirst, hrest] at h
              cases h

namespace Program

variable {p : Program} {error : LinkError}

-- ============================================================== errors

theorem resolveImport_error {reference : Tree} (h : p.resolveImport reference = .error error) :
    error.isMalformed = false := by
  unfold resolveImport at h
  split at h <;> cases h
  rfl

theorem resolveSupertype_error {module : NodeId} {reference : Tree}
    (h : p.resolveSupertype module reference = .error error) : error.isMalformed = false := by
  simp only [resolveSupertype] at h
  split at h
  · split at h <;> cases h
    rfl
  · cases h
    rfl

theorem resolveBelow_error {t : Tree} {scopes : List Scope}
    (h : p.resolveBelow t scopes = .error error) : error.isMalformed = false := by
  induction t using Tree.ofChildren generalizing scopes with
  | h t ih =>
      rw [resolveBelow_eq] at h
      split at h
      · split at h <;> cases h
        rfl
      · cases hbelow : t.children.mapM fun c =>
            p.resolveBelow c (p.contribution .inherited t.identity :: scopes) with
        | error other =>
            rw [hbelow] at h
            cases h
            obtain ⟨c, hc, herror⟩ := mapM_error hbelow
            exact ih c hc herror
        | ok found =>
            rw [hbelow] at h
            cases h

/-- `resolve` finds fault with names and supertypes only. -/
theorem resolve_error (h : p.resolve = .error error) : error.isMalformed = false := by
  unfold resolve at h
  cases himports : p.pendingImports.mapM p.resolveImport with
  | error other =>
      rw [himports] at h
      cases h
      obtain ⟨reference, -, herror⟩ := mapM_error himports
      exact resolveImport_error herror
  | ok imports =>
      rw [himports] at h
      simp only [bind, Except.bind] at h
      split at h
      · next other hsupertypes =>
          cases h
          obtain ⟨entry, -, herror⟩ := mapM_error hsupertypes
          exact resolveSupertype_error herror
      · split at h
        · next other hreferences =>
            cases h
            exact resolveBelow_error hreferences
        · cases h

-- ======================================================== the base kept

/-- What a program on top of another one leaves as it is: the root, all nodes
but packages, and the packages up to what is added at their end. Each module
inherits, is called and answers as before. -/
structure Conserves (base p : Program) : Prop where
  root : p.rootId = base.rootId
  topLevel : base.topLevel.map Tree.identity <+: p.topLevel.map Tree.identity
  node : ∀ id t, base.tree? id = some t → id ≠ base.rootId → ¬ t.kind.isPackage →
    p.tree? id = some t
  package : ∀ id own span name imports members,
    base.tree? id = some (.node own span (.package name imports members)) →
      ∃ added members', p.tree? id
        = some (.node own span (.package name (imports ++ added) members'))
        ∧ members.map Tree.identity <+: members'.map Tree.identity
  hierarchy : ∀ m, base.isModule m → p.hierarchy m = base.hierarchy m
  fields : ∀ m, base.isModule m → p.fieldsOf m = base.fieldsOf m
  name : ∀ m, base.isModule m → p.qualifiedName m = base.qualifiedName m
  method : ∀ m, base.isModule m → ∀ name arity,
    p.lookupMethod? m name arity = base.lookupMethod? m name arity
  constructor : ∀ m, base.isModule m → ∀ arity,
    p.lookupConstructor? m arity = base.lookupConstructor? m arity

theorem Continues.conserves {base : Program} (h : base.Continues p)
    (hnamed : ∀ s ∈ base.root.preorder, ∀ target, s.kind.target? = some target →
      (base.name? target).isSome) : base.Conserves p where
  root := h.root
  topLevel := h.grows.map_identity
  node id t ht hroot hother := by
    obtain ⟨hmem, rfl⟩ := (tree?_eq_some_iff h.before.numbered).1 ht
    rw [h.before.preorder_root] at hmem
    rcases List.mem_cons.1 hmem with rfl | hmem
    · exact absurd rfl hroot
    · exact h.tree?_of_topLevel hmem hother
  package id own span name imports members ht := by
    obtain ⟨t', ht', hcarried⟩ := h.tree? ht
    cases hcarried with
    | same => exact ⟨[], members, by rw [List.append_nil, ht'], List.prefix_rfl⟩
    | package hgrows => exact ⟨_, _, ht', hgrows.map_identity⟩
  hierarchy _ := h.hierarchy_eq
  fields _ := h.fieldsOf_eq
  name _ := h.qualifiedName_eq hnamed
  method _ := h.lookupMethod?_eq
  constructor _ := h.lookupConstructor?_eq

/-- Packages can always be linked on top of a program that is `Linked`, as far
as identities are concerned (`isMalformed`). If their names are found, the
outcome `Conserves` the program: and the nodes that come after it are those of
the new packages. -/
theorem layering_is_conservative {base : Program} {forest : List Tree} (hbase : Linked base)
    (hpackages : ∀ t ∈ forest, t.kind.isPackage) (hbare : ∀ t ∈ forest, t.Bare) :
    (∀ error, link (some base) forest = .error error → error.isMalformed = false)
      ∧ ∀ p, link (some base) forest = .ok p → base.Conserves p
        ∧ ((((List.range' base.size (p.size - base.size)).filterMap p.tree?).filter
            fun s => !s.kind.isPackage).map Tree.stripped).Perm
          ((forest.flatMap Tree.preorder).filter fun s => !s.kind.isPackage) := by
  have hcomplete := hbase.complete
  constructor
  · intro error herror
    unfold link at herror
    have hcheck := hcomplete.checkNumbered_on_top hbare
    simp only [Option.map_some, Option.getD_some, hcheck] at herror
    exact resolve_error herror
  · intro p hlink
    obtain ⟨root, targets, hlinks⟩ := links_of_link hlink
    exact ⟨(hlinks.continues hcomplete hbare).conserves hbase.named,
      hlinks.new_nodes hcomplete hpackages hbare⟩

end Program

namespace Sample

open Build

/-- More for the shop: a class that inherits from one that is there. -/
def annex : List Tree :=
  [packageImporting "shop" [importEntity "shop.Bag"]
    [(classNamed "Crate" [bareField "lid"]).inherits "Bag"]]

end Sample

/-- The package is extended, its classes are as they were, and the new
class comes after them. -/
theorem annex_layering_is_conservative :
    Program.Linked Sample.shopProgram
      ∧ ∃ p, Program.link (some Sample.shopProgram) Sample.annex = .ok p ∧ p.size = 11
        ∧ p.rootId = 0 ∧ p.tree? 4 = Sample.shopProgram.tree? 4
        ∧ (∃ added members', p.kind? 1 = some (.package "shop" added members')
            ∧ [2, 4] <+: members'.map Tree.identity)
        ∧ p.hierarchy 4 = [4, 2] ∧ p.qualifiedName 4 = "shop.Bag"
        ∧ p.lookupConstructor? 4 0 = none
        ∧ ((([6, 7, 8, 9, 10].filterMap p.tree?).filter
            fun s => !s.kind.isPackage).map Tree.stripped).Perm
          ((Sample.annex.flatMap Tree.preorder).filter fun s => !s.kind.isPackage) := by
  have hbase : Program.Linked Sample.shopProgram :=
    .link (fun _ hnone => by cases hnone) (by decide +kernel)
      (show Program.link none Sample.shop = .ok Sample.shopProgram from rfl)
  obtain ⟨p, hlink, hsize⟩ :
      ∃ p, Program.link (some Sample.shopProgram) Sample.annex = .ok p ∧ p.size = 11 :=
    ⟨_, rfl, rfl⟩
  obtain ⟨-, hkept⟩ := Program.layering_is_conservative hbase
    (show ∀ t ∈ Sample.annex, t.kind.isPackage by decide +kernel) (by decide +kernel)
  obtain ⟨hconserves, hnew⟩ := hkept p hlink
  obtain ⟨added, members', hpackage, hmembers⟩ := hconserves.package 1 _ _ _ _ _ rfl
  have hbag : Sample.shopProgram.isModule 4 = true := rfl
  rw [hsize] at hnew
  refine ⟨hbase, p, hlink, hsize, hconserves.root, hconserves.node 4 _ rfl (by decide) (by decide),
    ⟨added, members', ?_, hmembers⟩, (hconserves.hierarchy 4 hbag).trans rfl,
    (hconserves.name 4 hbag).trans ?_, (hconserves.constructor 4 hbag 0).trans rfl, hnew⟩
  · rw [Program.kind?, hpackage]
    rfl
  · decide +kernel

end ObjectMachine
