/-
What depends on targets.

Setting targets changes references and nothing else. All nodes keep their
identities, names and places, so what is found by name is found as before.
A scope depends on targets in two ways only: an import brings the names of
its target, and a module those of the fields it inherits.

Linking sets the targets of pending references, so references that have a
target keep it. Once the imports are settled, the scopes of declared names
no longer change; once the supertypes are settled too, no scope does.
-/
import Mathlib
import ObjectMachine.Proofs.Program.Expansion
import ObjectMachine.Proofs.Program.Sites
import ObjectMachine.Proofs.Tree.Numbering

namespace ObjectMachine

theorem lookup_map_snd {α β γ : Type} [BEq α] (f : β → γ) (l : List (α × β)) (key : α) :
    (l.map fun x => (x.1, f x.2)).lookup key = (l.lookup key).map f := by
  induction l with
  | nil => rfl
  | cons x rest ih =>
      rw [List.map_cons, List.lookup_cons, List.lookup_cons, ih]
      cases key == x.1 <;> rfl

variable (targets : List (NodeId × NodeId))

/-- The site with the targets of the references listed. -/
def Site.setTargets (site : Site) : Site := ⟨site.parent, site.tree.setTargets targets⟩

namespace Tree

variable (t : Tree)

theorem placed_setTargets (parent : Option NodeId) : (t.setTargets targets).placed parent
    = (t.placed parent).map fun x => (x.1, x.2.setTargets targets) := by
  induction t using ofChildren generalizing parent with
  | h t ih =>
      rw [placed_eq, placed_eq, children_setTargets, identity_setTargets, List.map_cons,
        List.flatMap_map, List.map_flatMap]
      exact congrArg _ (List.flatMap_congr fun c hc => ih c hc _)

theorem sites_setTargets :
    (t.setTargets targets).sites = t.sites.map (Site.setTargets targets) := by
  rw [sites, sites, List.map_toArray, placed_setTargets, List.length_map, List.map_filterMap]
  exact congrArg _ (List.filterMap_congr fun id _ => lookup_map_snd _ _ _)

@[simp] theorem isModule_setTargets :
    (t.setTargets targets).kind.isModule = t.kind.isModule := by
  rw [kind_setTargets, Kind.isModule_withTarget, Kind.isModule_map]

@[simp] theorem isPackage_setTargets :
    (t.setTargets targets).kind.isPackage = t.kind.isPackage := by
  rw [kind_setTargets, Kind.isPackage_withTarget, Kind.isPackage_map]

@[simp] theorem isField_setTargets :
    (t.setTargets targets).kind.isField = t.kind.isField := by
  rw [kind_setTargets, Kind.isField_withTarget, Kind.isField_map]

@[simp] theorem isVariable_setTargets :
    (t.setTargets targets).kind.isVariable = t.kind.isVariable := by
  rw [kind_setTargets, Kind.isVariable_withTarget, Kind.isVariable_map]

theorem walk_setTargets (names : List String) :
    (t.setTargets targets).walk names = (t.walk names).map (setTargets targets) := by
  induction names generalizing t with
  | nil => rfl
  | cons name rest ih =>
      rw [walk, walk, members_setTargets, List.find?_map]
      simp only [Function.comp_def, name?_setTargets]
      cases t.members.find? fun member => member.name? == some name with
      | none => rfl
      | some member => exact ih member

/-- A reference `isPending` until it is listed. -/
theorem isPending_setTargets :
    (t.setTargets targets).isPending = (t.isPending && (targets.lookup t.identity).isNone) := by
  rw [isPending, isPending, kind_setTargets]
  generalize targets.lookup t.identity = listed
  obtain ⟨id, span, kind⟩ := t
  cases kind with
  | reference name target => cases target <;> cases listed <;> rfl
  | _ => rfl

/-- `setTargets` gives a reference the target that is listed for it, or else the
one it had. -/
theorem reference_of_setTargets {targets : List (NodeId × NodeId)} {t : Tree} {name : String}
    {target : Option NodeId} (h : (t.setTargets targets).kind = .reference name target) :
    ∃ before, t.kind = .reference name before
      ∧ target = (targets.lookup t.identity).or before := by
  rw [kind_setTargets] at h
  cases hkind : t.kind with
  | reference name' before =>
      rw [hkind] at h
      cases h
      exact ⟨before, rfl, rfl⟩
  | _ =>
      rw [hkind] at h
      cases h

end Tree

/-- `namedNodes` lists names as before, also where a part of the nodes is chosen
by what targets do not change. -/
theorem namedNodes_setTargets (ts : List Tree) :
    namedNodes (ts.map (Tree.setTargets targets)) = namedNodes ts := by
  rw [namedNodes, namedNodes, List.filterMap_map]
  exact List.filterMap_congr fun t _ => by
    rw [Function.comp_apply, Tree.name?_setTargets, Tree.identity_setTargets]

theorem namedNodes_filter_setTargets {test : Tree → Bool}
    (htest : ∀ t : Tree, test (t.setTargets targets) = test t) (ts : List Tree) :
    namedNodes ((ts.map (Tree.setTargets targets)).filter test) = namedNodes (ts.filter test) := by
  rw [List.filter_map, show test ∘ Tree.setTargets targets = test from funext htest,
    namedNodes_setTargets]

namespace Program

variable (p : Program)

-- ============================================================== places

@[simp] theorem site?_withTargets (id : NodeId) :
    (p.withTargets targets).site? id = (p.site? id).map (Site.setTargets targets) := by
  rw [site?, site?, p.sites_eq, ← Array.getElem?_map, ← Tree.sites_setTargets]
  rfl

@[simp] theorem size_withTargets : (p.withTargets targets).size = p.size := by
  rw [size, size, p.sites_eq, (p.withTargets targets).sites_eq, withTargets, ofTree,
    Tree.sites_setTargets, Array.size_map]

@[simp] theorem tree?_withTargets (id : NodeId) :
    (p.withTargets targets).tree? id = (p.tree? id).map (Tree.setTargets targets) := by
  rw [tree?, tree?, site?_withTargets, Option.map_map, Option.map_map]
  rfl

@[simp] theorem parent?_withTargets (id : NodeId) :
    (p.withTargets targets).parent? id = p.parent? id := by
  rw [parent?, parent?, site?_withTargets]
  cases p.site? id <;> rfl

@[simp] theorem ancestors_withTargets (id : NodeId) :
    (p.withTargets targets).ancestors id = p.ancestors id := by
  have hclimb (fuel : Nat) (id : NodeId) :
      (p.withTargets targets).climb fuel id = p.climb fuel id := by
    induction fuel generalizing id with
    | zero => rfl
    | succ fuel ih =>
        rw [climb, climb, parent?_withTargets]
        cases p.parent? id with
        | none => rfl
        | some parent => exact congrArg _ (ih parent)
  rw [ancestors, ancestors, size_withTargets, hclimb]

theorem kind?_withTargets (id : NodeId) : (p.withTargets targets).kind? id
    = (p.tree? id).map fun t => (t.setTargets targets).kind := by
  rw [kind?, tree?_withTargets, Option.map_map]
  rfl

@[simp] theorem isModule_withTargets (id : NodeId) :
    (p.withTargets targets).isModule id = p.isModule id := by
  rw [isModule, isModule, isKind, isKind, kind?_withTargets, kind?]
  cases p.tree? id with
  | none => rfl
  | some t => exact t.isModule_setTargets targets

-- =============================================================== names

theorem membersOf_withTargets (id : NodeId) :
    (p.withTargets targets).membersOf id = (p.membersOf id).map (Tree.setTargets targets) := by
  rw [membersOf, membersOf, kind?_withTargets, kind?]
  cases p.tree? id with
  | none => rfl
  | some t => exact t.members_setTargets targets

@[simp] theorem ownFields_withTargets (id : NodeId) :
    (p.withTargets targets).ownFields id = p.ownFields id := by
  rw [ownFields, ownFields, membersOf_withTargets]
  exact namedNodes_filter_setTargets targets (Tree.isField_setTargets targets) _

theorem globals_setTargets (ts : List Tree) :
    globals (ts.map (Tree.setTargets targets)) = globals ts := by
  rw [globals, globals, List.find?_map]
  simp only [Function.comp_def, Tree.name?_setTargets, Tree.isPackage_setTargets]
  cases ts.find? fun t => t.kind.isPackage && t.name? == some CoreNames.globalPackage with
  | none => rfl
  | some library =>
      simp only [Option.map_some, Tree.members_setTargets, List.filter_map, List.flatMap_map,
        Function.comp_def, Tree.isPackage_setTargets, namedNodes_setTargets]

@[simp] theorem resolveName?_withTargets (lookup : String → Option NodeId) (name : String) :
    (p.withTargets targets).resolveName? lookup name = p.resolveName? lookup name := by
  rw [resolveName?, resolveName?]
  split
  · rfl
  · next head rest _ =>
      cases lookup head with
      | none => rfl
      | some first =>
          simp only [Option.bind_some, tree?_withTargets]
          cases p.tree? first with
          | none => rfl
          | some t =>
              simp only [Option.map_some, Option.bind_some, Tree.walk_setTargets, Option.map_map,
                Function.comp_def, Tree.identity_setTargets]

@[simp] theorem resolveQualified?_withTargets (name : String) :
    (p.withTargets targets).resolveQualified? name = p.resolveQualified? name := by
  rw [resolveQualified?, resolveQualified?, withTargets, ofTree, Tree.walk_setTargets,
    Option.map_map]
  simp [Function.comp_def]

-- =============================================================== roles

/-- The entity of an import. -/
def IsImported (id : NodeId) : Prop :=
  ∃ declaration entity generic, p.kind? declaration = some (.importDecl entity generic)
    ∧ entity.identity = id

/-- The superclass or a mixin of a module. -/
def IsSupertype (id : NodeId) : Prop :=
  ∃ module kind, p.kind? module = some kind
    ∧ ∃ reference ∈ kind.mixins ++ kind.superclass?.toList, reference.identity = id

theorem isImported_withTargets : (p.withTargets targets).IsImported = p.IsImported := by
  funext id
  apply propext
  constructor
  · rintro ⟨declaration, entity', generic', hfound, hid⟩
    rw [kind?_withTargets] at hfound
    obtain ⟨t, htree, hkind'⟩ := Option.map_eq_some_iff.1 hfound
    rw [Tree.kind_setTargets] at hkind'
    cases hkind : t.kind with
    | importDecl entity generic =>
        rw [hkind] at hkind'
        cases hkind'
        rw [Tree.identity_setTargets] at hid
        exact ⟨declaration, entity, _, by rw [kind?, htree, Option.map_some, hkind], hid⟩
    | _ =>
        rw [hkind] at hkind'
        cases hkind'
  · rintro ⟨declaration, entity, generic, hkind, hid⟩
    obtain ⟨t, htree, hkind⟩ := Option.map_eq_some_iff.1 hkind
    refine ⟨declaration, entity.setTargets targets, generic, ?_, ?_⟩
    · rw [kind?_withTargets, htree, Option.map_some, Tree.kind_setTargets, hkind]
      rfl
    · rw [Tree.identity_setTargets, hid]

theorem isSupertype_withTargets : (p.withTargets targets).IsSupertype = p.IsSupertype := by
  have hreferences (t : Tree) :
      (t.setTargets targets).kind.mixins ++ (t.setTargets targets).kind.superclass?.toList
        = (t.kind.mixins ++ t.kind.superclass?.toList).map (Tree.setTargets targets) := by
    simp [Tree.kind_setTargets, Option.toList_map]
  funext id
  apply propext
  constructor
  · rintro ⟨module, kind', hfound, reference', hmem', hid⟩
    rw [kind?_withTargets] at hfound
    obtain ⟨t, htree, rfl⟩ := Option.map_eq_some_iff.1 hfound
    rw [hreferences] at hmem'
    obtain ⟨reference, hmem, rfl⟩ := List.mem_map.1 hmem'
    rw [Tree.identity_setTargets] at hid
    exact ⟨module, t.kind, by rw [kind?, htree, Option.map_some], reference, hmem, hid⟩
  · rintro ⟨module, kind, hkind, reference, hmem, hid⟩
    obtain ⟨t, htree, rfl⟩ := Option.map_eq_some_iff.1 hkind
    refine ⟨module, (t.setTargets targets).kind, ?_, reference.setTargets targets, ?_, ?_⟩
    · rw [kind?_withTargets, htree, Option.map_some]
    · rw [hreferences]
      exact List.mem_map_of_mem hmem
    · rw [Tree.identity_setTargets, hid]

-- ============================================================= settled

/-- Only pending references are listed. -/
def Pending : Prop := ∀ x ∈ targets, ∃ s ∈ p.root.preorder, s.isPending ∧ s.identity = x.1

/-- No reference of that role waits for its target. -/
def Settled (role : NodeId → Prop) : Prop :=
  ∀ s ∈ p.root.preorder, role s.identity → s.isPending = false

variable {p targets}

theorem mem_withTargets_iff {s' : Tree} : s' ∈ (p.withTargets targets).root.preorder
    ↔ ∃ s ∈ p.root.preorder, s.setTargets targets = s' := by
  rw [withTargets, ofTree, Tree.preorder_setTargets, List.mem_map]

theorem Settled.withTargets {role : NodeId → Prop} (h : p.Settled role) :
    (p.withTargets targets).Settled role := by
  intro s' hs' hrole
  obtain ⟨s, hs, rfl⟩ := mem_withTargets_iff.1 hs'
  rw [Tree.identity_setTargets] at hrole
  rw [Tree.isPending_setTargets, h s hs hrole, Bool.false_and]

variable (hp : p.root.Numbered) (hpending : p.Pending targets)
include hp hpending

theorem lookup_of_settled {s : Tree} (hs : s ∈ p.root.preorder) (h : s.isPending = false) :
    targets.lookup s.identity = none := by
  refine List.lookup_eq_none_iff.2 fun x hx => ?_
  obtain ⟨s', hs', hwaits, heq⟩ := hpending x hx
  rw [bne_iff_ne, ← heq]
  intro hsame
  rw [hp.eq_of_identity hs hs' hsame, hwaits] at h
  cases h

/-- `setTargets` leaves a reference that has its target alone. -/
theorem target?_of_settled {s : Tree} (hs : s ∈ p.root.preorder) (h : s.isPending = false) :
    (s.setTargets targets).kind.target? = s.kind.target? := by
  rw [Tree.kind_setTargets, lookup_of_settled hp hpending hs h]
  cases hkind : s.kind <;> rfl

/-- An import that is `Settled` brings the same names. -/
theorem imported_withTargets (himports : p.Settled p.IsImported) {t : Tree}
    (ht : t ∈ p.root.preorder) :
    (p.withTargets targets).imported (t.setTargets targets) = p.imported t := by
  rw [imported, imported, Tree.kind_setTargets]
  cases hkind : t.kind with
  | importDecl entity generic =>
      have hentity : entity ∈ p.root.preorder := by
        refine Tree.mem_preorder_trans ht (Tree.mem_preorder_of_child ?_ entity.mem_preorder_self)
        rw [Tree.children, hkind]
        exact List.mem_cons_self
      have himported : p.IsImported entity.identity :=
        ⟨t.identity, entity, generic, by rw [kind?_of_mem hp ht, hkind], rfl⟩
      have hsame := target?_of_settled hp hpending hentity (himports entity hentity himported)
      simp only [Kind.map, Kind.withTarget, hsame]
      cases entity.kind.target? with
      | none => rfl
      | some target =>
          simp only [Option.bind_some, tree?_withTargets]
          cases p.tree? target with
          | none => rfl
          | some found =>
              simp only [Option.map_some, Tree.members_setTargets, namedNodes_setTargets]
              rw [← List.map_singleton, namedNodes_setTargets]
  | _ => rfl

/-- Modules that are `Settled` have the same `supertypes`. -/
theorem supertypes_withTargets (hsupertypes : p.Settled p.IsSupertype) {id : NodeId}
    (hmodule : p.isModule id) : (p.withTargets targets).supertypes id = p.supertypes id := by
  obtain ⟨kind, hkind, hmodule⟩ := (Option.any_eq_true _ _).1 hmodule
  obtain ⟨t, htree, rfl⟩ := Option.map_eq_some_iff.1 hkind
  have hsame : ∀ reference ∈ t.kind.mixins ++ t.kind.superclass?.toList,
      (reference.setTargets targets).kind.target? = reference.kind.target? := by
    intro reference hreference
    have hmem := kind?_child_mem hkind (Kind.mem_children_of_supertype hreference)
    exact target?_of_settled hp hpending hmem
      (hsupertypes reference hmem ⟨id, t.kind, hkind, reference, hreference, rfl⟩)
  have hmixins : (t.kind.mixins.map (Tree.setTargets targets)).filterMap (·.kind.target?)
      = t.kind.mixins.filterMap (·.kind.target?) := by
    rw [List.filterMap_map]
    exact List.filterMap_congr fun r hr => hsame r (List.mem_append_left _ hr)
  have hsuperclass : (t.kind.superclass?.map (Tree.setTargets targets)).bind (·.kind.target?)
      = t.kind.superclass?.bind (·.kind.target?) := by
    rw [Option.bind_map]
    exact Option.bind_congr fun r hr => hsame r (List.mem_append_right _ (Option.mem_toList.2 hr))
  have hisModule : (p.withTargets targets).isModule = p.isModule :=
    funext fun id => isModule_withTargets targets p id
  have hkind' : (p.withTargets targets).kind? id = some (t.setTargets targets).kind := by
    rw [kind?_withTargets, htree]
    rfl
  have hmodule' : (t.setTargets targets).kind.isModule := by
    rw [Tree.isModule_setTargets]
    exact hmodule
  rw [supertypes, supertypes, superclass?_of_isModule hkind hmodule,
    superclass?_of_isModule hkind' hmodule', hkind, hkind', declaredSuperclass?,
    declaredSuperclass?, hisModule, Tree.kind_setTargets, Kind.superclass?_withTarget,
    Kind.superclass?_map, hsuperclass]
  simp only [Option.map_some, Option.getD_some, Kind.mixins_withTarget, Kind.mixins_map, hmixins]

theorem hierarchy_withTargets (hsupertypes : p.Settled p.IsSupertype) {id : NodeId}
    (hmodule : p.isModule id) : (p.withTargets targets).hierarchy id = p.hierarchy id := by
  have hexpand (fuel : Nat) (listed : List NodeId) {id : NodeId} (hmodule : p.isModule id) :
      (p.withTargets targets).expand fuel listed id = p.expand fuel listed id := by
    induction fuel generalizing listed id with
    | zero => rfl
    | succ fuel ih =>
        rw [expand, expand, supertypes_withTargets hp hpending hsupertypes hmodule]
        split
        · rfl
        · refine List.foldl_ext _ _ _ fun listed' supertype hmem => ?_
          exact ih listed' (isModule_of_mem_supertypes hmem)
  rw [hierarchy, hierarchy, size_withTargets, hexpand _ _ hmodule]

theorem contribution_withTargets (himports : p.Settled p.IsImported) {visibility : Visibility}
    (hsupertypes : visibility = .inherited → p.Settled p.IsSupertype) (id : NodeId) :
    (p.withTargets targets).contribution visibility id = p.contribution visibility id := by
  unfold contribution
  rw [kind?_withTargets, kind?]
  cases htree : p.tree? id with
  | none => rfl
  | some t =>
      have ht := tree?_mem htree
      have hmodule : t.kind.isModule → p.isModule id := fun h => by
        rw [isModule, isKind, kind?, htree]
        exact h
      rw [Option.map_some, Option.map_some, Tree.kind_setTargets]
      -- only packages and modules look at targets; all else lists names of its own
      cases hkind : t.kind with
      | environment members =>
          exact congrArg₂ _ (globals_setTargets targets members)
            (namedNodes_setTargets targets members)
      | package name imports members =>
          refine congrArg₂ _ ?_ (namedNodes_setTargets targets members)
          rw [List.flatMap_map]
          refine List.flatMap_congr fun declaration hdeclaration => ?_
          refine imported_withTargets hp hpending himports (Tree.mem_preorder_trans ht ?_)
          refine Tree.mem_preorder_of_child ?_ declaration.mem_preorder_self
          rw [Tree.children, hkind]
          exact List.mem_append_left _ hdeclaration
      | classDecl | singleton | mixin =>
          have hid : p.isModule id := hmodule (by rw [hkind]; rfl)
          cases visibility with
          | lexical => exact ownFields_withTargets targets p id
          | inherited =>
              simp only [Kind.map, Kind.withTarget]
              rw [hierarchy_withTargets hp hpending (hsupertypes rfl) hid]
              exact List.flatMap_congr fun ancestor _ => ownFields_withTargets targets p ancestor
      | describe name members =>
          refine namedNodes_filter_setTargets targets (fun member => ?_) members
          rw [Tree.isField_setTargets, Tree.isVariable_setTargets]
      | method name parameters => exact namedNodes_setTargets targets parameters
      | constructor parameters => exact namedNodes_setTargets targets parameters
      | block sentences =>
          exact namedNodes_filter_setTargets targets (Tree.isVariable_setTargets targets) sentences
      | catchClause param => exact namedNodes_setTargets targets [param]
      | _ => rfl

/-- `scopeWith` depends on `Settled` references only. -/
theorem scopeWith_withTargets (himports : p.Settled p.IsImported) {visibility : Visibility}
    (hsupertypes : visibility = .inherited → p.Settled p.IsSupertype) (id : NodeId) :
    (p.withTargets targets).scopeWith visibility id = p.scopeWith visibility id := by
  rw [scopeWith, scopeWith, ancestors_withTargets]
  exact List.flatMap_congr fun above _ =>
    contribution_withTargets hp hpending himports hsupertypes above

end Program

end ObjectMachine
