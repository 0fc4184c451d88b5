/-
Programs that are linked with the library.

The trees of the library come first, and nothing joins them where no other
package has the name of their package. So the root class of the library is
where its name says, with the members it was written with. Filling leaves it
as the only class or object without superclass (`Based.only`), and linking
gives every superclass a module for a target (`superclass_target`).
-/
import Mathlib
import ObjectMachine.Proofs.Program.Linked
import ObjectMachine.Proofs.Tree.Filling
import ObjectMachine.Session

namespace ObjectMachine

namespace Tree

-- ============================================================ numbering

theorem mem_mapM_number {ts : List Tree} {s : Tree} {next : NodeId}
    (h : s ∈ ((ts.mapM number).run next).1) : ∃ t ∈ ts, ∃ n, s = (t.number.run n).1 := by
  induction ts generalizing next with
  | nil => cases h
  | cons t ts ih =>
      simp only [List.mapM_cons, Kind.bind_run, Kind.pure_run] at h
      rcases List.mem_cons.1 h with rfl | h
      · exact ⟨t, List.mem_cons_self, next, rfl⟩
      · obtain ⟨t', ht', n, rfl⟩ := ih h
        exact ⟨t', List.mem_cons_of_mem _ ht', n, rfl⟩

/-- A node of a tree that `number` has numbered is a node that was there,
numbered. -/
theorem mem_preorder_number {t s : Tree} {next : NodeId}
    (h : s ∈ (t.number.run next).1.preorder) : ∃ r ∈ t.preorder, ∃ n, s = (r.number.run n).1 := by
  induction t using ofChildren generalizing next with
  | h t ih =>
      rw [preorder_eq] at h
      rcases List.mem_cons.1 h with rfl | h
      · exact ⟨t, t.mem_preorder_self, next, rfl⟩
      · obtain ⟨c', hc', hs⟩ := List.mem_flatMap.1 h
        have hchildren := congrArg Prod.fst (t.children_number next)
        dsimp only at hchildren
        rw [hchildren] at hc'
        obtain ⟨c, hc, n, rfl⟩ := mem_mapM_number hc'
        obtain ⟨r, hr, k, rfl⟩ := ih c hc hs
        exact ⟨r, mem_preorder_of_child hc hr, k, rfl⟩

theorem superclass?_number {t r : Tree} {next : NodeId}
    (h : (t.number.run next).1.kind.superclass? = some r) :
    ∃ r₀, t.kind.superclass? = some r₀ ∧ ∃ n, r = (r₀.number.run n).1 := by
  rw [number_run] at h
  cases hkind : t.kind with
  | classDecl name superclass mixins members =>
      rw [hkind] at h
      cases superclass with
      | none => cases h
      | some r₀ =>
          cases h
          exact ⟨r₀, rfl, _, rfl⟩
  | singleton name superclass args mixins members closure =>
      rw [hkind] at h
      cases superclass with
      | none => cases h
      | some r₀ =>
          cases h
          exact ⟨r₀, rfl, _, rfl⟩
  | constructor parameters call body =>
      rw [hkind] at h
      cases call <;> cases h
  | literal value =>
      rw [hkind] at h
      cases value <;> cases h
  | _ =>
      rw [hkind] at h
      cases h

-- ============================================== identities and targets

@[simp] theorem name?_stripped (t : Tree) : t.stripped.name? = t.name? := by
  simp [name?, kind_stripped]

@[simp] theorem lacksSuperclass_stripped (t : Tree) :
    t.stripped.kind.lacksSuperclass = t.kind.lacksSuperclass := by
  simp [kind_stripped]

theorem children_stripped (t : Tree) : t.stripped.children = t.children.map stripped := by
  rw [children, kind_stripped, Kind.children_withTarget, Kind.children_map]
  rfl

/-- Trees that are the same once `stripped` have the same kinds. -/
theorem environment_of_stripped {t t₀ : Tree} (h : t.stripped = t₀.stripped)
    {members : List Tree} (hkind₀ : t₀.kind = .environment members) :
    ∃ own, t.kind = .environment own ∧ own.map stripped = members.map stripped := by
  have hsame := congrArg kind h
  rw [kind_stripped, kind_stripped, hkind₀] at hsame
  cases hkind : t.kind with
  | environment own =>
      rw [hkind] at hsame
      exact ⟨own, rfl, Kind.environment.inj hsame⟩
  | _ =>
      rw [hkind] at hsame
      cases hsame

theorem package_of_stripped {t t₀ : Tree} (h : t.stripped = t₀.stripped) {name : String}
    {members : List Tree} (hkind₀ : t₀.kind = .package name [] members) :
    ∃ own, t.kind = .package name [] own ∧ own.map stripped = members.map stripped := by
  have hsame := congrArg kind h
  rw [kind_stripped, kind_stripped, hkind₀] at hsame
  cases hkind : t.kind with
  | package name' imports own =>
      rw [hkind] at hsame
      obtain ⟨rfl, himports, hmembers⟩ := Kind.package.inj hsame
      rw [List.map_eq_nil_iff.1 himports]
      exact ⟨own, rfl, hmembers⟩
  | _ =>
      rw [hkind] at hsame
      cases hsame

/-- `walk` leads to the first member if that has the name. -/
theorem walk_first {t first : Tree} {others : List Tree} {name : String}
    (hmembers : t.members = first :: others) (hname : first.name? = some name)
    (names : List String) : t.walk (name :: names) = first.walk names := by
  rw [walk, hmembers, List.find?_cons_of_pos (by rw [hname, beq_self_eq_true])]

/-- `Founded` does not depend on identities and targets. -/
theorem founded_stripped {t : Tree} : t.stripped.Founded ↔ t.Founded := by
  unfold Founded
  rw [preorder_stripped, List.forall_mem_map]
  simp only [lacksSuperclass_stripped]

theorem founded_of_map_stripped {ts ts₀ : List Tree} (heq : ts.map stripped = ts₀.map stripped)
    (h : ∀ t ∈ ts₀, t.Founded) : ∀ t ∈ ts, t.Founded := by
  intro t ht
  have hstripped : t.stripped ∈ ts₀.map stripped := by
    rw [← heq]
    exact List.mem_map_of_mem ht
  obtain ⟨t₀, ht₀, heq⟩ := List.mem_map.1 hstripped
  rw [← founded_stripped, ← heq, founded_stripped]
  exact h t₀ ht₀

/-- A node that `lacksSuperclass` is the tree itself, or below a child that is
not `Founded`. -/
theorem lacksSuperclass_cases {t s : Tree} (hs : s ∈ t.preorder) (hlacks : s.kind.lacksSuperclass) :
    s = t ∧ t.kind.lacksSuperclass ∨ ∃ c ∈ t.children, ¬ c.Founded ∧ s ∈ c.preorder := by
  rw [preorder_eq] at hs
  rcases List.mem_cons.1 hs with rfl | hs
  · exact .inl ⟨rfl, hlacks⟩
  · obtain ⟨c, hc, hs⟩ := List.mem_flatMap.1 hs
    exact .inr ⟨c, hc, fun hc => Bool.eq_false_iff.1 (hc s hs) hlacks, hs⟩

/-- Where the other children are `Founded`, a node that `lacksSuperclass` is
below the first. -/
theorem mem_first_of_lacksSuperclass {t s first : Tree} {others : List Tree}
    (hchildren : t.children = first :: others) (hown : t.kind.lacksSuperclass = false)
    (hothers : ∀ c ∈ others, c.Founded) (hs : s ∈ t.preorder) (hlacks : s.kind.lacksSuperclass) :
    s ∈ first.preorder := by
  rcases lacksSuperclass_cases hs hlacks with ⟨-, htop⟩ | ⟨c, hc, hunfounded, hs⟩
  · rw [hown] at htop
    cases htop
  · rw [hchildren] at hc
    rcases List.mem_cons.1 hc with rfl | hc
    · exact hs
    · exact absurd (hothers c hc) hunfounded

-- ============================================================== merging

/-- `mergeInto` adds a tree to those that come after the first, or leaves it
out, unless it is a package that has the name of the first. -/
theorem mergeInto_cons {first t : Tree} (h : t.kind.isPackage → t.name? ≠ first.name?)
    (siblings : List Tree) : mergeInto (first :: siblings) t = first :: siblings
      ∨ mergeInto (first :: siblings) t = first :: mergeInto siblings t := by
  by_cases hpackage : t.kind.isPackage
  · obtain ⟨id, span, kind⟩ := t
    cases kind with
    | package name imports members =>
        have hother : isPackageNamed (some name) first = false := by
          have hne : first.name? ≠ some name := fun heq => h rfl heq.symm
          simp [isPackageNamed, hne]
        rw [mergeInto, mergeInto, updateFirst?, if_neg (by rw [hother]; exact Bool.false_ne_true)]
        right
        cases updateFirst? (isPackageNamed (some name))
          (extendPackage imports fun old => mergeMembers old members) siblings <;> rfl
    | _ => cases hpackage
  · rw [mergeInto_of_not_isPackage hpackage, mergeInto_of_not_isPackage hpackage, List.any_cons]
    cases isPackageNamed t.name? first with
    | true => exact .inl rfl
    | false =>
        right
        rw [Bool.false_or]
        split <;> rfl

/-- `mergeAll` keeps trees `Founded`. -/
theorem founded_mergeAll {forest : List Tree} (h : ∀ t ∈ forest, t.Founded) :
    ∀ t ∈ mergeAll [] forest, t.Founded := by
  intro t ht s hs
  refine Bool.eq_false_iff.2 fun hlacks => ?_
  have hother := Kind.not_isPackage_of_isClassOrObject (Bool.and_eq_true_iff.1 hlacks).1
  have hjoins : Joins (fun _ => True) [] forest (mergeAll [] forest) :=
    joins_mergeAll (fun t _ => joins_mergeInto_of_any t) []
  obtain ⟨s', hs', -, hsame⟩ := hjoins.origin (List.mem_flatMap.2 ⟨t, ht, hs⟩)
  obtain rfl := hsame hother
  obtain ⟨t₀, ht₀, hs₀⟩ := List.mem_flatMap.1 hs'
  rw [h t₀ ht₀ s' hs₀] at hlacks
  cases hlacks

/-- Where no package has the name of the first tree, `mergeAll` leaves it as it
is. -/
theorem mergeAll_cons {first : Tree} {forest : List Tree}
    (h : ∀ t ∈ forest, t.kind.isPackage → t.name? ≠ first.name?) (base : List Tree) :
    ∃ kept ⊆ forest, mergeAll (first :: base) forest = first :: mergeAll base kept := by
  induction forest generalizing base with
  | nil => exact ⟨[], List.Subset.refl _, rfl⟩
  | cons t rest ih =>
      have hrest := ih fun s hs => h s (List.mem_cons_of_mem _ hs)
      rcases mergeInto_cons (h t List.mem_cons_self) base with heq | heq
      · obtain ⟨kept, hkept, hmerged⟩ := hrest base
        refine ⟨kept, List.subset_cons_of_subset _ hkept, ?_⟩
        rw [mergeAll, List.foldl_cons, heq]
        exact hmerged
      · obtain ⟨kept, hkept, hmerged⟩ := hrest (mergeInto base t)
        refine ⟨t :: kept, List.cons_subset_cons t hkept, ?_⟩
        rw [mergeAll, List.foldl_cons, heq]
        exact hmerged

/-- Superclasses that are pending come without a target, so nothing is asked of
one. -/
theorem superclassesRefer_of_isPending {P : NodeId → Prop} {t : Tree}
    (h : ∀ s ∈ t.preorder, ∀ r ∈ s.kind.superclass?.toList, r.isPending) :
    t.SuperclassesRefer P := by
  intro s hs r hr
  have hwaits := h s hs r (Option.mem_toList.2 hr)
  unfold isPending at hwaits
  split at hwaits
  · next name hkind => exact ⟨name, none, hkind, fun id hid => nomatch hid⟩
  · cases hwaits

end Tree

-- ============================================================== library

namespace Prelude

/-- The library after `fillAll`: the root class comes first, and all the others
are `Founded`. -/
theorem forest_filled : ∃ others library, Tree.fillAll forest
      = [Build.package "wollok" [Build.package "lang" (objectClass :: others), library]]
    ∧ ∀ t ∈ objectClass.children ++ library :: others, t.Founded :=
  ⟨_, _, rfl, by decide +kernel⟩

/-- The superclasses of the library are named. -/
theorem superclasses_refer (P : NodeId → Prop) : ∀ t ∈ forest, t.SuperclassesRefer P := by
  have hpending : ∀ t ∈ forest, ∀ s ∈ t.preorder, ∀ r ∈ s.kind.superclass?.toList,
      r.isPending := by decide +kernel
  exact fun t ht => Tree.superclassesRefer_of_isPending (hpending t ht)

end Prelude

namespace Program

variable {packages : List Tree} {p : Program}

/-- The root class of the library is where its name says, as it was written,
and nothing else is without superclass. -/
structure Based (p : Program) (object : Tree) : Prop where
  found : p.root.walk (dotted CoreNames.objectClass) = some object
  written : object.stripped = Prelude.objectClass
  only : ∀ s ∈ p.root.preorder, s.kind.lacksSuperclass → s = object

/-- The `merged` trees begin with the library. -/
theorem merged_library (hout : ∀ t ∈ packages, t.Outside) : ∃ others library rest,
    merged none (Tree.fillAll (Prelude.forest ++ packages)) = .node none none (.environment
      (Build.package "wollok" [Build.package "lang" (Prelude.objectClass :: others), library]
        :: rest))
    ∧ ∀ t ∈ Prelude.objectClass.children ++ library :: (others ++ rest), t.Founded := by
  obtain ⟨others, library, hfilled, hfounded⟩ := Prelude.forest_filled
  set first := Build.package "wollok" [Build.package "lang" (Prelude.objectClass :: others),
    library]
  have hnames : ∀ t ∈ Tree.fillAll packages, t.kind.isPackage → t.name? ≠ first.name? := by
    intro t ht
    obtain ⟨t₀, ht₀, rfl⟩ := List.mem_map.1 ht
    exact (hout t₀ ht₀).fill [] _ (Tree.mem_preorder_self _)
  obtain ⟨kept, hkept, hmerged⟩ := Tree.mergeAll_cons hnames []
  refine ⟨others, library, Tree.mergeAll [] kept, ?_, ?_⟩
  · have hall : Tree.fillAll (Prelude.forest ++ packages) = first :: Tree.fillAll packages := by
      rw [Tree.fillAll, List.map_append]
      exact congrArg (· ++ Tree.fillAll packages) hfilled
    rw [merged, hall, ← hmerged]
    rfl
  · have hrest : ∀ t ∈ Tree.mergeAll [] kept, t.Founded := by
      refine Tree.founded_mergeAll fun t ht => ?_
      obtain ⟨t₀, ht₀, rfl⟩ := List.mem_map.1 (hkept ht)
      exact (hout t₀ ht₀).founded_fill
    rw [← List.cons_append, ← List.append_assoc]
    exact List.forall_mem_append.2 ⟨hfounded, hrest⟩

theorem based_of_linkPackages (hout : ∀ t ∈ packages, t.Outside)
    (hlink : linkPackages true packages = .ok p) : ∃ object, p.Based object := by
  obtain ⟨root, targets, hlinks⟩ := links_of_link hlink
  obtain ⟨others₀, library₀, rest₀, hmerged, hfounded⟩ := merged_library hout
  obtain ⟨hmembers, hfounded⟩ := List.forall_mem_append.1 hfounded
  obtain ⟨hlibrary, hfounded⟩ := List.forall_mem_cons.1 hfounded
  obtain ⟨hothers, hrest⟩ := List.forall_mem_append.1 hfounded
  -- the packages on the way to the root class, one after another
  have hroot := hlinks.stripped_root
  rw [if_pos rfl, hmerged] at hroot
  obtain ⟨top, hroot, htop⟩ := Tree.environment_of_stripped hroot rfl
  obtain ⟨wollok, rest, rfl, hwollok, hrest'⟩ := List.map_eq_cons_iff.1 htop
  obtain ⟨inner, hwollok, hinner⟩ := Tree.package_of_stripped hwollok rfl
  obtain ⟨lang, libraries, rfl, hlang, hlibraries⟩ := List.map_eq_cons_iff.1 hinner
  obtain ⟨classes, hlang, hclasses⟩ := Tree.package_of_stripped hlang rfl
  obtain ⟨object, others, rfl, hobject, hothers'⟩ := List.map_eq_cons_iff.1 hclasses
  have hwritten : object.stripped = Prelude.objectClass := hobject
  refine ⟨object, ?_, hwritten, fun s hs hlacks => ?_⟩
  · have hname : object.name? = some "Object" := by
      rw [← Tree.name?_stripped, hwritten]
      rfl
    have hpath : dotted CoreNames.objectClass = ["wollok", "lang", "Object"] := by decide
    rw [hpath, Tree.walk_first (by rw [Tree.members, hroot]; rfl)
      (by rw [Tree.name?, hwollok]; rfl),
      Tree.walk_first (by rw [Tree.members, hwollok]; rfl) (by rw [Tree.name?, hlang]; rfl),
      Tree.walk_first (by rw [Tree.members, hlang]; rfl) hname]
    rfl
  · have hmembers' : ∀ c ∈ object.children, c.Founded := by
      refine Tree.founded_of_map_stripped ?_ hmembers
      rw [← Tree.children_stripped, hwritten]
      rfl
    have hs := Tree.mem_first_of_lacksSuperclass (by rw [Tree.children, hroot]; rfl)
      (by rw [hroot]; rfl) (Tree.founded_of_map_stripped hrest' hrest) hs hlacks
    have hs := Tree.mem_first_of_lacksSuperclass (by rw [Tree.children, hwollok]; rfl)
      (by rw [hwollok]; rfl) (Tree.founded_of_map_stripped hlibraries (by simpa using hlibrary)) hs
      hlacks
    have hs := Tree.mem_first_of_lacksSuperclass (by rw [Tree.children, hlang]; rfl)
      (by rw [hlang]; rfl) (Tree.founded_of_map_stripped hothers' hothers) hs hlacks
    rcases Tree.lacksSuperclass_cases hs hlacks with ⟨rfl, -⟩ | ⟨c, hc, hunfounded, -⟩
    · rfl
    · exact absurd (hmembers' c hc) hunfounded

-- ========================================================= superclasses

theorem superclass_of_merged {forest : List Tree} {P : NodeId → Prop}
    (hrefer : ∀ t ∈ forest, t.SuperclassesRefer P) {s r : Tree}
    (hs : s ∈ (merged none forest).preorder) (hr : s.kind.superclass? = some r) :
    ∃ name target, r.kind = .reference name target ∧ ∀ id ∈ target, P id := by
  rw [Tree.preorder_eq] at hs
  rcases List.mem_cons.1 hs with rfl | hs
  · cases hr
  · have hother :=
      Kind.not_isPackage_of_isClassOrObject (Kind.isClassOrObject_of_superclass? hr)
    obtain ⟨s', hs', -, hsame⟩ := (joins_merged [] forest).origin hs
    obtain rfl := hsame hother
    obtain ⟨t, ht, hs'⟩ := List.mem_flatMap.1 hs'
    exact hrefer t ht s' hs' r hr

/-- Where superclasses are references, linking gives them targets: they name
modules, if those do that come with a target. -/
theorem Links.superclass_target {forest : List Tree} {root : Tree}
    {targets : List (NodeId × NodeId)} (h : Links none forest root targets p)
    (hrefer : ∀ t ∈ forest, t.SuperclassesRefer fun id => p.isModule id) {s r : Tree}
    (hs : s ∈ p.root.preorder) (hr : s.kind.superclass? = some r) :
    ∃ target, r.kind.target? = some target ∧ p.isModule target := by
  have hsupertype : p.IsSupertype r.identity :=
    ⟨s.identity, s.kind, kind?_of_mem h.numbered_outcome hs, r,
      List.mem_append_right _ (Option.mem_toList.2 hr), rfl⟩
  -- the reference before it had its target, and before it was numbered
  rw [h.preorder_root] at hs
  obtain ⟨s₁, hs₁, rfl⟩ := List.mem_map.1 hs
  rw [Tree.kind_setTargets, Kind.superclass?_withTarget, Kind.superclass?_map] at hr
  obtain ⟨r₁, hr₁, rfl⟩ := Option.map_eq_some_iff.1 hr
  rw [Tree.identity_setTargets] at hsupertype
  have hmem : r₁ ∈ root.preorder := Tree.mem_preorder_trans hs₁ (Tree.mem_preorder_of_child
    (Kind.mem_children_of_supertype (List.mem_append_right _ (Option.mem_toList.2 hr₁)))
    r₁.mem_preorder_self)
  rw [h.root_eq] at hs₁
  obtain ⟨s₀, hs₀, n, rfl⟩ := Tree.mem_preorder_number hs₁
  obtain ⟨r₀, hr₀, k, rfl⟩ := Tree.superclass?_number hr₁
  obtain ⟨name, target, hkind₀, htarget⟩ := superclass_of_merged hrefer hs₀ hr₀
  have hkind := Tree.reference_of_outline (r₀.outline_number k) hkind₀
  rw [Tree.kind_setTargets, hkind]
  cases target with
  | none =>
      have hwaits : (r₀.number.run k).1.isPending := by rw [Tree.isPending, hkind]
      obtain ⟨target, hlisted, hexplains⟩ := h.explains _ hmem hwaits
      rw [hlisted]
      exact ⟨target, rfl, (hexplains.supertype hsupertype).1⟩
  | some target =>
      have hsettled : (r₀.number.run k).1.isPending = false := by rw [Tree.isPending, hkind]
      rw [lookup_of_settled h.numbered h.pending hmem hsettled]
      exact ⟨target, rfl, htarget target rfl⟩

end Program

end ObjectMachine
