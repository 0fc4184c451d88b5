/-
One package of a name among siblings.

A package that is merged joins the one of its name among its siblings, if
there is one, and its members are merged in turn. So merging never brings
two packages of one name together, at the top level or inside a package. But
it does not look into a package that joins nothing: two packages of one name
that stand side by side in a tree are still two if the tree is taken as it
is.
-/
import Mathlib
import ObjectMachine.Proofs.Program.Linked
import ObjectMachine.Tree.Build

namespace ObjectMachine

/-- The nodes whose members are the top level of a program or of a
package. -/
def Kind.holdsPackages {α : Type} : Kind α → Bool
  | .environment .. | .package .. => true
  | _ => false

namespace Tree

/-- The names of the packages among trees. -/
def packageNames (ts : List Tree) : List (Option String) :=
  (ts.filter fun t => t.kind.isPackage).map name?

/-- The root and the packages of a tree have no two packages of one name
among their members. -/
def Tidy (t : Tree) : Prop :=
  ∀ s ∈ t.preorder, s.kind.holdsPackages → (packageNames s.members).Nodup

instance (t : Tree) : Decidable t.Tidy :=
  inferInstanceAs (Decidable
    (∀ s ∈ t.preorder, s.kind.holdsPackages → (packageNames s.members).Nodup))

theorem packageNames_append (ts ts' : List Tree) :
    packageNames (ts ++ ts') = packageNames ts ++ packageNames ts' := by
  simp [packageNames]

theorem packageNames_singleton (t : Tree) :
    packageNames [t] = if t.kind.isPackage then [t.name?] else [] := by
  cases h : t.kind.isPackage <;> simp [packageNames, h]

theorem mem_packageNames {ts : List Tree} {name : Option String} :
    name ∈ packageNames ts ↔ ∃ t ∈ ts, isPackageNamed name t := by
  simp [packageNames, isPackageNamed, and_assoc]

theorem tidy_iff {t : Tree} : t.Tidy ↔
    (t.kind.holdsPackages → (packageNames t.members).Nodup) ∧ ∀ c ∈ t.children, c.Tidy := by
  constructor
  · intro h
    exact ⟨h t (mem_preorder_self t), fun c hc s hs => h s (mem_preorder_of_child hc hs)⟩
  · rintro ⟨hself, hbelow⟩ s hs
    rw [preorder_eq] at hs
    rcases List.mem_cons.1 hs with rfl | hs
    · exact hself
    · obtain ⟨c, hc, hs⟩ := List.mem_flatMap.1 hs
      exact hbelow c hc s hs

-- ========================================================= the top level

/-- `mergeInto` adds a package under its name if there is none of that name, and
leaves the names as they are otherwise. Nothing else adds a name. -/
theorem packageNames_mergeInto (siblings : List Tree) (t : Tree) :
    packageNames (mergeInto siblings t) =
      if t.kind.isPackage ∧ t.name? ∉ packageNames siblings
      then packageNames siblings ++ [t.name?] else packageNames siblings := by
  by_cases ht : t.kind.isPackage
  · obtain ⟨id, span, kind⟩ := t
    cases kind with
    | package name imports members =>
        rw [mergeInto]
        rcases updateFirst?_cases (isPackageNamed (some name))
            (extendPackage imports fun old => mergeMembers old members) siblings with
          hnone | ⟨before, a, after, rfl, ha, hsome⟩
        · have hnew : some name ∉ packageNames siblings := by
            rw [mem_packageNames]
            rintro ⟨s, hs, hnamed⟩
            rw [updateFirst?_eq_none hnone s hs] at hnamed
            cases hnamed
          rw [hnone, if_pos ⟨ht, hnew⟩]
          exact packageNames_append _ _
        · have hold : some name ∈ packageNames (before ++ a :: after) :=
            mem_packageNames.2 ⟨a, by simp, ha⟩
          rw [hsome, if_neg fun hnew => hnew.2 hold, Option.getD_some]
          obtain ⟨id', span', kind'⟩ := a
          cases kind' with
          | package => simp [packageNames, extendPackage, name?, Kind.name?, kind, Kind.isPackage]
          | _ => simp [isPackageNamed, kind, Kind.isPackage] at ha
    | _ => cases ht
  · rw [mergeInto_of_not_isPackage ht,
      if_neg fun h : t.kind.isPackage ∧ t.name? ∉ packageNames siblings => ht h.1]
    split
    · rfl
    · rw [packageNames_append, packageNames_singleton, if_neg ht, List.append_nil]

theorem nodup_mergeInto {siblings : List Tree} (h : (packageNames siblings).Nodup) (t : Tree) :
    (packageNames (mergeInto siblings t)).Nodup := by
  rw [packageNames_mergeInto]
  split
  · next hnew =>
      rw [List.nodup_append]
      refine ⟨h, List.nodup_singleton _, ?_⟩
      rintro name hname _ hsame rfl
      rw [List.mem_singleton.1 hsame] at hname
      exact hnew.2 hname
  · exact h

theorem nodup_mergeMembers {old : List Tree} (h : (packageNames old).Nodup)
    (members : List Tree) : (packageNames (mergeMembers old members)).Nodup := by
  induction members generalizing old with
  | nil =>
      rw [mergeMembers]
      exact h
  | cons t rest ih =>
      rw [mergeMembers]
      apply ih
      split
      · exact nodup_mergeInto h t
      · next ht =>
          rw [packageNames_append, packageNames_singleton, if_neg ht, List.append_nil]
          exact h

theorem nodup_mergeAll {base : List Tree} (h : (packageNames base).Nodup) (forest : List Tree) :
    (packageNames (mergeAll base forest)).Nodup := by
  unfold mergeAll
  induction forest generalizing base with
  | nil => exact h
  | cons t rest ih => exact ih (nodup_mergeInto h t)

-- ======================================================= inside packages

theorem tidy_mergeMembers {members : List Tree}
    (h : ∀ t ∈ members, t.Tidy ∧ (t.kind.isPackage → ∀ siblings, (∀ s ∈ siblings, s.Tidy) →
      ∀ s ∈ mergeInto siblings t, s.Tidy))
    {old : List Tree} (hold : ∀ s ∈ old, s.Tidy) : ∀ s ∈ mergeMembers old members, s.Tidy := by
  induction members generalizing old with
  | nil =>
      rw [mergeMembers]
      exact hold
  | cons t rest ih =>
      obtain ⟨⟨ht, hmerge⟩, hrest⟩ := List.forall_mem_cons.1 h
      rw [mergeMembers]
      apply ih hrest
      split
      · next hpackage => exact hmerge hpackage old hold
      · exact List.forall_mem_append.2 ⟨hold, List.forall_mem_singleton.2 ht⟩

/-- A `Tidy` tree leaves its siblings `Tidy`: the package it joins gets its
members one by one. -/
theorem tidy_mergeInto {t : Tree} (ht : t.Tidy) {siblings : List Tree}
    (h : ∀ s ∈ siblings, s.Tidy) : ∀ s ∈ mergeInto siblings t, s.Tidy := by
  have happend : ∀ s ∈ siblings ++ [t], s.Tidy :=
    List.forall_mem_append.2 ⟨h, List.forall_mem_singleton.2 ht⟩
  induction t using ofChildren generalizing siblings with
  | h t ih =>
      by_cases hpackage : t.kind.isPackage
      · obtain ⟨id, span, kind⟩ := t
        cases kind with
        | package name imports members =>
            rw [mergeInto]
            rcases updateFirst?_cases (isPackageNamed (some name))
                (extendPackage imports fun old => mergeMembers old members) siblings with
              hnone | ⟨before, a, after, rfl, ha, hsome⟩
            · rw [hnone]
              exact happend
            · rw [hsome, Option.getD_some]
              obtain ⟨hbefore, hrest⟩ := List.forall_mem_append.1 h
              obtain ⟨hjoined, hafter⟩ := List.forall_mem_cons.1 hrest
              refine List.forall_mem_append.2 ⟨hbefore, List.forall_mem_cons.2 ⟨?_, hafter⟩⟩
              obtain ⟨id', span', kind'⟩ := a
              cases kind' with
              | package name' imports' members' =>
                  obtain ⟨-, hbelow⟩ := tidy_iff.1 ht
                  obtain ⟨hnames, hold⟩ := tidy_iff.1 hjoined
                  obtain ⟨himports, hmembers⟩ := List.forall_mem_append.1 hbelow
                  obtain ⟨himports', hmembers'⟩ := List.forall_mem_append.1 hold
                  refine tidy_iff.2 ⟨fun _ => nodup_mergeMembers (hnames rfl) members, ?_⟩
                  refine List.forall_mem_append.2
                    ⟨List.forall_mem_append.2 ⟨himports', himports⟩, ?_⟩
                  refine tidy_mergeMembers (fun c hc => ⟨hmembers c hc, fun _ s hs => ?_⟩) hmembers'
                  exact ih c (List.mem_append_right imports hc) (hmembers c hc) hs
                    (List.forall_mem_append.2 ⟨hs, List.forall_mem_singleton.2 (hmembers c hc)⟩)
              | _ => simp [isPackageNamed, kind, Kind.isPackage] at ha
        | _ => cases hpackage
      · rw [mergeInto_of_not_isPackage hpackage]
        split
        · exact h
        · exact happend

theorem tidy_mergeAll {base forest : List Tree} (hbase : ∀ t ∈ base, t.Tidy)
    (hforest : ∀ t ∈ forest, t.Tidy) : ∀ t ∈ mergeAll base forest, t.Tidy := by
  unfold mergeAll
  induction forest generalizing base with
  | nil => exact hbase
  | cons t rest ih =>
      obtain ⟨ht, hrest⟩ := List.forall_mem_cons.1 hforest
      exact ih (tidy_mergeInto ht hbase) hrest

-- ================================================= identities and targets

theorem packageNames_map_stripped (ts : List Tree) :
    packageNames (ts.map stripped) = packageNames ts := by
  have hname (t : Tree) : t.stripped.name? = t.name? := by
    rw [name?, kind_stripped, Kind.name?_withTarget, Kind.name?_map]
    rfl
  have hpackage : (fun t : Tree => t.kind.isPackage) ∘ stripped = fun t => t.kind.isPackage :=
    funext isPackage_stripped
  rw [packageNames, List.filter_map, hpackage, List.map_map]
  exact List.map_congr_left fun t _ => hname t

/-- Neither identities nor targets have a part in `Tidy`. -/
theorem tidy_stripped {t : Tree} : t.stripped.Tidy ↔ t.Tidy := by
  have hholds (s : Tree) : s.stripped.kind.holdsPackages = s.kind.holdsPackages := by
    rw [kind_stripped]
    cases s.kind <;> rfl
  unfold Tidy
  rw [preorder_stripped, List.forall_mem_map]
  simp only [hholds, members_stripped, packageNames_map_stripped]

end Tree

namespace Program

variable {base : Option Program} {forest : List Tree} {p : Program}

theorem nodup_topLevel_of_link (hbase : ∀ b ∈ base, (Tree.packageNames b.topLevel).Nodup)
    (hlink : link base forest = .ok p) : (Tree.packageNames p.topLevel).Nodup := by
  obtain ⟨root, targets, hlinks⟩ := links_of_link hlink
  have htop : p.topLevel.map Tree.stripped
      = (Tree.mergeAll ((base.map topLevel).getD []) forest).map Tree.stripped := by
    have hmembers := congrArg Tree.members hlinks.stripped_root
    rwa [Tree.members_stripped, Tree.members_stripped] at hmembers
  rw [← Tree.packageNames_map_stripped, htop, Tree.packageNames_map_stripped]
  apply Tree.nodup_mergeAll
  cases base with
  | none => exact List.nodup_nil
  | some b => exact hbase b rfl

/-- By induction over `Linked`: each link adds to what the ones before have
left. -/
theorem Linked.nodup_topLevel (h : Linked p) : (Tree.packageNames p.topLevel).Nodup := by
  induction h with
  | link _ _ hlink ih => exact nodup_topLevel_of_link ih hlink

/-- In a linked program packages that stand side by side have different names:
always at the top level, and everywhere if the base and each of the trees that
are linked are `Tidy`. -/
theorem sibling_packages_are_merged (hbase : ∀ b ∈ base, Linked b)
    (hlink : link base forest = .ok p) :
    (Tree.packageNames p.topLevel).Nodup
      ∧ ((∀ b ∈ base, b.root.Tidy) → (∀ t ∈ forest, t.Tidy) → p.root.Tidy) := by
  have hnames (b : Program) (hb : b ∈ base) := (hbase b hb).nodup_topLevel
  refine ⟨nodup_topLevel_of_link hnames hlink, fun hold hforest => ?_⟩
  obtain ⟨root, targets, hlinks⟩ := links_of_link hlink
  rw [← Tree.tidy_stripped, hlinks.stripped_root, Tree.tidy_stripped, merged]
  -- the root itself has merged packages, whatever is inside them
  cases base with
  | none =>
      have hempty : (Tree.packageNames []).Nodup := List.nodup_nil
      exact Tree.tidy_iff.2 ⟨fun _ => Tree.nodup_mergeAll hempty forest,
        Tree.tidy_mergeAll (by simp) hforest⟩
  | some b =>
      refine Tree.tidy_iff.2 ⟨fun _ => Tree.nodup_mergeAll (hnames b rfl) forest,
        Tree.tidy_mergeAll (fun t ht => ?_) hforest⟩
      exact (Tree.tidy_iff.1 (hold b rfl)).2 t (Kind.mem_children_of_mem_members ht)

end Program

namespace Sample

open Build

/-- A package in two parts that both have a package inside. -/
def coast : List Tree :=
  [package "sea" [package "bay" [classNamed "Crab" []]],
   package "sea" [package "reef" [], package "bay" [classNamed "Gull" []]]]

/-- A package with two packages of one name inside. -/
def delta : List Tree := [package "sea" [package "bay" [], package "bay" []]]

end Sample

theorem coast_sibling_packages_are_merged :
    ∃ p, Program.link none Sample.coast = .ok p ∧ p.size = 6 ∧ p.root.Tidy := by
  obtain ⟨p, hlink, hsize⟩ : ∃ p, Program.link none Sample.coast = .ok p ∧ p.size = 6 :=
    ⟨_, rfl, rfl⟩
  have hforest : ∀ t ∈ Sample.coast, t.Tidy := by decide +kernel
  obtain ⟨-, htidy⟩ := Program.sibling_packages_are_merged (by simp) hlink
  exact ⟨p, hlink, hsize, htidy (by simp) hforest⟩

/-- A package that joins no other is taken with whatever is inside. -/
theorem delta_sibling_packages_are_not_merged :
    ∃ p, Program.link none Sample.delta = .ok p
      ∧ p.topLevel.map Tree.stripped = Sample.delta ∧ ¬ p.root.Tidy :=
  ⟨_, rfl, rfl, by decide +kernel⟩

end ObjectMachine
