/-
What linking keeps and what it adds.

The trees that are linked are found back in the program: without identities
and targets it is what merging them gives, and of their nodes only packages
that have joined others are gone. Nodes are numbered from the root on,
parents before children.

Every reference has a target. What it stands for is what anyone finds who
looks its name up in the finished program, although linking has looked it
up in one whose references were not all set.
-/
import Mathlib
import ObjectMachine.Proofs.Program.Linked
import ObjectMachine.Tree.Build

namespace ObjectMachine

namespace Program

-- =============================================================== nodes

variable {forest : List Tree} {root : Tree} {targets : List (NodeId × NodeId)} {p : Program}

/-- Trees that are `Bare` have no identities and targets once they are
`merged`. -/
theorem merged_bare (hbare : ∀ t ∈ forest, t.Bare) : (merged none forest).Bare := by
  intro s hs
  rw [Tree.preorder_eq] at hs
  rcases List.mem_cons.1 hs with rfl | hs
  · exact ⟨rfl, rfl⟩
  · obtain ⟨s', hs', hid, hsame⟩ := (joins_merged [] forest).origin hs
    obtain ⟨t, ht, hs'⟩ := List.mem_flatMap.1 hs'
    obtain ⟨hnone, htarget⟩ := hbare t ht s' hs'
    -- a package may have been extended, but it has no target in any case
    by_cases hpackage : s.kind.isPackage
    · refine ⟨hid ▸ hnone, ?_⟩
      cases hkind : s.kind with
      | reference => rw [hkind] at hpackage; cases hpackage
      | _ => rfl
    · rw [← hsame hpackage]
      exact ⟨hnone, htarget⟩

namespace Links

variable (h : Links none forest root targets p) (hbare : ∀ t ∈ forest, t.Bare)
include h hbare

theorem stripped_root_of_bare : p.root.stripped = merged none forest := by
  rw [h.stripped_root, (merged_bare hbare).stripped_eq_self]

/-- Below the root is what `mergeAll` has left. -/
theorem stripped_descendants : p.root.descendants.map Tree.stripped
    = (Tree.mergeAll [] forest).flatMap Tree.preorder := by
  rw [Tree.descendants_eq, List.map_tail, ← Tree.preorder_stripped, h.stripped_root_of_bare hbare,
    Tree.preorder_eq]
  rfl

theorem stripped_others (hpackages : ∀ t ∈ forest, t.kind.isPackage) :
    ((p.root.descendants.filter fun s => !s.kind.isPackage).map Tree.stripped).Perm
      ((forest.flatMap Tree.preorder).filter fun s => !s.kind.isPackage) := by
  have hjoins := Tree.joins_mergeAll (fun t ht => Tree.joins_mergeInto (hpackages t ht)) []
  rw [Tree.map_stripped_filter, h.stripped_descendants hbare]
  exact hjoins.others

/-- Without a base `Tree.number` gives the identities out in order. -/
theorem map_id?_root : p.root.preorder.map Tree.id? = (List.range p.size).map some := by
  have hkept : Tree.id? ∘ Tree.setTargets targets = Tree.id? :=
    funext (Tree.id?_setTargets targets)
  have hnone : ∀ entry ∈ (merged none forest).preorder.map fun s => (s.id?, s.outline),
      entry.1 = none := by
    intro entry hentry
    obtain ⟨s, hs, rfl⟩ := List.mem_map.1 hentry
    exact (merged_bare hbare s hs).1
  have hgiven := Tree.map_fst_numberedFrom (firstFree none) hnone
  rw [← h.entries_root, List.map_map, List.length_map, ← h.size_outcome] at hgiven
  rw [h.preorder_root, List.map_map, hkept, List.range_eq_range']
  exact hgiven

/-- The root comes first, and all that is below it follows. -/
theorem identities_root :
    p.rootId = 0 ∧ p.root.descendants.map Tree.identity = List.range' 1 (p.size - 1) := by
  have hids : p.root.preorder.map Tree.identity = List.range p.size := by
    calc p.root.preorder.map Tree.identity
        = (p.root.preorder.map Tree.id?).map (·.getD 0) := by rw [List.map_map]; rfl
      _ = ((List.range p.size).map some).map (·.getD 0) := by rw [h.map_id?_root hbare]
      _ = List.range p.size := by rw [List.map_map]; exact List.map_id _
  obtain ⟨n, hn⟩ : ∃ n, p.size = n + 1 :=
    ⟨_, by rw [size_eq h.numbered_outcome, Tree.preorder_eq, List.length_cons]⟩
  rw [hn, List.range_eq_range', List.range'_succ, Tree.preorder_eq, List.map_cons] at hids
  rw [hn, Tree.descendants_eq, Tree.preorder_eq]
  exact ⟨(List.cons.inj hids).1, (List.cons.inj hids).2⟩

end Links

/-- Linking keeps the trees it is given: they are merged, and nothing but
identities and targets is added, which `stripped` takes off again. All nodes but
packages are there as often as before, with all that is below them. The root is
0, and the nodes below it are numbered in order, parents before children. -/
theorem linking_keeps_forest (hpackages : ∀ t ∈ forest, t.kind.isPackage)
    (hbare : ∀ t ∈ forest, t.Bare) (hlink : link none forest = .ok p) :
    p.topLevel.map Tree.stripped = Tree.mergeAll [] forest
      ∧ ((((List.range' 1 (p.size - 1)).filterMap p.tree?).filter
          fun s => !s.kind.isPackage).map Tree.stripped).Perm
            ((forest.flatMap Tree.preorder).filter fun s => !s.kind.isPackage)
      ∧ (∀ id < p.size, ∃ t, p.tree? id = some t ∧ t.id? = some id)
      ∧ p.rootId = 0 ∧ p.kind? p.rootId = some (.environment p.topLevel)
      ∧ p.descendantIds p.rootId = List.range' 1 (p.size - 1) := by
  obtain ⟨root, targets, hlinks⟩ := links_of_link hlink
  have hcomplete := hlinks.complete (fun _ hnone => by cases hnone) hbare
  have hnumbered := hcomplete.numbered
  obtain ⟨hroot, hbelow⟩ := hlinks.identities_root hbare
  have htree : p.tree? p.rootId = some p.root :=
    (tree?_eq_some_iff hnumbered).2 ⟨p.root.mem_preorder_self, rfl⟩
  have hsub : p.root.descendants ⊆ p.root.preorder := by
    rw [Tree.descendants_eq]
    exact List.tail_subset _
  refine ⟨?_, ?_, fun id hid => ?_, hroot, ?_, ?_⟩
  · rw [topLevel, ← Tree.members_stripped, hlinks.stripped_root_of_bare hbare]
    rfl
  · rw [← hbelow, filterMap_tree? hnumbered hsub]
    exact hlinks.stripped_others hbare hpackages
  · rw [size_eq hnumbered, ← hnumbered.mem_iff] at hid
    obtain ⟨t, ht, rfl⟩ := List.mem_map.1 hid
    obtain ⟨id, hid⟩ := Option.isSome_iff_exists.1 (hcomplete.identified t ht)
    refine ⟨t, (tree?_eq_some_iff hnumbered).2 ⟨ht, rfl⟩, ?_⟩
    rw [Tree.identity, hid]
    rfl
  · rw [kind?, htree, Option.map_some, hcomplete.environment]
  · rw [descendantIds, htree]
    exact hbelow

end Program

namespace Sample

open Build

/-- A package in two parts, with a package inside that is in two parts
too. -/
def flock : List Tree :=
  [package "zoo" [classNamed "Hen" [], package "nest" []],
   package "zoo" [package "nest" [(classNamed "Egg" []).inherits "Hen"]]]

end Sample

/-- The parts are put together, and the nodes of the classes are kept. -/
theorem flock_linking_keeps_forest :
    ∃ p, Program.link none Sample.flock = .ok p ∧ p.size = 6
      ∧ p.topLevel.map Tree.stripped
          = [Build.package "zoo" [Build.classNamed "Hen" [],
              Build.package "nest" [(Build.classNamed "Egg" []).inherits "Hen"]]]
      ∧ ((([1, 2, 3, 4, 5].filterMap p.tree?).filter
          fun s => !s.kind.isPackage).map Tree.stripped).Perm
            [Build.classNamed "Hen" [], (Build.classNamed "Egg" []).inherits "Hen",
              Build.reference "Hen"]
      ∧ p.rootId = 0 ∧ p.descendantIds p.rootId = [1, 2, 3, 4, 5] := by
  have hpackages : ∀ t ∈ Sample.flock, t.kind.isPackage := by decide +kernel
  have hbare : ∀ t ∈ Sample.flock, t.Bare := by decide +kernel
  obtain ⟨p, hlink, hsize⟩ : ∃ p, Program.link none Sample.flock = .ok p ∧ p.size = 6 :=
    ⟨_, rfl, rfl⟩
  obtain ⟨hmerged, hothers, -, hroot, -, hbelow⟩ :=
    Program.linking_keeps_forest hpackages hbare hlink
  rw [hsize] at hothers hbelow
  exact ⟨p, hlink, hsize, hmerged, hothers, hroot, hbelow⟩

namespace Program

-- ========================================================== references

variable {base : Option Program} {forest : List Tree} {p : Program}

/-- Every reference of a linked program has a target in the program. Of a
reference that was pending, one that is not of the base, the program
explains it: the entity of an import is named from the root, a supertype is
a module that declared names lead to, and any other name is looked up in
the scope of the reference. The others are those of the base, with the
targets they had. -/
theorem references_are_explained (hbase : ∀ b ∈ base, Linked b) (hbare : ∀ t ∈ forest, t.Bare)
    (hlink : link base forest = .ok p) {id : NodeId} {name : String} {target : Option NodeId}
    (hreference : p.kind? id = some (.reference name target)) :
    ∃ entity < p.size, target = some entity
      ∧ ((∀ b ∈ base, b.size ≤ id) → p.Explains id name entity)
      ∧ ∀ b ∈ base, id < b.size → b.kind? id = some (.reference name (some entity)) := by
  obtain ⟨root, targets, hlinks⟩ := links_of_link hlink
  obtain ⟨s, htree, hkind⟩ := Option.map_eq_some_iff.1 hreference
  obtain ⟨hs, rfl⟩ := (tree?_eq_some_iff hlinks.numbered_outcome).1 htree
  obtain ⟨entity, hentity, htarget, horigin⟩ :=
    hlinks.reference_target (fun b hb => (hbase b hb).complete) hbare hs hkind
  refine ⟨entity, hentity, htarget, fun hnew => ?_, fun b hb hold => ?_⟩
  · rcases horigin with ⟨-, hexplains⟩ | ⟨b, hb, hold, -⟩
    · exact hexplains
    · exact absurd hold (Nat.not_lt.2 (hnew b hb))
  · obtain rfl := Option.mem_def.1 hb
    rcases horigin with ⟨hfree, -⟩ | ⟨b', hb', -, hkind'⟩
    · exact absurd hold (Nat.not_lt.2 hfree)
    · cases hb'
      exact hkind'

end Program

namespace Sample

open Build

/-- A class with a field, and one that inherits it. -/
def shop : List Tree :=
  [package "shop"
    [classNamed "Basket" [bareField "items"], (classNamed "Bag" []).inherits "Basket"]]

/-- The program they make. -/
def shopProgram : Program :=
  .ofTree (.node (some 0) none (.environment [.node (some 1) none (.package "shop" []
    [.node (some 2) none (.classDecl "Basket" none []
       [.node (some 3) none (.field "items" false none)]),
     .node (some 4) none (.classDecl "Bag"
       (some (.node (some 5) none (.reference "Basket" (some 2)))) [] [])])]))

/-- A class that uses a field it inherits from an imported class. -/
def cart : List Tree :=
  [packageImporting "main" [importEntity "shop.Basket"]
    [(classNamed "Cart" [method "clear" [] [assign "items" null]]).inherits "Basket"]]

end Sample

/-- An import, a supertype and an inherited field, each explained; the
reference of the base has the target it had. -/
theorem cart_references_are_explained :
    ∃ p, Program.link none Sample.shop = .ok Sample.shopProgram
      ∧ Program.link (some Sample.shopProgram) Sample.cart = .ok p
      ∧ p.IsImported 8 ∧ p.resolveQualified? "shop.Basket" = some 2
      ∧ p.IsSupertype 10 ∧ p.isModule 2
      ∧ p.kind? 14 = some (.reference "items" (some 3)) ∧ p.Explains 14 "items" 3
      ∧ Sample.shopProgram.kind? 5 = some (.reference "Basket" (some 2)) := by
  have hshop : Program.link none Sample.shop = .ok Sample.shopProgram := rfl
  obtain ⟨p, hcart, himport, hmodule, hentity, hsupertype, hfield, hbag⟩ :
      ∃ p, Program.link (some Sample.shopProgram) Sample.cart = .ok p
        ∧ p.IsImported 8 ∧ p.IsSupertype 10
        ∧ p.kind? 8 = some (.reference "shop.Basket" (some 2))
        ∧ p.kind? 10 = some (.reference "Basket" (some 2))
        ∧ p.kind? 14 = some (.reference "items" (some 3))
        ∧ p.kind? 5 = some (.reference "Basket" (some 2)) :=
    ⟨_, rfl, ⟨7, _, _, rfl, rfl⟩, ⟨9, _, rfl, _, List.mem_cons_self, rfl⟩, rfl, rfl, rfl, rfl⟩
  have hbase : ∀ b ∈ some Sample.shopProgram, Program.Linked b := by
    rintro b ⟨⟩
    exact .link (fun _ hnone => by cases hnone) (by decide +kernel) hshop
  have hbare : ∀ t ∈ Sample.cart, t.Bare := by decide +kernel
  have hnew {id : NodeId} (hid : 6 ≤ id) : ∀ b ∈ some Sample.shopProgram, b.size ≤ id := by
    rintro b ⟨⟩
    exact hid
  obtain ⟨_, -, ⟨⟩, hfirst, -⟩ := Program.references_are_explained hbase hbare hcart hentity
  obtain ⟨_, -, ⟨⟩, hsecond, -⟩ := Program.references_are_explained hbase hbare hcart hsupertype
  obtain ⟨_, -, ⟨⟩, hthird, -⟩ := Program.references_are_explained hbase hbare hcart hfield
  obtain ⟨_, -, ⟨⟩, -, hkept⟩ := Program.references_are_explained hbase hbare hcart hbag
  exact ⟨p, hshop, hcart, himport, (hfirst (hnew (by decide))).imported himport, hmodule,
    ((hsecond (hnew (by decide))).supertype hmodule).1, hfield, hthird (hnew (by decide)),
    hkept _ rfl (by decide)⟩

end ObjectMachine
