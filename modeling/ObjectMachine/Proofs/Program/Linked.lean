/-
Programs that come from linking.

Linking puts all trees under one root, numbers what has no identity, and
gives every pending reference a target; it changes nothing else. On top of
a program that is complete, that is numbered with a target for every
reference, the nodes of that program keep their identities and what they
refer to, and all new nodes come after them. So the outcome is complete
again, and so is every program that a chain of links leads to.
-/
import Mathlib
import ObjectMachine.Proofs.Program.Resolution
import ObjectMachine.Proofs.Tree.Merging

namespace ObjectMachine.Program

/-- All trees under one root, before they are numbered. -/
def merged (base : Option Program) (forest : List Tree) : Tree :=
  .node (base.map rootId) none
    (.environment (Tree.mergeAll ((base.map topLevel).getD []) forest))

/-- The first identity that is free. -/
def firstFree (base : Option Program) : NodeId := (base.map size).getD 0

/-- How a program comes out of linking: the merged trees are numbered, and
what is pending gets a target that the outcome explains. -/
structure Links (base : Option Program) (forest : List Tree) (root : Tree)
    (targets : List (NodeId × NodeId)) (p : Program) : Prop where
  root_eq : root = ((merged base forest).number.run (firstFree base)).1
  numbered : root.Numbered
  outcome : p = (ofTree root).withTargets targets
  pending : (ofTree root).Pending targets
  explains : ∀ s ∈ root.preorder, s.isPending → ∃ target,
    targets.lookup s.identity = some target ∧ p.Explains s.identity (s.name?.getD "") target

variable {base : Option Program} {forest : List Tree} {root : Tree}
  {targets : List (NodeId × NodeId)} {p : Program}

theorem links_of_link (h : link base forest = .ok p) :
    ∃ root targets, Links base forest root targets p := by
  unfold link at h
  obtain ⟨_, hcheck, hresolve⟩ := bind_ok_iff.1 h
  have hnumbered := Tree.numbered_of_checkNumbered hcheck
  obtain ⟨targets, houtcome, hpending, hexplains⟩ := resolve_explains hnumbered hresolve
  exact ⟨_, targets, rfl, hnumbered, houtcome, hpending, hexplains⟩

namespace Links

variable (h : Links base forest root targets p)
include h

/-- Linking adds identities and targets only, which `stripped` takes off. -/
theorem stripped_root : p.root.stripped = (merged base forest).stripped := by
  rw [h.outcome, h.root_eq]
  exact (Tree.stripped_setTargets _ _).trans (Tree.stripped_number _ _)

theorem preorder_root : p.root.preorder = root.preorder.map (Tree.setTargets targets) := by
  rw [h.outcome]
  exact Tree.preorder_setTargets targets root

theorem numbered_outcome : p.root.Numbered := by
  rw [h.outcome]
  exact numbered_withTargets h.numbered

theorem entries_root :
    root.preorder.map (fun s => (s.id?, s.outline))
      = Tree.numberedFrom (firstFree base)
          ((merged base forest).preorder.map fun s => (s.id?, s.outline)) := by
  have hentries := ((merged base forest).numbersInOrder (firstFree base)).1
  rw [← h.root_eq] at hentries
  simpa [Tree.entries] using hentries

theorem size_outcome : p.size = (merged base forest).preorder.length := by
  have hlength := congrArg (fun l => (l.map Prod.snd).length) h.entries_root
  simp only [Tree.map_snd_numberedFrom, List.length_map] at hlength
  rw [size_eq h.numbered_outcome, h.preorder_root, List.length_map, hlength]

/-- A node is one of the `merged` trees, with the identity it has there or with
one from `firstFree` on. -/
theorem origin {s : Tree} (hs : s ∈ root.preorder) :
    ∃ s' ∈ (merged base forest).preorder, s'.outline = s.outline ∧ ∃ id, s.id? = some id
      ∧ (s'.id? = some id ∨ firstFree base ≤ id ∧ s'.id? = none) := by
  have hentry : (s.id?, s.outline) ∈ root.preorder.map fun s => (s.id?, s.outline) :=
    List.mem_map_of_mem hs
  rw [h.entries_root] at hentry
  obtain ⟨id, hid, hkept | ⟨hfree, hnew⟩⟩ := Tree.mem_numberedFrom hentry
  · obtain ⟨s', hs', heq⟩ := List.mem_map.1 hkept
    obtain ⟨hsame, houtline⟩ := Prod.mk.inj heq
    exact ⟨s', hs', houtline, id, hid, .inl hsame⟩
  · obtain ⟨s', hs', heq⟩ := List.mem_map.1 hnew
    obtain ⟨hnone, houtline⟩ := Prod.mk.inj heq
    exact ⟨s', hs', houtline, id, hid, .inr ⟨hfree, hnone⟩⟩

end Links

-- ============================================================ complete

/-- Nodes are `Numbered` under an environment, and every reference has a
target. -/
structure Complete (p : Program) : Prop where
  environment : p.root.kind = .environment p.topLevel
  numbered : p.root.Numbered
  identified : ∀ s ∈ p.root.preorder, s.id?.isSome
  resolved : ∀ s ∈ p.root.preorder, ∀ name target, s.kind = .reference name target →
    ∃ entity < p.size, target = some entity

theorem mem_of_topLevel {s : Tree} (hs : s ∈ p.topLevel.flatMap Tree.preorder) :
    s ∈ p.root.preorder := by
  obtain ⟨t, ht, hs⟩ := List.mem_flatMap.1 hs
  exact Tree.mem_preorder_of_child (Kind.mem_children_of_mem_members ht) hs

/-- A `Complete` program is one node larger than what is at its top level. -/
theorem Complete.size_eq (hp : p.Complete) :
    p.size = (p.topLevel.flatMap Tree.preorder).length + 1 := by
  rw [Program.size_eq hp.numbered, Tree.preorder_eq, List.length_cons, Tree.children,
    hp.environment]
  rfl

theorem joins_merged (base forest : List Tree) :
    Tree.Joins (fun _ => True) base forest (Tree.mergeAll base forest) :=
  Tree.joins_mergeAll (fun t _ => Tree.joins_mergeInto_of_any t) base

/-- A reference of the `merged` trees is one of the base, or it has neither
identity nor target. -/
theorem reference_of_merged (hbare : ∀ t ∈ forest, t.Bare) {s : Tree}
    (hs : s ∈ (merged base forest).preorder) {name : String} {target : Option NodeId}
    (hkind : s.kind = .reference name target) :
    (s.id? = none ∧ target = none) ∨ ∃ b ∈ base, s ∈ b.root.preorder := by
  rw [Tree.preorder_eq] at hs
  rcases List.mem_cons.1 hs with rfl | hs
  · cases hkind
  · obtain ⟨s', hs', -, hsame⟩ := (joins_merged _ _).origin hs
    obtain rfl := hsame (by rw [hkind]; exact Bool.false_ne_true)
    rw [List.flatMap_append] at hs'
    rcases List.mem_append.1 hs' with hs' | hs'
    · cases base with
      | none => cases hs'
      | some b => exact .inr ⟨b, rfl, mem_of_topLevel hs'⟩
    · obtain ⟨t, ht, hs'⟩ := List.mem_flatMap.1 hs'
      obtain ⟨hid, htarget⟩ := hbare t ht s' hs'
      rw [hkind] at htarget
      exact .inl ⟨hid, htarget⟩

namespace Links

variable (h : Links base forest root targets p)
include h

/-- Nothing of the base is lost. -/
theorem size_le (hbase : ∀ b ∈ base, Complete b) {b : Program} (hb : b ∈ base) :
    b.size ≤ p.size := by
  obtain rfl := Option.mem_def.1 hb
  have hlength := (joins_merged b.topLevel forest).length_le
  rw [(hbase b rfl).size_eq, h.size_outcome, Tree.preorder_eq, List.length_cons]
  exact Nat.succ_le_succ hlength

/-- Before targets are set, a reference is new and pending, or the base has
it. -/
theorem reference_cases (hbase : ∀ b ∈ base, Complete b) (hbare : ∀ t ∈ forest, t.Bare)
    {s : Tree} (hs : s ∈ root.preorder) {name : String} {target : Option NodeId}
    (hkind : s.kind = .reference name target) :
    (target = none ∧ firstFree base ≤ s.identity)
      ∨ ∃ b ∈ base, s.identity < b.size ∧ b.kind? s.identity = some (.reference name target) := by
  obtain ⟨s', hs', houtline, id, hid, hnumber⟩ := h.origin hs
  have hkind' := Tree.reference_of_outline houtline hkind
  have hidentity : s.identity = id := by
    rw [Tree.identity, hid]
    rfl
  -- a node of the base comes with its identity, and no other node has one
  rcases reference_of_merged hbare hs' hkind' with ⟨hnone, htarget⟩ | ⟨b, hb, hmem⟩
  · rcases hnumber with hsame | ⟨hfree, -⟩
    · rw [hnone] at hsame
      cases hsame
    · exact .inl ⟨htarget, hidentity ▸ hfree⟩
  · rcases hnumber with hsame | ⟨-, hnone⟩
    · have hidentity' : s'.identity = s.identity := by
        rw [hidentity, Tree.identity, hsame]
        rfl
      refine .inr ⟨b, hb, ?_, ?_⟩
      · rw [← hidentity']
        exact lt_size_of_mem (hbase b hb).numbered hmem
      · rw [← hidentity', kind?_of_mem (hbase b hb).numbered hmem, hkind']
    · have hsome := (hbase b hb).identified s' hmem
      rw [hnone] at hsome
      cases hsome

/-- Every reference of the outcome has a target. The outcome `Explains` it if
the reference is new, and otherwise it is the one that the base has. -/
theorem reference_target (hbase : ∀ b ∈ base, Complete b) (hbare : ∀ t ∈ forest, t.Bare)
    {s : Tree} (hs : s ∈ p.root.preorder) {name : String} {target : Option NodeId}
    (hkind : s.kind = .reference name target) : ∃ entity < p.size, target = some entity
      ∧ ((firstFree base ≤ s.identity ∧ p.Explains s.identity name entity)
        ∨ ∃ b ∈ base, s.identity < b.size
            ∧ b.kind? s.identity = some (.reference name (some entity))) := by
  rw [h.preorder_root] at hs
  obtain ⟨r, hr, rfl⟩ := List.mem_map.1 hs
  obtain ⟨before, hbefore, rfl⟩ := Tree.reference_of_setTargets hkind
  rw [Tree.identity_setTargets]
  rcases h.reference_cases hbase hbare hr hbefore with ⟨rfl, hfree⟩ | ⟨b, hb, hlt, hkind'⟩
  · have hwaits : r.isPending := by
      rw [Tree.isPending, hbefore]
    obtain ⟨entity, hlisted, hexplains⟩ := h.explains r hr hwaits
    rw [Tree.name?, hbefore] at hexplains
    refine ⟨entity, hexplains.lt_size h.numbered_outcome, ?_, .inl ⟨hfree, hexplains⟩⟩
    rw [hlisted]
    rfl
  · obtain ⟨t, htree, hkind⟩ := Option.map_eq_some_iff.1 hkind'
    obtain ⟨entity, hentity, rfl⟩ := (hbase b hb).resolved t (tree?_mem htree) name before hkind
    have hsettled : r.isPending = false := by
      rw [Tree.isPending, hbefore]
    have hunlisted : targets.lookup r.identity = none :=
      lookup_of_settled h.numbered h.pending hr hsettled
    refine ⟨entity, Nat.lt_of_lt_of_le hentity (h.size_le hbase hb), ?_, .inr ⟨b, hb, hlt, hkind'⟩⟩
    rw [hunlisted]
    rfl

theorem environment : p.root.kind = .environment p.topLevel := by
  have hkind := congrArg Tree.kind h.stripped_root
  rw [Tree.kind_stripped, Tree.kind_stripped] at hkind
  unfold topLevel Tree.members
  cases hroot : p.root.kind with
  | environment members => rfl
  | _ =>
      rw [hroot] at hkind
      cases hkind

/-- What is linked on top of a `Complete` program is `Complete`. -/
theorem complete (hbase : ∀ b ∈ base, Complete b) (hbare : ∀ t ∈ forest, t.Bare) :
    p.Complete := by
  refine ⟨h.environment, h.numbered_outcome, fun s hs => ?_, fun s hs name target hkind => ?_⟩
  · rw [h.preorder_root] at hs
    obtain ⟨r, hr, rfl⟩ := List.mem_map.1 hs
    obtain ⟨-, -, -, id, hid, -⟩ := h.origin hr
    rw [Tree.id?_setTargets, hid]
    rfl
  · obtain ⟨entity, hentity, htarget, -⟩ := h.reference_target hbase hbare hs hkind
    exact ⟨entity, hentity, htarget⟩

end Links

/-- The programs that a chain of links leads to, each link with trees that are
`Bare`. -/
inductive Linked : Program → Prop
  | link {base : Option Program} {forest : List Tree} {p : Program}
      (hbase : ∀ b ∈ base, Linked b) (hbare : ∀ t ∈ forest, t.Bare)
      (h : link base forest = .ok p) : Linked p

/-- By induction over `Linked`: each link leaves a `Complete` program for the
next one. -/
theorem Linked.complete (h : Linked p) : p.Complete := by
  induction h with
  | link _ hbare h ih =>
      obtain ⟨root, targets, hlinks⟩ := links_of_link h
      exact hlinks.complete ih hbare

end ObjectMachine.Program
