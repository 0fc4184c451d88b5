/-
Programs on top of programs.

What is linked on top of a complete program can always be numbered: the
identities of the base are taken, and the new nodes get those that follow.
The outcome continues the base (`Continues`): its root is the same, and the
trees under it have grown. From this alone it follows what becomes of each
node of the base, and of all that is read off the nodes: a node stands where
it stood, under the name it had, and a module inherits, declares and
constructs what it did.
-/
import Mathlib
import ObjectMachine.Proofs.Program.Linked
import ObjectMachine.Proofs.Program.Naming
import ObjectMachine.Proofs.Tree.Growth

namespace ObjectMachine.Program

open ObjectMachine.Tree

variable {base p : Program} {forest : List Tree} {root : Tree} {targets : List (NodeId × NodeId)}

-- =========================================================== numbering

namespace Complete

variable (hbase : base.Complete)
include hbase

theorem preorder_root : base.root.preorder = base.root :: base.topLevel.flatMap preorder := by
  rw [preorder_eq, children, hbase.environment]
  rfl

theorem id?_root : base.root.id? = some base.rootId := by
  obtain ⟨id, hid⟩ := Option.isSome_iff_exists.1
    (hbase.identified base.root base.root.mem_preorder_self)
  rw [rootId, identity, hid]
  rfl

/-- The nodes have all identities below the size. -/
theorem identities : (base.root.preorder.filterMap id?).Perm (List.range base.size) := by
  rw [filterMap_id?_of_identified hbase.identified, Program.size_eq hbase.numbered]
  exact hbase.numbered

theorem target_lt {s : Tree} (hs : s ∈ base.root.preorder) {target : NodeId}
    (htarget : s.kind.target? = some target) : target < base.size := by
  cases hkind : s.kind with
  | reference name own =>
      obtain ⟨entity, hentity, rfl⟩ := hbase.resolved s hs name own hkind
      rw [hkind] at htarget
      cases htarget
      exact hentity
  | _ =>
      rw [hkind] at htarget
      cases htarget

/-- Before what is new is numbered, the identities of the `merged` trees are
those of the base. -/
theorem identities_merged (hbare : ∀ t ∈ forest, t.Bare) :
    ((merged (some base) forest).preorder.filterMap id?).Perm (List.range base.size) := by
  have hforest : ∀ s ∈ forest.flatMap preorder, s.id? = none := by
    intro s hs
    obtain ⟨t, ht, hs⟩ := List.mem_flatMap.1 hs
    exact (hbare t ht s hs).1
  have hjoined := (joins_merged base.topLevel forest).identities hforest
  have hbaseIds := hbase.identities
  rw [hbase.preorder_root, List.filterMap_cons_some hbase.id?_root] at hbaseIds
  rw [preorder_eq]
  exact (hjoined.cons base.rootId).trans hbaseIds

/-- On top of a complete program `number` gives new nodes the identities that
follow, so none is missing and none is there twice. -/
theorem numbered_on_top (hbare : ∀ t ∈ forest, t.Bare) :
    ((merged (some base) forest).number.run base.size).1.Numbered := by
  generalize hroot : ((merged (some base) forest).number.run base.size).1 = root
  have hidentified : ∀ s ∈ root.preorder, s.id?.isSome := hroot ▸ identified_number _ _
  have hentries := ((merged (some base) forest).numbersInOrder base.size).1
  rw [hroot] at hentries
  have hids : (root.preorder.map identity).Perm (List.range' 0 base.size
      ++ List.range' (0 + base.size) (unnumbered (entries [merged (some base) forest]))) := by
    have hgiven := filterMap_fst_numberedFrom base.size (entries [merged (some base) forest])
    rw [← hentries] at hgiven
    have hfst (t : Tree) : (entries [t]).filterMap Prod.fst = t.preorder.filterMap id? := by
      rw [entries, List.filterMap_map, List.flatMap_singleton]
      rfl
    rw [hfst, hfst, filterMap_id?_of_identified hidentified] at hgiven
    rw [← List.range_eq_range', Nat.zero_add]
    exact hgiven.trans ((hbase.identities_merged hbare).append_right _)
  rw [List.range'_append_1, ← List.range_eq_range'] at hids
  have hlength := hids.length_eq
  rw [List.length_map, List.length_range] at hlength
  rw [Numbered, hlength]
  exact hids

/-- So `checkNumbered` finds nothing wrong. -/
theorem checkNumbered_on_top (hbare : ∀ t ∈ forest, t.Bare) :
    (Program.numbered (some base) (mergeAll base.topLevel forest)).checkNumbered = .ok () :=
  checkNumbered_of_numbered (hbase.numbered_on_top hbare)

end Complete

/-- `nameWithin` of a node that has a name is the name, after those around
it. -/
theorem nameWithin_of_named {id : NodeId} {name : String} (hname : p.name? id = some name)
    (fuel : Nat) : p.nameWithin fuel id = joinDots (p.path id ++ [name]) := by
  obtain ⟨kind, hkind, hname⟩ := Option.bind_eq_some_iff.1 hname
  rw [nameWithin, hkind]
  split
  · next heq =>
      cases heq
      cases hname
  · next heq =>
      cases heq
      rw [hname]
      rfl
  · next heq => cases heq

-- ============================================================== growth

/-- A program that goes on from another one: under the same root, the trees have
grown (`Grows`). -/
structure Continues (base p : Program) : Prop where
  before : base.Complete
  after : p.Complete
  root : p.rootId = base.rootId
  grows : Grows base.topLevel p.topLevel

theorem Links.continues (h : Links (some base) forest root targets p) (hbase : base.Complete)
    (hbare : ∀ t ∈ forest, t.Bare) : base.Continues p := by
  have hafter := h.complete (fun b hb => by cases hb; exact hbase) hbare
  have hidentified : ∀ s ∈ base.topLevel.flatMap preorder, s.id?.isSome := fun s hs =>
    hbase.identified s (mem_of_topLevel hs)
  have hmembers : root.members
      = ((mergeAll base.topLevel forest).mapM number |>.run base.size).1 := by
    rw [h.root_eq, number_run]
    rfl
  have hgrown : Grows base.topLevel root.members := by
    rw [hmembers]
    exact (Grows.mergeAll base.topLevel forest).number hidentified base.size
  have hunlisted : ∀ s ∈ base.topLevel.flatMap preorder, s.Unlisted targets := by
    intro s hs name target hkind
    have hother : ¬ s.kind.isPackage := by
      rw [hkind]
      exact Bool.false_ne_true
    obtain ⟨t, ht, hmem⟩ := List.mem_flatMap.1 (hgrown.kept hs hother)
    have hroot : s ∈ root.preorder :=
      mem_preorder_of_child (Kind.mem_children_of_mem_members ht) hmem
    obtain ⟨entity, -, rfl⟩ := hbase.resolved s (mem_of_topLevel hs) name target hkind
    refine lookup_of_settled h.numbered h.pending hroot ?_
    rw [isPending, hkind]
  refine ⟨hbase, hafter, ?_, ?_⟩
  · have hid : p.root.id? = some base.rootId := by
      rw [h.outcome, h.root_eq, number_run]
      exact id?_setTargets _ _
    rw [rootId, identity, hid]
    rfl
  · have htop : p.topLevel = root.members.map (setTargets targets) := by
      rw [h.outcome]
      exact members_setTargets targets root
    rw [htop]
    exact hgrown.setTargets hunlisted

-- =============================================================== nodes

/-- What a node of the base may have become: a package or the root may have
grown, and anything else is as it was. -/
inductive Carried : Tree → Tree → Prop
  | same (t : Tree) : Carried t t
  | package {id : Option NodeId} {span : Option Span} {name : String}
      {imports added members members' : List Tree} (grows : Grows members members') :
      Carried (.node id span (.package name imports members))
        (.node id span (.package name (imports ++ added) members'))
  | root {id : Option NodeId} {span span' : Option Span} {members members' : List Tree}
      (grows : Grows members members') :
      Carried (.node id span (.environment members)) (.node id span' (.environment members'))

namespace Carried

variable {t t' : Tree} (h : Carried t t')
include h

theorem identity : t'.identity = t.identity := by
  cases h <;> rfl

theorem name? : t'.name? = t.name? := by
  cases h <;> rfl

theorem isPackage : t'.kind.isPackage = t.kind.isPackage := by
  cases h <;> rfl

theorem isDescribe : t'.kind.isDescribe = t.kind.isDescribe := by
  cases h <;> rfl

theorem isModule : t'.kind.isModule = t.kind.isModule := by
  cases h <;> rfl

theorem eq_of_isModule (hmodule : t.kind.isModule) : t' = t := by
  cases h with
  | same => rfl
  | package | root => cases hmodule

/-- `Carried` leaves a child under the same node. -/
theorem child {c : Tree} (hc : c ∈ t.children) :
    ∃ c' ∈ t'.children, c'.identity = c.identity := by
  have hmember {members members' : List Tree} (hgrows : Grows members members')
      (hc : c ∈ members) : ∃ c' ∈ members', c'.identity = c.identity := by
    have hid := hgrows.map_identity.subset (List.mem_map_of_mem hc)
    exact List.mem_map.1 hid
  cases h with
  | same => exact ⟨c, hc, rfl⟩
  | package hgrows =>
      rcases List.mem_append.1 hc with hc | hc
      · exact ⟨c, List.mem_append_left _ (List.mem_append_left _ hc), rfl⟩
      · obtain ⟨c', hc', hid⟩ := hmember hgrows hc
        exact ⟨c', List.mem_append_right _ hc', hid⟩
  | root hgrows => exact hmember hgrows hc

end Carried

namespace Continues

variable (h : base.Continues p)
include h

theorem carried_root : Carried base.root p.root := by
  have hbefore := h.before.environment
  have hafter := h.after.environment
  have hid : p.root.id? = base.root.id? := by
    rw [h.before.id?_root, h.after.id?_root, h.root]
  have hgrows := h.grows
  cases hbase : base.root with
  | node id span kind =>
      cases hp : p.root with
      | node id' span' kind' =>
          rw [hbase] at hbefore hid
          rw [hp] at hafter hid
          obtain rfl : kind = _ := hbefore
          obtain rfl : kind' = _ := hafter
          obtain rfl : id' = id := hid
          exact .root hgrows

/-- Every node of the base is `Carried`. -/
theorem carried {s : Tree} (hs : s ∈ base.root.preorder) :
    ∃ s' ∈ p.root.preorder, Carried s s' := by
  rw [h.before.preorder_root] at hs
  rcases List.mem_cons.1 hs with rfl | hs
  · exact ⟨p.root, p.root.mem_preorder_self, h.carried_root⟩
  · by_cases hpackage : s.kind.isPackage
    · obtain ⟨id, span, kind⟩ := s
      cases kind with
      | package name imports members =>
          obtain ⟨added, members', hmem, hgrows⟩ := h.grows.grown hs
          exact ⟨_, mem_of_topLevel hmem, .package hgrows⟩
      | _ => cases hpackage
    · exact ⟨s, mem_of_topLevel (h.grows.kept hs hpackage), .same s⟩

theorem tree? {id : NodeId} {t : Tree} (ht : base.tree? id = some t) :
    ∃ t', p.tree? id = some t' ∧ Carried t t' := by
  obtain ⟨hmem, rfl⟩ := (tree?_eq_some_iff h.before.numbered).1 ht
  obtain ⟨t', hmem', hcarried⟩ := h.carried hmem
  exact ⟨t', (tree?_eq_some_iff h.after.numbered).2 ⟨hmem', hcarried.identity⟩, hcarried⟩

theorem exists_tree? {id : NodeId} (hid : id < base.size) :
    ∃ t t', base.tree? id = some t ∧ p.tree? id = some t' ∧ Carried t t' := by
  rw [Program.size_eq h.before.numbered, ← h.before.numbered.mem_iff] at hid
  obtain ⟨t, hmem, rfl⟩ := List.mem_map.1 hid
  have ht := (tree?_eq_some_iff h.before.numbered).2 ⟨hmem, rfl⟩
  obtain ⟨t', ht', hcarried⟩ := h.tree? ht
  exact ⟨t, t', ht, ht', hcarried⟩

theorem size_le : base.size ≤ p.size := by
  obtain ⟨n, hn⟩ : ∃ n, base.size = n + 1 := ⟨_, h.before.size_eq⟩
  have hlast : n < base.size := hn ▸ Nat.lt_succ_self n
  obtain ⟨-, t', -, ht', -⟩ := h.exists_tree? hlast
  obtain ⟨hmem, rfl⟩ := (tree?_eq_some_iff h.after.numbered).1 ht'
  rw [hn]
  exact lt_size_of_mem h.after.numbered hmem

/-- What `Carried` does not change may be asked of either program. -/
theorem isKind_eq {test : Kind Tree → Bool}
    (htest : ∀ {t t' : Tree}, Carried t t' → test t'.kind = test t.kind) {id : NodeId}
    (hid : id < base.size) : p.isKind test id = base.isKind test id := by
  obtain ⟨t, t', ht, ht', hcarried⟩ := h.exists_tree? hid
  rw [isKind, isKind, kind?, kind?, ht, ht']
  exact htest hcarried

theorem isModule_eq {id : NodeId} (hid : id < base.size) : p.isModule id = base.isModule id :=
  h.isKind_eq Carried.isModule hid

theorem name?_eq {id : NodeId} (hid : id < base.size) : p.name? id = base.name? id := by
  obtain ⟨t, t', ht, ht', hcarried⟩ := h.exists_tree? hid
  rw [Program.name?, Program.name?, kind?, kind?, ht, ht']
  exact hcarried.name?

-- =============================================================== places

theorem parent?_eq {id : NodeId} (hid : id < base.size) : p.parent? id = base.parent? id := by
  rw [Program.size_eq h.before.numbered, ← h.before.numbered.mem_iff] at hid
  obtain ⟨t, hmem, rfl⟩ := List.mem_map.1 hid
  obtain ⟨above, hbelow⟩ := exists_below_of_mem .root hmem
  rw [parent?_of_below h.before.numbered hbelow]
  cases hbelow with
  | root =>
      have hroot := parent?_of_below h.after.numbered .root
      rw [show p.root.identity = base.root.identity from h.root] at hroot
      exact hroot
  | @child above parent c hparent hc =>
      obtain ⟨parent', hmem', hcarried⟩ := h.carried hparent.mem
      obtain ⟨c', hc', hsame⟩ := hcarried.child hc
      have hparent' := parent?_of_child h.after.numbered hmem' hc'
      rw [hsame, hcarried.identity] at hparent'
      exact hparent'

theorem climb_eq (fuel : Nat) {id : NodeId} (hid : id < base.size) :
    p.climb fuel id = base.climb fuel id := by
  induction fuel generalizing id with
  | zero => rfl
  | succ fuel ih =>
      rw [climb, climb, h.parent?_eq hid]
      cases hparent : base.parent? id with
      | none => rfl
      | some parent => exact congrArg _ (ih (lt_size_of_parent? h.before.numbered hparent))

theorem ancestors_eq {id : NodeId} (hid : id < base.size) : p.ancestors id = base.ancestors id := by
  rw [ancestors, h.climb_eq _ hid]
  rw [Program.size_eq h.before.numbered, ← h.before.numbered.mem_iff] at hid
  obtain ⟨t, hmem, rfl⟩ := List.mem_map.1 hid
  obtain ⟨above, hbelow⟩ := exists_below_of_mem .root hmem
  -- a path of the base fits into both programs
  have hlength := length_lt_size_of_below h.before.numbered hbelow
  rw [ancestors_of_below h.before.numbered hbelow]
  exact climb_of_below h.before.numbered hbelow (hlength.le.trans h.size_le)

theorem path_eq {id : NodeId} (hid : id < base.size) : p.path id = base.path id := by
  have habove : ∀ above ∈ base.ancestors id, above < base.size := fun _ hmem =>
    lt_size_of_mem_ancestors h.before.numbered hid hmem
  have htest : (base.ancestors id).filter (p.isKind fun kind => kind.isPackage || kind.isDescribe)
      = (base.ancestors id).filter (base.isKind fun kind => kind.isPackage || kind.isDescribe) := by
    refine List.filter_congr fun above hmem => ?_
    refine h.isKind_eq (fun hcarried => ?_) (habove above hmem)
    rw [hcarried.isPackage, hcarried.isDescribe]
  rw [path, path, h.ancestors_eq hid, htest]
  refine congrArg _ (List.filterMap_congr fun above hmem => ?_)
  exact h.name?_eq (habove above (List.mem_filter.1 hmem).1)

-- ============================================================== modules

theorem kind?_of_isModule {id : NodeId} {kind : Kind Tree} (hkind : base.kind? id = some kind)
    (hmodule : kind.isModule) : p.kind? id = some kind := by
  obtain ⟨t, htree, rfl⟩ := Option.map_eq_some_iff.1 hkind
  obtain ⟨t', htree', hcarried⟩ := h.tree? htree
  rw [kind?, htree', hcarried.eq_of_isModule hmodule]
  rfl

theorem kind?_eq {id : NodeId} (hmodule : base.isModule id) : p.kind? id = base.kind? id := by
  obtain ⟨kind, hkind, hmodule⟩ := (Option.any_eq_true _ _).1 hmodule
  rw [h.kind?_of_isModule hkind hmodule, hkind]

theorem membersOf_eq {id : NodeId} (hmodule : base.isModule id) :
    p.membersOf id = base.membersOf id := by
  rw [membersOf, membersOf, h.kind?_eq hmodule]

theorem ownConstructors_eq {id : NodeId} (hmodule : base.isModule id) :
    p.ownConstructors id = base.ownConstructors id := by
  rw [ownConstructors, ownConstructors, h.membersOf_eq hmodule]

theorem declaredMethod?_eq {id : NodeId} (hmodule : base.isModule id) (name : String)
    (arity : Nat) : p.declaredMethod? id name arity = base.declaredMethod? id name arity := by
  rw [declaredMethod?, declaredMethod?, h.membersOf_eq hmodule]

/-- The `declaredSuperclass?` of a module of the base is one of the base. -/
theorem declaredSuperclass?_eq {id : NodeId} {kind : Kind Tree}
    (hkind : base.kind? id = some kind) :
    p.declaredSuperclass? kind = base.declaredSuperclass? kind := by
  rw [declaredSuperclass?, declaredSuperclass?]
  cases htarget : kind.superclass?.bind fun reference => reference.kind.target? with
  | none => rfl
  | some target =>
      obtain ⟨reference, hreference, htarget⟩ := Option.bind_eq_some_iff.1 htarget
      have hmem := kind?_child_mem hkind (Kind.mem_children_of_supertype
        (List.mem_append_right _ (Option.mem_toList.2 hreference)))
      rw [Option.filter_some, Option.filter_some, h.isModule_eq (h.before.target_lt hmem htarget)]

theorem superclass?_eq {id : NodeId} (hmodule : base.isModule id) :
    p.superclass? id = base.superclass? id := by
  obtain ⟨kind, hkind, hmodule⟩ := (Option.any_eq_true _ _).1 hmodule
  rw [superclass?_of_isModule hkind hmodule,
    superclass?_of_isModule (h.kind?_of_isModule hkind hmodule) hmodule,
    h.declaredSuperclass?_eq hkind]

theorem supertypes_eq {id : NodeId} (hmodule : base.isModule id) :
    p.supertypes id = base.supertypes id := by
  rw [supertypes, supertypes, h.superclass?_eq hmodule, h.kind?_eq hmodule]
  refine congrArg (· ++ _) (List.filter_congr fun target htarget => ?_)
  obtain ⟨reference, hreference, htarget⟩ := List.mem_filterMap.1 htarget
  cases hkind : base.kind? id with
  | none =>
      rw [hkind] at hreference
      cases hreference
  | some kind =>
      rw [hkind] at hreference
      have hmem := kind?_child_mem hkind (Kind.mem_children_of_supertype
        (List.mem_append_left _ hreference))
      exact h.isModule_eq (h.before.target_lt hmem htarget)

/-- `Expands` from modules of the base lists what it listed. -/
theorem expands {listed ids out : List NodeId} (hrun : base.Expands listed ids out)
    (hids : ∀ id ∈ ids, base.isModule id) : p.Expands listed ids out := by
  induction hrun with
  | done => exact .done
  | again hold _ ih => exact .again hold (ih (List.forall_mem_cons.1 hids).2)
  | fresh hnew _ _ ihBelow ihRest =>
      obtain ⟨hid, hrest⟩ := List.forall_mem_cons.1 hids
      have hbelow := ihBelow fun supertype hmem => isModule_of_mem_supertypes hmem
      rw [← h.supertypes_eq hid] at hbelow
      exact .fresh hnew hbelow (ihRest hrest)

theorem hierarchy_eq {id : NodeId} (hmodule : base.isModule id) :
    p.hierarchy id = base.hierarchy id := by
  refine (p.hierarchy_expands id).unique
    (h.expands (base.hierarchy_expands id) fun start hstart => ?_)
  rw [List.mem_singleton.1 hstart]
  exact hmodule

theorem fieldsOf_eq {id : NodeId} (hmodule : base.isModule id) :
    p.fieldsOf id = base.fieldsOf id := by
  rw [fieldsOf, fieldsOf, h.hierarchy_eq hmodule]
  refine List.flatMap_congr fun ancestor hmem => ?_
  rw [h.membersOf_eq (isModule_of_mem_hierarchy hmodule (List.mem_reverse.1 hmem))]

theorem lookupMethod?_eq {id : NodeId} (hmodule : base.isModule id) (name : String) (arity : Nat) :
    p.lookupMethod? id name arity = base.lookupMethod? id name arity := by
  rw [lookupMethod?, lookupMethod?, h.hierarchy_eq hmodule, ← List.head?_filterMap,
    ← List.head?_filterMap]
  refine congrArg _ (List.filterMap_congr fun ancestor hmem => ?_)
  exact h.declaredMethod?_eq (isModule_of_mem_hierarchy hmodule hmem) name arity

theorem constructs_iff {arity : Nat} {found id : NodeId} {rest : List NodeId}
    (hmodule : base.isModule id) :
    p.Constructs arity found id rest ↔ base.Constructs arity found id rest := by
  induction rest generalizing id with
  | nil =>
      constructor
      · rintro ⟨accepts, same⟩
        exact .own (h.ownConstructors_eq hmodule ▸ accepts) same
      · rintro ⟨accepts, same⟩
        exact .own ((h.ownConstructors_eq hmodule).symm ▸ accepts) same
  | cons superclass rest ih =>
      constructor
      · rintro (_ | ⟨hnone, hnext, honward⟩)
        rw [h.ownConstructors_eq hmodule] at hnone
        rw [h.superclass?_eq hmodule] at hnext
        exact .inherited hnone hnext
          ((ih (Constructs.isModule_of_superclass? hnext)).1 honward)
      · rintro (_ | ⟨hnone, hnext, honward⟩)
        have honward' := (ih (Constructs.isModule_of_superclass? hnext)).2 honward
        rw [← h.ownConstructors_eq hmodule] at hnone
        rw [← h.superclass?_eq hmodule] at hnext
        exact .inherited hnone hnext honward'

theorem lookupConstructor?_eq {id : NodeId} (hmodule : base.isModule id) (arity : Nat) :
    p.lookupConstructor? id arity = base.lookupConstructor? id arity := by
  ext found
  rw [lookupConstructor?_eq_some_iff, lookupConstructor?_eq_some_iff]
  exact exists_congr fun rest => h.constructs_iff hmodule

-- ================================================================ names

/-- Where targets have names, the `qualifiedName` of a module is as it was: only
an anonymous object is named for its superclass, and that one has a name. -/
theorem qualifiedName_eq
    (hnamed : ∀ s ∈ base.root.preorder, ∀ target, s.kind.target? = some target →
      (base.name? target).isSome) {id : NodeId} (hmodule : base.isModule id) :
    p.qualifiedName id = base.qualifiedName id := by
  have hname : ∀ {id : NodeId}, id < base.size → (base.name? id).isSome → ∀ fuel fuel',
      p.nameWithin fuel id = base.nameWithin fuel' id := by
    intro id hid hsome fuel fuel'
    obtain ⟨name, hname⟩ := Option.isSome_iff_exists.1 hsome
    rw [nameWithin_of_named hname, nameWithin_of_named ((h.name?_eq hid).trans hname),
      h.path_eq hid]
  have hid := lt_size_of_isModule hmodule
  by_cases hsome : (base.name? id).isSome
  · exact hname hid hsome _ _
  · obtain ⟨kind, hkind, hmodule⟩ := (Option.any_eq_true _ _).1 hmodule
    cases kind with
    | singleton own superclass args mixins members closure =>
        cases own with
        | some own =>
            rw [Program.name?, hkind] at hsome
            exact absurd rfl hsome
        | none =>
            obtain ⟨fuel, hfuel⟩ := Nat.exists_eq_succ_of_ne_zero (Nat.ne_zero_of_lt hid)
            obtain ⟨fuel', hfuel'⟩ := Nat.exists_eq_succ_of_ne_zero
              (Nat.ne_zero_of_lt (hid.trans_le h.size_le))
            rw [qualifiedName, qualifiedName, hfuel, hfuel', nameWithin, nameWithin,
              h.kind?_of_isModule hkind rfl, hkind]
            simp only [h.declaredSuperclass?_eq hkind]
            cases hsuper : base.declaredSuperclass?
                (.singleton none superclass args mixins members closure) with
            | none => rfl
            | some target =>
                obtain ⟨htarget, -⟩ := Option.filter_eq_some_iff.1 hsuper
                obtain ⟨reference, hreference, htarget⟩ := Option.bind_eq_some_iff.1 htarget
                have hmem := kind?_child_mem hkind (Kind.mem_children_of_supertype
                  (List.mem_append_right _ (Option.mem_toList.2 hreference)))
                simp only [hname (h.before.target_lt hmem htarget)
                  (hnamed reference hmem target htarget) fuel' fuel]
    | classDecl own | mixin own =>
        rw [Program.name?, hkind] at hsome
        exact absurd rfl hsome
    | _ => cases hmodule

-- ============================================================ new nodes

/-- Below the root, only packages change: `tree?` finds the same of anything
else. -/
theorem tree?_of_topLevel {t : Tree} (ht : t ∈ base.topLevel.flatMap preorder)
    (hother : ¬ t.kind.isPackage) : p.tree? t.identity = some t :=
  (tree?_eq_some_iff h.after.numbered).2 ⟨mem_of_topLevel (h.grows.kept ht hother), rfl⟩

/-- What is found under the identities of the base, packages apart, are its
nodes. -/
theorem others_of_topLevel :
    ((base.topLevel.flatMap preorder).filterMap fun t => p.tree? t.identity).filter
        (fun s => !s.kind.isPackage)
      = (base.topLevel.flatMap preorder).filter fun s => !s.kind.isPackage := by
  rw [List.filter_filterMap, ← List.filterMap_eq_filter]
  refine List.filterMap_congr fun t ht => ?_
  by_cases hpackage : t.kind.isPackage
  · obtain ⟨t', hmem, hcarried⟩ := h.carried (mem_of_topLevel ht)
    rw [(tree?_eq_some_iff h.after.numbered).2 ⟨hmem, hcarried.identity⟩]
    simp [Option.guard, hcarried.isPackage, hpackage]
  · rw [h.tree?_of_topLevel ht hpackage]
    simp [Option.guard, hpackage]

/-- Below the root, the nodes that are no packages are those of the base and
those that come after them. -/
theorem others : (p.root.descendants.filter fun s => !s.kind.isPackage).Perm
    ((base.root.descendants.filter fun s => !s.kind.isPackage)
      ++ ((List.range' base.size (p.size - base.size)).filterMap p.tree?).filter
          fun s => !s.kind.isPackage) := by
  have hroot : p.tree? base.root.identity = some p.root :=
    (tree?_eq_some_iff h.after.numbered).2 ⟨p.root.mem_preorder_self, h.root⟩
  have hpackage : ¬ p.root.kind.isPackage := by
    rw [h.after.environment]
    exact Bool.false_ne_true
  have hold : (((List.range base.size).filterMap p.tree?).filter fun s => !s.kind.isPackage).Perm
      (p.root :: base.root.descendants.filter fun s => !s.kind.isPackage) := by
    have hids := h.before.identities
    rw [filterMap_id?_of_identified h.before.identified] at hids
    refine ((hids.symm.filterMap p.tree?).filter _).trans (.of_eq ?_)
    rw [descendants_eq, h.before.preorder_root, List.map_cons, List.filterMap_cons_some hroot,
      List.tail_cons, ← h.others_of_topLevel, List.filterMap_map]
    exact List.filter_cons_of_pos (by simpa using hpackage)
  -- all identities, those of the base first
  have hall := (filterMap_tree?_range h.after.numbered).filter fun s => !s.kind.isPackage
  obtain ⟨more, hmore⟩ := Nat.exists_eq_add_of_le h.size_le
  have hrange : List.range p.size
      = List.range base.size ++ List.range' base.size (p.size - base.size) := by
    have happend := List.range'_append_1 (s := 0) (m := base.size) (n := more)
    rw [hmore, Nat.add_sub_cancel_left, List.range_eq_range', List.range_eq_range', ← happend,
      Nat.zero_add]
  rw [hrange, List.filterMap_append, List.filter_append, h.after.preorder_root,
    List.filter_cons_of_pos (by simpa using hpackage)] at hall
  have hboth := (hold.append_right _).symm.trans hall
  rw [descendants_eq, h.after.preorder_root]
  exact hboth.cons_inv.symm

end Continues

/-- Of trees that are packages, what is linked on top of a program is, with
identities and targets, every node that is no package. -/
theorem Links.new_nodes (h : Links (some base) forest root targets p) (hbase : base.Complete)
    (hpackages : ∀ t ∈ forest, t.kind.isPackage) (hbare : ∀ t ∈ forest, t.Bare) :
    ((((List.range' base.size (p.size - base.size)).filterMap p.tree?).filter
        fun s => !s.kind.isPackage).map stripped).Perm
      ((forest.flatMap preorder).filter fun s => !s.kind.isPackage) := by
  have hbelow : p.root.descendants.map stripped
      = ((mergeAll base.topLevel forest).flatMap preorder).map stripped := by
    rw [descendants_eq, List.map_tail, ← preorder_stripped, h.stripped_root, preorder_stripped,
      preorder_eq]
    rfl
  have hmerged := ((joins_mergeAll (fun t ht => joins_mergeInto (hpackages t ht))
    base.topLevel).others).map stripped
  rw [map_stripped_filter, ← hbelow, List.flatMap_append, List.filter_append, List.map_append,
    map_stripped_filter (forest.flatMap preorder), Bare.map_stripped hbare] at hmerged
  have hsplit := (h.continues hbase hbare).others.map stripped
  rw [map_stripped_filter, List.map_append, descendants_eq base.root, hbase.preorder_root] at hsplit
  exact (List.perm_append_left_iff _).1 (hsplit.symm.trans hmerged)

/-- What a reference stands for has a name, by induction over the layers of
`Linked`. -/
theorem Linked.named (h : Linked p) : ∀ s ∈ p.root.preorder, ∀ target,
    s.kind.target? = some target → (p.name? target).isSome := by
  induction h with
  | @link base forest p hbase hbare hlink ih =>
      intro s hs target htarget
      obtain ⟨root, targets, hlinks⟩ := links_of_link hlink
      have hcomplete : ∀ b ∈ base, b.Complete := fun b hb => (hbase b hb).complete
      cases hkind : s.kind with
      | reference name own =>
          obtain ⟨entity, -, rfl, hcases⟩ := hlinks.reference_target hcomplete hbare hs hkind
          rw [hkind] at htarget
          cases htarget
          rcases hcases with ⟨-, hexplains⟩ | ⟨b, hb, -, hkind'⟩
          · exact hexplains.named hlinks.numbered_outcome
          · obtain rfl := Option.mem_def.1 hb
            have hcontinues := hlinks.continues (hcomplete b hb) hbare
            obtain ⟨t, htree, hkind'⟩ := Option.map_eq_some_iff.1 hkind'
            have hmem := tree?_mem htree
            have htarget : t.kind.target? = some target := by rw [hkind']; rfl
            rw [hcontinues.name?_eq ((hcomplete b hb).target_lt hmem htarget)]
            exact ih b hb t hmem target htarget
      | _ =>
          rw [hkind] at htarget
          cases htarget

end ObjectMachine.Program
