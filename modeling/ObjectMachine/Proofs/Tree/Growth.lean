/-
Trees that grow where they are.

Merging adds to a list of trees at its end, and inside the packages it
holds, again at the end of their imports and of their members. Nothing that
is no package is touched. `Grows` is that relation, and what comes after
merging keeps to it: nodes that have identities are not numbered again, and
references that are not listed get no other target. So what a list of
linked trees holds is found, node by node, in whatever it has grown into.
-/
import Mathlib
import ObjectMachine.Proofs.Tree.Merging
import ObjectMachine.Proofs.Tree.Numbering

namespace ObjectMachine.Tree

/-- Trees are added at the end, and inside packages at the end of their
imports and members. -/
inductive Grows : List Tree → List Tree → Prop
  | more (new : List Tree) : Grows [] new
  | keep {old new : List Tree} (t : Tree) (rest : Grows old new) : Grows (t :: old) (t :: new)
  | package {id : Option NodeId} {span : Option Span} {name : String}
      {imports added members members' old new : List Tree} (inside : Grows members members')
      (rest : Grows old new) :
      Grows (.node id span (.package name imports members) :: old)
        (.node id span (.package name (imports ++ added) members') :: new)

namespace Grows

variable {old new newer : List Tree}

theorem append (old more : List Tree) : Grows old (old ++ more) := by
  induction old with
  | nil => exact .more more
  | cons t rest ih => exact .keep t ih

theorem refl (old : List Tree) : Grows old old := by
  simpa using append old []

theorem trans (h : Grows old new) (h' : Grows new newer) : Grows old newer := by
  induction h generalizing newer with
  | more new => exact .more newer
  | keep t _ ih =>
      cases h' with
      | keep _ rest => exact .keep t (ih rest)
      | package inside rest => exact .package inside (ih rest)
  | package inside _ ihInside ihRest =>
      cases h' with
      | keep _ rest => exact .package inside (ihRest rest)
      | package inside' rest =>
          rw [List.append_assoc]
          exact .package (ihInside inside') (ihRest rest)

-- ============================================================= merging

/-- A package that is joined `Grows` in its place. -/
theorem joined {id : Option NodeId} {span : Option Span} {name : String}
    {imports added members members' : List Tree} (before after : List Tree)
    (inside : Grows members members') :
    Grows (before ++ .node id span (.package name imports members) :: after)
      (before ++ .node id span (.package name (imports ++ added) members') :: after) := by
  induction before with
  | nil => exact .package inside (.refl after)
  | cons t rest ih => exact .keep t ih

theorem mergeMembers {members : List Tree}
    (h : ∀ t ∈ members, t.kind.isPackage → ∀ siblings, Grows siblings (mergeInto siblings t))
    (old : List Tree) : Grows old (mergeMembers old members) := by
  induction members generalizing old with
  | nil =>
      rw [Tree.mergeMembers]
      exact .refl old
  | cons t rest ih =>
      rw [Tree.mergeMembers]
      refine Grows.trans ?_ (ih (fun s hs => h s (List.mem_cons_of_mem _ hs)) _)
      split
      · next ht => exact h t List.mem_cons_self ht old
      · exact .append old [t]

theorem mergeInto (t : Tree) (siblings : List Tree) : Grows siblings (mergeInto siblings t) := by
  induction t using ofChildren generalizing siblings with
  | h t ih =>
      by_cases ht : t.kind.isPackage
      · obtain ⟨id, span, kind⟩ := t
        cases kind with
        | package name imports members =>
            rw [Tree.mergeInto]
            rcases updateFirst?_cases (isPackageNamed (some name))
                (extendPackage imports fun old => Tree.mergeMembers old members) siblings with
              hnone | ⟨before, a, after, rfl, ha, hsome⟩
            · rw [hnone]
              exact .append siblings _
            · rw [hsome]
              obtain ⟨id', span', kind'⟩ := a
              cases kind' with
              | package name' imports' members' =>
                  exact joined before after
                    (mergeMembers (fun c hc _ => ih c (List.mem_append_right imports hc)) members')
              | _ => simp [isPackageNamed, kind, Kind.isPackage] at ha
        | _ => cases ht
      · rw [mergeInto_of_not_isPackage ht]
        split
        · exact .refl siblings
        · exact .append siblings [t]

theorem mergeAll (base forest : List Tree) : Grows base (mergeAll base forest) := by
  induction forest generalizing base with
  | nil => exact .refl base
  | cons t rest ih => exact (mergeInto t base).trans (ih _)

-- =============================================================== nodes

/-- Anything but a package is found as it was. -/
theorem kept (h : Grows old new) {s : Tree} (hs : s ∈ old.flatMap preorder)
    (hother : ¬ s.kind.isPackage) : s ∈ new.flatMap preorder := by
  induction h with
  | more => cases hs
  | keep t _ ih =>
      rw [List.flatMap_cons] at hs ⊢
      exact List.mem_append.2 ((List.mem_append.1 hs).imp_right ih)
  | @package id span name imports added members members' old new _ _ ihInside ihRest =>
      rw [List.flatMap_cons, preorder_eq] at hs ⊢
      rcases List.mem_append.1 hs with hs | hs
      · refine List.mem_append_left _ ?_
        rcases List.mem_cons.1 hs with rfl | hs
        · exact absurd rfl hother
        · refine List.mem_cons_of_mem _ ?_
          simp only [children, kind, Kind.children, List.flatMap_append, List.mem_append] at hs ⊢
          exact hs.imp .inl ihInside
      · exact List.mem_append_right _ (ihRest hs)

/-- A package is found with what it has grown by. -/
theorem grown (h : Grows old new) {id : Option NodeId} {span : Option Span} {name : String}
    {imports members : List Tree}
    (hs : .node id span (.package name imports members) ∈ old.flatMap preorder) :
    ∃ added members', .node id span (.package name (imports ++ added) members')
      ∈ new.flatMap preorder ∧ Grows members members' := by
  induction h with
  | more => cases hs
  | keep t _ ih =>
      rw [List.flatMap_cons] at hs
      rcases List.mem_append.1 hs with hs | hs
      · refine ⟨[], members, ?_, .refl members⟩
        rw [List.append_nil, List.flatMap_cons]
        exact List.mem_append_left _ hs
      · obtain ⟨added, members', hmem, hgrows⟩ := ih hs
        rw [List.flatMap_cons]
        exact ⟨added, members', List.mem_append_right _ hmem, hgrows⟩
  | @package _ _ _ outer more inner inner' _ _ inside _ ihInside ihRest =>
      rw [List.flatMap_cons, preorder_eq] at hs
      simp only [List.flatMap_cons, preorder_eq (.node _ _ (.package _ _ inner'))]
      rcases List.mem_append.1 hs with hs | hs
      · rcases List.mem_cons.1 hs with heq | hs
        · cases heq
          exact ⟨more, inner', List.mem_append_left _ List.mem_cons_self, inside⟩
        · simp only [children, kind, Kind.children, List.flatMap_append, List.mem_append] at hs
          rcases hs with hs | hs
          · refine ⟨[], members, ?_, .refl members⟩
            simp only [List.append_nil, children, kind, Kind.children, List.flatMap_append,
              List.mem_append, List.mem_cons]
            exact .inl (.inr (.inl (.inl hs)))
          · obtain ⟨added, members', hmem, hgrows⟩ := ihInside hs
            refine ⟨added, members', ?_, hgrows⟩
            simp only [children, kind, Kind.children, List.flatMap_append, List.mem_append,
              List.mem_cons]
            exact .inl (.inr (.inr hmem))
      · obtain ⟨added, members', hmem, hgrows⟩ := ihRest hs
        exact ⟨added, members', List.mem_append_right _ hmem, hgrows⟩

/-- `Grows` leaves identities where they are, and new ones come after them. -/
theorem map_id? (h : Grows old new) : old.map id? <+: new.map id? := by
  induction h with
  | more => exact List.nil_prefix
  | keep t _ ih => exact (List.prefix_cons_inj _).2 ih
  | package _ _ _ ih => exact (List.prefix_cons_inj _).2 ih

theorem map_identity (h : Grows old new) : old.map identity <+: new.map identity := by
  have hids := h.map_id?.map (·.getD 0)
  rw [List.map_map, List.map_map] at hids
  exact hids

end Grows

-- =========================================================== numbering

/-- What holds of all nodes of some trees holds of those of the first one
and of those of the others. -/
theorem forall_cons {P : Tree → Prop} {t : Tree} {rest : List Tree}
    (h : ∀ s ∈ (t :: rest).flatMap preorder, P s) :
    (∀ s ∈ t.preorder, P s) ∧ ∀ s ∈ rest.flatMap preorder, P s := by
  rw [List.flatMap_cons] at h
  exact List.forall_mem_append.1 h

theorem forall_package {P : Tree → Prop} {id : Option NodeId} {span : Option Span} {name : String}
    {imports members : List Tree}
    (h : ∀ s ∈ (node id span (.package name imports members)).preorder, P s) :
    P (.node id span (.package name imports members))
      ∧ (∀ s ∈ imports.flatMap preorder, P s) ∧ ∀ s ∈ members.flatMap preorder, P s := by
  rw [preorder_eq, children, kind, Kind.children, List.flatMap_append, List.forall_mem_cons,
    List.forall_mem_append] at h
  exact h

theorem mapM_number_of_fixed {ts : List Tree}
    (h : ∀ t ∈ ts, ∀ next, t.number.run next = (t, next)) (next : NodeId) :
    (ts.mapM number).run next = (ts, next) := by
  induction ts with
  | nil => rfl
  | cons t ts ih =>
      have hrest := ih fun s hs => h s (List.mem_cons_of_mem _ hs)
      simp only [List.mapM_cons, Kind.bind_run, Kind.pure_run, h t List.mem_cons_self, hrest]

/-- `number` leaves a tree alone whose nodes have identities. -/
theorem number_of_identified {t : Tree} (h : ∀ s ∈ t.preorder, s.id?.isSome) (next : NodeId) :
    t.number.run next = (t, next) := by
  induction t using ofChildren generalizing next with
  | h t ih =>
      have hbelow : ∀ c ∈ t.children, ∀ next, c.number.run next = (c, next) := fun c hc =>
        ih c hc fun s hs => h s (mem_preorder_of_child hc hs)
      obtain ⟨id, hid⟩ := Option.isSome_iff_exists.1 (h t t.mem_preorder_self)
      have hnext : t.afterOwn next = next := by
        rw [afterOwn, hid]
        rfl
      have hkind : ((t.kind.mapM number).run next).1 = t.kind := by
        have hmap : ((t.kind.mapM number).run next).1.map (fun s => s) = t.kind.map fun s => s :=
          Kind.map_mapM_run (fun c hc next => by rw [hbelow c hc]) next
        rwa [Kind.map_id, Kind.map_id] at hmap
      have hend : (t.number.run next).2 = next := by
        have hchildren := congrArg Prod.snd (children_number t next)
        rwa [mapM_number_of_fixed hbelow, hnext] at hchildren
      refine Prod.ext ?_ hend
      rw [number_run, hnext, hkind, hid, Option.getD_some, ← hid]
      cases t
      rfl

theorem mapM_number_of_identified {ts : List Tree} (h : ∀ s ∈ ts.flatMap preorder, s.id?.isSome)
    (next : NodeId) : (ts.mapM number).run next = (ts, next) :=
  mapM_number_of_fixed (fun _ ht => number_of_identified fun s hs =>
    h s (List.mem_flatMap.2 ⟨_, ht, hs⟩)) next

/-- `number` keeps `Grows`, if the old trees have identities: they are left
alone. -/
theorem Grows.number {old new : List Tree} (h : Grows old new)
    (hold : ∀ s ∈ old.flatMap preorder, s.id?.isSome) (next : NodeId) :
    Grows old ((new.mapM number).run next).1 := by
  induction h generalizing next with
  | more => exact .more _
  | @keep old new t _ ih =>
      obtain ⟨hfirst, hrest⟩ := forall_cons hold
      simp only [List.mapM_cons, Kind.bind_run, Kind.pure_run, number_of_identified hfirst]
      exact .keep t (ih hrest next)
  | @package id span name imports added members members' old new _ _ ihInside ihRest =>
      obtain ⟨hfirst, hrest⟩ := forall_cons hold
      obtain ⟨hid, himports, hmembers⟩ := forall_package hfirst
      obtain ⟨own, rfl⟩ := Option.isSome_iff_exists.1 hid
      simp only [List.mapM_cons, Kind.bind_run, Kind.pure_run, number_run, kind, Kind.mapM,
        List.mapM_append, mapM_number_of_identified himports, id?, span?, Option.getD_some]
      exact .package (ihInside hmembers _) (ihRest hrest _)

-- ============================================================= targets

/-- No target is listed for the node, if it is a reference. -/
def Unlisted (targets : List (NodeId × NodeId)) (s : Tree) : Prop :=
  ∀ name target, s.kind = .reference name target → targets.lookup s.identity = none

/-- `setTargets` leaves a tree alone whose references are `Unlisted`. -/
theorem setTargets_of_unlisted {targets : List (NodeId × NodeId)} {t : Tree}
    (h : ∀ s ∈ t.preorder, s.Unlisted targets) : t.setTargets targets = t := by
  induction t using ofChildren with
  | h t ih =>
      have hchildren : t.kind.map (setTargets targets) = t.kind := by
        rw [Kind.map_congr fun c hc => ih c hc fun s hs => h s (mem_preorder_of_child hc hs),
          Kind.map_id]
      have hkind : t.kind.withTarget ((targets.lookup t.identity).or t.kind.target?) = t.kind := by
        cases hkind : t.kind with
        | reference name target =>
            rw [h t t.mem_preorder_self name target hkind]
            rfl
        | _ => rfl
      rw [setTargets_eq, hchildren, hkind]
      cases t
      rfl

theorem map_setTargets_of_unlisted {targets : List (NodeId × NodeId)} {ts : List Tree}
    (h : ∀ s ∈ ts.flatMap preorder, s.Unlisted targets) : ts.map (setTargets targets) = ts := by
  refine (List.map_congr_left fun t ht => ?_).trans (List.map_id ts)
  exact setTargets_of_unlisted fun s hs => h s (List.mem_flatMap.2 ⟨t, ht, hs⟩)

/-- `setTargets` keeps `Grows`, if the references of the old trees are
`Unlisted`. -/
theorem Grows.setTargets {targets : List (NodeId × NodeId)} {old new : List Tree}
    (h : Grows old new) (hold : ∀ s ∈ old.flatMap preorder, s.Unlisted targets) :
    Grows old (new.map (setTargets targets)) := by
  induction h with
  | more => exact .more _
  | @keep old new t _ ih =>
      obtain ⟨hfirst, hrest⟩ := forall_cons hold
      rw [List.map_cons, setTargets_of_unlisted hfirst]
      exact .keep t (ih hrest)
  | @package id span name imports added members members' old new _ _ ihInside ihRest =>
      obtain ⟨hfirst, hrest⟩ := forall_cons hold
      obtain ⟨-, himports, hmembers⟩ := forall_package hfirst
      rw [List.map_cons, setTargets_eq]
      simp only [kind, Kind.map, Kind.withTarget, List.map_append,
        map_setTargets_of_unlisted himports, id?, span?]
      exact .package (ihInside hmembers) (ihRest hrest)

end ObjectMachine.Tree
