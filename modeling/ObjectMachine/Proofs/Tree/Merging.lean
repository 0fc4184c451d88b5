/-
What merging keeps.

Merging puts the imports and members of a package into another package of
its name, and changes no node that is not a package. So of the trees that
are added nothing is lost but packages that have joined others, and of the
trees they are added to nothing is lost at all: a package that others join
is still the same node.

An `inventory` counts the nodes of trees. A package counts by its identity
alone, since its children may change, and any other node with all that is
below it.
-/
import Mathlib
import ObjectMachine.Program.Link
import ObjectMachine.Proofs.Tree.Nodes

namespace ObjectMachine.Tree

-- ========================================================== inventories

/-- What a node counts as: its identity and, unless it is a package, all of
it. -/
def item (t : Tree) : Option NodeId × Option Tree :=
  (t.id?, if t.kind.isPackage then none else some t)

/-- The nodes of trees, each as what it counts as (`item`). -/
def inventory (ts : List Tree) : Multiset (Option NodeId × Option Tree) :=
  ((ts.flatMap preorder).map item : List _)

@[simp] theorem inventory_nil : inventory [] = 0 := rfl

@[simp] theorem inventory_append (ts ts' : List Tree) :
    inventory (ts ++ ts') = inventory ts + inventory ts' := by
  simp [inventory]

theorem inventory_cons (t : Tree) (ts : List Tree) :
    inventory (t :: ts) = {t.item} + inventory t.children + inventory ts := by
  simp only [inventory, List.flatMap_cons, preorder_eq t, List.cons_append, List.map_cons,
    List.map_append, ← Multiset.cons_coe, ← Multiset.coe_add, Multiset.singleton_add,
    Multiset.cons_add]

theorem inventory_package (id : Option NodeId) (span : Option Span) (name : String)
    (imports members : List Tree) : inventory [.node id span (.package name imports members)]
      = {(id, none)} + (inventory imports + inventory members) := by
  rw [inventory_cons, inventory_nil, add_zero, ← inventory_append]
  rfl

theorem mem_inventory {ts : List Tree} {x : Option NodeId × Option Tree} :
    x ∈ inventory ts ↔ ∃ s ∈ ts.flatMap preorder, s.item = x := by
  rw [inventory, Multiset.mem_coe, List.mem_map]

/-- New trees are added to old ones: nothing of the `inventory` of the old ones
is lost, and what is lost of the new ones has the property. -/
def Joins (P : Option NodeId × Option Tree → Prop) (old new joined : List Tree) : Prop :=
  ∃ kept lost, inventory new = kept + lost ∧ inventory joined = inventory old + kept
    ∧ ∀ x ∈ lost, P x

variable {P Q : Option NodeId × Option Tree → Prop} {old new joined : List Tree}

theorem Joins.mono (hPQ : ∀ x, P x → Q x) (h : Joins P old new joined) :
    Joins Q old new joined := by
  obtain ⟨kept, lost, hnew, hjoined, hlost⟩ := h
  exact ⟨kept, lost, hnew, hjoined, fun x hx => hPQ x (hlost x hx)⟩

theorem Joins.append (old new : List Tree) : Joins P old new (old ++ new) :=
  ⟨inventory new, 0, (add_zero _).symm, inventory_append _ _, fun x hx => absurd hx (by simp)⟩

theorem Joins.trans {new' joined' : List Tree} (h : Joins P old new joined)
    (h' : Joins P joined new' joined') : Joins P old (new ++ new') joined' := by
  obtain ⟨kept, lost, hnew, hjoined, hlost⟩ := h
  obtain ⟨kept', lost', hnew', hjoined', hlost'⟩ := h'
  refine ⟨kept + kept', lost + lost', ?_, ?_, fun x hx => ?_⟩
  · rw [inventory_append, hnew, hnew']
    abel
  · rw [hjoined', hjoined, add_assoc]
  · rcases Multiset.mem_add.1 hx with hx | hx
    · exact hlost x hx
    · exact hlost' x hx

-- ============================================================== packages

theorem updateFirst?_cases {α : Type} (test : α → Bool) (f : α → α) (l : List α) :
    updateFirst? test f l = none
      ∨ ∃ before a after, l = before ++ a :: after ∧ test a
          ∧ updateFirst? test f l = some (before ++ f a :: after) := by
  induction l with
  | nil => exact .inl rfl
  | cons b rest ih =>
      unfold updateFirst?
      split
      · next hb => exact .inr ⟨[], b, rest, rfl, hb, rfl⟩
      · rcases ih with hnone | ⟨before, a, after, rfl, ha, hsome⟩
        · exact .inl (by rw [hnone]; rfl)
        · exact .inr ⟨b :: before, a, after, rfl, ha, by rw [hsome]; rfl⟩

/-- `updateFirst?` is `none` only if nothing passes the test. -/
theorem updateFirst?_eq_none {α : Type} {test : α → Bool} {f : α → α} {l : List α}
    (h : updateFirst? test f l = none) : ∀ a ∈ l, test a = false := by
  induction l with
  | nil => simp
  | cons b rest ih =>
      unfold updateFirst? at h
      split at h
      · cases h
      · next hb =>
          rw [List.forall_mem_cons]
          exact ⟨by simpa using hb, ih (Option.map_eq_none_iff.1 h)⟩

/-- A package counts by its identity. -/
def IsPackageItem (x : Option NodeId × Option Tree) : Prop := x.2 = none

/-- `mergeMembers` adds one by one, so what holds of each holds of all. -/
theorem joins_mergeMembers {members : List Tree}
    (h : ∀ t ∈ members, t.kind.isPackage → ∀ siblings,
      Joins IsPackageItem siblings [t] (mergeInto siblings t)) (old : List Tree) :
    Joins IsPackageItem old members (mergeMembers old members) := by
  induction members generalizing old with
  | nil => simpa [mergeMembers] using Joins.append (P := IsPackageItem) old []
  | cons t rest ih =>
      rw [mergeMembers, ← List.singleton_append]
      refine Joins.trans ?_ (ih (fun s hs => h s (List.mem_cons_of_mem _ hs)) _)
      split
      · next ht => exact h t List.mem_cons_self ht old
      · exact .append old [t]

/-- `mergeInto` of a package that joins another one gives that one all but
itself. -/
theorem joins_mergeInto {t : Tree} (ht : t.kind.isPackage) (siblings : List Tree) :
    Joins IsPackageItem siblings [t] (mergeInto siblings t) := by
  induction t using ofChildren generalizing siblings with
  | h t ih =>
      obtain ⟨id, span, kind⟩ := t
      cases kind with
      | package name imports members =>
          rw [mergeInto]
          rcases updateFirst?_cases (isPackageNamed (some name))
              (extendPackage imports fun old => mergeMembers old members) siblings with
            hnone | ⟨before, a, after, rfl, ha, hsome⟩
          · rw [hnone]
            exact .append siblings _
          · rw [hsome]
            obtain ⟨id', span', kind'⟩ := a
            cases kind' with
            | package name' imports' members' =>
                obtain ⟨kept, lost, hnew, hjoined, hlost⟩ := joins_mergeMembers
                  (fun c hc => ih c (List.mem_append_right imports hc)) members'
                -- of the new package only its node is gone, besides what its members lose
                refine ⟨inventory imports + kept, {(id, none)} + lost, ?_, ?_, ?_⟩
                · rw [inventory_package, hnew]
                  abel
                · rw [Option.getD_some, ← List.singleton_append, extendPackage,
                    ← List.singleton_append (l := after), inventory_append, inventory_append,
                    inventory_append, inventory_append, inventory_package, inventory_package,
                    inventory_append, hjoined]
                  abel
                · intro x hx
                  rcases Multiset.mem_add.1 hx with hx | hx
                  · rw [Multiset.mem_singleton.1 hx]
                    rfl
                  · exact hlost x hx
            | _ => simp [isPackageNamed, kind, Kind.isPackage] at ha
      | _ => cases ht

-- ============================================================== forests

/-- `mergeInto` of what is no package joins nothing. -/
theorem mergeInto_of_not_isPackage {t : Tree} (ht : ¬ t.kind.isPackage) (siblings : List Tree) :
    mergeInto siblings t
      = if siblings.any (isPackageNamed t.name?) then siblings else siblings ++ [t] := by
  obtain ⟨id, span, kind⟩ := t
  cases kind with
  | package => exact absurd rfl ht
  | _ => rw [mergeInto]; simp

/-- Whatever `mergeInto` adds, nothing of the trees already there is lost. -/
theorem joins_mergeInto_of_any (t : Tree) (siblings : List Tree) :
    Joins (fun _ => True) siblings [t] (mergeInto siblings t) := by
  by_cases ht : t.kind.isPackage
  · exact (joins_mergeInto ht siblings).mono fun _ _ => trivial
  · rw [mergeInto_of_not_isPackage ht]
    split
    · exact ⟨0, inventory [t], (zero_add _).symm, (add_zero _).symm, fun _ _ => trivial⟩
    · exact .append siblings [t]

theorem joins_mergeAll {forest : List Tree}
    (h : ∀ t ∈ forest, ∀ siblings, Joins P siblings [t] (mergeInto siblings t))
    (base : List Tree) : Joins P base forest (mergeAll base forest) := by
  induction forest generalizing base with
  | nil => simpa [mergeAll] using Joins.append (P := P) base []
  | cons t rest ih =>
      exact (h t List.mem_cons_self base).trans
        (ih (fun s hs => h s (List.mem_cons_of_mem _ hs)) (mergeInto base t))

/-- A node of what `Joins` leads to is one of those there were, or a package
with the identity of one. -/
theorem Joins.origin (h : Joins P old new joined) {s : Tree} (hs : s ∈ joined.flatMap preorder) :
    ∃ s' ∈ (old ++ new).flatMap preorder, s'.id? = s.id? ∧ (¬ s.kind.isPackage → s' = s) := by
  obtain ⟨kept, lost, hnew, hjoined, -⟩ := h
  have hitem : s.item ∈ inventory (old ++ new) := by
    have hmem : s.item ∈ inventory joined := mem_inventory.2 ⟨s, hs, rfl⟩
    rw [hjoined] at hmem
    rw [inventory_append, hnew, ← add_assoc]
    exact Multiset.mem_add.2 (.inl hmem)
  obtain ⟨s', hs', heq⟩ := mem_inventory.1 hitem
  refine ⟨s', hs', congrArg Prod.fst heq, fun hpackage => ?_⟩
  have hsame := congrArg Prod.snd heq
  simp only [item, hpackage, Bool.false_eq_true, if_false] at hsame
  split at hsame
  · cases hsame
  · exact Option.some.inj hsame

theorem Joins.length_le (h : Joins P old new joined) :
    (old.flatMap preorder).length ≤ (joined.flatMap preorder).length := by
  obtain ⟨kept, lost, -, hjoined, -⟩ := h
  have hcard := congrArg Multiset.card hjoined
  simp only [inventory, Multiset.card_add, Multiset.coe_card, List.length_map] at hcard
  omega

/-- `Joins` with trees without identities brings none. -/
theorem Joins.identities (h : Joins P old new joined)
    (hnew : ∀ s ∈ new.flatMap preorder, s.id? = none) :
    ((joined.flatMap preorder).filterMap id?).Perm ((old.flatMap preorder).filterMap id?) := by
  have hids (ts : List Tree) :
      (inventory ts).filterMap Prod.fst = ((ts.flatMap preorder).filterMap id? : List _) := by
    rw [inventory, Multiset.filterMap_coe, List.filterMap_map]
    rfl
  obtain ⟨kept, lost, hall, hjoined, -⟩ := h
  have hnone : kept.filterMap Prod.fst = 0 := by
    refine Multiset.eq_zero_of_forall_notMem fun id hid => ?_
    obtain ⟨x, hx, hsome⟩ := (Multiset.mem_filterMap _ _).1 hid
    obtain ⟨s, hs, rfl⟩ := mem_inventory.1 (hall ▸ Multiset.mem_add.2 (.inl hx))
    rw [item, hnew s hs] at hsome
    cases hsome
  rw [← Multiset.coe_eq_coe, ← hids, ← hids, hjoined, Multiset.filterMap_add, hnone, add_zero]

/-- If only packages are lost, all other nodes are there as often as they
were. -/
theorem Joins.others (h : Joins IsPackageItem old new joined) :
    ((joined.flatMap preorder).filter fun s => !s.kind.isPackage).Perm
      (((old ++ new).flatMap preorder).filter fun s => !s.kind.isPackage) := by
  have hguard : Prod.snd ∘ item = Option.guard fun s => !s.kind.isPackage := by
    funext s
    cases hs : s.kind.isPackage <;> simp [item, Option.guard, hs]
  have hothers (ts : List Tree) : (inventory ts).filterMap Prod.snd
      = ((ts.flatMap preorder).filter fun s => !s.kind.isPackage : List Tree) := by
    rw [inventory, Multiset.filterMap_coe, List.filterMap_map, hguard, List.filterMap_eq_filter]
  obtain ⟨kept, lost, hnew, hjoined, hlost⟩ := h
  have hnone : lost.filterMap Prod.snd = 0 := by
    refine Multiset.eq_zero_of_forall_notMem fun s hs => ?_
    obtain ⟨x, hx, hsome⟩ := (Multiset.mem_filterMap _ _).1 hs
    rw [hlost x hx] at hsome
    cases hsome
  rw [← Multiset.coe_eq_coe, ← hothers, ← hothers, hjoined, inventory_append, hnew,
    Multiset.filterMap_add, Multiset.filterMap_add, Multiset.filterMap_add, hnone, add_zero]

end ObjectMachine.Tree
