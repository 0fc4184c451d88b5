/-
Where the nodes of a program stand.

A tree is numbered if its nodes have the identities 0, 1, 2, …, each once;
that is what linking checks. Then the index of a program is exact: under an
identity it finds the one node that has it, and the parent it records is
the node that one stands under. Following parents upwards therefore gives
the way down from the root, backwards.
-/
import Mathlib
import ObjectMachine.Program.Link
import ObjectMachine.Proofs.Tree.Nodes

namespace ObjectMachine

/-- Where keys do not repeat, a lookup finds every entry. -/
theorem lookup_of_mem {α β : Type} [BEq α] [LawfulBEq α] {l : List (α × β)}
    (hkeys : (l.map Prod.fst).Nodup) {key : α} {b : β} (h : (key, b) ∈ l) :
    l.lookup key = some b := by
  obtain ⟨before, after, rfl⟩ := List.append_of_mem h
  refine List.lookup_eq_some_iff.2 ⟨before, after, rfl, fun x hx => ?_⟩
  rw [List.map_append, List.map_cons] at hkeys
  have hne : key ∉ before.map Prod.fst := fun hkey =>
    List.disjoint_of_nodup_append hkeys hkey List.mem_cons_self
  simpa using fun heq : key = x.1 => hne (heq ▸ List.mem_map_of_mem hx)

section Range

variable {α : Type} {f : Nat → Option α} {n : Nat} (h : ∀ i < n, (f i).isSome)
include h

theorem length_filterMap_range : ((List.range n).filterMap f).length = n := by
  rw [List.length_filterMap_eq_countP, List.countP_eq_length.2, List.length_range]
  exact fun i hi => h i (List.mem_range.1 hi)

/-- A function that is defined below a bound is found under every index. -/
theorem getElem?_filterMap_range (i : Nat) :
    ((List.range n).filterMap f)[i]? = if i < n then f i else none := by
  induction n with
  | zero => rfl
  | succ n ih =>
      obtain ⟨a, ha⟩ := Option.isSome_iff_exists.1 (h n (Nat.lt_succ_self n))
      have hbelow : ∀ i < n, (f i).isSome := fun i hi => h i (Nat.lt_succ_of_lt hi)
      have hlength := length_filterMap_range hbelow
      rw [List.range_succ, List.filterMap_append, List.filterMap_cons_some ha, List.filterMap_nil]
      rcases Nat.lt_trichotomy i n with hi | rfl | hi
      · rw [List.getElem?_append_left (by omega), ih hbelow, if_pos hi, if_pos (by omega)]
      · rw [List.getElem?_append_right (by omega), hlength, Nat.sub_self, if_pos (by omega), ha]
        rfl
      · rw [List.getElem?_append_right (by omega), hlength, if_neg (by omega)]
        exact List.getElem?_eq_none (by rw [List.length_singleton]; omega)

end Range

namespace Tree

-- ========================================================== identities

/-- The nodes have the identities 0, 1, 2, …, each once. -/
def Numbered (t : Tree) : Prop :=
  (t.preorder.map identity).Perm (List.range t.preorder.length)

theorem Numbered.nodup {t : Tree} (h : t.Numbered) : (t.preorder.map identity).Nodup :=
  h.nodup_iff.2 List.nodup_range

theorem Numbered.mem_iff {t : Tree} (h : t.Numbered) {id : NodeId} :
    id ∈ t.preorder.map identity ↔ id < t.preorder.length := by
  rw [List.Perm.mem_iff h, List.mem_range]

theorem Numbered.eq_of_identity {t s s' : Tree} (h : t.Numbered) (hs : s ∈ t.preorder)
    (hs' : s' ∈ t.preorder) (heq : s.identity = s'.identity) : s = s' :=
  List.inj_on_of_nodup_map h.nodup hs hs' heq

theorem postorder_eq (t : Tree) : t.postorder = t.children.flatMap postorder ++ [t] := by
  rw [postorder, fold_eq, Kind.children_map]
  rfl

theorem postorder_perm (t : Tree) : t.postorder.Perm t.preorder := by
  induction t using ofChildren with
  | h t ih =>
      rw [postorder_eq, preorder_eq]
      exact (List.perm_append_comm).trans (.cons t (List.Perm.flatMap_left _ ih))

/-- What `checkNumbered` checks. Where no identity is missing, none can be there
twice. -/
theorem numbered_of_checkNumbered {root : Tree} (h : root.checkNumbered = .ok ()) :
    root.Numbered := by
  have hids : root.identities.Perm (root.preorder.map identity) :=
    (postorder_perm root).map identity
  have hlength : root.identities.length = root.preorder.length := by
    rw [hids.length_eq, List.length_map]
  simp only [checkNumbered] at h
  split at h
  · cases h
  · split at h
    · cases h
    · next hgap =>
        have hall : List.range root.identities.length ⊆ root.identities := by
          intro id hid
          simpa using List.find?_eq_none.1 hgap id hid
        have hsub := List.subperm_of_subset List.nodup_range hall
        have hperm := hsub.perm_of_length_le (by rw [List.length_range])
        rw [hlength] at hperm
        exact hids.symm.trans hperm.symm

theorem firstRepeated?_of_nodup {seen ids : List NodeId} (h : ids.Nodup)
    (hseen : ∀ id ∈ ids, id ∉ seen) : firstRepeated? seen ids = none := by
  induction ids generalizing seen with
  | nil => rfl
  | cons id rest ih =>
      obtain ⟨hnew, hrest⟩ := List.nodup_cons.1 h
      rw [firstRepeated?, if_neg (hseen id List.mem_cons_self)]
      refine ih hrest fun other hother => ?_
      rw [List.mem_cons, not_or]
      exact ⟨fun heq => hnew (heq ▸ hother), hseen other (List.mem_cons_of_mem _ hother)⟩

/-- A `Numbered` tree passes `checkNumbered`. -/
theorem checkNumbered_of_numbered {root : Tree} (h : root.Numbered) :
    root.checkNumbered = .ok () := by
  have hids : root.identities.Perm (List.range root.preorder.length) :=
    ((postorder_perm root).map identity).trans h
  have hlength : root.identities.length = root.preorder.length := by
    rw [hids.length_eq, List.length_range]
  have hrepeated : firstRepeated? [] root.identities = none :=
    firstRepeated?_of_nodup (hids.nodup_iff.2 List.nodup_range) fun _ _ => List.not_mem_nil
  have hgap : (List.range root.identities.length).find? (· ∉ root.identities) = none := by
    refine List.find?_eq_none.2 fun id hid => ?_
    rw [hlength, ← hids.mem_iff] at hid
    simpa using hid
  simp only [checkNumbered, hrepeated, hgap]

-- =============================================================== sites

theorem placed_eq (t : Tree) (parent : Option NodeId) : t.placed parent
    = (t.identity, ⟨parent, t⟩) :: t.children.flatMap fun c => c.placed (some t.identity) := by
  rw [placed, fold_eq, Kind.children_map, List.map_map]
  rfl

/-- `placed` has every node once, under its identity. -/
theorem map_placed (t : Tree) (parent : Option NodeId) :
    (t.placed parent).map (fun x => (x.1, x.2.tree)) = t.preorder.map fun s => (s.identity, s) := by
  induction t using ofChildren generalizing parent with
  | h t ih =>
      rw [placed_eq, preorder_eq, List.map_cons, List.map_cons, List.map_flatMap, List.map_flatMap]
      exact congrArg _ (List.flatMap_congr fun c hc => ih c hc _)

theorem map_fst_placed (t : Tree) (parent : Option NodeId) :
    (t.placed parent).map Prod.fst = t.preorder.map identity := by
  have h := congrArg (List.map Prod.fst) (map_placed t parent)
  rwa [List.map_map, List.map_map] at h

theorem length_placed (t : Tree) (parent : Option NodeId) :
    (t.placed parent).length = t.preorder.length := by
  have h := congrArg List.length (map_fst_placed t parent)
  rwa [List.length_map, List.length_map] at h

-- =============================================================== paths

/-- A node of a tree with the nodes above it, the nearest first. -/
inductive Below (root : Tree) : List Tree → Tree → Prop
  | root : Below root [] root
  | child {above : List Tree} {t c : Tree} (h : Below root above t) (hc : c ∈ t.children) :
      Below root (t :: above) c

variable {root t : Tree} {above : List Tree}

theorem Below.mem (h : Below root above t) : t ∈ root.preorder := by
  induction h with
  | root => exact mem_preorder_self root
  | child _ hc ih =>
      exact mem_preorder_trans ih (mem_preorder_of_child hc (mem_preorder_self _))

theorem Below.mem_of_above (h : Below root above t) {a : Tree} (ha : a ∈ above) :
    a ∈ root.preorder := by
  induction h with
  | root => cases ha
  | child h _ ih =>
      rcases List.mem_cons.1 ha with rfl | ha
      · exact h.mem
      · exact ih ha

/-- What is `placed` below a node is `placed` in the whole tree. -/
theorem Below.placed (h : Below root above t) {x : NodeId × Site}
    (hx : x ∈ t.placed (above.head?.map identity)) : x ∈ root.placed none := by
  induction h with
  | root => exact hx
  | child h hc ih =>
      apply ih
      rw [placed_eq]
      exact List.mem_cons_of_mem _ (List.mem_flatMap.2 ⟨_, hc, hx⟩)

theorem Below.mem_placed (h : Below root above t) :
    (t.identity, ⟨above.head?.map identity, t⟩) ∈ root.placed none := by
  apply h.placed
  rw [placed_eq]
  exact List.mem_cons_self

/-- A path of `Below` leaves as many nodes as it is long. -/
theorem Below.length_le (h : Below root above t) :
    above.length + t.preorder.length ≤ root.preorder.length := by
  induction h with
  | root => simp
  | @child above t c h hc ih =>
      have hchild : c.preorder.length < t.preorder.length := by
        rw [preorder_eq t, List.length_cons, Nat.lt_succ_iff]
        exact (List.sublist_flatten_of_mem (List.mem_map_of_mem hc)).length_le
      rw [List.length_cons]
      omega

theorem exists_below_of_mem (h : Below root above t) {s : Tree} (hs : s ∈ t.preorder) :
    ∃ above', Below root above' s := by
  induction t using ofChildren generalizing above with
  | h t ih =>
      rw [preorder_eq] at hs
      rcases List.mem_cons.1 hs with rfl | hs
      · exact ⟨above, h⟩
      · obtain ⟨c, hc, hs⟩ := List.mem_flatMap.1 hs
        exact ih c hc (h.child hc) hs

end Tree

namespace Program

open ObjectMachine.Tree

variable {p : Program} (hp : p.root.Numbered)
include hp

-- =============================================================== index

theorem lookup_placed_isSome {id : NodeId} (h : id < (p.root.placed none).length) :
    ((p.root.placed none).lookup id).isSome := by
  rw [length_placed] at h
  have hmem := hp.mem_iff.2 h
  rw [← map_fst_placed p.root none] at hmem
  obtain ⟨⟨key, site⟩, hsite, rfl⟩ := List.mem_map.1 hmem
  rw [List.lookup_isSome_iff]
  exact ⟨_, hsite, by simp⟩

theorem size_eq : p.size = p.root.preorder.length := by
  rw [size, p.sites_eq, Tree.sites, List.size_toArray,
    length_filterMap_range fun _ => lookup_placed_isSome hp, length_placed]

theorem site?_eq_lookup (id : NodeId) : p.site? id = (p.root.placed none).lookup id := by
  rw [site?, p.sites_eq, Tree.sites, List.getElem?_toArray,
    getElem?_filterMap_range fun _ => lookup_placed_isSome hp]
  split
  · rfl
  · next hid =>
      refine (List.lookup_eq_none_iff.2 fun x hx => ?_).symm
      have hmem : x.1 ∈ (p.root.placed none).map Prod.fst := List.mem_map_of_mem hx
      rw [map_fst_placed, hp.mem_iff] at hmem
      rw [length_placed] at hid
      rw [bne_iff_ne]
      rintro rfl
      exact hid hmem

theorem site?_eq_some_iff {id : NodeId} {site : Site} :
    p.site? id = some site ↔ (id, site) ∈ p.root.placed none := by
  rw [site?_eq_lookup hp]
  refine ⟨mem_of_lookup, lookup_of_mem ?_⟩
  rw [map_fst_placed]
  exact hp.nodup

/-- `tree?` finds the node that has the identity. -/
theorem tree?_eq_some_iff {id : NodeId} {t : Tree} :
    p.tree? id = some t ↔ t ∈ p.root.preorder ∧ t.identity = id := by
  have hplaced : (id, t) ∈ (p.root.placed none).map (fun x => (x.1, x.2.tree))
      ↔ t ∈ p.root.preorder ∧ t.identity = id := by
    rw [map_placed, List.mem_map]
    constructor
    · rintro ⟨s, hs, heq⟩
      cases heq
      exact ⟨hs, rfl⟩
    · rintro ⟨ht, rfl⟩
      exact ⟨t, ht, rfl⟩
  rw [← hplaced, tree?, Option.map_eq_some_iff, List.mem_map]
  constructor
  · rintro ⟨site, hsite, rfl⟩
    exact ⟨_, (site?_eq_some_iff hp).1 hsite, rfl⟩
  · rintro ⟨⟨key, site⟩, hsite, heq⟩
    cases heq
    exact ⟨site, (site?_eq_some_iff hp).2 hsite, rfl⟩

/-- `tree?` finds nodes under their identities. -/
theorem filterMap_tree? {ts : List Tree} (hts : ts ⊆ p.root.preorder) :
    (ts.map identity).filterMap p.tree? = ts := by
  calc (ts.map identity).filterMap p.tree?
      = ts.filterMap some := by
        rw [List.filterMap_map]
        exact List.filterMap_congr fun t ht => (tree?_eq_some_iff hp).2 ⟨hts ht, rfl⟩
    _ = ts := List.filterMap_some

/-- `tree?` of the identities in order finds every node once. -/
theorem filterMap_tree?_range :
    ((List.range p.size).filterMap p.tree?).Perm p.root.preorder := by
  have hids := List.Perm.filterMap p.tree? hp
  rw [filterMap_tree? hp (List.Subset.refl _), ← size_eq hp] at hids
  exact hids.symm

theorem kind?_of_mem {t : Tree} (ht : t ∈ p.root.preorder) : p.kind? t.identity = some t.kind := by
  rw [kind?, (tree?_eq_some_iff hp).2 ⟨ht, rfl⟩]
  rfl

/-- The index `sites` holds every node, and nothing else. -/
theorem mem_sites_iff {t : Tree} :
    (∃ site ∈ p.sites.toList, site.tree = t) ↔ t ∈ p.root.preorder := by
  constructor
  · rintro ⟨site, hsite, rfl⟩
    obtain ⟨id, hid⟩ := Array.mem_iff_getElem?.1 (Array.mem_toList_iff.1 hsite)
    exact tree?_mem (Option.map_eq_some_iff.2 ⟨site, hid, rfl⟩)
  · intro ht
    obtain ⟨site, hsite, rfl⟩ := Option.map_eq_some_iff.1 ((tree?_eq_some_iff hp).2 ⟨ht, rfl⟩)
    exact ⟨site, Array.mem_toList_iff.2 (Array.mem_of_getElem? hsite), rfl⟩

theorem parent?_of_below {above : List Tree} {t : Tree} (h : Below p.root above t) :
    p.parent? t.identity = above.head?.map identity := by
  rw [parent?, (site?_eq_some_iff hp).2 h.mem_placed]
  rfl

/-- A child has one `parent?`. -/
theorem parent?_of_child {t c : Tree} (ht : t ∈ p.root.preorder) (hc : c ∈ t.children) :
    p.parent? c.identity = some t.identity := by
  obtain ⟨above, hbelow⟩ := exists_below_of_mem .root ht
  exact parent?_of_below hp (hbelow.child hc)

/-- `climb` with enough fuel gives the whole path of a node. -/
theorem climb_of_below {above : List Tree} {t : Tree} (h : Below p.root above t) {fuel : Nat}
    (hfuel : above.length ≤ fuel) : p.climb fuel t.identity = above.map identity := by
  induction h generalizing fuel with
  | root =>
      cases fuel with
      | zero => rfl
      | succ fuel =>
          rw [climb, parent?_of_below hp .root]
          rfl
  | child h hc ih =>
      cases fuel with
      | zero => cases hfuel
      | succ fuel =>
          rw [climb, parent?_of_below hp (h.child hc)]
          exact congrArg _ (ih (Nat.le_of_succ_le_succ hfuel))

/-- No path of `Below` is as long as the program. -/
theorem length_lt_size_of_below {above : List Tree} {t : Tree} (h : Below p.root above t) :
    above.length < p.size := by
  have hlength := h.length_le
  rw [preorder_eq, List.length_cons] at hlength
  rw [size_eq hp]
  omega

/-- The `ancestors` of a node are the nodes on its path. -/
theorem ancestors_of_below {above : List Tree} {t : Tree} (h : Below p.root above t) :
    p.ancestors t.identity = above.map identity :=
  climb_of_below hp h (Nat.le_of_lt (length_lt_size_of_below hp h))

theorem lt_size_of_mem {t : Tree} (ht : t ∈ p.root.preorder) : t.identity < p.size := by
  rw [size_eq hp, ← hp.mem_iff]
  exact List.mem_map_of_mem ht

theorem exists_mem_of_lt_size {id : NodeId} (hid : id < p.size) :
    ∃ t ∈ p.root.preorder, t.identity = id := by
  rw [size_eq hp, ← hp.mem_iff] at hid
  exact List.mem_map.1 hid

theorem lt_size_of_mem_ancestors {id above : NodeId} (hid : id < p.size)
    (habove : above ∈ p.ancestors id) : above < p.size := by
  obtain ⟨t, ht, rfl⟩ := exists_mem_of_lt_size hp hid
  obtain ⟨path, hbelow⟩ := exists_below_of_mem .root ht
  rw [ancestors_of_below hp hbelow] at habove
  obtain ⟨a, ha, rfl⟩ := List.mem_map.1 habove
  exact lt_size_of_mem hp (hbelow.mem_of_above ha)

theorem lt_size_of_parent? {id parent : NodeId} (h : p.parent? id = some parent) :
    parent < p.size := by
  obtain ⟨site, hsite, hparent⟩ := Option.bind_eq_some_iff.1 h
  have hid : id < p.size := (Array.getElem?_eq_some_iff.1 hsite).1
  obtain ⟨t, ht, rfl⟩ := exists_mem_of_lt_size hp hid
  obtain ⟨path, hbelow⟩ := exists_below_of_mem .root ht
  rw [parent?_of_below hp hbelow] at h
  obtain ⟨a, ha, rfl⟩ := Option.map_eq_some_iff.1 h
  exact lt_size_of_mem hp (hbelow.mem_of_above (List.mem_of_mem_head? ha))

end Program

end ObjectMachine
