/-
Scopes hold nodes under their names.

Whatever a node introduces, a member, a parameter, a variable, a field it
inherits or an import, is a node of the program that has the name it is
introduced under. Names are followed down through members by name, so what
a reference stands for always has a name of its own.
-/
import Mathlib
import ObjectMachine.Proofs.Program.Resolution

namespace ObjectMachine

theorem Tree.mem_preorder_of_member {t member : Tree} (h : member ∈ t.members) :
    member ∈ t.preorder :=
  mem_preorder_of_child (Kind.mem_children_of_mem_members h) member.mem_preorder_self

/-- What `walk` finds below a node is a member of something. -/
theorem Tree.walk_named {t s : Tree} {name : String} {rest : List String}
    (h : t.walk (name :: rest) = some s) : s.name?.isSome := by
  induction rest generalizing t name with
  | nil =>
      rw [walk] at h
      split at h
      · next member hfound =>
          have hname := List.find?_some hfound
          rw [walk, Option.some.injEq] at h
          rw [← h, beq_iff_eq.1 hname]
          rfl
      · cases h
  | cons next rest ih =>
      rw [walk] at h
      split at h
      · exact ih h
      · cases h

theorem Scope.mem_of_get? {scope : Scope} {name : String} {id : NodeId}
    (h : scope.get? name = some id) : (name, id) ∈ scope :=
  List.mem_reverse.1 (mem_of_lookup h)

namespace Program

variable {p : Program} (hp : p.root.Numbered)
include hp

theorem name?_of_namedNodes {ts : List Tree} (hts : ∀ t ∈ ts, t ∈ p.root.preorder)
    {name : String} {id : NodeId} (h : (name, id) ∈ namedNodes ts) : p.name? id = some name := by
  obtain ⟨t, ht, hsome⟩ := List.mem_filterMap.1 h
  obtain ⟨own, hname, heq⟩ := Option.map_eq_some_iff.1 hsome
  cases heq
  rw [Program.name?, kind?_of_mem hp (hts t ht)]
  exact hname

theorem name?_of_ownFields {module : NodeId} {name : String} {id : NodeId}
    (h : (name, id) ∈ p.ownFields module) : p.name? id = some name := by
  refine name?_of_namedNodes hp (fun t ht => ?_) h
  have hmember := (List.mem_filter.1 ht).1
  unfold membersOf at hmember
  cases hkind : p.kind? module with
  | none =>
      rw [hkind] at hmember
      cases hmember
  | some kind =>
      rw [hkind] at hmember
      exact kind?_child_mem hkind (Kind.mem_children_of_mem_members hmember)

theorem name?_of_imported {declaration : Tree} {name : String} {id : NodeId}
    (h : (name, id) ∈ p.imported declaration) : p.name? id = some name := by
  unfold imported at h
  split at h
  · split at h
    · next target htarget =>
        obtain ⟨found, -, htree⟩ := Option.bind_eq_some_iff.1 htarget
        have hmem := tree?_mem htree
        split at h
        · exact name?_of_namedNodes hp
            (fun t ht => Tree.mem_preorder_trans hmem (Tree.mem_preorder_of_member ht)) h
        · refine name?_of_namedNodes hp (fun t ht => ?_) h
          rw [List.mem_singleton.1 ht]
          exact hmem
    · cases h
  · cases h

theorem name?_of_globals {topLevel : List Tree} (htop : ∀ t ∈ topLevel, t ∈ p.root.preorder)
    {name : String} {id : NodeId} (h : (name, id) ∈ globals topLevel) :
    p.name? id = some name := by
  unfold globals at h
  split at h
  · next library hlibrary =>
      have hmem := htop library (List.mem_of_find?_eq_some hlibrary)
      obtain ⟨package, hpackage, h⟩ := List.mem_flatMap.1 h
      have hinside := Tree.mem_preorder_trans hmem
        (Tree.mem_preorder_of_member (List.mem_filter.1 hpackage).1)
      exact name?_of_namedNodes hp
        (fun t ht => Tree.mem_preorder_trans hinside (Tree.mem_preorder_of_member ht)) h
  · cases h

/-- The `contribution` of a node has nodes under their names. -/
theorem name?_of_contribution {visibility : Visibility} {node : NodeId} {name : String}
    {id : NodeId} (h : (name, id) ∈ p.contribution visibility node) : p.name? id = some name := by
  unfold contribution at h
  cases hkind : p.kind? node with
  | none =>
      rw [hkind] at h
      cases h
  | some kind =>
      rw [hkind] at h
      have hchild : ∀ {t : Tree}, t ∈ kind.children → t ∈ p.root.preorder := kind?_child_mem hkind
      cases kind with
      | environment members =>
          rcases List.mem_append.1 h with h | h
          · exact name?_of_globals hp (fun t ht => hchild ht) h
          · exact name?_of_namedNodes hp (fun t ht => hchild ht) h
      | package own imports members =>
          rcases List.mem_append.1 h with h | h
          · obtain ⟨declaration, -, h⟩ := List.mem_flatMap.1 h
            exact name?_of_imported hp h
          · exact name?_of_namedNodes hp (fun t ht => hchild (List.mem_append_right _ ht)) h
      | classDecl | singleton | mixin =>
          cases visibility with
          | lexical => exact name?_of_ownFields hp h
          | inherited =>
              obtain ⟨ancestor, -, h⟩ := List.mem_flatMap.1 h
              exact name?_of_ownFields hp h
      | describe own members =>
          exact name?_of_namedNodes hp (fun t ht => hchild (List.mem_filter.1 ht).1) h
      | method own parameters body =>
          exact name?_of_namedNodes hp (fun t ht => hchild (List.mem_append_left _ ht)) h
      | constructor parameters baseCall body =>
          refine name?_of_namedNodes hp (fun t ht => hchild ?_) h
          rw [Kind.children, List.append_assoc]
          exact List.mem_append_left _ ht
      | block sentences =>
          exact name?_of_namedNodes hp (fun t ht => hchild (List.mem_filter.1 ht).1) h
      | catchClause param =>
          refine name?_of_namedNodes hp (fun t ht => hchild ?_) h
          rw [List.mem_singleton.1 ht]
          exact List.mem_cons_self
      | _ => cases h

theorem name?_of_scopeWith {visibility : Visibility} {node : NodeId} {name : String} {id : NodeId}
    (h : (p.scopeWith visibility node).get? name = some id) : p.name? id = some name := by
  obtain ⟨above, -, hmem⟩ := List.mem_flatMap.1 (Scope.mem_of_get? h)
  exact name?_of_contribution hp hmem

/-- What `resolveName?` leads to has a name, if names are looked up where nodes
stand under theirs. -/
theorem resolveName?_named {lookup : String → Option NodeId}
    (hlookup : ∀ name id, lookup name = some id → p.name? id = some name) {name : String}
    {target : NodeId} (h : p.resolveName? lookup name = some target) :
    (p.name? target).isSome := by
  unfold resolveName? at h
  split at h
  · cases h
  · next head rest _ =>
      obtain ⟨t, htree, h⟩ := Option.bind_eq_some_iff.1 h
      obtain ⟨id, hfirst, htree⟩ := Option.bind_eq_some_iff.1 htree
      obtain ⟨s, hwalk, rfl⟩ := Option.map_eq_some_iff.1 h
      have hmem := Tree.mem_preorder_trans (tree?_mem htree) (Tree.walk_mem hwalk)
      rw [Program.name?, kind?_of_mem hp hmem]
      cases rest with
      | nil =>
          obtain rfl : t = s := Option.some.inj hwalk
          have hname := hlookup head id hfirst
          rw [Program.name?, kind?, htree] at hname
          rw [Option.bind_some, show t.kind.name? = some head from hname]
          rfl
      | cons next rest => exact Tree.walk_named hwalk

/-- What the program `Explains` has a name. -/
theorem Explains.named {id target : NodeId} {name : String} (h : p.Explains id name target) :
    (p.name? target).isSome := by
  by_cases himported : p.IsImported id
  · obtain ⟨s, hwalk, rfl⟩ := Option.map_eq_some_iff.1 (h.imported himported)
    rw [Program.name?, kind?_of_mem hp (Tree.walk_mem hwalk)]
    exact Tree.walk_named hwalk
  · by_cases hsupertype : p.IsSupertype id
    · exact resolveName?_named hp (fun _ _ => name?_of_scopeWith hp) (h.supertype hsupertype).2
    · exact resolveName?_named hp (fun _ _ => name?_of_scopeWith hp)
        (h.other himported hsupertype)

end Program

end ObjectMachine
