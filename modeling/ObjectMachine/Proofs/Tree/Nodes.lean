/-
The nodes of a tree.

`preorder` lists a node before what its children list, so membership in it
is reachability by children. What a program finds under an identity is one
of its nodes, and so is everything below it.
-/
import Mathlib
import ObjectMachine.Program.Basic

namespace ObjectMachine

/-- What a lookup finds stands in the list under its key. -/
theorem mem_of_lookup {α β : Type} [BEq α] [LawfulBEq α] {l : List (α × β)} {key : α} {b : β}
    (h : l.lookup key = some b) : (key, b) ∈ l := by
  obtain ⟨before, rest, rfl, -⟩ := List.lookup_eq_some_iff.1 h
  exact List.mem_append_right _ List.mem_cons_self

/-- A sequence of fallible steps succeeds when each of them does. -/
theorem bind_ok_iff {ε α β : Type} {x : Except ε α} {f : α → Except ε β} {b : β} :
    x >>= f = .ok b ↔ ∃ a, x = .ok a ∧ f a = .ok b := by
  cases x <;> simp [bind, Except.bind]

theorem pure_ok_iff {ε α : Type} {a b : α} : (pure a : Except ε α) = .ok b ↔ a = b := by
  simp [pure, Except.pure]

/-- Members are children. -/
theorem Kind.mem_children_of_mem_members {α : Type} {kind : Kind α} {c : α}
    (h : c ∈ kind.members) : c ∈ kind.children := by
  cases kind <;> simp_all [members, children]

/-- So are the references to supertypes. -/
theorem Kind.mem_children_of_supertype {α : Type} {kind : Kind α} {c : α}
    (h : c ∈ kind.mixins ++ kind.superclass?.toList) : c ∈ kind.children := by
  cases kind <;> simp_all [mixins, superclass?, children] <;> grind

namespace Tree

-- ============================================ induction over children

theorem sizeOf_lt_of_mem_toList {c : Tree} {o : Option Tree} (hc : c ∈ o.toList) :
    sizeOf c < sizeOf o := by
  cases o with
  | none => cases hc
  | some t =>
      rw [Option.toList_some, List.mem_singleton] at hc
      subst hc
      simp

/-- A child is smaller than its node. -/
theorem sizeOf_lt_of_mem_children {t c : Tree} (hc : c ∈ t.children) :
    sizeOf c < sizeOf t := by
  obtain ⟨id, span, k⟩ := t
  cases k with
  | constructor parameters baseCall body =>
      rcases baseCall with _ | ⟨callsSuper, args⟩ <;>
        simp only [children, kind, Kind.children, List.mem_append, List.mem_cons,
          List.not_mem_nil, Option.map, Option.getD] at hc <;>
        grind [→ List.sizeOf_lt_of_mem, BaseCall.mk.sizeOf_spec]
  | literal value =>
      cases value <;>
        simp only [children, kind, Kind.children, Literal.children, List.mem_cons] at hc <;>
        grind [→ List.sizeOf_lt_of_mem]
  | _ =>
      simp only [children, kind, Kind.children, List.mem_append, List.mem_cons] at hc
      grind [→ List.sizeOf_lt_of_mem, → sizeOf_lt_of_mem_toList]

/-- What passes from the children of a node to the node holds of every
tree. -/
theorem ofChildren {P : Tree → Prop} (h : ∀ t, (∀ c ∈ t.children, P c) → P t) (t : Tree) :
    P t :=
  h t fun c _ => ofChildren h c
termination_by sizeOf t
decreasing_by exact sizeOf_lt_of_mem_children ‹_›

-- ======================================================== descendants

/-- `popAll` meets all that the trees of a stack hold, the one on top first:
what a tree leaves on the stack is what follows it in its own `preorder`. -/
theorem popAll_eq (stack : List Tree) : popAll stack = stack.flatMap preorder := by
  fun_induction popAll stack with
  | case1 => rfl
  | case2 t stack ih =>
      rw [ih, pushAll_reverse, List.flatMap_append, List.flatMap_cons, preorder_eq t,
        List.cons_append]

theorem descendants_eq (t : Tree) : t.descendants = t.preorder.tail := by
  rw [descendants, popAll_eq, pushAll_reverse, List.append_nil, preorder_eq, List.tail_cons]

-- ======================================================= reachability

theorem mem_preorder_self (t : Tree) : t ∈ t.preorder := by
  rw [preorder_eq]
  exact List.mem_cons_self

theorem mem_preorder_of_child {t c s : Tree} (hc : c ∈ t.children) (hs : s ∈ c.preorder) :
    s ∈ t.preorder := by
  rw [preorder_eq]
  exact List.mem_cons_of_mem _ (List.mem_flatMap.2 ⟨c, hc, hs⟩)

/-- What is in the `preorder` of a node is in that of everything above it. -/
theorem mem_preorder_trans {t c s : Tree} (hc : c ∈ t.preorder) (hs : s ∈ c.preorder) :
    s ∈ t.preorder := by
  induction t using ofChildren with
  | h t ih =>
      rw [preorder_eq] at hc
      rcases List.mem_cons.1 hc with rfl | hc
      · exact hs
      · obtain ⟨d, hd, hc⟩ := List.mem_flatMap.1 hc
        exact mem_preorder_of_child hd (ih d hd hc)

/-- Every site of `placed` holds a node of the tree. -/
theorem mem_preorder_of_placed {t : Tree} {parent : Option NodeId} {id : NodeId} {site : Site}
    (h : (id, site) ∈ t.placed parent) : site.tree ∈ t.preorder := by
  induction t using ofChildren generalizing parent with
  | h t ih =>
      rw [placed, fold_eq, Kind.children_map] at h
      rcases List.mem_cons.1 h with h | h
      · cases h
        exact mem_preorder_self t
      · rw [List.map_map] at h
        obtain ⟨l, hl, h⟩ := List.mem_flatten.1 h
        obtain ⟨c, hc, rfl⟩ := List.mem_map.1 hl
        exact mem_preorder_of_child hc (ih c hc h)

end Tree

namespace Program

variable {p : Program}

/-- What `tree?` finds is a node of the program. -/
theorem tree?_mem {id : NodeId} {t : Tree} (h : p.tree? id = some t) : t ∈ p.root.preorder := by
  unfold tree? site? at h
  rw [p.sites_eq] at h
  obtain ⟨site, hsite, rfl⟩ := Option.map_eq_some_iff.1 h
  have hmem := Array.mem_of_getElem? hsite
  unfold Tree.sites at hmem
  rw [List.mem_toArray] at hmem
  obtain ⟨id', -, hlook⟩ := List.mem_filterMap.1 hmem
  exact Tree.mem_preorder_of_placed (mem_of_lookup hlook)

/-- The children of what `kind?` finds are nodes of the program. -/
theorem kind?_child_mem {id : NodeId} {kind : Kind Tree} {c : Tree}
    (h : p.kind? id = some kind) (hc : c ∈ kind.children) : c ∈ p.root.preorder := by
  obtain ⟨t, ht, rfl⟩ := Option.map_eq_some_iff.1 h
  exact Tree.mem_preorder_trans (tree?_mem ht)
    (Tree.mem_preorder_of_child hc (Tree.mem_preorder_self c))

end Program

end ObjectMachine
