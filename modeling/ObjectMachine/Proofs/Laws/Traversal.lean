/-
One order for every traversal.

The order of `children` is the order of everything that goes through a layer
or a tree (`children_are_visited_in_order`). Mapping puts the image of a child
in the child's place. A visit calls its function on the children in that
order and stops at the first call that fails, so numbering a tree, or looking
for a mistake in it, meets the nodes in the order in which they are listed.
The stack that `descendants` works off denotes, at every moment, the preorder
of what is still to come.

All this is said of whatever stands in the places of the children: subtrees,
identities, or what an earlier traversal left there.
-/
import Mathlib
import ObjectMachine.Proofs.Tree.Visits

namespace ObjectMachine

namespace Kind

/-- The children of `kind.map f` are the images of its children, and nothing
else in it has changed. A `mapM` whose calls do nothing but answer maps, too. -/
structure MapsInOrder {α β : Type} (σ : Type) (kind : Kind α) (f : α → β) : Prop where
  children : (kind.map f).children = kind.children.map f
  alike : kind.Alike (kind.map f)
  pure : kind.mapM (fun c => (pure (f c) : StateM σ β)) = pure (kind.map f)

/-- A visit of a layer makes its calls on the children, in order. It answers when
all of them do, with their answers as the children of an alike layer, and fails
with the first of them that fails, after which it makes none. When it answers, a
visit that cannot fail and whose calls answer the same leaves the same. -/
structure VisitsInOrder {α β ε σ : Type} (kind : Kind α) (f : α → Visit ε σ β) : Prop where
  answers : ∀ s kind' s', (kind.mapM f : Visit ε σ _).outcome s = (.ok kind', s')
    ↔ kind.Alike kind' ∧ InTurn f s kind.children kind'.children s'
  fails : ∀ s e s', (kind.mapM f : Visit ε σ _).outcome s = (.error e, s')
    ↔ BreaksOff f s kind.children e s'
  total : ∀ g : α → StateM σ β,
    (∀ c ∈ kind.children, ∀ s b s', (f c).outcome s = (.ok b, s') → (g c).run s = (b, s')) →
      ∀ s kind' s', (kind.mapM f : Visit ε σ _).outcome s = (.ok kind', s') →
        (kind.mapM g).run s = (kind', s')

end Kind

/-- A tree comes before its children in the preorder, and these in their order;
the descendants are the preorder without the root. -/
structure Tree.ListsInOrder (t : Tree) : Prop where
  preorder : t.preorder = t :: t.children.flatMap Tree.preorder
  descendants : t.descendants = t.preorder.tail

/-- Mapping a layer, visiting it and listing the nodes of a tree take the
children in one and the same order, that of `children`. -/
theorem children_are_visited_in_order {α β ε σ : Type} (kind : Kind α) (t : Tree) :
    (∀ f : α → β, kind.MapsInOrder σ f) ∧ (∀ f : α → Visit ε σ β, kind.VisitsInOrder f)
      ∧ t.ListsInOrder := by
  refine ⟨fun f => ⟨kind.children_map f, .map f kind, Kind.mapM_pure f kind⟩, fun f => ?_,
    t.preorder_eq, t.descendants_eq⟩
  constructor
  case answers => exact fun s kind' s' => Kind.outcome_mapM_ok
  case fails => exact fun s e s' => Kind.outcome_mapM_error
  case total => exact fun g hg s kind' s' => Kind.mapM_run_of_outcome hg

namespace Shares

/-- Ten is shared out, and who asked is remembered. Nothing can be shared among
none. -/
def share? (n : Nat) : Visit String (List Nat) Nat := do
  modify (· ++ [n])
  if n = 0 then throw "none to share with" else pure (10 / n)

/-- The same, where none get nothing. -/
def share (n : Nat) : StateM (List Nat) Nat := do
  modify (· ++ [n])
  pure (10 / n)

/-- A constructor with a base call has three places for children. -/
def shared : Kind Nat := .constructor [1] (some ⟨true, [2]⟩) 5

theorem share_of_share? {n : Nat} {s : List Nat} {b : Nat} {s' : List Nat}
    (h : (share? n).outcome s = (.ok b, s')) : (share n).run s = (b, s') := by
  by_cases hn : n = 0
  · subst hn
    cases h
  · have hshare : (share? n).outcome s = (.ok (10 / n), s ++ [n]) := by
      simp only [share?, if_neg hn]
      rfl
    rw [hshare] at h
    cases h
    rfl

example : ((Kind.block [1, 0, 2]).mapM share?).outcome []
    = (.error "none to share with", [1, 0]) := rfl

end Shares

open Shares in
/-- The parameters come first, then the arguments of the base call, then the
body. -/
theorem shared_in_order :
    (shared.mapM share).run [] = (.constructor [10] (some ⟨true, [5]⟩) 2, [1, 2, 5]) :=
  ((children_are_visited_in_order shared (.of .selfRef)).2.1 share?).total share
    (fun _ _ _ _ _ => share_of_share?) [] _ [1, 2, 5] rfl

end ObjectMachine
