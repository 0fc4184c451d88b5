/-
Trees travel unchanged.

A tree that is written as JSON and read again is the same tree
(`interchange_round_trips`), of whatever kinds its nodes are and however
deeply they nest. What has to hold is that it can be written at all
(`Tree.Portable`): identities, targets and positions have the bits they have
and numbers are finite, since JSON has no others.
-/
import Mathlib
import ObjectMachine.Proofs.Tree.Interchange

namespace ObjectMachine

/-- `ofJson?` reads from `toJson` of a tree that same tree, with every identity,
span and target. -/
theorem interchange_round_trips {t : Tree} (hp : t.Portable) : Tree.ofJson? t.toJson = some t :=
  Interchange.treeWithin_returns hp le_rfl t.toJson.depth le_rfl

namespace Parcel

/-- A linked `total + 2.5`, with the place it was read from. -/
def sum : Tree :=
  .node (some 7) (some ⟨⟨4, 1, 5⟩, ⟨15, 1, 16⟩⟩)
    (.send (.node (some 8) none (.reference "total" (some 3))) "+"
      [.node (some 9) none (.literal (.number 2.5))])

theorem sum_portable : sum.Portable := by
  refine List.forall_iff_forall_mem.1 ⟨?_, ?_, ?_⟩
  · exact ⟨by decide, by decide, trivial⟩
  · exact ⟨by decide, nofun, (by decide : 3 < Nat.pow 2 32)⟩
  · exact ⟨by decide, nofun, (by decide : (2.5 : Float).isFinite = true)⟩

end Parcel

/-- The sum arrives as it was sent. -/
theorem sum_round_trips : Parcel.sum.Portable ∧ Tree.ofJson? Parcel.sum.toJson = some Parcel.sum :=
  ⟨Parcel.sum_portable, interchange_round_trips Parcel.sum_portable⟩

end ObjectMachine
