/-
Objects that leave `self` to others.

In the code of a method `self` is the receiver, unless the receiver is a
closure: then it is what `self` is around the closure. Which of the two it is
depends on `Object.answersSelf`, which an object is made with and keeps. Only
`instanceIn` makes an object where it is false, and only for the literal of a
closure, so it is a property of what objects are instances of
(Session/Instances.lean), whatever code an evaluation runs.
-/
import Mathlib
import ObjectMachine.Proofs.Laws.Scopes
import ObjectMachine.Proofs.Session.Instances

namespace ObjectMachine.Engine

variable {e : Engine} {m : Machine}

theorem instanceIn_answersSelf (context : ContextId) (module : NodeId)
    (h : (e.instanceIn context module).answersSelf = false) :
    e.program.isKind Kind.isClosure module := by
  unfold instanceIn at h
  split at h
  · next hkind =>
    obtain rfl := (Bool.not_eq_eq_eq_not.1 h : _ = true)
    rw [Program.isKind, hkind]
    rfl
  · cases h

/-- Only `instanceIn` of a closure makes an object that does not answer
`self`. -/
theorem makesOnly_closures (hn : e.natives = Natives.core) :
    e.MakesOnly (fun module answersSelf => answersSelf = false →
      e.program.isKind Kind.isClosure module) fun _ => True where
  object := nofun
  boolean := nofun
  number := nofun
  string := nofun
  list := nofun
  evaluationError := nofun
  natives := hn
  entity _ := nofun
  named _ := nofun
  value _ := nofun
  made _ context := instanceIn_answersSelf context _
  collects := trivial
  method _ _ _ := trivial
  init _ _ _ := trivial
  globals _ _ _ := trivial
  block _ _ _ _ _ := trivial
  describe _ := trivial

/-- In a `Visited` state every object `answersSelf`, closures apart. -/
theorem Visited.answersSelf (hn : e.natives = Natives.core) (h : e.Visited m) {id : ObjectId}
    {o : Object} (ho : m.heap.object? id = some o)
    (hopen : ¬ e.program.isKind Kind.isClosure o.module) : o.answersSelf = true := by
  by_contra hself
  exact hopen ((h.instancesOf (makesOnly_closures hn) id o ho).2
    (Bool.eq_false_of_not_eq_true hself))

end ObjectMachine.Engine
