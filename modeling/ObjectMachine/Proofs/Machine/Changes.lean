/-
What a step does to the heap.

Whatever an instruction does, and however it ends, the heap goes through
changes of the kinds of Heap/Growth.lean only (`step_changes`). Nothing is
asked of the machine. Of the native methods it is asked that they keep to
the same changes (`Natives.Careful`), as those of the library do
(`core_careful`).
-/
import Mathlib
import ObjectMachine.Proofs.Heap.Growth
import ObjectMachine.Proofs.Library.Conduct

namespace ObjectMachine

/-- Native methods that change the heap by making objects and contexts, by
binding names, by setting fields, and by changing elements of collections as
`lists` says. -/
def Natives.Careful (natives : Natives) (lists : List ObjectId → List ObjectId → Prop) : Prop :=
  ∀ {owner selector : String} {native : Native}, natives.get? owner selector = some native →
    ∀ {w : World} {receiver : ObjectId} {args : List ObjectId} {f : Frame} {rest : List Frame}
      {m : Machine}, native.arity = args.length → m.frames = f :: rest →
      m.heap.Changes lists (stateOf ((native.perform w receiver args).run m)).heap

variable {lists : List ObjectId → List ObjectId → Prop}

-- ======================================================= parts of heaps

namespace Heap

theorem putAll_changes (h : Heap) (id : ObjectId) (names : List String) (value : ObjectId) :
    h.Changes lists (h.putAll id names value) := by
  unfold putAll
  induction names generalizing h with
  | nil => exact .refl h
  | cons name rest ih => exact (Change.putField id name value).changes.trans (ih _)

theorem sheltered_changes (h : Heap) (f : Frame) (count : Nat) :
    h.Changes lists (Engine.sheltered f count h) := by
  induction count with
  | zero => exact .refl h
  | succ count ih =>
      rw [Engine.sheltered_succ]
      exact ih.tail (.newContext _)

theorem allocateList_changes (h : Heap) (module : NodeId) (elements : List ObjectId) :
    h.Changes lists (h.allocate { module, inner := some (.collection elements) }).2 :=
  (Change.allocate module (some elements) rootContext true).changes

end Heap

namespace World

theorem bindAll_changes (w : World) (context : ContextId) (parameters : List Tree)
    (args : List ObjectId) (h : Heap) :
    h.Changes lists (w.bindAll context parameters args h) := by
  induction parameters generalizing args h with
  | nil => exact .refl h
  | cons parameter rest ih =>
      rw [bindAll]
      refine .trans ?_ (ih _ _)
      split
      · exact (h.allocateList_changes _ _).tail (.declare ..)
      · exact (Heap.Change.declare ..).changes
      · exact .refl h

theorem withMessage_changes (w : World) (module : NodeId) (message : String) (h : Heap) :
    h.Changes lists (w.withMessage module message h) := by
  have hnew : h.Changes lists (h.allocate { module }).2 :=
    (Heap.Change.allocate module none rootContext true).changes
  exact ((hnew.tail (.string message w.core.string)).trans (Heap.putAll_changes ..)).tail
    (.putField ..)

end World

namespace Engine

variable (e : Engine)

theorem prepared_changes (receiver : ObjectId) (start : NodeId) (initFields : Bool) (h : Heap) :
    h.Changes lists (e.prepared receiver start initFields h) := by
  unfold prepared
  split
  · exact h.putAll_changes ..
  · exact .refl h

theorem constructing_changes (receiver : ObjectId) (start : NodeId) (args : List ObjectId)
    (initFields : Bool) (h : Heap) :
    h.Changes lists (e.constructing receiver start args initFields h) :=
  (((e.prepared_changes receiver start initFields h).tail (.newContext _)).tail
    (.declare ..)).trans (e.toWorld.bindAll_changes ..)

theorem invoking_changes (receiver : ObjectId) (parameters : List Tree) (args : List ObjectId)
    (h : Heap) : h.Changes lists (e.invoking receiver parameters args h) :=
  (Heap.Change.newContext _).changes.trans (e.toWorld.bindAll_changes ..)

theorem instanceIn_changes (context : ContextId) (module : NodeId) (h : Heap) :
    h.Changes lists (h.allocate (e.instanceIn context module)).2 := by
  unfold instanceIn
  split
  · exact (Heap.Change.allocate module none context _).changes
  · exact (Heap.Change.allocate module none rootContext true).changes

-- ========================================================= instructions

variable {e} {f g : Frame} {rest : List Frame} {m : Machine}

theorem Constructs.changes {receiver : ObjectId} {start : NodeId} {args : List ObjectId}
    {initFields : Bool} {r : EStateM.Result Fault Machine Unit}
    (h : e.Constructs receiver start args initFields g rest m r) :
    m.heap.Changes lists (stateOf r).heap := by
  cases h with
  | refused _ => exact .refl _
  | uncompiled => exact e.prepared_changes ..
  | started _ ends => cases ends <;> exact e.constructing_changes ..

/-- The native methods of the library (`Performs`) only ever add to
collections. -/
theorem Performs.changes {w : World} {receiver : ObjectId} {args : List ObjectId}
    {r : EStateM.Result Fault Machine Unit}
    (h : Natives.Performs w receiver args g rest m r) :
    m.heap.Changes (· <+: ·) (stateOf r).heap := by
  cases h with
  | fault _ => exact .refl _
  | reserved _ => exact .refl _
  | element _ _ => exact .refl _
  | number value => exact (Heap.Change.number ..).changes
  | string value => exact (Heap.Change.string ..).changes
  | print line => exact .refl _
  | add _ held => exact (Heap.Change.relist held (List.prefix_append ..)).changes
  | callBack _ _ _ ends => cases ends <;> exact .refl _
  | throw message _ => exact w.withMessage_changes ..

section

variable (hn : e.natives.Careful lists)
include hn

theorem Invokes.changes {method : NodeId} {receiver : ObjectId} {args : List ObjectId}
    {r : EStateM.Result Fault Machine Unit} (h : e.Invokes method receiver args g rest m r)
    (hframes : m.frames = g :: rest) : m.heap.Changes lists (stateOf r).heap := by
  cases h with
  | refused _ => exact .refl _
  | native found arity => exact hn found arity hframes
  | started _ _ ends => cases ends <;> exact e.invoking_changes ..

theorem Dispatches.changes {receiver : ObjectId} {message : String} {args : List ObjectId}
    {start : Option NodeId} {r : EStateM.Result Fault Machine Unit}
    (h : e.Dispatches receiver message args start g rest m r)
    (hframes : m.frames = g :: rest) : m.heap.Changes lists (stateOf r).heap := by
  cases h with
  | refused _ => exact .refl _
  | answered _ _ ends => exact ends.changes hn hframes
  | fallback _ _ _ ends =>
      have hcall : m.heap.Changes lists (e.misunderstood message args m.heap) :=
        (Heap.Change.string ..).changes.trans (Heap.allocateList_changes ..)
      exact hcall.trans (ends.changes hn hframes)

theorem Conduct.changes {i : Instruction} {r : EStateM.Result Fault Machine Flow}
    (h : e.Conduct f rest m i r) : m.heap.Changes lists (stateOf r).heap := by
  cases h with
  | fault _ heap _ => exact .of_eq heap
  | load _ => exact .refl _
  | bind _ => exact (Heap.Change.declare ..).changes
  | @assign name value _ _ _ found =>
      have hassigned : m.heap.Changes lists (m.heap.assign f.context name value).2 :=
        m.heap.assign_changes f.context name value
      rw [found] at hassigned
      exact hassigned
  | push => exact .refl _
  | pop _ => exact .refl _
  | dup _ => exact .refl _
  | swap _ => exact .refl _
  | get _ _ _ => exact .refl _
  | set _ _ _ => exact (Heap.Change.putField ..).changes
  | number => exact (Heap.Change.number ..).changes
  | string => exact (Heap.Change.string ..).changes
  | collection _ => exact m.heap.allocateList_changes ..
  | make => exact e.instanceIn_changes ..
  | init _ _ ends => exact ends.changes (m := { m with frames := _ })
  | initFails _ _ ends => exact ends.changes (m := { m with frames := _ })
  | call _ _ ends => exact ends.changes hn rfl
  | callFails _ _ ends => exact ends.changes hn rfl
  | inherits _ _ => exact .refl _
  | jump _ _ => exact .refl _
  | branch _ => exact (Heap.Change.newContext _).changes
  | branchFull => exact (Heap.Change.newContext _).changes
  | protect => exact m.heap.sheltered_changes f 3
  | protectFull count _ => exact m.heap.sheltered_changes f (count + 1)
  | interrupt _ => exact .refl _
  | resume _ _ => exact .refl _

-- ================================================================ steps

omit hn in
theorem Raises.changes {fault : Fault} {value : ObjectId} {m' : Machine}
    (h : e.Raises m fault value m') : m.heap.Changes lists m'.heap := by
  cases h with
  | thrown => exact .refl _
  | made _ => exact e.toWorld.withMessage_changes ..

omit hn in
theorem Unwinds.heap_eq {kind : Interruption} {value : ObjectId}
    {r : EStateM.Result Failure Machine Unit} (h : Unwinds kind value m r) :
    (stateOf r).heap = m.heap := by
  cases h <;> rfl

theorem Steps.changes {r : EStateM.Result Failure Machine Unit} (h : e.Steps f rest m r) :
    m.heap.Changes lists (stateOf r).heap := by
  cases h with
  | done _ => exact .refl _
  | next _ does => exact does.changes (m := { m with frames := _ }) hn
  | leaves _ does ends =>
      rw [ends.heap_eq]
      exact does.changes (m := { m with frames := _ }) hn
  | raises _ does raised ends =>
      rw [ends.heap_eq]
      exact (does.changes (m := { m with frames := _ }) hn).trans raised.changes

/-- A `step` changes the heap by `Changes`, also when it faults and frames are
left. -/
theorem step_changes (m : Machine) : m.heap.Changes lists (stateOf (e.step m)).heap := by
  cases hframes : m.frames with
  | nil =>
      have hstep : e.step m = .error (.fault .noActiveFrame) m := by rw [step, hframes]
      rw [hstep]
      exact .refl _
  | cons f rest => exact (step_steps hframes).changes hn

end

end Engine

namespace Natives

theorem core_careful : core.Careful (· <+: ·) :=
  fun found _ _ _ _ _ _ arity hframes => Engine.Performs.changes (core_performs found arity hframes)

theorem Careful.mono {natives : Natives} {lists' : List ObjectId → List ObjectId → Prop}
    (h : natives.Careful lists) (hle : ∀ old new, lists old new → lists' old new) :
    natives.Careful lists' := by
  intro owner selector native found w receiver args f rest m arity hframes
  exact (h found arity hframes).mono hle

end Natives

end ObjectMachine
