/-
What can be done with an evaluation from outside.

Code, programs and tests can be run, or stopped on their way, and objects
can be made, in any order and at any moment (`Engine.Use`). Running comes
down to steps, so all of it changes the heap in the ways that a step does
(`Use.changes`). Nothing is asked of the code that is run.
-/
import Mathlib
import ObjectMachine.Session
import ObjectMachine.Proofs.Machine.Changes
import ObjectMachine.Proofs.Machine.Trace

namespace ObjectMachine

variable {lists : List ObjectId → List ObjectId → Prop} {ε α β : Type}

/-- A run that changes the heap as `Changes` allows, wherever it ends. -/
def Changing (lists : List ObjectId → List ObjectId → Prop) (a : EStateM ε Machine α) : Prop :=
  ∀ m : Machine, m.heap.Changes lists (stateOf (a m)).heap

namespace Changing

theorem pure (value : α) : Changing lists (Pure.pure value : EStateM ε Machine α) :=
  fun _ => .refl _

theorem throw (error : ε) : Changing lists (throw error : EStateM ε Machine α) :=
  fun _ => .refl _

theorem get : Changing lists (get : EStateM ε Machine Machine) := fun _ => .refl _

theorem bind {a : EStateM ε Machine α} {k : α → EStateM ε Machine β} (ha : Changing lists a)
    (hk : ∀ value, Changing lists (k value)) : Changing lists (a >>= k) := by
  intro m
  have hfirst := ha m
  simp only [Bind.bind, EStateM.bind]
  cases hrun : a m with
  | ok value m' =>
      rw [hrun] at hfirst
      exact hfirst.trans (hk value m')
  | error error m' =>
      rw [hrun] at hfirst
      exact hfirst

/-- `Run.act` turns a fault into a failure of the run, in the same machine. -/
theorem act {a : Action α} (ha : Changing lists a) : Changing lists (Run.act a) := by
  intro m
  have hfirst := ha m
  simp only [Run.act]
  cases hrun : a m with
  | ok value m' =>
      rw [hrun] at hfirst
      exact hfirst
  | error fault m' =>
      rw [hrun] at hfirst
      exact hfirst

theorem compiled (code : Except CompileError Code) : Changing lists (Run.compiled code) := by
  cases code with
  | ok code => exact pure code
  | error error => exact throw _

theorem forM {objects : List NodeId} {a : NodeId → EStateM ε Machine Unit}
    (ha : ∀ id, Changing lists (a id)) : Changing lists (objects.forM a) := by
  induction objects with
  | nil => exact pure ()
  | cons id rest ih => exact bind (ha id) fun _ => ih

end Changing

-- ============================================================== actions

namespace Action

theorem newContext_changing (parent : Link) : Changing lists (newContext parent) :=
  fun _ => (Heap.Change.newContext parent).changes

theorem newNumber_changing (w : World) (value : Float) : Changing lists (newNumber w value) :=
  fun _ => (Heap.Change.number value _).changes

theorem newString_changing (w : World) (value : String) : Changing lists (newString w value) :=
  fun _ => (Heap.Change.string value _).changes

theorem newList_changing (w : World) (elements : List ObjectId) :
    Changing lists (newList w elements) :=
  fun m => m.heap.allocateList_changes _ elements

theorem newException_changing (w : World) (className message : String) :
    Changing lists (newException w className message) := by
  unfold newException
  split
  · next module _ =>
    intro m
    have hnew := newWithMessage_eq w module message m
    rw [EStateM.run] at hnew
    rw [hnew]
    exact w.withMessage_changes module message m.heap
  · exact Changing.throw _

theorem pushFrame_changing (w : World) (frame : Frame) : Changing lists (pushFrame w frame) := by
  intro m
  unfold pushFrame
  split <;> exact .refl _

end Action

-- ================================================================= runs

namespace Engine

open ObjectMachine.Action

variable {e : Engine}

theorem declareObject_changing (id : NodeId) : Changing lists (e.declareObject id) :=
  fun _ => (Heap.Change.allocate id none rootContext true).changes.tail (.declare ..)

theorem takeResult_changing : Changing lists takeResult := by
  intro m
  unfold takeResult
  split
  · exact .refl _
  · split <;> exact .refl _

section

variable (hn : e.natives.Careful lists)
include hn

theorem stepRun_changing : Changing lists e.stepRun := by
  intro m
  have hstep := step_changes hn m
  unfold stepRun
  cases hrun : e.step m with
  | ok value m' =>
      rw [hrun] at hstep
      exact hstep
  | error failure m' =>
      rw [hrun] at hstep
      exact hstep

theorem runAbove_changing (depth steps : Nat) : Changing lists (e.runAbove depth steps) := by
  induction steps with
  | zero => exact .throw _
  | succ steps ih =>
      refine Changing.bind .get fun m => ?_
      split
      · exact Changing.bind (stepRun_changing hn) fun _ => ih
      · exact .pure ()

theorem runCode_changing (steps : Nat) (code : Code) (context : ContextId) :
    Changing lists (e.runCode steps code context) := by
  refine Changing.bind .get fun m => ?_
  refine Changing.bind (.act (pushFrame_changing _ _)) fun _ => ?_
  refine Changing.bind (.act (pushFrame_changing _ _)) fun _ => ?_
  exact Changing.bind (runAbove_changing hn _ _) fun _ => takeResult_changing

theorem initializeGlobals_changing (steps : Nat) :
    Changing lists (e.initializeGlobals steps) := by
  refine Changing.bind (.forM fun id => .act (declareObject_changing id)) fun _ => ?_
  refine Changing.bind (.compiled _) fun code => ?_
  exact Changing.bind (runCode_changing hn _ _ _) fun _ => .pure ()

theorem runProgram_changing (steps : Nat) (name : String) :
    Changing lists (e.runProgram steps name) := by
  unfold runProgram
  split
  · refine Changing.bind (.compiled _) fun code => ?_
    refine Changing.bind (.act (newContext_changing _)) fun context => ?_
    exact runCode_changing hn _ _ _
  · exact .throw _

theorem runFixtures_changing (steps : Nat) (describeInstance : ObjectId) (members : List Tree) :
    Changing lists (e.runFixtures steps describeInstance members) := by
  induction members with
  | nil => exact .pure ()
  | cons member rest ih =>
      rw [runFixtures]
      split
      · refine Changing.bind (.compiled _) fun code => ?_
        refine Changing.bind (.act (newContext_changing _)) fun context => ?_
        exact Changing.bind (runCode_changing hn _ _ _) fun _ => ih
      · exact ih

theorem runTest_changing (steps : Nat) (test : NodeId) :
    Changing lists (e.runTest steps test) := by
  have hdescribe (describe : NodeId) : Changing lists (e.describeInstance steps describe) :=
    Changing.bind (runCode_changing hn _ _ _) fun _ =>
      Changing.bind (runFixtures_changing hn _ _ _) fun _ => .pure _
  unfold runTest
  split
  · have hrest (body : Tree) (parent : Link) : Changing lists
        (do
          let context ← Run.act (newContext parent)
          let code ← Run.compiled (e.program.blockCode body)
          e.runCode steps code context) :=
      Changing.bind (.act (newContext_changing _)) fun _ =>
        Changing.bind (.compiled _) fun _ => runCode_changing hn _ _ _
    dsimp only
    split
    · exact Changing.bind (hdescribe _) fun _ => hrest _ _
    · exact hrest _ _
  · exact .throw _

end

-- ================================================================= uses

/-- One use of an evaluation. A run may be stopped anywhere. -/
inductive Use (e : Engine) (m : Machine) : Machine → Prop
  | step : Use e m (stateOf (e.step m))
  | globals (steps : Nat) : Use e m (stateOf (e.initializeGlobals steps m))
  | program (steps : Nat) (name : String) : Use e m (stateOf (e.runProgram steps name m))
  | test (steps : Nat) (test : NodeId) : Use e m (stateOf (e.runTest steps test m))
  | code (steps : Nat) (code : Code) (context : ContextId) :
      Use e m (stateOf (e.runCode steps code context m))
  | newContext (parent : Link) : Use e m (stateOf (Action.newContext parent m))
  | newNumber (value : Float) : Use e m (stateOf (Action.newNumber e.toWorld value m))
  | newString (value : String) : Use e m (stateOf (Action.newString e.toWorld value m))
  | newList (elements : List ObjectId) : Use e m (stateOf (Action.newList e.toWorld elements m))
  | newException (className message : String) :
      Use e m (stateOf (Action.newException e.toWorld className message m))

/-- Any number of uses. -/
def Uses (e : Engine) : Machine → Machine → Prop := Relation.ReflTransGen e.Use

/-- A state that an evaluation can be brought to: a number of uses after the
initial heap. -/
def Attained (e : Engine) (m : Machine) : Prop := e.Uses { heap := e.initialHeap } m

theorem Use.changes (hn : e.natives.Careful lists) {m m' : Machine} (h : e.Use m m') :
    m.heap.Changes lists m'.heap := by
  cases h with
  | step => exact step_changes hn m
  | globals steps => exact initializeGlobals_changing hn steps m
  | program steps name => exact runProgram_changing hn steps name m
  | test steps test => exact runTest_changing hn steps test m
  | code steps code context => exact runCode_changing hn steps code context m
  | newContext parent => exact newContext_changing parent m
  | newNumber value => exact newNumber_changing e.toWorld value m
  | newString value => exact newString_changing e.toWorld value m
  | newList elements => exact newList_changing e.toWorld elements m
  | newException className message => exact newException_changing e.toWorld className message m

theorem Uses.changes (hn : e.natives.Careful lists) {m m' : Machine} (h : e.Uses m m') :
    m.heap.Changes lists m'.heap := by
  induction h with
  | refl => exact .refl _
  | tail _ use ih => exact ih.trans (use.changes hn)

/-- Steps are uses. -/
theorem uses_of_after {n : Nat} {m m' : Machine} (h : e.after n m = some m') : e.Uses m m' := by
  induction n generalizing m' with
  | zero =>
      cases h
      exact .refl
  | succ n ih =>
      obtain ⟨m₁, h₁, hstep⟩ := after_succ.1 h
      have huse := Use.step (e := e) (m := m₁)
      rw [hstep] at huse
      exact (ih h₁).tail huse

end Engine

end ObjectMachine
