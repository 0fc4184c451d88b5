/-
An evaluation can be used again.

However a run of code ends, there are no frames left: where nobody handles
an interruption, all of them are gone when that is found out, and otherwise
the frame that holds the value is the last one, and is taken off
(`runs_leave_no_frames`). This holds of any code, and of any native methods.
That the failure is one of the code, and not that there is no frame to take
a value from, is all that is asked of native methods: one that has come to
its end must have left a frame (`Natives.Staying`).
-/
import Mathlib
import ObjectMachine.Proofs.Laws.NestedRuns

namespace ObjectMachine

/-- A failure that nobody handled. -/
def Failure.Unhandled : Failure → Prop
  | .unhandledException _ _ => True
  | .unhandledInterruption _ => True
  | _ => False

/-- Native methods that leave a frame on the stack. Whatever pushes operands
and frames, and makes objects, is of this kind. -/
def Natives.Staying (natives : Natives) : Prop :=
  ∀ {owner selector : String} {native : Native}, natives.get? owner selector = some native →
    ∀ {w : World} {receiver : ObjectId} {args : List ObjectId} {m m' : Machine},
      native.arity = args.length → m.frames ≠ [] →
      native.perform w receiver args m = .ok () m' → m'.frames ≠ []

theorem Stands.ne_nil {f : Frame} {rest frames : List Frame} {size : Nat}
    (h : Stands f rest size frames) : frames ≠ [] := by
  obtain ⟨above, g, rfl, -, -⟩ := h
  exact List.append_ne_nil_of_right_ne_nil _ (List.cons_ne_nil _ _)

theorem Natives.Tactful.staying {natives : Natives} (h : natives.Tactful) : natives.Staying := by
  intro owner selector native found w receiver args m m' arity busy does
  obtain ⟨f, rest, hframes⟩ := List.exists_cons_of_ne_nil busy
  have hleaves : CallLeaves f rest m.heap.contexts.size ((native.perform w receiver args).run m) :=
    h found arity hframes
  rw [EStateM.run, does] at hleaves
  exact Stands.ne_nil hleaves

namespace Engine

variable {e : Engine} {f g : Frame} {rest : List Frame} {m m' : Machine}

-- =================================================== frames after a step

theorem Constructs.ne_nil {receiver : ObjectId} {start : NodeId} {args : List ObjectId}
    {initFields : Bool} (h : e.Constructs receiver start args initFields g rest m (.ok () m')) :
    m'.frames ≠ [] := by
  cases h with
  | started _ ends =>
      cases ends
      exact List.cons_ne_nil _ _

section

variable (he : e.natives.Staying)
include he

theorem Invokes.ne_nil {method : NodeId} {receiver : ObjectId} {args : List ObjectId}
    {r : EStateM.Result Fault Machine Unit} (h : e.Invokes method receiver args g rest m r)
    (busy : m.frames ≠ []) (hr : r = .ok () m') : m'.frames ≠ [] := by
  cases h with
  | refused _ => cases hr
  | native found arity => exact he found arity busy hr
  | started _ _ ends =>
      subst hr
      cases ends
      exact List.cons_ne_nil _ _

theorem Dispatches.ne_nil {receiver : ObjectId} {message : String} {args : List ObjectId}
    {start : Option NodeId} (h : e.Dispatches receiver message args start g rest m (.ok () m'))
    (busy : m.frames ≠ []) : m'.frames ≠ [] := by
  cases h with
  | answered _ _ ends => exact ends.ne_nil he busy rfl
  | fallback _ _ _ ends => exact ends.ne_nil he busy rfl

theorem Conduct.ne_nil {i : Instruction} (h : e.Conduct f rest m i (.ok .next m')) :
    m'.frames ≠ [] := by
  cases h with
  | init _ _ ends => exact ends.ne_nil
  | call _ _ ends => exact ends.ne_nil he (List.cons_ne_nil _ _)
  | _ => exact List.cons_ne_nil _ _

end

/-- `interrupt` comes to a frame, or there is none left. -/
theorem interrupt_ensures (kind : Interruption) (value : ObjectId) :
    Ensures (e.interrupt kind value) m (fun _ m' => m'.frames ≠ [])
      fun failure m' => failure.Unhandled ∧ m'.frames = [] := by
  unfold Ensures interrupt
  cases unwind kind m.frames.tail with
  | cons g below => exact List.cons_ne_nil _ _
  | nil => cases kind <;> exact ⟨trivial, rfl⟩

theorem raise_ensures (fault : Fault) :
    Ensures (e.raise fault) m (fun _ m' => m'.frames ≠ [])
      fun failure m' => failure.Unhandled ∧ m'.frames = [] := by
  obtain ⟨value, m₁, -, hraise⟩ := raise_raises (e := e) fault m
  rw [Ensures, hraise]
  exact interrupt_ensures .exception value

/-- A `step` that is not the last one leaves a frame, or fails and leaves
none. -/
theorem step_ensures (busy : 1 < m.frames.length) :
    Ensures e.step m (fun _ m' => e.natives.Staying → m'.frames ≠ [])
      fun failure m' => failure.Unhandled ∧ m'.frames = [] := by
  obtain ⟨f, rest, hframes⟩ := List.exists_cons_of_length_pos (Nat.zero_lt_of_lt busy)
  have hrest : rest ≠ [] := by
    rintro rfl
    rw [hframes] at busy
    exact Nat.lt_irrefl _ busy
  cases hi : f.code[f.pc]? with
  | none =>
      simp only [Ensures, step, hframes, hi]
      exact fun _ => hrest
  | some i =>
      have hconduct := execute_conduct (e := e) (m := { m with frames := f.next :: rest }) rfl i
      rw [EStateM.run] at hconduct
      rw [Ensures, step_eq hframes hi]
      cases hrun : e.execute i { m with frames := f.next :: rest } with
      | error fault m₁ =>
          exact (raise_ensures fault).mono (fun _ _ h _ => h) fun _ _ h => h
      | ok flow m₁ =>
          cases flow with
          | next =>
              rw [hrun] at hconduct
              exact fun he => hconduct.ne_nil he
          | interrupt kind value =>
              exact (interrupt_ensures kind value).mono (fun _ _ h _ => h) fun _ _ h => h

-- ================================================================= runs

/-- What is left when a run stops before its end: a failure is `Unhandled` and
leaves no frames. -/
def Cleared (stop : Stop) (m : Machine) : Prop :=
  ∀ failure, stop = .failed failure → failure.Unhandled ∧ m.frames = []

theorem runAbove_leaves (steps : Nat) (busy : e.natives.Staying → m.frames ≠ []) :
    Ensures (e.runAbove 1 steps) m
      (fun _ m' => m'.frames.length ≤ 1 ∧ (e.natives.Staying → m'.frames ≠ [])) Cleared := by
  induction steps generalizing m with
  | zero => exact Ensures.throw nofun
  | succ steps ih =>
      refine Ensures.bind get_ensures fun s m₀ h₀ => ?_
      obtain ⟨rfl, rfl⟩ := h₀
      split
      · next hdeep =>
        have hstep := step_ensures (e := e) ((deeperThan_iff 1 m₀.frames).1 hdeep)
        refine Ensures.bind ?_ fun _ m₁ h₁ => ih h₁
        unfold Ensures stepRun
        cases hrun : e.step m₀ with
        | ok _ m₁ => exact hstep.of_ok hrun
        | error failure m₁ =>
            rintro _ ⟨⟩
            exact hstep.of_error hrun
      · next hflat =>
        exact Ensures.pure ⟨Nat.not_lt.1 fun h => hflat ((deeperThan_iff 1 m₀.frames).2 h), busy⟩

/-- `takeResult` takes the last frame off, with a value or without. -/
theorem takeResult_leaves (flat : m.frames.length ≤ 1) :
    Ensures takeResult m (fun _ m' => m'.frames = []) fun stop m' => m'.frames = []
      ∧ (m.frames ≠ [] → stop = .failed (.fault .stackUnderflow)) := by
  unfold Ensures takeResult
  cases hframes : m.frames with
  | nil => exact ⟨hframes, fun h => absurd rfl h⟩
  | cons f rest =>
      have hrest : rest = [] := by
        rw [hframes] at flat
        exact List.eq_nil_of_length_eq_zero (Nat.le_zero.1 (Nat.le_of_succ_le_succ flat))
      cases hoperands : f.operands with
      | nil =>
          simp only [hoperands]
          exact ⟨hrest, fun _ => trivial⟩
      | cons value others =>
          simp only [hoperands]
          exact hrest

/-- `runCode` on the empty stack is `runAbove` on the two frames of
`nesting`. -/
theorem runCode_eq (room : 2 ≤ e.maxFrames) (idle : m.frames = []) (steps : Nat) (code : Code)
    (context : ContextId) :
    e.runCode steps code context m
      = (e.runAbove 1 steps >>= fun _ => takeResult) (m.nesting code context) := by
  have hfirst : (0 : Nat) < e.maxFrames := Nat.lt_of_lt_of_le Nat.zero_lt_two room
  have hsecond : 1 < e.maxFrames := room
  simp only [runCode, bind, EStateM.bind, get, getThe, MonadStateOf.get, EStateM.get, Run.act,
    Action.pushFrame, idle, List.length_nil, List.length_cons, hfirst, hsecond, if_true,
    Machine.nesting, entryFrame, holderFrame, Nat.zero_add]

theorem runCode_leaves (room : 2 ≤ e.maxFrames) (idle : m.frames = []) (steps : Nat) (code : Code)
    (context : ContextId) :
    Ensures (e.runCode steps code context) m (fun _ m' => m'.frames = []) fun stop m' =>
      ∀ failure, stop = .failed failure → m'.frames = []
        ∧ (e.natives.Staying → failure.Unhandled ∨ failure = .fault .stackUnderflow) := by
  rw [Ensures, runCode_eq room idle]
  have hruns := runAbove_leaves (e := e) (m := m.nesting code context) steps
    fun _ => List.cons_ne_nil _ _
  refine Ensures.bind (hruns.mono (fun _ _ h => h) fun stop m' h failure hfailure => ?_)
    fun _ m₁ h₁ => ?_
  · exact ⟨(h failure hfailure).2, fun _ => .inl (h failure hfailure).1⟩
  · refine (takeResult_leaves h₁.1).mono (fun _ _ h => h) fun stop m' h failure hfailure => ?_
    refine ⟨h.1, fun he => .inr ?_⟩
    cases hfailure.symm.trans (h.2 (h₁.2 he))
    rfl

/-- After `start` there is room for two frames, and no frame is left of what it
did. -/
theorem start_leaves {steps : Nat} {m₀ : Machine} (h : e.start steps = .ok () m₀) :
    2 ≤ e.maxFrames ∧ m₀.frames = [] := by
  have hobjects (objects : List NodeId) {m : Machine} (idle : m.frames = []) :
      Ensures (objects.forM fun id => Run.act (e.declareObject id)) m
        (fun _ m' => m'.frames = []) fun _ _ => True := by
    induction objects generalizing m with
    | nil => exact Ensures.pure idle
    | cons id rest ih => exact ih idle
  have hglobals : Ensures (e.initializeGlobals steps) { heap := e.initialHeap }
      (fun _ m' => 2 ≤ e.maxFrames ∧ m'.frames = []) fun _ _ => True := by
    refine Ensures.bind (hobjects _ rfl) fun _ m₁ idle => ?_
    refine Ensures.bind (compiled_ensures fun _ _ => trivial) fun code m₂ h₂ => ?_
    obtain ⟨-, rfl⟩ := h₂
    by_cases room : 2 ≤ e.maxFrames
    · refine Ensures.bind ((runCode_leaves room idle steps code rootContext).mono
        (fun _ _ h => h) fun _ _ _ => trivial) fun _ m₃ h₃ => ?_
      exact Ensures.pure ⟨room, h₃⟩
    · exact Ensures.bind (runCode_no_room (Nat.not_le.1 room) idle steps code rootContext)
        fun _ _ h => h.elim
  exact hglobals.of_ok h

end Engine

/-- An evaluation that has started can be used again whatever becomes of it.
Code that is run while there are no frames, be it compiled or not, is run
from the two frames that are put there, for which there is room. It leaves
no frames, whether it has a value or fails. If it fails, nobody handled an
exception or another interruption, or there was no operand to take as the
value. -/
theorem runs_leave_no_frames {e : Engine} {steps₀ : Nat} {m₀ : Machine}
    (hstart : e.start steps₀ = .ok () m₀) :
    m₀.frames = []
      ∧ ∀ (m : Machine) (steps : Nat) (code : Code) (context : ContextId), m.frames = [] →
        e.runCode steps code context m
          = (e.runAbove 1 steps >>= fun _ => Engine.takeResult) (m.nesting code context)
        ∧ (∀ value m', e.runCode steps code context m = .ok value m' → m'.frames = [])
        ∧ ∀ failure m', e.runCode steps code context m = .error (.failed failure) m' →
          m'.frames = []
          ∧ (e.natives.Staying → failure.Unhandled ∨ failure = .fault .stackUnderflow) := by
  obtain ⟨room, idle₀⟩ := Engine.start_leaves hstart
  refine ⟨idle₀, fun m steps code context idle => ?_⟩
  have hends := Engine.runCode_leaves room idle steps code context
  refine ⟨Engine.runCode_eq room idle steps code context, fun value m' hrun => hends.of_ok hrun,
    fun failure m' hrun => hends.of_error hrun failure rfl⟩

/-- Code that jumps past its end leaves no value, and no frame. -/
theorem sample_runs_leave_no_frames :
    Sample.engine.start 10 = .ok () { heap := Sample.engine.initialHeap }
      ∧ ∃ m', Sample.engine.runCode 5 [.push .false, .conditionalJump 5] rootContext
          { heap := Sample.engine.initialHeap } = .error (.failed (.fault .stackUnderflow)) m'
        ∧ m'.frames = [] ∧ Sample.engine.natives.Staying := by
  have hstart : Sample.engine.start 10 = .ok () { heap := Sample.engine.initialHeap } := rfl
  obtain ⟨m', hrun⟩ : ∃ m', Sample.engine.runCode 5 [.push .false, .conditionalJump 5] rootContext
      { heap := Sample.engine.initialHeap } = .error (.failed (.fault .stackUnderflow)) m' :=
    ⟨_, rfl⟩
  obtain ⟨idle, hruns⟩ := runs_leave_no_frames hstart
  obtain ⟨hclear, -⟩ := (hruns _ 5 _ rootContext idle).2.2 _ _ hrun
  exact ⟨hstart, m', hrun, hclear, Natives.core_tactful.staying⟩

end ObjectMachine
