/-
Code that is run on top of other frames.

`runCode` may be called while frames are on the stack. It puts two frames
on top, one that holds the place where the value will arrive and one that
runs the code, and takes steps until the second one is gone. What the code
leaves or returns arrives in the holding frame, and the frames below are as
they were. But nothing stops an exception there: if one of the frames below
waits for exceptions, that frame takes it, and is taken for the one that
holds the value (`nested_runs_keep_frames`).
-/
import Mathlib
import ObjectMachine.Proofs.Laws.Activations
import ObjectMachine.Proofs.Machine.Turns

namespace ObjectMachine

/-- The machine about to run code on top of its frames: `runCode` pushes a frame
that holds the value, and the frame of the code. -/
def Machine.nesting (m : Machine) (code : Code) (context : ContextId) : Machine :=
  { m with frames := entryFrame code context :: holderFrame context :: m.frames }

namespace Engine

variable {e : Engine} {m m' : Machine} {value : ObjectId}

/-- `runAbove` that has come to its end took its steps above the depth, all but
the last of them. -/
theorem after_of_runAbove {depth steps : Nat} (h : e.runAbove depth steps m = .ok () m') :
    m'.frames.length ≤ depth ∧ ∃ n, e.after n m = some m'
      ∧ e.During n m fun s => depth < s.frames.length := by
  induction steps generalizing m with
  | zero => cases h
  | succ steps ih =>
      by_cases hdeep : depth < m.frames.length
      · have hrun : e.runAbove depth (steps + 1) m
            = (e.stepRun >>= fun _ => e.runAbove depth steps) m := by
          simp only [runAbove, bind, EStateM.bind, get, getThe, MonadStateOf.get, EStateM.get,
            (deeperThan_iff depth m.frames).2 hdeep, if_true]
        rw [hrun] at h
        simp only [bind, EStateM.bind, stepRun] at h
        cases hstep : e.step m with
        | error failure m₁ =>
            rw [hstep] at h
            cases h
        | ok _ m₁ =>
            rw [hstep] at h
            obtain ⟨hlow, n, hn, hduring⟩ := ih h
            refine ⟨hlow, n + 1, (after_step hstep n).trans hn, fun k hk s hs => ?_⟩
            cases k with
            | zero =>
                cases hs
                exact hdeep
            | succ k =>
                rw [after_step hstep] at hs
                exact hduring k (Nat.lt_of_succ_lt_succ hk) s hs
      · have hfalse : deeperThan depth m.frames = false := by
          rw [Bool.eq_false_iff]
          exact fun h => hdeep ((deeperThan_iff depth m.frames).1 h)
        simp only [runAbove, bind, EStateM.bind, get, getThe, MonadStateOf.get, EStateM.get,
          hfalse, Bool.false_eq_true, if_false, pure, EStateM.pure] at h
        cases h
        exact ⟨Nat.not_lt.1 hdeep, 0, rfl, fun k hk => absurd hk (Nat.not_lt_zero k)⟩

/-- `Action.pushFrame` leaves the frame on top. -/
theorem pushFrame_starts (w : World) (frame : Frame) :
    Ensures (Run.act (Action.pushFrame w frame)) m
      (fun _ m' => m' = { m with frames := frame :: m.frames }) fun _ _ => True := by
  by_cases hroom : m.frames.length < w.maxFrames
  · exact pushFrame_fits hroom frame
  · simp only [Ensures, Run.act, Action.pushFrame, hroom, if_false]

/-- `runCode` that has a value comes from `runAbove` on the two new frames
(`nesting`). -/
theorem runCode_ends (steps : Nat) (code : Code) (context : ContextId) :
    Ensures (e.runCode steps code context) m
      (fun value m' => ∃ s, e.runAbove (m.frames.length + 1) steps (m.nesting code context)
        = .ok () s ∧ takeResult s = .ok value m') fun _ _ => True := by
  refine Ensures.bind get_ensures fun s m₀ h₀ => ?_
  obtain ⟨rfl, rfl⟩ := h₀
  refine Ensures.bind (pushFrame_starts e.toWorld (holderFrame context)) fun _ m₁ h₁ => ?_
  subst h₁
  refine Ensures.bind (pushFrame_starts e.toWorld (entryFrame code context)) fun _ m₂ h₂ => ?_
  subst h₂
  show Ensures (e.runAbove (m₀.frames.length + 1) steps >>= fun _ => takeResult)
    (m₀.nesting code context) _ _
  simp only [Ensures, bind, EStateM.bind]
  cases hrun : e.runAbove (m₀.frames.length + 1) steps (m₀.nesting code context) with
  | error stop m₃ => trivial
  | ok _ m₃ =>
      dsimp only
      cases htake : takeResult m₃ with
      | error stop m₄ => trivial
      | ok value m₄ => exact ⟨m₃, rfl, htake⟩

/-- A run of `nesting` code ends with an interruption that `Drops` the stack
down to the holding frame, or below it. -/
theorem drops_of_nesting (he : e.natives.Tactful) {code : Code} {context : ContextId} {n : Nat}
    {s : Machine} (hrun : e.after n (m.nesting code context) = some s)
    (hdeep : e.During n (m.nesting code context) fun s => m.frames.length + 1 < s.frames.length)
    (hlow : s.frames.length ≤ m.frames.length + 1) (hvalue : takeResult s = .ok value m') :
    ∃ steps kind, n = steps + 1
      ∧ e.Drops (m.nesting code context) (m.frames.length + 1) steps kind value
      ∧ s.frames = landing kind value (holderFrame context :: m.frames) := by
  obtain ⟨f, rest, others, hframes, hoperands, -⟩ := takeResult_ok hvalue
  cases n with
  | zero =>
      cases hrun
      exact absurd hlow (Nat.not_le.2 (Nat.lt_succ_self _))
  | succ n =>
      obtain ⟨s₁, h₁, hstep⟩ := after_succ.1 hrun
      have hbelow : holderFrame context :: m.frames <:+ s₁.frames :=
        suffix_after he (List.suffix_cons _ _) h₁ hdeep
      rcases suffix_step he hbelow (hdeep n (Nat.lt_succ_self n) s₁ h₁) (.inl hstep) with
        hsuffix | ⟨kind, arrived, hlands⟩
      · -- The code has run off its end, and the holding frame has no value.
        have hends := hsuffix.eq_of_length_le hlow
        rw [hframes] at hends
        cases hends
        cases hoperands
      · have hsame := head?_operands_of_landing (hlands.frames.symm.trans hframes)
        rw [hoperands] at hsame
        cases hsame
        refine ⟨n, kind, rfl, ⟨hdeep, ?_, ?_⟩, hlands.frames⟩
        · obtain ⟨m₁, hraised⟩ := hlands.raises
          exact ⟨s₁, m₁, h₁, hraised⟩
        · intro s₂ h₂
          cases hrun.symm.trans h₂
          exact hlow

end Engine

/-- Code that `runCode` runs on top of frames got its value by an interruption.
What is left or returned comes to the holding frame, and the frames below are as
they were. An exception passes the holding frame: one of the frames below was
waiting for it, and is gone with those on top of it. -/
theorem nested_runs_keep_frames {e : Engine} (he : e.natives.Tactful) {m m' : Machine}
    {steps : Nat} {code : Code} {context : ContextId} {value : ObjectId}
    (hrun : e.runCode steps code context m = .ok value m') :
    ∃ n kind s, e.Drops (m.nesting code context) (m.frames.length + 1) n kind value
      ∧ e.after (n + 1) (m.nesting code context) = some s
      ∧ ((kind ≠ .exception
          ∧ s.frames = { holderFrame context with
              operands := [value], resume := [], pending := some kind } :: m.frames
          ∧ m' = { s with frames := m.frames })
        ∨ (kind = .exception ∧ (∃ g ∈ m.frames, .exception ∈ g.resume)
          ∧ s.frames = landing .exception value m.frames
          ∧ m' = { s with frames := s.frames.tail })) := by
  obtain ⟨s, habove, hvalue⟩ := (Engine.runCode_ends steps code context).of_ok hrun
  obtain ⟨hlow, n, hafter, hdeep⟩ := Engine.after_of_runAbove habove
  obtain ⟨n, kind, rfl, hdrops, hframes⟩ := Engine.drops_of_nesting he hafter hdeep hlow hvalue
  obtain ⟨f, rest, others, hs, -, hm'⟩ := Engine.takeResult_ok hvalue
  have hrest : m' = { s with frames := s.frames.tail } := by rw [hm', hs, List.tail_cons]
  refine ⟨n, kind, s, hdrops, hafter, ?_⟩
  rw [landing_cons] at hframes
  by_cases hkind : kind = .exception
  · subst hkind
    rw [if_neg (by simp [holderFrame])] at hframes
    refine .inr ⟨rfl, ?_, hframes, hrest⟩
    by_contra hnone
    simp only [not_exists, not_and] at hnone
    rw [landing_eq_nil.2 hnone, hs] at hframes
    cases hframes
  · have hwaits : kind ∈ (holderFrame context).resume := by
      cases kind <;> simp [holderFrame] at hkind ⊢
    rw [if_pos hwaits] at hframes
    refine .inl ⟨hkind, hframes, ?_⟩
    rw [hrest, hframes]
    rfl

namespace Sample

/-- The second program in the body of its protected block. -/
def bodyMachine : Machine where
  heap := Engine.sheltered (entryFrame quietCode rootContext) 3 engine.initialHeap
  frames :=
    [{ code := [.push ObjectId.true, .interrupt .result], context := 3 },
      handlerFrame [.store exceptionLocal false, .load exceptionLocal, .interrupt .exception] 2,
      alwaysFrame [.push ObjectId.null] 1,
      { entryFrame quietCode rootContext with pc := 1, resume := [.result] },
      holderFrame rootContext]

theorem bodyMachine_reached : engine.Reached bodyMachine :=
  .step quietMachine_reached (by decide) rfl

end Sample

/-- Other code is run while that body runs, and leaves a value: the frames
are as before. -/
theorem sample_nested_run_keeps_frames :
    Sample.engine.natives.Tactful ∧ Sample.engine.Reached Sample.bodyMachine
      ∧ ∃ m' n kind s, Sample.engine.runCode 5 [.push ObjectId.true] rootContext Sample.bodyMachine
          = .ok ObjectId.true m'
        ∧ Sample.engine.Drops (Sample.bodyMachine.nesting [.push ObjectId.true] rootContext) 6
          n kind
          ObjectId.true
        ∧ Sample.engine.after (n + 1)
          (Sample.bodyMachine.nesting [.push ObjectId.true] rootContext) = some s
        ∧ m'.frames.length = 5 := by
  obtain ⟨m', hrun, hlength⟩ : ∃ m', Sample.engine.runCode 5 [.push ObjectId.true] rootContext
      Sample.bodyMachine = .ok ObjectId.true m' ∧ m'.frames.length = 5 := ⟨_, rfl, rfl⟩
  obtain ⟨n, kind, s, hdrops, hs, -⟩ := nested_runs_keep_frames Natives.core_tactful hrun
  exact ⟨Natives.core_tactful, Sample.bodyMachine_reached, m', n, kind, s, hrun, hdrops, hs,
    hlength⟩

/-- Code that throws, run in the same place, has a value all the same: the
exception. The handler that took it is gone, and so is the body. -/
theorem nested_run_loses_frames :
    Sample.engine.Reached Sample.bodyMachine ∧ Sample.bodyMachine.frames.length = 5
      ∧ ∃ m', Sample.engine.runCode 5 [.push ObjectId.null, .interrupt .exception] rootContext
          Sample.bodyMachine = .ok ObjectId.null m' ∧ m'.frames.length = 3 :=
  ⟨Sample.bodyMachine_reached, rfl, _, rfl, rfl⟩

end ObjectMachine
