/-
Always blocks run once, and give back what they were entered with.

A protected block pushes three frames: the always block, the handler and
the body. Whatever leaves the body goes to the handler if it is an
exception, and otherwise to the always block; whatever leaves the handler
goes to the always block. So there is no way out but through the always
block (`Engine.Entering`). From then on it is a matter of the states of
Machine/AlwaysRun.lean.
-/
import Mathlib
import ObjectMachine.Proofs.Laws.Activations
import ObjectMachine.Proofs.Machine.AlwaysRun
import ObjectMachine.Proofs.Session.Reserved

namespace ObjectMachine

-- ==================================================== the three frames

/-- Inversion of `Runs` at a protected block: its always block is an
`alwaysCode`. -/
theorem Runs.of_protect {binds : String → Prop} {role : Role} {final : Option Nat}
    {body handler always rest : Code} {n : Nat}
    (h : Runs binds role final (.tryCatchAlways body handler always :: rest) n) :
    ∃ code, always = alwaysCode code ∧ Runs binds .block none body 0
      ∧ Runs binds .block none handler 1 ∧ Runs binds .method (some 1) code 0 := by
  cases h with
  | next effect _ _ _ => cases effect
  | tryCatchAlways inner caught last _ => exact ⟨_, rfl, inner, caught, last⟩

/-- An `alwaysFrame` takes every interruption, and becomes an `enteredFrame`. -/
theorem landing_alwaysFrame (code : Code) (context : ContextId) (kind : Interruption)
    (value : ObjectId) (below : List Frame) :
    landing kind value (alwaysFrame code context :: below)
      = enteredFrame code context kind value :: below := by
  rw [landing, unwind, alwaysFrame_receive?]
  rfl

/-- The `handlerFrame` as an exception starts it. -/
def caughtFrame (code : Code) (context : ContextId) (value : ObjectId) : Frame :=
  { code, context, operands := [value], pending := some .exception }

/-- A `handlerFrame` takes exceptions, and lets others pass. -/
theorem landing_handlerFrame (code : Code) (context : ContextId) (kind : Interruption)
    (value : ObjectId) (below : List Frame) :
    landing kind value (handlerFrame code context :: below)
      = if kind = .exception then caughtFrame code context value :: below
        else landing kind value below := by
  rw [landing, unwind, handlerFrame_receive?]
  by_cases hk : kind = .exception
  · subst hk
    rfl
  · rw [if_neg hk, if_neg hk, landing]

namespace Engine

/-- How an always block comes to be entered, with `depth` frames below it: by
what `Drops` the stack out of the body, or, if that was an exception, out of the
handler. -/
inductive Entering (e : Engine) (m : Machine) (depth : Nat) :
    Nat → Interruption → ObjectId → Prop
  | body {steps : Nat} {kind : Interruption} {value : ObjectId} (other : kind ≠ .exception)
      (drops : e.Drops m (depth + 2) steps kind value) : Entering e m depth (steps + 1) kind value
  | handler {steps more : Nat} {exception value : ObjectId} {kind : Interruption} {s : Machine}
      (thrown : e.Drops m (depth + 2) steps .exception exception)
      (caught : e.after (steps + 1) m = some s)
      (drops : e.Drops s (depth + 1) more kind value) :
      Entering e m depth (steps + 1 + (more + 1)) kind value

variable {e : Engine} {m m' : Machine} {f : Frame} {rest : List Frame}

/-- Until then the always block is not on top. -/
theorem Entering.deep {depth steps : Nat} {kind : Interruption} {value : ObjectId}
    (h : e.Entering m depth steps kind value) :
    e.During steps m fun s => depth + 1 < s.frames.length := by
  intro k hk s hs
  cases h with
  | body _ drops => exact Nat.lt_of_succ_lt (drops.deep k hk s hs)
  | @handler steps more _ _ _ s₁ thrown caught drops =>
      by_cases hbody : k < steps + 1
      · exact Nat.lt_of_succ_lt (thrown.deep k hbody s hs)
      · obtain ⟨j, rfl⟩ := Nat.exists_eq_add_of_le (Nat.le_of_not_lt hbody)
        rw [after_add _ _ caught] at hs
        exact drops.deep j (Nat.lt_of_add_lt_add_left hk) s hs

/-- The states that a run from a `Reached` state passes through are `Reached`,
as long as there is a frame below the running one. -/
theorem Reached.after (h : e.Reached m) {n : Nat} (hrun : e.after n m = some m')
    (hbusy : e.During n m fun s => 1 < s.frames.length) : e.Reached m' := by
  induction n generalizing m' with
  | zero =>
      cases hrun
      exact h
  | succ n ih =>
      obtain ⟨m₁, h₁, hstep⟩ := after_succ.1 hrun
      exact .step (ih h₁ (hbusy.mono (Nat.le_succ _))) (hbusy n (Nat.lt_succ_self _) m₁ h₁) hstep

variable {binds : String → Prop} {body handler always code : Code}

/-- A protected block for which there is room: the step pushes its three
frames. -/
theorem protect_step (he : e.Disciplined binds) (hframes : m.frames = f :: rest)
    (hi : f.code[f.pc]? = some (.tryCatchAlways body handler always))
    (hstep : e.step m = .ok () m') (hpushed : m'.frames.length = rest.length + 4) :
    m'.frames = { code := body, context := m.heap.contexts.size + 2 }
      :: handlerFrame handler (m.heap.contexts.size + 1)
      :: { code := always, context := m.heap.contexts.size, resume := Interruption.all }
      :: f.waiting (.tryCatchAlways body handler always) .result :: rest := by
  rcases step_cases (S := False) he hframes (fun hs => hs.elim) hi (Nat.zero_le _) nofun with
    ⟨m₁, hstep₁, hexec⟩ | ⟨kind, value, m₁, hraises, hraised⟩
  · cases hstep.symm.trans hstep₁
    obtain ⟨top, heffect, htop⟩ := hexec.effect
    cases heffect with
    | straight effect _ => cases effect
    | start effect _ => cases effect
    | protect => exact htop
  · -- A fault leaves at most two of the frames.
    have hlen := landing_length_le kind value m₁.frames.tail
    rw [← landing_of_raised? hraises (.inl hstep), hpushed] at hlen
    rcases hraised.cause with ⟨-, top, heffect⟩ | ⟨-, hremains⟩
    · cases heffect
    · generalize m₁.frames.tail = left at hremains hlen
      cases hremains with
      | same => omega
      | waiting =>
          rw [List.length_cons] at hlen
          omega
      | shielded =>
          rw [List.length_cons, List.length_cons] at hlen
          omega

/-- A body that is protected cannot be left, nor its handler, but by `Entering`
the always block. -/
theorem entering_of_protect (he : e.Disciplined binds)
    (hbody : Runs binds .block none body 0) (hhandler : Runs binds .block none handler 1)
    {c₁ c₂ c₃ : ContextId} {below : List Frame}
    (hframes : m.frames = { code := body, context := c₃ } :: handlerFrame handler c₂
      :: alwaysFrame code c₁ :: below)
    {n : Nat} {m₁ : Machine} (hrun : e.after n m = some m₁) (hmoves : e.Moves m₁ m')
    (hback : m'.frames.length ≤ below.length) :
    ∃ k kind value s, k ≤ n ∧ e.Entering m below.length k kind value ∧ e.after k m = some s
      ∧ s.frames = enteredFrame code c₁ kind value :: below := by
  let R : Rules := ⟨binds, fun _ => True⟩
  have hregion : Stacked R (.closed .block)
      (handlerFrame handler c₂ :: alwaysFrame code c₁ :: below) m.frames :=
    hframes ▸ .running (.fresh hbody nofun c₃) .root
  have htaken : ∀ kind value, m'.frames.length
      < (landing kind value (alwaysFrame code c₁ :: below)).length := by
    intro kind value
    rw [landing_alwaysFrame]
    exact Nat.lt_succ_of_le hback
  have hcaught : ∀ kind value, m'.frames.length
      < (landing kind value (handlerFrame handler c₂ :: alwaysFrame code c₁ :: below)).length := by
    intro kind value
    rw [landing_handlerFrame]
    split
    · exact Nat.lt_succ_of_le (hback.trans (Nat.le_succ _))
    · exact htaken kind value
  obtain ⟨j, kind, value, s, hj, hdrops, hs, hlands⟩ :=
    hregion.drops he (fun _ => trivial) rfl hrun hmoves hcaught
  rw [landing_handlerFrame] at hlands
  by_cases hexception : kind = .exception
  · subst hexception
    rw [if_pos rfl] at hlands
    have hregion₂ : Stacked R (.closed .block) (alwaysFrame code c₁ :: below) s.frames :=
      hlands ▸ .running (handler_running hhandler c₂ value) .root
    -- What is left of the run starts in the handler.
    obtain ⟨more, rfl⟩ := Nat.exists_eq_add_of_le (Nat.succ_le_of_lt hj)
    rw [after_add _ _ hs] at hrun
    obtain ⟨l, kind, value', s', hl, hdrops', hs', hlands'⟩ :=
      hregion₂.drops he (fun _ => trivial) rfl hrun hmoves htaken
    rw [landing_alwaysFrame] at hlands'
    refine ⟨j + 1 + (l + 1), kind, value', s', Nat.add_le_add_left hl _,
      .handler hdrops hs hdrops', ?_, hlands'⟩
    rw [after_add _ _ hs]
    exact hs'
  · rw [if_neg hexception, landing_alwaysFrame] at hlands
    exact ⟨j + 1, kind, value, s, hj, .body hexception hdrops, hs, hlands⟩

end Engine

/-- A protected block whose frames are all pushed is left through its always
block. That is entered once, with the interruption that left the body or
the handler, and what it resumes is that interruption. -/
theorem always_blocks_run_once {e : Engine} (hnatives : e.natives = Natives.core)
    (hnames : e.program.Avoids previousLocal) {m m₀ m₁ m' : Machine} {f : Frame}
    {rest : List Frame} {body handler always : Code} (hm : e.Reached m)
    (hframes : m.frames = f :: rest)
    (hi : f.code[f.pc]? = some (.tryCatchAlways body handler always))
    (hstep : e.step m = .ok () m₀) (hpushed : m₀.frames.length = rest.length + 4) {n : Nat}
    (hrun : e.after n m₀ = some m₁)
    (hdeep : e.During (n + 1) m₀ fun s => rest.length + 1 < s.frames.length)
    (hmoves : e.Moves m₁ m') (hback : m'.frames.length ≤ rest.length + 1) :
    ∃ k kind value s, k ≤ n ∧ e.Entering m₀ (rest.length + 1) k kind value
      ∧ e.after k m₀ = some s
      ∧ s.frames = { code := always, context := m.heap.contexts.size, operands := [value],
                     pending := some kind }
          :: f.waiting (.tryCatchAlways body handler always) .result :: rest
      ∧ ∀ j s g below, j ≤ n → e.after j m₀ = some s → s.frames = g :: below →
          below.length = rest.length + 1 →
            (g.pc = 0 → j = k)
            ∧ (g.code[g.pc]? = some .resumeInterruption →
                ∃ m₂, e.raised? s = some (kind, value, m₂)) := by
  have he : e.Orderly (· ≠ previousLocal) :=
    Engine.orderly_of_avoids (hnatives ▸ Natives.core_lawful) hnames
  obtain ⟨hbusy, -, t, hfinal, hrunning⟩ := hm.starting he hframes hi rfl
  have hroot : Supports ⟨(· ≠ previousLocal), fun _ => True⟩ t rest t rest := .root
  obtain ⟨i, todo, own, hi', -, -, hruns⟩ := hrunning.live hroot fun hdone => hdone.1 hfinal
  cases hi.symm.trans hi'
  obtain ⟨code, rfl, hbody, hhandler, hlast⟩ := hruns.of_protect
  have hstart := Engine.protect_step he.toDisciplined hframes hi hstep hpushed
  obtain ⟨k, kind, value, s, hk, hentering, hs, hentered⟩ :=
    Engine.entering_of_protect he.toDisciplined hbody hhandler hstart hrun hmoves hback
  refine ⟨k, kind, value, s, hk, hentering, hs, hentered, fun j s' g below hj hs' hg hlen => ?_⟩
  by_cases hbefore : j < k
  · -- The body or the handler is on the stack.
    have habove : rest.length + 1 + 1 < s'.frames.length := hentering.deep j hbefore s' hs'
    rw [hg, List.length_cons, hlen] at habove
    exact absurd habove (Nat.lt_irrefl _)
  · obtain ⟨d, rfl⟩ := Nat.exists_eq_add_of_le (Nat.le_of_not_lt hbefore)
    rw [Engine.after_add _ _ hs] at hs'
    have hreached : e.Reached s := by
      refine (Engine.Reached.step hm hbusy hstep).after hs fun l hl s₁ hs₁ => ?_
      exact (Nat.succ_le_succ (Nat.zero_le _)).trans_lt
        (hdeep l (Nat.lt_succ_of_lt (hl.trans_le hk)) s₁ hs₁)
    have hknown : m.heap.contexts.size < s.heap.contexts.size := by
      have hsound := (hreached.sound_and_shape he).1
      exact (hsound.frames _ (hentered ▸ List.mem_cons_self)).context
    have hin : e.During (d + 1) s fun s => rest.length + 1 < s.frames.length := by
      intro l hl s₁ hs₁
      exact hdeep (k + l) (by omega) s₁ ((Engine.after_add _ _ hs).trans hs₁)
    obtain ⟨hfirst, hresumes⟩ := entered_run he.toDisciplined hlast hentered hknown hs' hin hg hlen
    exact ⟨fun hpc => by rw [hfirst hpc, Nat.add_zero], hresumes⟩

/-- The body of the sample comes to its end, and the always block is entered
with its result. -/
theorem sample_always_block_runs_once :
    Sample.program.Avoids previousLocal
      ∧ ∃ m₀ m₁ m', Sample.engine.step Sample.quietMachine = .ok () m₀ ∧ m₀.frames.length = 5
        ∧ Sample.engine.after 6 m₀ = some m₁ ∧ Sample.engine.Moves m₁ m' ∧ m'.frames.length ≤ 2
        ∧ ∃ k kind value s g below, k ≤ 6 ∧ Sample.engine.Entering m₀ 2 k kind value
          ∧ Sample.engine.after k m₀ = some s ∧ s.frames = g :: below ∧ g.pc = 0
          ∧ g.pending = some kind ∧ g.operands = [value] := by
  have hnames : Sample.program.Avoids previousLocal := by
    unfold Program.Avoids
    decide
  obtain ⟨m₀, hstep, hpushed, m₁, hrun, m', hmoves, hback⟩ :
      ∃ m₀, Sample.engine.step Sample.quietMachine = .ok () m₀ ∧ m₀.frames.length = 5
        ∧ ∃ m₁, Sample.engine.after 6 m₀ = some m₁
        ∧ ∃ m', Sample.engine.step m₁ = .ok () m' ∧ m'.frames.length ≤ 2 :=
    ⟨_, rfl, rfl, _, rfl, _, rfl, le_rfl⟩
  have hdeep : Sample.engine.During 7 m₀ fun s => 2 < s.frames.length := by
    cases hstep
    intro k hk s hs
    interval_cases k <;> cases hs <;> decide
  obtain ⟨k, kind, value, s, hk, hentering, hs, hentered, -⟩ := always_blocks_run_once rfl hnames
    Sample.quietMachine_reached rfl rfl hstep hpushed hrun hdeep (.inl hmoves) hback
  exact ⟨hnames, m₀, m₁, m', hstep, hpushed, hrun, .inl hmoves, hback, k, kind, value, s, _, _, hk,
    hentering, hs, hentered, rfl, rfl, rfl⟩

end ObjectMachine
