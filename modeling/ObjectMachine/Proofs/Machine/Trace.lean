/-
Runs of regions, step after step.

`Engine.after n m` is the machine `n` steps later, if no step has failed by
then. A region that is not left, which can be told from the number of
frames, stays a region (`Stacked.after`); when it is left, it is left by an
interruption that was raised on top of it and that the frames at the bottom
are then searched for (`Stacked.exit`).
-/
import Mathlib
import ObjectMachine.Proofs.Machine.Regions

namespace ObjectMachine

theorem unwind_length_le (kind : Interruption) (frames : List Frame) :
    (unwind kind frames).length ≤ frames.length := by
  induction frames with
  | nil => exact le_rfl
  | cons f rest ih =>
      rw [unwind]
      split
      · exact le_rfl
      · exact ih.trans (Nat.le_succ _)

/-- What is left of the frames when one of them takes an interruption and its
value: `unwind`, with the value pushed. -/
def landing (kind : Interruption) (value : ObjectId) (frames : List Frame) : List Frame :=
  (unwind kind frames).modifyHead fun f => f.push value

theorem landing_length_le (kind : Interruption) (value : ObjectId) (frames : List Frame) :
    (landing kind value frames).length ≤ frames.length := by
  rw [landing, List.length_modifyHead]
  exact unwind_length_le kind frames

namespace Engine

/-- The machine a number of steps later. -/
def after (e : Engine) : Nat → Machine → Option Machine
  | 0, m => some m
  | n + 1, m =>
    (after e n m).bind fun m => match e.step m with
      | .ok () m => some m
      | .error _ _ => none

variable {e : Engine} {m m' : Machine} {n : Nat}

theorem after_succ :
    e.after (n + 1) m = some m' ↔ ∃ m₁, e.after n m = some m₁ ∧ e.step m₁ = .ok () m' := by
  rw [after, Option.bind_eq_some_iff]
  refine exists_congr fun m₁ => and_congr_right fun _ => ?_
  cases h : e.step m₁ <;> simp

/-- `after` one step more is one step, then the others. -/
theorem after_step {m₁ : Machine} (h : e.step m = .ok () m₁) (n : Nat) :
    e.after (n + 1) m = e.after n m₁ := by
  induction n with
  | zero => simp [after, h]
  | succ n ih => rw [after, ih, ← after]

/-- `after` a sum of steps is one run after another. -/
theorem after_add (k n : Nat) {m₁ : Machine} (h : e.after k m = some m₁) :
    e.after (k + n) m = e.after n m₁ := by
  induction n with
  | zero => exact h
  | succ n ih => rw [← Nat.add_assoc, after, ih, ← after]

/-- A run that gets somewhere has been everywhere before. -/
theorem after_of_le {k : Nat} (hk : k ≤ n) (h : e.after n m = some m') :
    ∃ m₁, e.after k m = some m₁ := by
  induction n generalizing m' with
  | zero =>
      obtain rfl := Nat.le_zero.1 hk
      exact ⟨m', h⟩
  | succ n ih =>
      rcases Nat.le_succ_iff.1 hk with hk | rfl
      · obtain ⟨m₁, h₁, -⟩ := after_succ.1 h
        exact ih hk h₁
      · exact ⟨m', h⟩

/-- A run that gets further has taken its first step. -/
theorem after_first (h : e.after (n + 1) m = some m') :
    ∃ m₁, e.step m = .ok () m₁ ∧ e.after n m₁ = some m' := by
  obtain ⟨m₁, h₁⟩ := after_of_le (Nat.succ_pos n) h
  obtain ⟨m₀, h₀, hstep⟩ := after_succ.1 h₁
  cases h₀
  exact ⟨m₁, hstep, after_step hstep n ▸ h⟩

/-- A step, the last one or not: a run that fails leaves a machine too. -/
def Moves (e : Engine) (m m' : Machine) : Prop :=
  e.step m = .ok () m' ∨ ∃ failure, e.step m = .error failure m'

theorem Moves.eq_of_step {m₁ : Machine} (h : e.Moves m m') (hstep : e.step m = .ok () m₁) :
    m' = m₁ := by
  rcases h with hok | ⟨failure, herror⟩
  · cases hok.symm.trans hstep
    rfl
  · cases herror.symm.trans hstep

/-- A step of which something is `raised?` leaves `landing` of the frames below.
If none accepts it, no frame is left. -/
theorem landing_of_raised? {kind : Interruption} {value : ObjectId} {m₁ : Machine}
    (hraises : e.raised? m = some (kind, value, m₁)) (hmoves : e.Moves m m') :
    m'.frames = landing kind value m₁.frames.tail := by
  unfold Moves at hmoves
  rw [step_of_raised? hraises] at hmoves
  unfold landing
  simp only [interrupt] at hmoves
  cases hunwind : unwind kind m₁.frames.tail with
  | nil =>
      rw [hunwind] at hmoves
      rcases hmoves with hok | ⟨failure, herror⟩
      · cases hok
      · cases herror
        rfl
  | cons f rest =>
      rw [hunwind] at hmoves
      rcases hmoves with hok | ⟨failure, herror⟩
      · cases hok
        rfl
      · cases herror

/-- A step that raises an interruption, and the frames among which one is
looked for that takes it. -/
structure Lands (e : Engine) (m m' : Machine) (kind : Interruption) (value : ObjectId)
    (frames : List Frame) : Prop where
  raises : ∃ m₁, e.raised? m = some (kind, value, m₁)
  frames : m'.frames = landing kind value frames

/-- Along a run, every state so far satisfies a condition. -/
def During (e : Engine) (n : Nat) (m : Machine) (P : Machine → Prop) : Prop :=
  ∀ k < n, ∀ m', e.after k m = some m' → P m'

/-- After some steps, an interruption is raised that takes the stack down to
`depth` frames or fewer, for the first time. -/
structure Drops (e : Engine) (m : Machine) (depth steps : Nat) (kind : Interruption)
    (value : ObjectId) : Prop where
  deep : e.During (steps + 1) m fun s => depth < s.frames.length
  raises : ∃ s m₁, e.after steps m = some s ∧ e.raised? s = some (kind, value, m₁)
  low : ∀ s, e.after (steps + 1) m = some s → s.frames.length ≤ depth

/-- `Drops`, seen one step earlier. -/
theorem Drops.earlier {m₁ : Machine} {depth steps : Nat} {kind : Interruption}
    {value : ObjectId} (h : e.Drops m₁ depth steps kind value) (hstep : e.step m = .ok () m₁)
    (hdeep : depth < m.frames.length) : e.Drops m depth (steps + 1) kind value where
  deep k hk s hs := by
    cases k with
    | zero =>
        cases hs
        exact hdeep
    | succ k =>
        rw [after_step hstep] at hs
        exact h.deep k (Nat.lt_of_succ_lt_succ hk) s hs
  raises := by
    rw [after_step hstep]
    exact h.raises
  low s hs := by
    rw [after_step hstep] at hs
    exact h.low s hs

theorem During.mono {P : Machine → Prop} {k : Nat} (h : e.During n m P) (hk : k ≤ n) :
    e.During k m P :=
  fun j hj m' hm => h j (hj.trans_le hk) m' hm

/-- What can be decided of a state can be decided `During` a run. -/
theorem during_of_all {P : Machine → Prop} [DecidablePred P]
    (h : ∀ k < n, (e.after k m).all (fun s => decide (P s)) = true) : e.During n m P := by
  intro k hk s hs
  have hall := h k hk
  rw [hs] at hall
  exact of_decide_eq_true hall

end Engine

section

variable {S : Prop} {R : Rules} {root : Terms} {bottom : List Frame} {e : Engine} {m : Machine}

/-- A step that is `Leaving` a region leaves no frame of its own: the
interruption `Lands` in the `bottom`. -/
theorem Leaving.lands {kind : Interruption} {value : ObjectId} {m₁ m₂ : Machine}
    (h : Leaving S R root bottom e m kind value m₁) (hmoves : e.Moves m m₂) :
    e.Lands m m₂ kind value bottom where
  raises := ⟨m₁, h.raises⟩
  frames := by rw [Engine.landing_of_raised? h.raises hmoves, landing, h.unwinds, landing]

/-- By induction over the run: `Stacked` is kept as long as the region is not
left. -/
theorem Stacked.after (he : e.Disciplined R.binds)
    (hfresh : ∀ c, m.heap.contexts.size ≤ c → R.scopes c) (hS : S → m.Sound)
    (h : Stacked R root bottom m.frames) {n : Nat} {m' : Machine} (hrun : e.after n m = some m')
    (hin : e.During (n + 1) m fun m => bottom.length < m.frames.length)
    (hlive : e.During n m fun m => ¬ Finished root bottom m.frames) :
    Stacked R root bottom m'.frames ∧ m.Follows S R m' ∧ (S → m'.Sound) := by
  induction n generalizing m' with
  | zero =>
      cases hrun
      exact ⟨h, .refl S R m, hS⟩
  | succ n ih =>
      obtain ⟨m₁, h₁, hstep⟩ := Engine.after_succ.1 hrun
      obtain ⟨hstacked, hfollows, hsound⟩ :=
        ih h₁ (hin.mono (Nat.le_succ _)) (hlive.mono (Nat.le_succ _))
      have hfresh₁ : ∀ c, m₁.heap.contexts.size ≤ c → R.scopes c := fun c hc =>
        hfresh c (hfollows.scopes.trans hc)
      rcases hstacked.step he hfresh₁ hsound (hlive n (Nat.lt_succ_self n) m₁ h₁) with
        ⟨m₂, hstay⟩ | ⟨kind, value, m₂, hleave⟩
      · cases hstep.symm.trans hstay.step
        exact ⟨hstay.stacked, hfollows.trans hstay.follows, hstay.sound⟩
      · have hlen : bottom.length < m'.frames.length := hin (n + 1) (Nat.lt_succ_self _) m' hrun
        rw [(hleave.lands (.inl hstep)).frames] at hlen
        exact absurd hlen (Nat.not_lt.2 (landing_length_le kind value bottom))

/-- A step that does not stay in a region is `Leaving` it. -/
theorem Stacked.exit (he : e.Disciplined R.binds)
    (hfresh : ∀ c, m.heap.contexts.size ≤ c → R.scopes c) (hS : S → m.Sound)
    (h : Stacked R root bottom m.frames) (hlive : ¬ Finished root bottom m.frames)
    {m' : Machine} (hmoves : e.Moves m m') (hout : m'.frames.length ≤ bottom.length) :
    ∃ kind value, e.Lands m m' kind value bottom := by
  rcases h.step he hfresh hS hlive with ⟨m₁, hstay⟩ | ⟨kind, value, m₁, hleave⟩
  · obtain rfl := hmoves.eq_of_step hstay.step
    exact absurd hstay.stacked.length (Nat.not_lt.2 hout)
  · exact ⟨kind, value, hleave.lands hmoves⟩

/-- A region on top of frames that take whatever leaves it `Drops` to them
before the run can get below them. -/
theorem Stacked.drops (he : e.Disciplined R.binds) (hfresh : ∀ c, R.scopes c)
    (hfinal : root.final = none) (h : Stacked R root bottom m.frames) {n : Nat}
    {m₁ m' : Machine} (hrun : e.after n m = some m₁) (hmoves : e.Moves m₁ m')
    (hback : ∀ kind value, m'.frames.length < (landing kind value bottom).length) :
    ∃ steps kind value s, steps < n ∧ e.Drops m bottom.length steps kind value
      ∧ e.after (steps + 1) m = some s ∧ s.frames = landing kind value bottom := by
  induction n generalizing m with
  | zero =>
      cases hrun
      have hlow := (hback .exception 0).trans_le (landing_length_le .exception 0 bottom)
      obtain ⟨kind, value, hlands⟩ := h.exit (S := False) he (fun c _ => hfresh c)
        (fun hs => hs.elim) (fun hdone => hdone.1 hfinal) hmoves hlow.le
      have hlen := hback kind value
      rw [hlands.frames] at hlen
      exact absurd hlen (Nat.lt_irrefl _)
  | succ n ih =>
      obtain ⟨m₂, hstep, hrest⟩ := Engine.after_first hrun
      rcases h.step (S := False) he (fun c _ => hfresh c) (fun hs => hs.elim)
        (fun hdone => hdone.1 hfinal) with ⟨m₃, hstay⟩ | ⟨kind, value, m₃, hleave⟩
      · cases hstep.symm.trans hstay.step
        obtain ⟨steps, kind, value, s, hsteps, hdrops, hs, hlands⟩ := ih hstay.stacked hrest
        refine ⟨steps + 1, kind, value, s, Nat.succ_lt_succ hsteps, hdrops.earlier hstep h.length,
          ?_, hlands⟩
        rw [Engine.after_step hstep]
        exact hs
      · have hlands := (hleave.lands (.inl hstep)).frames
        have hfirst : e.after 1 m = some m₂ := Engine.after_step hstep 0
        refine ⟨0, kind, value, m₂, Nat.succ_pos n, ⟨fun k hk s hs => ?_, ?_, fun s hs => ?_⟩,
          hfirst, hlands⟩
        · obtain rfl := Nat.lt_one_iff.1 hk
          cases hs
          exact h.length
        · exact ⟨m, m₃, rfl, hleave.raises⟩
        · cases hfirst.symm.trans hs
          rw [hlands]
          exact landing_length_le kind value bottom

end

end ObjectMachine
