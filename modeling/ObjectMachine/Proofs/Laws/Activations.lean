/-
What comes back from calls and blocks.

Four instructions start other frames and wait for their value: calls,
constructors, branches and protected blocks (`Instruction.awaits?`). The
frames they start form a region on top of the waiting frame. It is left by
one interruption, which the waiting frame accepts as its value or which
goes on through it; until then nothing below changes.
-/
import Mathlib
import ObjectMachine.Proofs.Laws.Balance

namespace ObjectMachine

/-- What a frame waits for after an instruction that starts other frames: `init`
and `call` are left by a return, blocks by a result. -/
def Instruction.awaits? : Instruction → Option Interruption
  | .call _ _ _ => some .return
  | .init _ _ _ => some .return
  | .ifThenElse _ _ => some .result
  | .tryCatchAlways _ _ _ => some .result
  | _ => none

/-- The frame after the instruction `i`, for which it got `value`. -/
def Frame.answered (f : Frame) (i : Instruction) (value : ObjectId) : Frame :=
  { f with pc := f.pc + 1, operands := value :: f.operands.drop i.takes }

/-- The frame while it waits for the value of `i`: its `resume` list is
`[kind]`. -/
def Frame.waiting (f : Frame) (i : Instruction) (kind : Interruption) : Frame :=
  (f.next.dropping i.takes).resuming [kind]

/-- By `landing`, a frame that waits for one kind takes its value, and lets
others pass. -/
theorem landing_waiting {f : Frame} (hresume : f.resume = []) (i : Instruction)
    (kind other : Interruption) (value : ObjectId) (rest : List Frame) :
    landing other value (f.waiting i kind :: rest)
      = if other = kind then f.answered i value :: rest else landing other value rest := by
  have hlist : (f.waiting i kind).resume = [kind] := by
    show f.resume ++ [kind] = [kind]
    rw [hresume]
    rfl
  rw [landing, unwind, Frame.receive?_of_resume hlist (Nat.succ_ne_zero _)]
  by_cases hk : other = kind
  · rw [if_pos hk, if_pos hk]
    have hsame : f.answered i value = (f.waiting i kind).awake.push value := by
      rw [Frame.answered, hresume]
      rfl
    rw [hsame]
    rfl
  · rw [if_neg hk, if_neg hk, landing]

section

variable {e : Engine} {S : Prop} {binds : String → Prop} {m m' : Machine} {f : Frame}
  {rest : List Frame} {i : Instruction} {kind : Interruption}

/-- An instruction that `awaits?` a value has it at once, faults, or leaves its
frame `waiting` under others. -/
theorem Engine.start_step (he : e.Disciplined binds) (hframes : m.frames = f :: rest)
    (hS : S → m.Sound) (hi : f.code[f.pc]? = some i) (hops : i.takes ≤ f.operands.length)
    (hresume : f.resume = []) (hkind : i.awaits? = some kind) (hmoves : e.Moves m m') :
    (∃ value, m'.frames = f.answered i value :: rest)
    ∨ (∃ value, e.Lands m m' .exception value rest)
    ∨ ∃ g above, m'.frames = g :: above ++ f.waiting i kind :: rest := by
  have hpending : i = .resumeInterruption → f.pending ≠ none := by
    rintro rfl
    cases hkind
  rcases step_cases he hframes hS hi hops hpending with
    ⟨m₁, hstep, hexec⟩ | ⟨raised, value, m₁, hraises, hraised⟩
  · obtain ⟨top, heffect, htop⟩ := hexec.effect
    obtain rfl := hmoves.eq_of_step hstep
    cases heffect with
    | @straight _ takes leaves values effect count =>
        have hone : leaves = 1 := by
          cases i <;> cases hkind <;> cases effect <;> rfl
        obtain ⟨value, rfl⟩ := List.length_eq_one_iff.1 (count.trans hone)
        rw [← Instruction.takes_of_effect effect] at htop
        exact .inl ⟨value, htop⟩
    | @start _ takes code context effect runs =>
        have hreturn : kind = .return := by
          cases i <;> cases hkind <;> cases effect <;> rfl
        rw [← Instruction.takes_of_effect effect, ← hreturn] at htop
        exact .inr (.inr ⟨_, [], htop⟩)
    | jump taken => cases hkind
    | branch condition =>
        cases hkind
        exact .inr (.inr ⟨_, [], htop⟩)
    | protect =>
        cases hkind
        exact .inr (.inr ⟨_, [_, _], htop⟩)
  · have hlands := landing_of_raised? hraises hmoves
    rcases hraised.cause with ⟨-, top, heffect⟩ | ⟨rfl, hremains⟩
    · cases heffect <;> cases hkind
    · generalize m₁.frames.tail = left at hremains hlands
      cases hremains with
      | same => exact .inr (.inl ⟨value, ⟨m₁, hraises⟩, hlands⟩)
      | @waiting body handler always =>
          -- The frame that waits does so for a result.
          refine .inr (.inl ⟨value, ⟨m₁, hraises⟩, hlands.trans ?_⟩)
          exact landing_waiting hresume (.tryCatchAlways body handler always) .result .exception
            value rest
      | shielded =>
          cases hkind
          exact .inr (.inr ⟨_, [], hlands⟩)

theorem Instruction.awaits?_ne_exception (h : i.awaits? = some kind) : kind ≠ .exception := by
  cases i <;> cases h <;> nofun

/-- In a `Reached` state, a frame that is about to start others is `Running`, as
the root of a region of its own. -/
theorem Engine.Reached.starting (he : e.Orderly binds) (h : e.Reached m)
    (hframes : m.frames = f :: rest) (hi : f.code[f.pc]? = some i)
    (hkind : i.awaits? = some kind) :
    1 < m.frames.length ∧ i.takes ≤ f.operands.length
      ∧ ∃ t, t.final = none ∧ Running binds t f := by
  obtain ⟨-, hshape⟩ := h.sound_and_shape he
  rw [hframes] at hshape
  cases hshape with
  | done _ hempty => simp [hempty] at hi
  | running region =>
      refine ⟨hframes ▸ region.length, (region.ready (fun hdone => hdone.1 rfl) hi).1, ?_⟩
      cases region with
      | running runs under => exact ⟨_, under.final rfl, runs⟩
      | entered last scope under =>
          cases hi
          cases hkind

/-- An instruction that has started frames leaves a region (`Stacked`) on top of
its own frame, which is `waiting`. -/
theorem Engine.start_region {R : Rules} {t : Terms} (he : e.Disciplined R.binds)
    (hfresh : ∀ c, R.scopes c) (hrunning : Running R.binds t f) (hfinal : t.final = none)
    (hframes : m.frames = f :: rest) (hi : f.code[f.pc]? = some i)
    (hops : i.takes ≤ f.operands.length) (hkind : i.awaits? = some kind)
    (hstep : e.step m = .ok () m') (hdeep : rest.length + 1 < m'.frames.length) :
    ∃ t', t'.final = none ∧ Stacked R t' (f.waiting i kind :: rest) m'.frames := by
  have hregion : Stacked R t rest m.frames := hframes ▸ .running hrunning .root
  have hstacked : Stacked R t rest m'.frames := by
    rcases hregion.step (S := False) he (fun c _ => hfresh c) (fun hs => hs.elim)
      (fun hdone => hdone.1 hfinal) with ⟨m₁, hstay⟩ | ⟨other, value, m₁, hleave⟩
    · cases hstep.symm.trans hstay.step
      exact hstay.stacked
    · have hlen := landing_length_le other value rest
      rw [← (hleave.lands (.inl hstep)).frames] at hlen
      omega
  rcases start_step (S := False) he hframes (fun hs => hs.elim) hi hops hrunning.resume hkind
    (.inl hstep) with ⟨value, hvalue⟩ | ⟨value, hlands⟩ | ⟨g, above, hpushed⟩
  · rw [hvalue] at hdeep
    exact absurd hdeep (Nat.lt_irrefl _)
  · have hlen := landing_length_le .exception value rest
    rw [← hlands.frames] at hlen
    omega
  · rw [hpushed] at hstacked ⊢
    obtain ⟨t', hunder, habove⟩ := hstacked.split (Nat.le_succ _)
    exact ⟨t', hunder.final hfinal, habove⟩

/-- When the frames on top of a `waiting` frame are gone, it is `answered`, or
what took them away `Lands` below it. -/
theorem Stacked.lands_waiting {R : Rules} {t : Terms} (he : e.Disciplined R.binds)
    (hfresh : ∀ c, R.scopes c) (hresume : f.resume = []) (hfinal : t.final = none)
    (h : Stacked R t (f.waiting i kind :: rest) m.frames) {n : Nat} {m₁ : Machine}
    (hrun : e.after n m = some m₁)
    (hdeep : e.During (n + 1) m fun m => rest.length + 1 < m.frames.length)
    (hmoves : e.Moves m₁ m') (hback : m'.frames.length ≤ rest.length + 1) :
    (∃ value, m'.frames = f.answered i value :: rest)
    ∨ ∃ other value, other ≠ kind ∧ e.Lands m₁ m' other value rest := by
  have hlive : ∀ frames, ¬ Finished t (f.waiting i kind :: rest) frames := fun _ hdone =>
    hdone.1 hfinal
  obtain ⟨hstacked, -, -⟩ := h.after (S := False) he (fun c _ => hfresh c) (fun hs => hs.elim) hrun
    hdeep fun _ _ _ _ => hlive _
  obtain ⟨other, value, hraises, hlands⟩ := hstacked.exit (S := False) he (fun c _ => hfresh c)
    (fun hs => hs.elim) (hlive _) hmoves hback
  rw [landing_waiting hresume] at hlands
  by_cases hother : other = kind
  · rw [if_pos hother] at hlands
    exact .inl ⟨value, hlands⟩
  · rw [if_neg hother] at hlands
    exact .inr ⟨other, value, hother, hraises, hlands⟩

/-- What comes of an instruction that `awaits?` a value, as soon as the frames
it has started are gone: `start_step`, and then `lands_waiting`. -/
theorem Engine.start_outcome {R : Rules} {t : Terms} (he : e.Disciplined R.binds)
    (hfresh : ∀ c, R.scopes c) (hrunning : Running R.binds t f) (hfinal : t.final = none)
    (hframes : m.frames = f :: rest) (hi : f.code[f.pc]? = some i)
    (hops : i.takes ≤ f.operands.length) (hkind : i.awaits? = some kind) {n : Nat}
    {m₁ : Machine} (hrun : e.after n m = some m₁) (hmoves : e.Moves m₁ m')
    (hdeep : ∀ k s, 0 < k → k ≤ n → e.after k m = some s → rest.length + 1 < s.frames.length)
    (hback : m'.frames.length ≤ rest.length + 1) :
    (∃ value, m'.frames = f.answered i value :: rest)
    ∨ ∃ other value, other ≠ kind ∧ e.Lands m₁ m' other value rest := by
  cases n with
  | zero =>
      cases hrun
      rcases start_step (S := False) he hframes (fun hs => hs.elim) hi hops hrunning.resume hkind
        hmoves with hvalue | ⟨value, hlands⟩ | ⟨g, above, hpushed⟩
      · exact .inl hvalue
      · exact .inr ⟨_, value, (Instruction.awaits?_ne_exception hkind).symm, hlands⟩
      · rw [hpushed, List.length_append] at hback
        simp only [List.length_cons] at hback
        omega
  | succ n =>
      obtain ⟨m₂, hstep, hrest⟩ := after_first hrun
      obtain ⟨t', hfinal', hstacked⟩ := start_region he hfresh hrunning hfinal hframes hi hops hkind
        hstep (hdeep 1 m₂ Nat.one_pos (Nat.succ_pos n) (after_step hstep 0))
      refine hstacked.lands_waiting he hfresh hrunning.resume hfinal' hrest (fun k hk s hs => ?_)
        hmoves hback
      exact hdeep (k + 1) s (Nat.succ_pos k) (Nat.succ_le_of_lt hk) ((after_step hstep k).trans hs)

/-- A frame that executes an instruction which `awaits?` a value gets one value
for it, or an interruption of another kind `Lands` below the frame. As long as
it is there, what is below it is as it was. -/
theorem activations_return (hnatives : e.natives = Natives.core) (hm : e.Reached m)
    (hframes : m.frames = f :: rest) (hi : f.code[f.pc]? = some i)
    (hkind : i.awaits? = some kind) :
    (∀ n m₁ m', e.after n m = some m₁ → e.Moves m₁ m' →
      (∀ k s, 0 < k → k ≤ n → e.after k m = some s → rest.length + 1 < s.frames.length) →
      m'.frames.length ≤ rest.length + 1 →
        (∃ value, m'.frames = f.answered i value :: rest)
        ∨ (m'.frames.length ≤ rest.length
          ∧ ∃ other value, other ≠ kind ∧ e.Lands m₁ m' other value rest))
    ∧ ∀ n m', e.after n m = some m' →
      e.During (n + 1) m (fun s => rest.length < s.frames.length) → rest <:+ m'.frames := by
  have he : e.Orderly Rules.free.binds := .of_natives (hnatives ▸ Natives.core_lawful)
  obtain ⟨-, htakes, t, hfinal, hrunning⟩ := hm.starting he hframes hi hkind
  refine ⟨fun n m₁ m' hrun hmoves hdeep hback => ?_, fun n m' hrun hstays => ?_⟩
  · refine (Engine.start_outcome (R := .free) he.toDisciplined (fun _ => trivial) hrunning hfinal
      hframes hi htakes hkind hrun hmoves hdeep hback).imp_right fun hpasses => ⟨?_, hpasses⟩
    obtain ⟨other, value, -, hlands⟩ := hpasses
    rw [hlands.frames]
    exact landing_length_le other value rest
  · have hregion : Stacked .free t rest m.frames := hframes ▸ .running hrunning .root
    obtain ⟨hstacked, -, -⟩ := hregion.after (S := False) he.toDisciplined (fun _ _ => trivial)
      (fun hs => hs.elim) hrun hstays fun _ _ _ _ hdone => hdone.1 hfinal
    exact hstacked.suffix

end

namespace Sample

/-- The code of the second program. -/
def quietCode : Code :=
  [.tryCatchAlways [.push ObjectId.true, .interrupt .result]
    [.store exceptionLocal false, .load exceptionLocal, .interrupt .exception]
    (alwaysCode [.push ObjectId.null])]

theorem quietCode_entry : engine.Entry quietCode := by
  obtain ⟨t, ht⟩ : ∃ t, program.tree? 18 = some t := ⟨_, rfl⟩
  obtain ⟨body, hbody⟩ : ∃ body, t.body? = some body := by
    cases ht
    exact ⟨_, rfl⟩
  refine .block (Program.tree?_mem ht) hbody ?_
  cases ht
  cases hbody
  rfl

/-- The second program is about to run. -/
def quietMachine : Machine where
  heap := engine.initialHeap
  frames := [entryFrame quietCode rootContext, holderFrame rootContext]

theorem quietMachine_reached : engine.Reached quietMachine :=
  .enter .initial rfl quietCode_entry Nat.one_pos

end Sample

/-- Seven steps of the body and the always block, and one that comes back
with a value. -/
theorem sample_activation_returns :
    ∃ f rest i m₁ m', Sample.engine.Reached Sample.quietMachine
      ∧ Sample.quietMachine.frames = f :: rest ∧ f.code[f.pc]? = some i
      ∧ i.awaits? = some .result ∧ Sample.engine.after 7 Sample.quietMachine = some m₁
      ∧ Sample.engine.Moves m₁ m' ∧ m'.frames.length ≤ rest.length + 1
      ∧ ((∃ value, m'.frames = f.answered i value :: rest)
        ∨ (m'.frames.length ≤ rest.length
          ∧ ∃ other value, other ≠ .result ∧ Sample.engine.Lands m₁ m' other value rest)) := by
  have hframes : Sample.quietMachine.frames
      = entryFrame Sample.quietCode rootContext :: [holderFrame rootContext] := rfl
  obtain ⟨m₁, hrun, m', hmoves, hback⟩ : ∃ m₁, Sample.engine.after 7 Sample.quietMachine = some m₁
      ∧ ∃ m', Sample.engine.step m₁ = .ok () m' ∧ m'.frames.length ≤ 2 :=
    ⟨_, rfl, _, rfl, le_rfl⟩
  have hdeep : ∀ k m₂, 0 < k → k ≤ 7 → Sample.engine.after k Sample.quietMachine = some m₂ →
      2 < m₂.frames.length := by
    intro k m₂ hpos hk h₂
    interval_cases k <;> cases h₂ <;> decide
  have hreturns := activations_return rfl Sample.quietMachine_reached hframes rfl rfl
  exact ⟨_, _, _, m₁, m', Sample.quietMachine_reached, hframes, rfl, rfl, hrun, .inl hmoves, hback,
    hreturns.1 7 m₁ m' hrun (.inl hmoves) hdeep hback⟩

end ObjectMachine
