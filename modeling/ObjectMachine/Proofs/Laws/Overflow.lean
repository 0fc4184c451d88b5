/-
Protected blocks for which there is no room.

A protected block pushes three frames, and the stack may be too full for
the first, the second or the third of them. The fault is raised on what was
pushed until then. The frame on top of that is left first, as if it had
faulted: so with room for none or one of the frames the exception leaves
the frame that executes the instruction, as it should. With room for two
the handler is left in its place, and the always block takes the exception
and is run, although the body never was (`overfull_blocks_are_not_entered`).
-/
import Mathlib
import ObjectMachine.Proofs.Laws.AlwaysBlocks
import ObjectMachine.Proofs.Machine.Changes
import ObjectMachine.Proofs.Machine.Turns

namespace ObjectMachine

namespace Engine

open ObjectMachine.Action

variable {e : Engine} {f : Frame} {rest : List Frame} {m m' : Machine}

-- ======================================================= the instruction

/-- `pushBlock` of one of the frames of a protected block, with `count` contexts
made before. -/
theorem pushBlock_fits {count : Nat} {frames : List Frame} (h : frames.length < e.maxFrames)
    (code : Code) (resume : List Interruption) :
    (e.pushBlock f.context code resume).run { m with heap := sheltered f count m.heap, frames }
      = .ok () { m with
          heap := sheltered f (count + 1) m.heap
          frames := { code, context := m.heap.contexts.size + count, resume } :: frames } := by
  rw [pushBlock_eq, contexts_size_sheltered, ← sheltered_succ]
  simp only [EStateM.run, pushFrame, h, if_true]

theorem pushBlock_full {count : Nat} {frames : List Frame} (h : e.maxFrames ≤ frames.length)
    (code : Code) (resume : List Interruption) :
    (e.pushBlock f.context code resume).run { m with heap := sheltered f count m.heap, frames }
      = .error (.stackOverflow e.maxFrames)
          { m with heap := sheltered f (count + 1) m.heap, frames } := by
  rw [pushBlock_eq, contexts_size_sheltered, ← sheltered_succ]
  simp only [EStateM.run, pushFrame, Nat.not_lt.2 h, if_false]

/-- The frames of a protected block, as many of them as there is room for. -/
def pushed (handler always : Code) (size : Nat) (room : Nat) : List Frame :=
  ([{ code := always, context := size, resume := Interruption.all },
    handlerFrame handler (size + 1)].take room).reverse

/-- `execute` of a protected block that does not fit leaves the frames that do
(`pushed`). -/
theorem execute_overfull (hf : m.frames = f :: rest) {room : Nat}
    (hroom : e.maxFrames - m.frames.length = room) (few : room < 3) (body handler always : Code) :
    (e.execute (.tryCatchAlways body handler always)).run m
      = .error (.stackOverflow e.maxFrames) { m with
          heap := sheltered f (room + 1) m.heap
          frames := pushed handler always m.heap.contexts.size room
            ++ f.resuming [.result] :: rest } := by
  rw [hf, List.length_cons] at hroom
  rw [execute, bind_ok (frame_ok hf)]
  dsimp only
  rw [bind_ok (await_ok hf _)]
  change EStateM.run _ { m with heap := sheltered f 0 m.heap, frames := _ } = _
  match room, few with
  | 0, _ =>
      rw [bind_error (pushBlock_full (by rw [List.length_cons]; omega) ..)]
      rfl
  | 1, _ =>
      rw [bind_ok (pushBlock_fits (by rw [List.length_cons]; omega) ..),
        bind_error (pushBlock_full (by simp only [List.length_cons]; omega) ..)]
      rfl
  | 2, _ =>
      rw [bind_ok (pushBlock_fits (by rw [List.length_cons]; omega) ..),
        bind_ok (pushBlock_fits (by simp only [List.length_cons]; omega) ..),
        bind_error (pushBlock_full (by simp only [List.length_cons]; omega) ..)]
      rfl

theorem step_overfull (hf : m.frames = f :: rest) {body handler always : Code}
    (hi : f.code[f.pc]? = some (.tryCatchAlways body handler always)) {room : Nat}
    (hroom : e.maxFrames - m.frames.length = room) (few : room < 3) :
    e.step m = e.raise (.stackOverflow e.maxFrames) { m with
      heap := sheltered f (room + 1) m.heap
      frames := pushed handler always m.heap.contexts.size room
        ++ f.next.resuming [.result] :: rest } := by
  rw [hf, List.length_cons] at hroom
  have hrun := execute_overfull (e := e) (m := { m with frames := f.next :: rest }) rfl
    (by rw [List.length_cons]; exact hroom) few body handler always
  rw [EStateM.run] at hrun
  rw [step_eq hf hi, hrun]
  rfl

/-- `raise` looks at the frames below the one on top, and at those only. -/
theorem raise_congr (fault : Fault) (m : Machine) {frames frames' : List Frame}
    (h : unwind .exception frames.tail = unwind .exception frames'.tail) :
    e.raise fault { m with frames } = e.raise fault { m with frames := frames' } := by
  have hinterrupt : ∀ (value : ObjectId) (heap : Heap),
      e.interrupt .exception value { m with heap, frames }
        = e.interrupt .exception value { m with heap, frames := frames' } := by
    intro value heap
    simp only [interrupt, h]
  by_cases hthrown : ∃ id, fault = .thrown id
  · obtain ⟨id, rfl⟩ := hthrown
    exact hinterrupt id m.heap
  · have hexception : ∀ frames, e.exceptionOf fault { m with frames }
        = .ok m.heap.size { m with
            heap := e.toWorld.withMessage e.core.evaluationError fault.message m.heap
            frames } := by
      intro frames
      cases fault with
      | thrown id => exact absurd ⟨id, rfl⟩ hthrown
      | _ => exact newWithMessage_eq ..
    simp only [raise_eq, hexception]
    exact hinterrupt _ _

/-- `raise` of a fault only takes frames away. -/
theorem raise_ok {fault : Fault} (h : e.raise fault m = .ok () m') :
    m.heap.Grows m'.heap ∧ ∀ g ∈ m'.frames, ∃ k ∈ m.frames.tail, g.context = k.context := by
  obtain ⟨value, m₁, hraises, heq⟩ := raise_raises (e := e) fault m
  rw [heq] at h
  have hunwinds := interrupt_unwinds (e := e) .exception value m₁
  rw [h] at hunwinds
  have hframes : m₁.frames = m.frames := by cases hraises <;> rfl
  refine ⟨hunwinds.heap_eq ▸ hraises.changes.grows, fun g hg => ?_⟩
  cases hunwinds with
  | @caught first below unwinds =>
      rw [hframes] at unwinds
      obtain ⟨k, hk, halike⟩ : ∃ k ∈ first :: below, g.context = k.context := by
        rcases List.mem_cons.1 hg with rfl | hg
        · exact ⟨first, List.mem_cons_self, rfl⟩
        · exact ⟨g, List.mem_cons_of_mem _ hg, rfl⟩
      obtain ⟨k', hk', hsame⟩ := mem_unwind (unwinds ▸ hk)
      exact ⟨k', hk', halike.trans hsame.context⟩

-- ========================================================= what follows

/-- Contexts in which no frame runs stay without frames. -/
theorem after_avoids (hnatives : e.natives = Natives.core) {low high : Nat} (hlow : 0 < low)
    (hhigh : high ≤ m.heap.contexts.size)
    (h : ∀ g ∈ m.frames, g.context < low ∨ high ≤ g.context) {n : Nat}
    (hrun : e.after n m = some m') :
    high ≤ m'.heap.contexts.size ∧ ∀ g ∈ m'.frames, g.context < low ∨ high ≤ g.context := by
  induction n generalizing m' with
  | zero =>
      cases hrun
      exact ⟨hhigh, h⟩
  | succ n ih =>
      obtain ⟨m₁, h₁, hstep⟩ := after_succ.1 hrun
      obtain ⟨hhigh₁, hframes₁⟩ := ih h₁
      have hgrows := (step_changes (e := e) (hnatives ▸ Natives.core_careful) m₁).grows
      rw [hstep] at hgrows
      refine ⟨hhigh₁.trans hgrows.contexts_size_le, fun g hg => ?_⟩
      have hne : m₁.frames ≠ [] := by
        intro hnil
        simp [step, hnil] at hstep
      rcases step_above (hnatives ▸ Natives.core_tactful) (List.append_nil m₁.frames).symm hne
        (.inl hstep) with ⟨above, hframes, hfrom⟩ | ⟨kind, value, hlands⟩
      · rw [hframes, List.append_nil] at hg
        rcases hfrom g hg with ⟨k, hk, hsame⟩ | hroot | hnew
        · exact hsame ▸ hframes₁ k hk
        · exact .inl (hroot ▸ hlow)
        · exact .inr (hhigh₁.trans hnew)
      · rw [hlands.frames] at hg
        cases hg

end Engine

/-- A protected block for which there is no room, in a `Reached` state. Unless
exactly two of its three frames fit, the fault is raised as by the frame that
executes the instruction, and no frame ever runs in a context that was made for
the block. If two of them fit, the always block is entered by the exception, and
runs. -/
theorem overfull_blocks_are_not_entered {e : Engine} (hnatives : e.natives = Natives.core)
    {m : Machine} {f : Frame} {rest : List Frame} {body handler always : Code} (hm : e.Reached m)
    (hframes : m.frames = f :: rest)
    (hi : f.code[f.pc]? = some (.tryCatchAlways body handler always))
    (hfull : e.maxFrames < m.frames.length + 3) :
    (m.frames.length + 2 ≠ e.maxFrames →
      ∃ heap, e.step m = e.raise (.stackOverflow e.maxFrames)
          { m with heap, frames := f.next :: rest }
        ∧ ∀ m' n s g, e.step m = .ok () m' → e.after n m' = some s → g ∈ s.frames →
          g.context < m.heap.contexts.size ∨ heap.contexts.size ≤ g.context)
    ∧ (m.frames.length + 2 = e.maxFrames →
      ∃ m' value, e.step m = .ok () m'
        ∧ m'.frames = { code := always, context := m.heap.contexts.size, operands := [value],
                        pending := some .exception }
          :: f.waiting (.tryCatchAlways body handler always) .result :: rest) := by
  have he : e.Orderly Rules.free.binds := .of_natives (hnatives ▸ Natives.core_lawful)
  obtain ⟨-, -, t, -, hrunning⟩ := hm.starting he hframes hi rfl
  have hsound := (hm.sound_and_shape he).1
  have hnone : .exception ∉ (f.next.resuming [.result]).resume := by
    show .exception ∉ f.resume ++ [.result]
    rw [hrunning.resume]
    decide
  refine ⟨fun hother => ?_, fun htwo => ?_⟩
  · -- Whichever frame is left first, the next one that waits is below `f`.
    obtain ⟨room, hroom, hstep⟩ : ∃ room < 2, e.step m = e.raise (.stackOverflow e.maxFrames)
        { m with heap := Engine.sheltered f (room + 1) m.heap, frames := f.next :: rest } := by
      refine ⟨e.maxFrames - m.frames.length, by omega, ?_⟩
      rw [Engine.step_overfull hframes hi rfl (by omega)]
      refine Engine.raise_congr _ { m with heap := _ } ?_
      obtain hroom | hroom : e.maxFrames - m.frames.length = 0
          ∨ e.maxFrames - m.frames.length = 1 := by omega
      · rw [hroom]
        rfl
      · rw [hroom]
        exact (unwind_cons ..).trans (if_neg hnone)
    refine ⟨_, hstep, fun m' n s g hok hrun hg => ?_⟩
    obtain ⟨hgrows, hcontexts⟩ := Engine.raise_ok (hstep.symm.trans hok)
    refine (Engine.after_avoids hnatives hsound.heap.root hgrows.contexts_size_le (fun g hg => ?_)
      hrun).2 g hg
    obtain ⟨k, hk, hsame⟩ := hcontexts g hg
    have hknown := (hsound.frames k (hframes ▸ List.mem_cons_of_mem _ hk)).context
    exact .inl (hsame ▸ hknown)
  · have hroom : e.maxFrames - m.frames.length = 2 := by omega
    rw [Engine.step_overfull hframes hi hroom (by decide)]
    obtain ⟨value, m₁, hraises, heq⟩ := Engine.raise_raises (e := e) (.stackOverflow e.maxFrames)
      { m with
        heap := Engine.sheltered f 3 m.heap
        frames := Engine.pushed handler always m.heap.contexts.size 2
          ++ f.next.resuming [.result] :: rest }
    rw [heq]
    cases hraises with
    | made _ => exact ⟨_, _, rfl, rfl⟩

/-- An `Entry` does not depend on how many frames there may be. -/
theorem Engine.Entry.limited {e : Engine} {code : Code} (h : e.Entry code) (limit : Nat) :
    Engine.Entry { e with maxFrames := limit } code := by
  cases h with
  | globals compiles => exact .globals compiles
  | block inside block compiles => exact .block inside block compiles
  | describe module => exact .describe module

namespace Sample

/-- The sample with less room for frames. -/
def narrow (limit : Nat) : Engine := { engine with maxFrames := limit }

theorem quietMachine_narrow (limit : Nat) : (narrow limit).Reached quietMachine :=
  .enter .initial rfl (quietCode_entry.limited limit) Nat.one_pos

end Sample

/-- With room for the always block only, the sample leaves the frame that
executes the instruction. -/
theorem sample_overfull_block_is_not_entered :
    ∃ f rest i heap, (Sample.narrow 3).Reached Sample.quietMachine
      ∧ Sample.quietMachine.frames = f :: rest ∧ f.code[f.pc]? = some i
      ∧ i.awaits? = some .result
      ∧ (Sample.narrow 3).step Sample.quietMachine = (Sample.narrow 3).raise (.stackOverflow 3)
          { Sample.quietMachine with heap, frames := f.next :: rest } := by
  obtain ⟨heap, hstep, -⟩ := (overfull_blocks_are_not_entered (e := Sample.narrow 3) rfl
    (Sample.quietMachine_narrow 3) rfl rfl (by decide)).1 (by decide)
  exact ⟨_, _, _, heap, Sample.quietMachine_narrow 3, rfl, rfl, rfl, hstep⟩

/-- With room for the always block and the handler, the always block is
entered and executes its first instruction. -/
theorem overfull_block_runs_always :
    (Sample.narrow 4).Reached Sample.quietMachine
      ∧ ∃ m' m'' g g' below, (Sample.narrow 4).step Sample.quietMachine = .ok () m'
        ∧ m'.frames = g :: below ∧ g.code = alwaysCode [.push ObjectId.null] ∧ g.pc = 0
        ∧ g.pending = some .exception
        ∧ (Sample.narrow 4).step m' = .ok () m'' ∧ m''.frames = g' :: below ∧ g'.code = g.code
        ∧ g'.pc = 1 :=
  ⟨Sample.quietMachine_narrow 4, _, _, _, _, _, rfl, rfl, rfl, rfl, rfl, rfl, rfl, rfl, rfl⟩

end ObjectMachine
