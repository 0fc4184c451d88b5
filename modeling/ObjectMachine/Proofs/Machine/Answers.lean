/-
What a call leaves behind.

Whoever answers a call, a native method or code of the program, does one of
three things to the frame that made the call, `f`: it pushes one value on
it; or it makes the frame wait for a return and starts one new frame on top
of it, with code that ends by returning; or it faults, and then the frames
under `f` are as they were. `Action.Answers` says so of an action, and the
rules below build it up along the action.
-/
import Mathlib
import ObjectMachine.Proofs.Code.Emitted
import ObjectMachine.Proofs.Machine.Actions

namespace ObjectMachine

/-- What a call made by `f` on top of `rest` has come to: a value, or a frame
that returns one. -/
inductive Answered (S : Prop) (binds : String → Prop) (f : Frame) (rest : List Frame)
    (m : Machine) : Prop
  | value {value : ObjectId} (frames : m.frames = f.push value :: rest)
      (known : S → value < m.heap.size)
  | start {code : Code} {context : ContextId}
      (frames : m.frames = { code, context } :: f.resuming [.return] :: rest)
      (runs : Runs binds .method none code 0)
      (known : S → (∀ id ∈ constantsOf code, id < m.heap.size)
        ∧ context < m.heap.contexts.size)

namespace Action

/-- An action that ends `Answered` and keeps the first `n` contexts, or
faults. -/
def Answers (S : Prop) (binds : String → Prop) (n : Nat) (a : Action Unit) (m : Machine) : Prop :=
  ∀ f rest, m.frames = f :: rest →
    Ensures a m (fun _ m' => m.Grown S n m' ∧ Answered S binds f rest m')
      fun fault m' => m.Grown S n m' ∧ m'.frames.tail = rest ∧ fault.Lawful S m'.heap

variable {α : Type} {S : Prop} {binds : String → Prop} {n : Nat} {m : Machine}

theorem Touches.answers {a : Action α} {k : α → Action Unit} {P : α → Machine → Prop}
    (h : Touches S n a m P)
    (hk : ∀ value m', m.Touched S n m' → P value m' → Answers S binds n (k value) m') :
    Answers S binds n (a >>= k) m := by
  intro f rest hf
  have ha := Ensures.mono h (fun _ _ h => h) fun fault m' hm =>
    show m.Grown S n m' ∧ m'.frames.tail = rest ∧ fault.Lawful S m'.heap from
      ⟨hm.1.toGrown, by rw [hm.1.frames, hf]; rfl, hm.2⟩
  refine Ensures.bind ha fun value m' hm => ?_
  refine Ensures.mono (hk value m' hm.1 hm.2 f rest (hm.1.frames.trans hf)) ?_ ?_
  · exact fun _ m'' h'' => ⟨hm.1.toGrown.trans h''.1, h''.2⟩
  · exact fun _ m'' h'' => ⟨hm.1.toGrown.trans h''.1, h''.2⟩

theorem Reads.answers {a : Action α} {k : α → Action Unit} {P : α → Prop} (h : Reads a m P)
    (hk : ∀ value, P value → Answers S binds n (k value) m) : Answers S binds n (a >>= k) m := by
  refine h.touches.answers fun value m' _ hm => ?_
  obtain ⟨rfl, hv⟩ := hm
  exact hk value hv

theorem throw_answers {fault : Fault} (h : fault.Lawful S m.heap) :
    Answers S binds n (MonadExcept.throw fault : Action Unit) m := by
  intro f rest hf
  exact Ensures.throw ⟨.refl S n m, by rw [hf]; rfl, h⟩

/-- `onFrame` changes the running frame. -/
theorem onFrame_ensures {g : Frame → Option (α × Frame)} {f f' : Frame} {rest : List Frame}
    {value : α} {bad : Fault → Machine → Prop} (hf : m.frames = f :: rest)
    (hg : g f = some (value, f')) :
    Ensures (onFrame g) m (fun v m' => v = value ∧ m' = { m with frames := f' :: rest }) bad := by
  simp only [Ensures, onFrame, hf, hg, and_self]

/-- `pushFrame` starts a frame, or there are too many. -/
theorem pushFrame_ensures (w : World) (frame : Frame) :
    Ensures (pushFrame w frame) m (fun _ m' => m' = { m with frames := frame :: m.frames })
      fun fault m' => m' = m ∧ fault.plain = true := by
  unfold pushFrame Ensures
  by_cases h : m.frames.length < w.maxFrames
  · simp only [h, if_true]
  · simp only [h, if_false]
    exact ⟨trivial, rfl⟩

theorem push_answers {value : ObjectId} (known : S → value < m.heap.size) :
    Answers S binds n (push value) m := by
  intro f rest hf
  simp only [Ensures, push, onFrame, hf]
  exact ⟨.of_frames S n m _, .value rfl known⟩

theorem pushReturning_answers (w : World) {code : Code} {context : ContextId}
    (runs : Runs binds .method none code 0)
    (known : S → (∀ id ∈ constantsOf code, id < m.heap.size)
      ∧ context < m.heap.contexts.size) :
    Answers S binds n (pushReturning w code context) m := by
  intro f rest hf
  refine Ensures.bind (onFrame_ensures hf rfl) fun _ m₁ h₁ => ?_
  obtain ⟨-, rfl⟩ := h₁
  refine Ensures.mono (pushFrame_ensures w _) ?_ ?_
  · rintro _ m₂ rfl
    exact ⟨.of_frames S n m _, .start rfl runs known⟩
  · rintro fault m₂ ⟨rfl, hfault⟩
    exact ⟨.of_frames S n m _, rfl, .of_plain hfault⟩

end Action

end ObjectMachine
