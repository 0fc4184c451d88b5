/-
Evaluations do not go wrong.

Some faults say that the machine itself is broken: an operand, a frame, an
object or a pending interruption is missing that must be there
(`Fault.internal`). No instruction of an evaluation raises one, whatever
becomes of the fault afterwards; and a program or a test that is run to its
end has a value or one of the failures of Session/Outcomes.lean.
-/
import Mathlib
import ObjectMachine.Proofs.Session.Outcomes

namespace ObjectMachine

namespace Engine

/-- The next instruction raises no internal fault. -/
def Secure (e : Engine) (m : Machine) : Prop :=
  ∀ f rest i fault m', m.frames = f :: rest → f.code[f.pc]? = some i →
    e.execute i { m with frames := f.next :: rest } = .error fault m' → fault.internal = false

/-- How a program or a test may end: idle, with a value that exists or with
a failure to be expected. A run whose steps are used up is not at its end. -/
def EndsWell (e : Engine) : EStateM.Result Stop Machine ObjectId → Prop
  | .ok value m => e.Idle m ∧ value < m.heap.size
  | .error (.failed failure) m => e.Idle m ∧ failure.Expected e.program
  | .error .outOfSteps m => e.Reached m

variable {e : Engine} {m : Machine}

theorem endsWell_of_ensures {a : Run ObjectId} {m : Machine}
    (h : Ensures a m (fun value m' => e.IdleAfter m m' ∧ value < m'.heap.size) e.Stopped) :
    e.EndsWell (a m) := by
  cases hrun : a m with
  | ok value m' => exact ⟨(h.of_ok hrun).1.toIdle, (h.of_ok hrun).2⟩
  | error stop m' =>
      have hstopped := h.of_error hrun
      cases stop with
      | outOfSteps => exact hstopped.reached
      | failed failure =>
          obtain ⟨hexpected, hidle⟩ := hstopped.failed failure rfl
          exact ⟨⟨hstopped.reached, hidle⟩, hexpected⟩

/-- A frame that waits alone for a value has no instruction left, and every
other one that is `Reached` has the operands for its next instruction. -/
theorem Reached.secure (he : e.natives.Lawful) (h : e.Reached m) : e.Secure m := by
  intro f rest i fault m' hframes hi hfails
  obtain ⟨hsound, hshape⟩ := h.sound_and_shape (.of_natives he)
  rw [hframes] at hshape
  cases hshape with
  | done _ hempty => simp [hempty] at hi
  | running region =>
      obtain ⟨htakes, hpending⟩ := region.ready (fun hdone => hdone.1 rfl) hi
      have hexec := execute_next (S := True) (.of_natives he) hframes (fun _ => hsound) hi htakes
        hpending
      exact (hexec.of_error hfails).lawful.internal trivial

theorem create_natives {program : Program} {natives : Natives} {maxFrames : Nat}
    (h : create program natives maxFrames = .ok e) : e.natives = natives := by
  obtain ⟨_, -, rfl⟩ := create_eq_ok.1 h
  rfl

/-- In no `Reached` state does an instruction raise an internal fault
(`Secure`). Programs and tests, run from an `Idle` state, end idle: with a
value, or because what is run does not exist, does not compile or throws
(`EndsWell`). -/
theorem evaluation_never_goes_wrong {program : Program} {maxFrames steps₀ : Nat} {m₀ : Machine}
    (hcreate : create program Natives.core maxFrames = .ok e)
    (hstart : e.start steps₀ = .ok () m₀) :
    e.Idle m₀ ∧ (∀ m, e.Reached m → e.Secure m)
      ∧ ∀ m, e.Idle m → ∀ steps,
        (∀ name, e.EndsWell (e.runProgram steps name m))
          ∧ ∀ test, e.EndsWell (e.runTest steps test m) := by
  have he : e.natives.Lawful := create_natives hcreate ▸ Natives.core_lawful
  obtain ⟨hmax, hidle⟩ := start_idle he hstart
  refine ⟨hidle, fun m hm => hm.secure he, fun m hm steps => ⟨fun name => ?_, fun test => ?_⟩⟩
  · exact endsWell_of_ensures (runProgram_ensures he hmax hm steps name)
  · exact endsWell_of_ensures (runTest_ensures he hmax hm steps test)

end Engine

namespace Sample

open Build

/-- The classes of `CoreModules` and no others, all of them empty but for what
is put into `List`. -/
def library (ofLists : List Tree) : Tree :=
  package "wollok" [package "lang"
    (["Object", "Boolean", "Number", "String", "EvaluationError"].map
      (fun name => classNamed name []) ++ [classNamed "List" ofLists])]

/-- What `Engine.create` makes, with a limit of eight frames, of a forest that
begins with `library`. -/
def engineOf (forest : List Tree) : Engine where
  program := .ofTree (Program.numbered none forest)
  core := ⟨3, 4, 5, 6, 8, 7⟩
  maxFrames := 8
  natives := Natives.core

/-- Two programs. The only message of the first one nobody understands, but
its always block answers all the same; the second one has nothing to
handle. -/
def forest : List Tree :=
  [library [],
   program "main" [tryAlways [send self "greet" []] [] [answer (boolean true)]],
   program "quiet" [tryAlways [boolean true] [] [null]]]

def program : Program := .ofTree (Program.numbered none forest)

def engine : Engine := engineOf forest

end Sample

open Engine in
/-- The sample starts, and its program ends as programs may. -/
theorem sample_never_goes_wrong :
    create Sample.program Natives.core 8 = .ok Sample.engine
      ∧ ∃ m₀, Sample.engine.start 10 = .ok () m₀ ∧ Sample.engine.Idle m₀
        ∧ (∀ m, Sample.engine.Reached m → Sample.engine.Secure m)
        ∧ Sample.engine.EndsWell (Sample.engine.runProgram 100 "main" m₀) := by
  have hcreate : create Sample.program Natives.core 8 = .ok Sample.engine := rfl
  obtain ⟨m₀, hstart⟩ : ∃ m₀, Sample.engine.start 10 = .ok () m₀ := ⟨_, rfl⟩
  obtain ⟨hidle, hsecure, hends⟩ := evaluation_never_goes_wrong hcreate hstart
  exact ⟨hcreate, m₀, hstart, hidle, hsecure, (hends m₀ hidle 100).1 "main"⟩

end ObjectMachine
