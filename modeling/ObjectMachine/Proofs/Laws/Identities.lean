/-
No identity dangles.

Frames, contexts, objects and the table of shared objects refer to one
another by identities, which are positions in the tables of the heap, and
objects refer to their modules, which are nodes of the program. In every
state of an evaluation all of them lead somewhere (`Machine.Grounded`), and
an object is where its own identity says.

Nothing is ever taken out of a table, so what existed still exists; what is
new refers to what exists by Session/Reached.lean (`Machine.Sound`), and is an
instance of a node by Session/Instances.lean.
-/
import Mathlib
import ObjectMachine.Proofs.Laws.Safety
import ObjectMachine.Proofs.Session.Instances

namespace ObjectMachine

/-- Every identity in a machine is that of an object, a context or a node
that exists. -/
structure Machine.Grounded (p : Program) (m : Machine) : Prop where
  operand : ∀ f ∈ m.frames, ∀ id ∈ f.operands, id < m.heap.size
  context : ∀ f ∈ m.frames, f.context < m.heap.contexts.size
  binding : ∀ c context, m.heap.context? c = some context → ∀ entry ∈ context.locals,
    entry.2 < m.heap.size
  enclosing : ∀ c context, m.heap.context? c = some context → ∀ link,
    context.parent = some link → m.heap.Has link
  field : ∀ id o, m.heap.object? id = some o → ∀ entry ∈ o.fields, entry.2 < m.heap.size
  element : ∀ id o elements, m.heap.object? id = some o → o.inner = some (.collection elements) →
    ∀ x ∈ elements, x < m.heap.size
  captured : ∀ id o, m.heap.object? id = some o → o.parent < m.heap.contexts.size
  identity : ∀ id o, m.heap.object? id = some o → o.id = id
  module : ∀ id o, m.heap.object? id = some o → (p.tree? o.module).isSome
  shared : ∀ entry ∈ m.heap.interned, entry.2 < m.heap.size

/-- In a `Sound` machine identities exist, and the modules of its objects are
nodes by `InstancesOf`. -/
theorem Machine.Sound.grounded {p : Program} {m : Machine} (hs : m.Sound)
    (hi : m.heap.InstancesOf fun module _ => module < p.size) : m.Grounded p where
  operand f hf := (hs.frames f hf).operands
  context f hf := (hs.frames f hf).context
  binding c context hc entry hentry :=
    (hs.heap.context hc).1 entry.2 (List.mem_map_of_mem hentry)
  enclosing c context hc := (hs.heap.context hc).2
  field id o ho entry hentry :=
    (hs.heap.object ho).1 entry.2 (List.mem_append_left _ (List.mem_map_of_mem hentry))
  element id o elements ho hinner x hx := by
    refine (hs.heap.object ho).1 x (List.mem_append_right _ ?_)
    rw [hinner]
    exact hx
  captured id o ho := (hs.heap.object ho).2
  identity id o ho := (hi id o ho).1
  module id o ho := by
    have hlt : o.module < p.sites.size := (hi id o ho).2
    rw [Program.tree?, Program.site?, Array.getElem?_eq_getElem hlt]
    rfl
  shared := hs.heap.interned

namespace Engine

variable {e : Engine} {m : Machine}

/-- A run passes through `Visited` states and ends in one, also if it is
`Halted`. -/
theorem visited_of_ensures {α : Type} {a : Run α} {ok : α → Machine → Prop}
    (h : Ensures a m ok (e.Halted e.Visited)) (hok : ∀ value m', ok value m' → e.Visited m') :
    e.Visited (stateOf (a m)) := by
  cases hrun : a m with
  | ok value m' => exact hok value m' (h.of_ok hrun)
  | error stop m' => exact (h.of_error hrun).2

/-- In every `Visited` state of a linked program, no identity dangles
(`Grounded`). The states are closed under running programs and tests, wherever a
run stops. -/
theorem identities_never_dangle {p : Program} {maxFrames steps₀ : Nat} {m₀ : Machine}
    (hp : p.Linked) (hcreate : create p Natives.core maxFrames = .ok e)
    (hstart : e.start steps₀ = .ok () m₀) :
    e.Visited m₀ ∧ m₀.frames = [] ∧ (∀ m, e.Visited m → m.Grounded p)
      ∧ ∀ m, e.Visited m → m.frames = [] → ∀ steps,
        (∀ name, e.Visited (stateOf (e.runProgram steps name m)))
          ∧ ∀ test, e.Visited (stateOf (e.runTest steps test m)) := by
  have he : e.natives.Lawful := create_natives hcreate ▸ Natives.core_lawful
  obtain ⟨rfl, hmakes⟩ := makesOnly_of_create hp hcreate
  obtain ⟨hmax, hidle, hvisited⟩ := start_keeps he Visited.keeps ⟨_, .initial⟩ hstart
  refine ⟨hvisited, hidle.idle, fun m hm => ?_, fun m hm idle steps => ?_⟩
  · obtain ⟨j, htraced⟩ := id hm
    have hsound := ((htraced.reached he).sound_and_shape (.of_natives he)).1
    exact hsound.grounded (hm.instancesOf hmakes)
  · obtain ⟨j, htraced⟩ := id hm
    have hfrom : e.Idle m := ⟨htraced.reached he, idle⟩
    exact ⟨fun name => visited_of_ensures
        (runProgram_keeps he hmax Visited.keeps hfrom hm steps name) fun _ _ h => h.kept,
      fun test => visited_of_ensures
        (runTest_keeps he hmax Visited.keeps hfrom hm steps test) fun _ _ h => h.kept⟩

end Engine

open Engine in
/-- The sample throws an exception on its way, whose message is shared and
kept in a field. -/
theorem sample_identities_never_dangle :
    Sample.program.Linked ∧ create Sample.program Natives.core 8 = .ok Sample.engine
      ∧ ∃ m₀, Sample.engine.start 10 = .ok () m₀
        ∧ (stateOf (Sample.engine.runProgram 100 "main" m₀)).Grounded Sample.program := by
  have hlinked : Sample.program.Linked :=
    .link (fun _ hnone => by cases hnone) (by decide +kernel)
      (show Program.link none Sample.forest = .ok Sample.program from rfl)
  have hcreate : create Sample.program Natives.core 8 = .ok Sample.engine := rfl
  obtain ⟨m₀, hstart⟩ : ∃ m₀, Sample.engine.start 10 = .ok () m₀ := ⟨_, rfl⟩
  obtain ⟨hvisited, hidle, hgrounded, hruns⟩ := identities_never_dangle hlinked hcreate hstart
  exact ⟨hlinked, hcreate, m₀, hstart, hgrounded _ ((hruns m₀ hvisited hidle 100).1 "main")⟩

end ObjectMachine
