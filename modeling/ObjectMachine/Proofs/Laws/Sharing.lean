/-
A number or a string is one object.

However an evaluation is used, its heap is canonical (Heap/Sharing.lean):
the table of shared objects and the numbers and strings on the heap agree.
So strings can be compared by identity, as `==` does, and numbers with the
same key are the same object, whenever they are made.
-/
import Mathlib
import ObjectMachine.Proofs.Heap.Sharing
import ObjectMachine.Proofs.Laws.Safety
import ObjectMachine.Proofs.Session.Uses

namespace ObjectMachine

namespace Engine

variable {e : Engine} {m : Machine} {lists : List ObjectId → List ObjectId → Prop}

theorem Attained.canonical (hn : e.natives.Careful lists) (hm : e.Attained m) :
    m.heap.Canonical :=
  (hm.changes hn).canonical (Heap.initial_canonical ..)

end Engine

/-- The native `==` compares identities. -/
theorem Natives.core_same {native : Native}
    (h : Natives.core.get? CoreNames.objectClass "==" = some native) (w : World)
    {receiver other : ObjectId} {m : Machine} {f : Frame} {rest : List Frame}
    (hframes : m.frames = f :: rest) :
    (native.perform w receiver [other]).run m
      = .ok () { m with frames := f.push (.ofBool (decide (receiver = other))) :: rest } := by
  have hentry : Natives.core.get? CoreNames.objectClass "==" = some ⟨1, Natives.same⟩ := rfl
  cases hentry.symm.trans h
  exact Action.push_ok hframes _

namespace Engine

variable {e : Engine} {m : Machine}

/-- In every state that an evaluation can be brought to, the table of shared
objects is injective and holds every string and every number under its key,
where strings and numbers do not meet. So strings are the same object, and
equal, exactly if their texts are; numbers made at any two moments are the
same object exactly if their keys are; and no number and no string ever
changes. -/
theorem shared_objects_are_canonical (hn : e.natives.Careful fun _ _ => True)
    (hm : e.Attained m) :
    (∀ key key' id, m.heap.interned.lookup key = some id →
      m.heap.interned.lookup key' = some id → key = key')
    ∧ (∀ id o text, m.heap.object? id = some o → o.inner = some (.string text) →
      m.heap.interned.lookup (Heap.stringKey text) = some id)
    ∧ (∀ id o x, m.heap.object? id = some o → o.inner = some (.number x) →
      ∃ value, x = Number.canonical value
        ∧ m.heap.interned.lookup (Number.key value) = some id)
    ∧ (∀ text value, Heap.stringKey text ≠ Number.key value)
    ∧ (∀ id id' o o' text text', m.heap.object? id = some o → m.heap.object? id' = some o' →
      o.inner = some (.string text) → o'.inner = some (.string text') →
      (id = id' ↔ text = text')
      ∧ ∀ native f rest, Natives.core.get? CoreNames.objectClass "==" = some native →
        m.frames = f :: rest → (native.perform e.toWorld id [id']).run m
          = .ok () { m with frames := f.push (.ofBool (decide (text = text'))) :: rest })
    ∧ (∀ a b module module' m₁ m₂, m₁.heap = (m.heap.number a module).2 → e.Uses m₁ m₂ →
      m₂.heap.interned.lookup (Number.key a) = some (m.heap.number a module).1
      ∧ ((m.heap.number a module).1 = (m₂.heap.number b module').1
        ↔ Number.key a = Number.key b))
    ∧ ∀ id o inner m₂, m.heap.object? id = some o → o.inner = some inner →
      inner.isShared = true → e.Uses m m₂ →
      ∃ o₂, m₂.heap.object? id = some o₂ ∧ o₂.inner = some inner := by
  have hc := hm.canonical hn
  refine ⟨fun _ _ _ => hc.injective, fun id o text ho hinner => ?_, fun id o x ho hinner => ?_,
    Heap.stringKey_ne_key, fun id id' o o' text text' ho ho' hinner hinner' => ?_,
    fun a b module module' m₁ m₂ h₁ huses => ?_, fun id o inner m₂ ho hinner hshared huses => ?_⟩
  · obtain ⟨key, hkey, hl⟩ := hc.shared (Heap.shared?_eq_some ho hinner rfl)
    cases hkey
    exact hl
  · obtain ⟨key, hkey, hl⟩ := hc.shared (Heap.shared?_eq_some ho hinner rfl)
    cases hkey with
    | number value => exact ⟨value, rfl, hl⟩
  · have hiff := hc.string_eq_iff (Heap.shared?_eq_some ho hinner rfl)
      (Heap.shared?_eq_some ho' hinner' rfl)
    refine ⟨hiff, fun native f rest hnative hframes => ?_⟩
    rw [Natives.core_same hnative e.toWorld hframes, decide_eq_decide.2 hiff]
  · have hchanges := huses.changes hn
    rw [h₁] at hchanges
    exact ⟨hchanges.lookup_of_some (Heap.lookup_intern ..), hc.number_eq_iff hchanges⟩
  · have hlater := (huses.changes hn).shared?_of_some (Heap.shared?_eq_some ho hinner hshared)
    exact Option.bind_eq_some_iff.1 (Option.filter_eq_some_iff.1 hlater).1

end Engine

open Engine in
/-- A number that is made before a program runs, and again after it has
failed, is one object. -/
theorem sample_shares_numbers :
    Sample.engine.natives.Careful (fun _ _ => True)
      ∧ ∃ m₀ m₁ m₂, Sample.engine.start 10 = .ok () m₀ ∧ Sample.engine.Attained m₀
        ∧ m₁ = stateOf (Action.newNumber Sample.engine.toWorld 1.5 m₀)
        ∧ m₂ = stateOf (Sample.engine.runProgram 100 "main" m₁)
        ∧ (m₀.heap.number 1.5 5).1 = (m₂.heap.number 1.5 5).1 := by
  have hcareful : Sample.engine.natives.Careful fun _ _ => True :=
    Natives.core_careful.mono fun _ _ _ => trivial
  obtain ⟨m₀, hstart⟩ : ∃ m₀, Sample.engine.start 10 = .ok () m₀ := ⟨_, rfl⟩
  have hattained : Sample.engine.Attained m₀ := by
    have hglobals :=
      Use.globals (e := Sample.engine) (m := { heap := Sample.engine.initialHeap }) 10
    rw [show Sample.engine.initializeGlobals 10 _ = .ok () m₀ from hstart] at hglobals
    exact .single hglobals
  obtain ⟨-, -, -, -, -, hnumbers, -⟩ := shared_objects_are_canonical hcareful hattained
  refine ⟨hcareful, m₀, _, _, hstart, hattained, rfl, rfl, ?_⟩
  exact (hnumbers 1.5 1.5 5 5 _ _ rfl (.single (.program 100 "main"))).2.2 rfl

end ObjectMachine
