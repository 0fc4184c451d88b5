/-
Nothing is lost, and scopes stay where they are.

A step of the machine only ever adds to the heap (`Heap.Grows`), also when it
faults and frames are left. So a closure goes on hanging from the context it
was written in, and the context of an activation from the closure. A name
that neither of the two binds is seen from the activation as it is seen from
where the closure was written: the chains of links are the same from there
on, and a lookup follows them to their ends (Heap/Chains.lean).
-/
import Mathlib
import ObjectMachine.Proofs.Heap.Chains
import ObjectMachine.Proofs.Laws.Identities
import ObjectMachine.Proofs.Session.Uses

namespace ObjectMachine

/-- A block of code as an object. -/
def Kind.isClosure {α : Type} : Kind α → Bool
  | .singleton none _ _ _ _ true => true
  | _ => false

namespace Engine

/-- A step that makes the closure `closure` in the context `scope`. -/
structure MakesClosure (e : Engine) (m m' : Machine) (scope : ContextId) (closure : ObjectId) :
    Prop where
  step : e.step m = .ok () m'
  instruction : ∃ f rest module, m.frames = f :: rest
    ∧ f.code[f.pc]? = some (.instantiate module none)
    ∧ e.program.isKind Kind.isClosure module ∧ f.context = scope
  made : closure = m.heap.size

/-- A step that sends a message to `receiver` and starts code for it, in the
context `scope`. -/
structure Activates (e : Engine) (m m' : Machine) (receiver : ObjectId) (scope : ContextId) :
    Prop where
  step : e.step m = .ok () m'
  instruction : ∃ f rest message arity start, m.frames = f :: rest
    ∧ f.code[f.pc]? = some (.call message arity start) ∧ f.operands[arity]? = some receiver
  begins : m.frames.length < m'.frames.length
  runs : ∃ g below, m'.frames = g :: below ∧ g.context = scope

variable {e : Engine} {m m' : Machine}

-- =============================================================== closures

/-- `instanceIn` makes a closure hang from where it is made, and it is not
`self` to its code. -/
theorem instanceIn_closure {module : NodeId} (h : e.program.isKind Kind.isClosure module)
    (context : ContextId) :
    e.instanceIn context module = { module, parent := context, answersSelf := false } := by
  rw [Program.isKind] at h
  unfold instanceIn
  cases hkind : e.program.kind? module with
  | none =>
      rw [hkind] at h
      cases h
  | some kind =>
      rw [hkind] at h
      have hclosure : kind.isClosure = true := h
      unfold Kind.isClosure at hclosure
      split at hclosure
      · rfl
      · cases hclosure

theorem MakesClosure.object {scope : ContextId} {closure : ObjectId}
    (h : e.MakesClosure m m' scope closure) :
    ∃ o, m'.heap.object? closure = some o ∧ o.parent = scope ∧ o.answersSelf = false
      ∧ o.inner = none := by
  obtain ⟨f, rest, module, hframes, hcode, hkind, rfl⟩ := h.instruction
  have hmake := execute_make (e := e) (m := { m with frames := f.next :: rest }) rfl module
  have hstep := h.step
  rw [EStateM.run] at hmake
  simp only [Engine.step, hframes, hcode] at hstep
  rw [show ({ f with pc := f.pc + 1 } : Frame) = f.next from rfl, hmake] at hstep
  cases hstep
  rw [h.made]
  refine ⟨_, (Heap.object?_allocate ..).trans (if_pos rfl), ?_⟩
  rw [instanceIn_closure hkind]
  exact ⟨rfl, rfl, rfl⟩

-- ============================================================ activations

section

variable {g : Frame} {rest : List Frame} {receiver : ObjectId} {args : List ObjectId}

/-- A native method (`Performs`) that faults leaves the frames below as they
are. -/
theorem Performs.tail_of_error {w : World} {fault : Fault}
    (h : Natives.Performs w receiver args g rest m (.error fault m'))
    (hframes : m.frames = g :: rest) : m'.frames.tail = rest := by
  have htail : m.frames.tail = rest := by rw [hframes]; rfl
  cases h with
  | fault _ => exact htail
  | throw _ _ => exact htail
  | callBack _ _ _ ends =>
      cases ends with
      | full => rfl

/-- A native method whose receiver is no list starts no code. -/
theorem Performs.length_of_ok {w : World}
    (h : Natives.Performs w receiver args g rest m (.ok () m')) (hframes : m.frames = g :: rest)
    (hbare : (m.heap.object? receiver).bind Object.inner = none) :
    m'.frames.length = m.frames.length := by
  rw [hframes]
  cases h with
  | callBack _ held _ _ => cases hbare.symm.trans held
  | _ => rfl

variable (hn : e.natives = Natives.core)
include hn

theorem Invokes.tail_of_error {method : NodeId} {fault : Fault}
    (h : e.Invokes method receiver args g rest m (.error fault m'))
    (hframes : m.frames = g :: rest) : m'.frames.tail = rest := by
  have htail : m.frames.tail = rest := by rw [hframes]; rfl
  generalize hr : (.error fault m' : EStateM.Result Fault Machine Unit) = r at h
  cases h with
  | refused _ =>
      cases hr
      exact htail
  | @native owner selector native found arity =>
      rw [hn] at found
      have hperforms : Natives.Performs e.toWorld receiver args g rest m
          ((native.perform e.toWorld receiver args).run m) :=
        Natives.core_performs found arity hframes
      rw [← hr] at hperforms
      exact Performs.tail_of_error hperforms hframes
  | started _ _ ends =>
      subst hr
      cases ends with
      | full => rfl

theorem Dispatches.tail_of_error {message : String} {start : Option NodeId} {fault : Fault}
    (h : e.Dispatches receiver message args start g rest m (.error fault m'))
    (hframes : m.frames = g :: rest) : m'.frames.tail = rest := by
  cases h with
  | refused _ =>
      rw [hframes]
      rfl
  | answered _ _ ends => exact ends.tail_of_error hn hframes
  | fallback _ _ _ ends => exact ends.tail_of_error hn hframes

/-- Code that `Invokes` starts for a message runs in a context that hangs from
the receiver. -/
theorem Invokes.parent {method : NodeId}
    (h : e.Invokes method receiver args g rest m (.ok () m')) (hframes : m.frames = g :: rest)
    (hbare : (m.heap.object? receiver).bind Object.inner = none)
    (begins : m.frames.length < m'.frames.length) :
    ∃ f below c, m'.frames = f :: below ∧ m'.heap.context? f.context = some c
      ∧ c.parent = some (.object receiver) := by
  generalize hr : (.ok () m' : EStateM.Result Fault Machine Unit) = r at h
  cases h with
  | refused _ => cases hr
  | @native owner selector native found arity =>
      rw [hn] at found
      have hperforms : Natives.Performs e.toWorld receiver args g rest m
          ((native.perform e.toWorld receiver args).run m) :=
        Natives.core_performs found arity hframes
      rw [← hr] at hperforms
      exact absurd (Performs.length_of_ok hperforms hframes hbare) (Nat.ne_of_gt begins)
  | @started _ parameters _ _ _ _ _ _ ends =>
      subst hr
      cases ends with
      | runs =>
          have hnew : (m.heap.newContext (.object receiver)).2.context? m.heap.contexts.size
              = some { parent := some (.object receiver) } := by
            rw [Heap.context?_newContext, if_pos rfl]
          have hbound := (e.toWorld.bindAll_changes m.heap.contexts.size parameters args
            (m.heap.newContext (.object receiver)).2).grows
          obtain ⟨c, hc, hgrows⟩ := hbound.context hnew
          exact ⟨_, _, c, rfl, hc, hgrows.parent⟩

theorem Dispatches.parent {message : String} {start : Option NodeId}
    (h : e.Dispatches receiver message args start g rest m (.ok () m'))
    (hframes : m.frames = g :: rest) {o : Object} (ho : m.heap.object? receiver = some o)
    (hbare : o.inner = none) (begins : m.frames.length < m'.frames.length) :
    ∃ f below c, m'.frames = f :: below ∧ m'.heap.context? f.context = some c
      ∧ c.parent = some (.object receiver) := by
  cases h with
  | answered _ _ ends =>
      refine ends.parent hn hframes ?_ begins
      rw [ho]
      exact hbare
  | fallback _ _ _ ends =>
      refine ends.parent hn hframes ?_ begins
      have hcall : m.heap.Changes (· <+: ·) (e.misunderstood message args m.heap) :=
        (Heap.Change.string ..).changes.trans (Heap.allocateList_changes ..)
      obtain ⟨o', ho', hgrows⟩ := hcall.grows.object ho
      show ((e.misunderstood message args m.heap).object? receiver).bind Object.inner = none
      rw [ho']
      exact hgrows.bare hbare

end

/-- The context of `Activates` hangs from the receiver. -/
theorem Activates.parent (hn : e.natives = Natives.core) {receiver : ObjectId}
    {scope : ContextId} (h : e.Activates m m' receiver scope) {o : Object}
    (ho : m.heap.object? receiver = some o) (hbare : o.inner = none) :
    ∃ c, m'.heap.context? scope = some c ∧ c.parent = some (.object receiver) := by
  obtain ⟨f, rest, message, arity, start, hframes, hcode, hreceiver⟩ := h.instruction
  obtain ⟨g, below, hg, rfl⟩ := h.runs
  have hlength : m.frames.length = rest.length + 1 := by rw [hframes]; rfl
  have hsteps := step_steps (e := e) hframes
  have htop {x : ObjectId} {others : List ObjectId} (top : f.operands.drop arity = x :: others) :
      x = receiver := by
    have hhead := congrArg List.head? top
    rw [List.head?_drop, hreceiver] at hhead
    exact (Option.some.inj hhead).symm
  rw [h.step] at hsteps
  cases hsteps with
  | done ended => cases ended.symm.trans hcode
  | next instruction does =>
      cases instruction.symm.trans hcode
      cases does with
      | call _ top ends =>
          obtain rfl := htop top
          obtain ⟨g', below', c, hg', hc, hparent⟩ := ends.parent hn rfl ho hbare
            (by rw [List.length_cons, ← hlength]; exact h.begins)
          cases hg.symm.trans hg'
          exact ⟨c, hc, hparent⟩
  | leaves instruction does _ =>
      cases instruction.symm.trans hcode
      cases does
  | raises instruction does raised ends =>
      -- An exception that is caught is handled in a frame that was there.
      cases instruction.symm.trans hcode
      exfalso
      have htail : ∀ {fault : Fault} {m₁ : Machine}, e.Conduct f.next rest
          { m with frames := f.next :: rest } (.call message arity start) (.error fault m₁) →
          m₁.frames.tail = rest := by
        intro fault m₁ does
        cases does with
        | fault _ _ tail => exact tail
        | callFails _ _ ends => exact ends.tail_of_error hn rfl
      have hframes' := htail does
      cases ends with
      | caught unwinds =>
          have hle := unwind_length_le .exception rest
          have hraised : ∀ {m₁ m₂ : Machine} {fault : Fault} {value : ObjectId},
              e.Raises m₁ fault value m₂ → m₂.frames = m₁.frames := by
            intro m₁ m₂ fault value h
            cases h <;> rfl
          rw [hraised raised, hframes'] at unwinds
          rw [unwinds] at hle
          have hbegins := h.begins
          rw [hlength] at hbegins
          simp only [List.length_cons] at hle hbegins
          omega

/-- `runProgram` that is stopped on its way has come to a `Visited` state. -/
theorem visited_of_runProgram (he : e.natives.Lawful) {steps₀ steps : Nat} {name : String}
    {stop : Stop} (hstart : e.start steps₀ = .ok () m)
    (hrun : e.runProgram steps name m = .error stop m') : e.Visited m' := by
  obtain ⟨hmax, hidle, hvisited⟩ := start_keeps he Visited.keeps ⟨_, .initial⟩ hstart
  exact ((runProgram_keeps he hmax Visited.keeps hidle hvisited steps name).of_error hrun).2

-- ============================================================ the theorem

/-- Every step leaves what was there: no object and no context is lost or
moved, no field and no local is lost, numbers and strings are unchanged, and
collections only get longer. A closure keeps the scope that it was made in:
a name that is not bound by an activation of the closure or by the closure
itself means the same there, at any later time, as in the context in which
the closure was made. -/
theorem scopes_never_move {p : Program} {maxFrames : Nat}
    (hcreate : create p Natives.core maxFrames = .ok e) :
    (∀ m m', e.Moves m m' → m.heap.Grows m'.heap)
    ∧ ∀ m₀ m₁ m₂ m₃ m scope closure activation, e.MakesClosure m₀ m₁ scope closure →
      e.Uses m₁ m₂ → e.Activates m₂ m₃ closure activation → e.Uses m₃ m → e.Visited m →
      ∀ name, m.heap.local? activation name = none →
        (∀ o, m.heap.object? closure = some o → o.fields.get? name = none) →
        m.heap.lookup activation name = m.heap.lookup scope name := by
  have hn := create_natives hcreate
  have hcareful : e.natives.Careful (· <+: ·) := hn ▸ Natives.core_careful
  have hmoves : ∀ m m', e.Moves m m' → m.heap.Grows m'.heap := by
    intro m m' h
    have hchanges := step_changes hcareful m
    rcases h with hok | ⟨failure, herror⟩
    · rw [hok] at hchanges
      exact hchanges.grows
    · rw [herror] at hchanges
      exact hchanges.grows
  refine ⟨hmoves, ?_⟩
  intro m₀ m₁ m₂ m₃ m scope closure activation made hfirst active hlater hvisited name hlocal hfield
  obtain ⟨o₁, ho₁, hscope, hself, hbare⟩ := made.object
  obtain ⟨o₂, ho₂, hgrows₂⟩ := (hfirst.changes hcareful).grows.object ho₁
  obtain ⟨c₃, hc₃, hparent⟩ := active.parent hn ho₂ (hgrows₂.bare hbare)
  have hlast := (hlater.changes hcareful).grows
  obtain ⟨o, ho, hgrows⟩ := ((hmoves m₂ m₃ (.inl active.step)).trans hlast).object ho₂
  obtain ⟨c, hc, hcgrows⟩ := hlast.context hc₃
  have hranked : m.heap.Ranked := by
    have he : e.natives.Lawful := hn ▸ Natives.core_lawful
    exact hvisited.of_keeps he (.of_edit he fun hclosed hr edit => edit.ranked hclosed hr)
      (Heap.initial_ranked ..)
  have hname : c.locals.get? name = none := by
    rw [Heap.local?, hc] at hlocal
    exact hlocal
  have hanswers : (o.answersSelf && name == "self") = false := by
    rw [hgrows.answersSelf, hgrows₂.answersSelf, hself]
    rfl
  have hplace : o.parent = scope := (hgrows.parent.trans hgrows₂.parent).trans hscope
  calc m.heap.lookup activation name
      = m.heap.lookupFrom name m.heap.chainBound (.object closure) :=
        hranked.lookupFrom_context hc hname (hcgrows.parent.trans hparent)
    _ = m.heap.lookupFrom name m.heap.chainBound (.context o.parent) :=
        hranked.lookupFrom_object ho hanswers (hfield o ho)
    _ = m.heap.lookup scope name := by rw [hplace]; rfl

end Engine

namespace Capture

open Build

/-- A program that makes a closure next to a variable, and calls it. -/
def forest : List Tree :=
  [Sample.library [],
   program "main" [var "x" (boolean true), send (closure [] [null]) "apply" []]]

def engine : Engine := Sample.engineOf forest

/-- The frame of the program. -/
def running (pc : Nat) (operands : List ObjectId) : Frame :=
  { code := [.push .true, .store "x" false, .push .void, .pop, .instantiate 15 none,
      .init 0 15 true, .call "apply" 0 none, .interrupt .result]
    context := 1, pc, operands }

/-- The variable is bound. -/
def bound : Machine :=
  { heap := (engine.initialHeap.newContext (.context 0)).2.declare 1 "x" .true
    frames := [running 4 [], holderFrame 1] }

/-- The closure is there. -/
def made : Machine :=
  { heap := (bound.heap.allocate { module := 15, parent := 1, answersSelf := false }).2
    frames := [running 5 [4], holderFrame 1] }

/-- The closure is constructed. -/
def ready : Machine :=
  { heap := (made.heap.newContext (.object 4)).2.declare 2 "self" 4
    frames := [running 6 [4], holderFrame 1] }

/-- The closure is called. -/
def active : Machine :=
  { heap := (ready.heap.newContext (.object 4)).2
    frames := [{ code := [.push .null, .interrupt .return, .push .void, .interrupt .return]
                 context := 3 },
      (running 7 []).resuming [.return], holderFrame 1] }

theorem runs : engine.runProgram 9 "main" { heap := engine.initialHeap }
    = .error .outOfSteps active := by cbv

theorem active_visited : engine.Visited active :=
  Engine.visited_of_runProgram Natives.core_lawful
    (show engine.start 10 = .ok () { heap := engine.initialHeap } from rfl) runs

end Capture

open Engine in
/-- The variable is seen from the activation of the closure. -/
theorem capture_keeps_its_scope :
    create Capture.engine.program Natives.core 8 = .ok Capture.engine
      ∧ Capture.engine.MakesClosure Capture.bound Capture.made 1 4
      ∧ Capture.engine.Uses Capture.made Capture.ready
      ∧ Capture.engine.Activates Capture.ready Capture.active 4 3
      ∧ Capture.engine.Visited Capture.active
      ∧ Capture.active.heap.lookup 3 "x" = Capture.active.heap.lookup 1 "x"
      ∧ Capture.active.heap.lookup 1 "x" = some ObjectId.true := by
  have hcreate : create Capture.engine.program Natives.core 8 = .ok Capture.engine := rfl
  have hmade : Capture.engine.MakesClosure Capture.bound Capture.made 1 4 :=
    ⟨rfl, ⟨_, _, _, rfl, rfl, rfl, rfl⟩, rfl⟩
  have hready : Capture.engine.Uses Capture.made Capture.ready := uses_of_after (n := 3) rfl
  have hactive : Capture.engine.Activates Capture.ready Capture.active 4 3 :=
    ⟨rfl, ⟨_, _, _, _, _, rfl, rfl, rfl⟩, by decide, ⟨_, _, rfl, rfl⟩⟩
  refine ⟨hcreate, hmade, hready, hactive, Capture.active_visited, ?_, rfl⟩
  refine (scopes_never_move hcreate).2 _ _ _ _ _ _ _ _ hmade hready hactive .refl
    Capture.active_visited "x" rfl fun o ho => ?_
  cases ho
  rfl

end ObjectMachine
