/-
What one instruction can do.

`Effect` says which frames take the place of the running one when an
instruction succeeds, and `Remains` what is left under it when it faults.
`Executed` and `Failed` add what becomes of the heap. That the instructions
keep to this is shown in Machine/Execute.lean: whatever else is proved about
the machine is proved from these relations.

An instruction is executed in a frame `f` whose counter already points to
the next one; `rest` are the frames under it.
-/
import Mathlib
import ObjectMachine.Proofs.Machine.Calls

namespace ObjectMachine

-- ============================================================ soundness

/-- A frame that holds nothing that does not exist: its operands, its context,
and the constants of its code. -/
structure Frame.Sound (h : Heap) (f : Frame) : Prop where
  operands : ∀ id ∈ f.operands, id < h.size
  context : f.context < h.contexts.size
  constants : ∀ id ∈ constantsOf f.code, id < h.size

theorem Frame.Sound.mono {h h' : Heap} {f : Frame} (hf : f.Sound h) (edits : h.Reaches h') :
    f.Sound h' :=
  ⟨fun id hid => edits.lt (hf.operands id hid), hf.context.trans_le edits.size_le.2,
    fun id hid => edits.lt (hf.constants id hid)⟩

/-- A machine in which every identity that is held anywhere exists. -/
structure Machine.Sound (m : Machine) : Prop where
  heap : m.heap.Closed
  frames : ∀ f ∈ m.frames, f.Sound m.heap

-- ============================================================== effects

/-- How many operands `execute` takes off the stack for an instruction. -/
def Instruction.takes : Instruction → Nat
  | .conditionalJump _ => 1
  | .ifThenElse _ _ => 1
  | .tryCatchAlways _ _ _ => 0
  | .interrupt _ => 1
  | .resumeInterruption => 1
  | i => (i.effect?.getD (0, 0)).1

/-- Whether an instruction leaves what a name is bound to in a context. Only a
`store` can change that: one that looks the name up can do so anywhere. -/
def Instruction.Spares (i : Instruction) (f : Frame) (c : ContextId) (name : String) : Prop :=
  ∀ lookup, i = .store name lookup → lookup = false ∧ c ≠ f.context

/-- The frame without its topmost operands. -/
def Frame.dropping (f : Frame) (count : Nat) : Frame :=
  { f with operands := f.operands.drop count }

/-- What takes the place of the running frame, and what follows. `n` is the
number of contexts before. -/
inductive Effect (binds : String → Prop) (f : Frame) (n : Nat) :
    Instruction → Flow → List Frame → Prop
  /-- Operands are replaced. -/
  | straight {i : Instruction} {takes leaves : Nat} {values : List ObjectId}
      (effect : i.effect? = some (takes, leaves)) (count : values.length = leaves) :
      Effect binds f n i .next [{ f with operands := values ++ f.operands.drop takes }]
  /-- A method or constructor is started. -/
  | start {i : Instruction} {takes : Nat} {code : Code} {context : ContextId}
      (effect : i.effect? = some (takes, 1)) (runs : Runs binds .method none code 0) :
      Effect binds f n i .next
        [{ code, context }, (f.dropping takes).resuming [.return]]
  /-- The counter may move. -/
  | jump {count : Nat} (taken : Bool) :
      Effect binds f n (.conditionalJump count) .next
        [{ f.dropping 1 with pc := if taken then f.pc + count else f.pc }]
  | branch {thenBranch elseBranch : Code} {context : ContextId} (condition : Bool) :
      Effect binds f n (.ifThenElse thenBranch elseBranch) .next
        [{ code := if condition then thenBranch else elseBranch, context },
          (f.dropping 1).resuming [.result]]
  | protect {body handler always : Code} :
      Effect binds f n (.tryCatchAlways body handler always) .next
        [{ code := body, context := n + 2 },
          { code := handler, context := n + 1, resume := [.exception] },
          { code := always, context := n, resume := Interruption.all },
          f.resuming [.result]]
  /-- The frame is about to be left. -/
  | interrupt {kind : Interruption} {value : ObjectId} (top : f.operands.head? = some value) :
      Effect binds f n (.interrupt kind) (.interrupt kind value) [f.dropping 1]
  | resume {kind : Interruption} {value : ObjectId} (pending : f.pending = some kind)
      (top : f.operands.head? = some value) :
      Effect binds f n .resumeInterruption (.interrupt kind value) [f.dropping 1]

/-- What is under the running frame after a fault. Usually that is what was
there before; a `tryCatchAlways` that does not fit leaves the frames that
did. -/
inductive Remains (f : Frame) (n : Nat) (rest : List Frame) : Instruction → List Frame → Prop
  | same {i : Instruction} : Remains f n rest i rest
  | waiting {body handler always : Code} :
      Remains f n rest (.tryCatchAlways body handler always) (f.resuming [.result] :: rest)
  | shielded {body handler always : Code} :
      Remains f n rest (.tryCatchAlways body handler always)
        ({ code := always, context := n, resume := Interruption.all }
          :: f.resuming [.result] :: rest)

/-- What an instruction may do to the heap: it changes by `Reaches`, and names
that it `Spares` are bound as before. -/
structure Machine.Advanced (S : Prop) (i : Instruction) (f : Frame) (m m' : Machine) : Prop where
  scopes : m.heap.contexts.size ≤ m'.heap.contexts.size
  reaches : S → m.heap.Reaches m'.heap
  locals : ∀ c < m.heap.contexts.size, ∀ name, i.Spares f c name →
    m'.heap.local? c name = m.heap.local? c name

theorem Machine.Grown.advanced {S : Prop} {m m' : Machine}
    (h : m.Grown S m.heap.contexts.size m') (i : Instruction) (f : Frame) :
    m.Advanced S i f m' :=
  ⟨h.scopes, h.reaches, fun _ hc name _ => h.local? hc name⟩

/-- An instruction that has succeeded, with its `Effect` on the frames. -/
structure Executed (S : Prop) (binds : String → Prop) (i : Instruction) (f : Frame)
    (rest : List Frame) (m : Machine) (flow : Flow) (m' : Machine) : Prop where
  advanced : m.Advanced S i f m'
  effect : ∃ top, Effect binds f m.heap.contexts.size i flow top ∧ m'.frames = top ++ rest
  sound : S → m'.Sound
  value : S → ∀ kind value, flow = .interrupt kind value → value < m'.heap.size

/-- An instruction that has faulted, with what `Remains` of the frames. -/
structure Failed (S : Prop) (i : Instruction) (f : Frame) (rest : List Frame) (m : Machine)
    (fault : Fault) (m' : Machine) : Prop where
  advanced : m.Advanced S i f m'
  remains : Remains f m.heap.contexts.size rest i m'.frames.tail
  sound : S → ∀ g ∈ m'.frames.tail, g.Sound m'.heap
  lawful : fault.Lawful S m'.heap

-- ====================================================== building blocks

/-- A frame that differs from a sound one in operands that exist. -/
theorem Frame.Sound.of_operands {h : Heap} {f g : Frame} (hf : f.Sound h)
    (hcode : g.code = f.code) (hcontext : g.context = f.context)
    (hops : ∀ id ∈ g.operands, id ∈ f.operands ∨ id < h.size) : g.Sound h where
  operands id hid := (hops id hid).elim (hf.operands id) fun h => h
  context := by
    rw [hcontext]
    exact hf.context
  constants := by
    rw [hcode]
    exact hf.constants

theorem Frame.Sound.dropping {h : Heap} {f : Frame} (hf : f.Sound h) (count : Nat)
    (kinds : List Interruption) : ((f.dropping count).resuming kinds).Sound h :=
  hf.of_operands rfl rfl fun _ hid => .inl (List.mem_of_mem_drop hid)

section

variable {S : Prop} {binds : String → Prop} {i : Instruction} {f : Frame} {rest : List Frame}
  {m m' : Machine}

theorem Machine.Sound.replaceTop (hm : m.Sound) (hf : m.frames = f :: rest)
    (edits : m.heap.Reaches m'.heap) (top : List Frame) (hframes : m'.frames = top ++ rest)
    (htop : ∀ g ∈ top, g.Sound m'.heap) : m'.Sound where
  heap := edits.closed hm.heap
  frames g hg := by
    rw [hframes] at hg
    rcases List.mem_append.1 hg with hg | hg
    · exact htop g hg
    · exact (hm.frames g (hf ▸ List.mem_cons_of_mem _ hg)).mono edits

theorem Executed.of_straight {takes leaves : Nat} (values : List ObjectId)
    (hf : m.frames = f :: rest) (hS : S → m.Sound) (adv : m.Advanced S i f m')
    (effect : i.effect? = some (takes, leaves)) (count : values.length = leaves)
    (hframes : m'.frames = { f with operands := values ++ f.operands.drop takes } :: rest)
    (known : S → ∀ id ∈ values, id < m'.heap.size) :
    Executed S binds i f rest m .next m' where
  advanced := adv
  effect := ⟨_, .straight effect count, hframes⟩
  sound hs := by
    refine (hS hs).replaceTop hf (adv.reaches hs) [_] hframes fun g hg => ?_
    rw [List.mem_singleton.1 hg]
    have hsound := ((hS hs).frames f (hf ▸ List.mem_cons_self)).mono (adv.reaches hs)
    refine hsound.of_operands rfl rfl fun id hid => ?_
    exact (List.mem_append.1 hid).symm.imp List.mem_of_mem_drop (known hs id)
  value _ _ _ h := nomatch h

theorem Failed.of_same {fault : Fault} (hf : m.frames = f :: rest) (hS : S → m.Sound)
    (adv : m.Advanced S i f m') (htail : m'.frames.tail = rest)
    (lawful : fault.Lawful S m'.heap) : Failed S i f rest m fault m' where
  advanced := adv
  remains := htail ▸ .same
  sound hs g hg := by
    rw [htail] at hg
    exact ((hS hs).frames g (hf ▸ List.mem_cons_of_mem _ hg)).mono (adv.reaches hs)
  lawful := lawful

/-- An action that `Touches` only the heap, in the middle of an instruction. -/
theorem Action.Touches.executed {α : Type} {a : Action α} {k : α → Action Flow}
    {P : α → Machine → Prop} (hf : m.frames = f :: rest) (hS : S → m.Sound) {g : Frame}
    {m₁ : Machine} (hm₁ : m₁ = { m with frames := g :: rest })
    (ha : Action.Touches S m.heap.contexts.size a m₁ P)
    (hk : ∀ value m', m.Grown S m.heap.contexts.size m' → m'.frames = g :: rest → P value m' →
      Ensures (k value) m' (Executed S binds i f rest m) (Failed S i f rest m)) :
    Ensures (a >>= k) m₁ (Executed S binds i f rest m) (Failed S i f rest m) := by
  subst hm₁
  have hgrown : ∀ {m' : Machine}, Machine.Touched S m.heap.contexts.size
      { m with frames := g :: rest } m' → m.Grown S m.heap.contexts.size m' := fun h =>
    (Machine.Grown.of_frames S _ m _).trans h.toGrown
  have hbad := Ensures.mono ha (fun _ _ h => h) fun fault m' h =>
    Failed.of_same (i := i) hf hS ((hgrown h.1).advanced i f) (by rw [h.1.frames]; rfl) h.2
  exact Ensures.bind hbad fun value m' h => hk value m' (hgrown h.1) h.1.frames h.2

/-- The instructions that end with an action that `Answers` a call. -/
theorem Action.Answers.executed {takes : Nat} {a : Action Unit}
    (hf : m.frames = f :: rest) (hS : S → m.Sound) (effect : i.effect? = some (takes, 1))
    {m₁ : Machine} (hm₁ : m₁ = { m with frames := f.dropping takes :: rest })
    (ha : Action.Answers S binds m.heap.contexts.size a m₁) :
    Ensures (do a; return .next) m₁ (Executed S binds i f rest m)
      (Failed S i f rest m) := by
  subst hm₁
  have hgrown : ∀ {m' : Machine}, Machine.Grown S m.heap.contexts.size
      { m with frames := f.dropping takes :: rest } m' → m.Advanced S i f m' := fun h =>
    ((Machine.Grown.of_frames S _ m _).trans h).advanced i f
  have hanswers := Ensures.mono (ha _ rest rfl) (fun _ _ h => h)
    fun fault m' h => Failed.of_same hf hS (hgrown h.1) h.2.1 h.2.2
  refine Ensures.bind hanswers fun _ m' hm' => ?_
  obtain ⟨hg, hanswered⟩ := hm'
  have adv := hgrown hg
  cases hanswered with
  | @value value frames known =>
      exact .of_straight [value] hf hS adv effect rfl frames fun hs id hid =>
        List.mem_singleton.1 hid ▸ known hs
  | @start code context frames runs known =>
      refine ⟨adv, ⟨_, .start effect runs, frames⟩, fun hs => ?_, fun _ _ _ h => nomatch h⟩
      refine (hS hs).replaceTop hf (adv.reaches hs) [_, _] frames fun g hg => ?_
      have hsound := ((hS hs).frames f (hf ▸ List.mem_cons_self)).mono (adv.reaches hs)
      simp only [List.mem_cons, List.not_mem_nil, or_false] at hg
      rcases hg with rfl | rfl
      · exact ⟨fun id hid => (nomatch hid), (known hs).2, (known hs).1⟩
      · exact hsound.dropping takes _

end

-- ==================================================== the running frame

namespace Action

variable {f : Frame} {rest : List Frame} {m : Machine} {bad : Fault → Machine → Prop}

theorem frame_ensures (hf : m.frames = f :: rest) :
    Ensures frame m (fun g m' => g = f ∧ m' = m) bad := by
  simp only [Ensures, frame, hf, and_self]

theorem onHeap_ensures {α : Type} (g : Heap → α × Heap) :
    Ensures (onHeap g) m
      (fun value m' => value = (g m.heap).1 ∧ m' = { m with heap := (g m.heap).2 }) bad :=
  ⟨rfl, rfl⟩

theorem heap_ensures : Ensures heap m (fun h m' => h = m.heap ∧ m' = m) bad := ⟨rfl, rfl⟩

theorem pop_ensures (hf : m.frames = f :: rest) (hops : 1 ≤ f.operands.length) :
    Ensures pop m (fun value m' => f.operands.head? = some value
      ∧ m' = { m with frames := f.dropping 1 :: rest }) bad := by
  cases hx : f.operands with
  | nil => simp [hx] at hops
  | cons value others =>
      have hpop : f.pop? = some (value, f.dropping 1) := by
        simp [Frame.pop?, Frame.dropping, hx]
      refine Ensures.mono (onFrame_ensures hf hpop) ?_ fun _ _ h => h
      rintro _ m' ⟨rfl, rfl⟩
      exact ⟨rfl, rfl⟩

theorem popMany_ensures (hf : m.frames = f :: rest) {count : Nat}
    (hops : count ≤ f.operands.length) :
    Ensures (popMany count) m (fun values m' => values = (f.operands.take count).reverse
      ∧ m' = { m with frames := f.dropping count :: rest }) bad :=
  onFrame_ensures hf (if_pos hops)

theorem push_ensures (hf : m.frames = f :: rest) (value : ObjectId) :
    Ensures (push value) m (fun _ m' => m' = { m with frames := f.push value :: rest }) bad :=
  Ensures.mono (onFrame_ensures hf rfl) (fun _ _ h => h.2) fun _ _ h => h

theorem peek_ensures (hf : m.frames = f :: rest) (hops : 1 ≤ f.operands.length) :
    Ensures peek m (fun value m' => f.operands.head? = some value ∧ m' = m) bad := by
  cases hx : f.operands with
  | nil => simp [hx] at hops
  | cons value others =>
      have hpeek : (f.operands.head?.map fun value => (value, f)) = some (value, f) := by
        simp [hx]
      refine Ensures.mono (onFrame_ensures hf hpeek) ?_ fun _ _ h => h
      rintro _ m' ⟨rfl, rfl⟩
      exact ⟨rfl, by rw [← hf]⟩

theorem await_ensures (hf : m.frames = f :: rest) (kind : Interruption) :
    Ensures (await kind) m
      (fun _ m' => m' = { m with frames := f.resuming [kind] :: rest }) bad :=
  Ensures.mono (onFrame_ensures hf rfl) (fun _ _ h => h.2) fun _ _ h => h

theorem skip_ensures (hf : m.frames = f :: rest) (count : Nat) :
    Ensures (skip count) m
      (fun _ m' => m' = { m with frames := { f with pc := f.pc + count } :: rest }) bad :=
  Ensures.mono (onFrame_ensures hf rfl) (fun _ _ h => h.2) fun _ _ h => h

end Action

end ObjectMachine
