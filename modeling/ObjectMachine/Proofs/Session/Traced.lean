/-
Evaluations with a journal.

The machine does not know what its code was compiled from. A journal
(`Journal`) says so for every context: it holds the notes (Code/Notes.lean)
of the code that runs there. A context runs one piece of code only, so the
note of an instruction is found by the context of the frame and the counter.
The globals are the exception, with nothing in the journal: what is called
back from native methods runs there, too.

`Traced` collects the states of an evaluation with their journals, as
Session/Reached.lean does without. It is also closer to what is run: the
named objects are those of the program, only describes are instantiated for
tests, and a block runs in a context made for it. `Visited.keeps` says that
no state of an evaluation is missing.
-/
import Mathlib
import ObjectMachine.Proofs.Code.Notes
import ObjectMachine.Proofs.Machine.Conduct
import ObjectMachine.Proofs.Session.Outcomes

namespace ObjectMachine

/-- The notes of the code that runs in each context. -/
abbrev Journal := ContextId → List Note

/-- The journal once contexts are opened, the first of them at `size`. -/
def Journal.extend (j : Journal) (size : Nat) (opened : List (List Note)) : Journal :=
  fun context => if context < size then j context else opened.getD (context - size) []

/-- The next instruction, if it is an `init` with fields, initializes no object
as something else than what it was made as. -/
def Machine.Proper (m : Machine) : Prop :=
  ∀ f rest arity start receiver others o, m.frames = f :: rest →
    f.code[f.pc]? = some (.init arity start true) → f.operands = receiver :: others →
    m.heap.object? receiver = some o → o.module = start

namespace Engine

variable (e : Engine)

/-- The notes of the code that an instruction opens contexts for, in the
order of the contexts. -/
def opened (f : Frame) (note : Option Note) (h : Heap) : Instruction → List (List Note)
  | .call message arity start =>
    match (f.operands[arity]?).bind h.object? with
    | some receiver =>
      match e.methodFor receiver.module message arity start with
      | some method => [e.program.methodNotes method]
      | none =>
        match e.program.lookupMethod? receiver.module fallbackSelector 2 with
        | some method => [e.program.methodNotes method]
        | none => []
    | none => []
  | .init arity start initFields =>
    [e.program.initNotes start (e.program.lookupConstructor? start arity) initFields]
  | .ifThenElse _ _ =>
    match note with
    | some (.branches thenNotes elseNotes) =>
      [if f.operands.head? = some ObjectId.true then thenNotes else elseNotes]
    | _ => []
  | .tryCatchAlways _ _ _ =>
    match note with
    | some (.protection body handler always) => [always, handler, body]
    | _ => []
  | _ => []

/-- The journal after a step. -/
def noted (j : Journal) (m : Machine) : Journal :=
  match m.frames with
  | [] => j
  | f :: _ =>
    match f.code[f.pc]? with
    | none => j
    | some i =>
      j.extend m.heap.contexts.size (e.opened f ((j f.context)[f.pc]?) m.heap i)

/-- The states of an evaluation, each with a `Journal`. Under `regular`, objects
are initialized as what they are (`Proper`), and tests see instances of their
describes. -/
inductive Traced (regular : Prop) : Journal → Machine → Prop
  | initial : Traced regular (fun _ => []) { heap := e.initialHeap }
  | declareObject {j : Journal} {m m' : Machine} {id : NodeId} (from_ : Traced regular j m)
      (idle : m.frames = []) (named : id ∈ e.namedObjects)
      (does : e.declareObject id m = .ok () m') : Traced regular j m'
  | globals {j : Journal} {m : Machine} {code : Code} (from_ : Traced regular j m)
      (idle : m.frames = [])
      (compiles : e.program.globalsCode e.namedObjects e.packageVariables = .ok code) :
      Traced regular j
        { m with frames := [entryFrame code rootContext, holderFrame rootContext] }
  | describe {j : Journal} {m : Machine} {describe : NodeId} (from_ : Traced regular j m)
      (idle : m.frames = []) (isDescribe : e.program.isKind Kind.isDescribe describe) :
      Traced regular j { m with
        frames := [entryFrame [.instantiate describe none, .init 0 describe true] rootContext,
          holderFrame rootContext] }
  /-- A context in which nothing is run. -/
  | newContext {j : Journal} {m m' : Machine} {parent : Link} {context : ContextId}
      (from_ : Traced regular j m) (idle : m.frames = []) (known : m.heap.Has parent)
      (sees : regular → ∃ t, e.Sees regular t m.heap parent)
      (does : Action.newContext parent m = .ok context m') :
      Traced regular (j.extend m.heap.contexts.size []) m'
  | block {j : Journal} {m m' : Machine} {t body : Tree} {code : Code} {parent : Link}
      {context : ContextId} (from_ : Traced regular j m) (idle : m.frames = [])
      (inside : t ∈ e.program.root.preorder) (block : t.body? = some body)
      (compiles : e.program.blockCode body = .ok code) (sees : e.Sees regular t m.heap parent)
      (does : Action.newContext parent m = .ok context m') :
      Traced regular (j.extend m.heap.contexts.size [body.blockNotes ++ [.plain]])
        { m' with frames := [entryFrame code context, holderFrame context] }
  | step {j : Journal} {m m' : Machine} (from_ : Traced regular j m) (busy : 1 < m.frames.length)
      (proper : regular → m.Proper) (does : e.step m = .ok () m') :
      Traced regular (e.noted j m) m'
  | fail {j : Journal} {m m' : Machine} {failure : Failure} (from_ : Traced regular j m)
      (busy : 1 < m.frames.length) (proper : regular → m.Proper)
      (does : e.step m = .error failure m') : Traced regular (e.noted j m) m'
  | takeResult {j : Journal} {m m' : Machine} {value : ObjectId} (from_ : Traced regular j m)
      (done : m.frames.length ≤ 1) (does : takeResult m = .ok value m') : Traced regular j m'

variable {e} {regular : Prop} {j : Journal} {m : Machine}

/-- A `Traced` state is `Reached`: the journal says nothing that is not so
without it. -/
theorem Traced.reached (he : e.natives.Lawful) (h : e.Traced regular j m) : e.Reached m := by
  induction h with
  | initial => exact .initial
  | declareObject _ idle _ does ih => exact .declareObject ih idle does
  | globals _ idle compiles ih =>
      have hclosed := (ih.sound_and_shape (.of_natives he)).1.heap
      exact .enter ih idle (.globals compiles) hclosed.root
  | describe _ idle _ ih =>
      have hclosed := (ih.sound_and_shape (.of_natives he)).1.heap
      exact .enter ih idle (.describe _) hclosed.root
  | newContext _ idle known _ does ih => exact .newContext ih idle known does
  | @block j m m' t body code parent context _ idle inside block compiles sees does ih =>
      have hclosed := (ih.sound_and_shape (.of_natives he)).1.heap
      have hknown := sees.has hclosed
      have hnew := Action.newContext_manages (S := True) (n := 0) (m := m) (Nat.zero_le _)
        fun _ => hknown
      obtain ⟨ht, hcontext, hsize⟩ := hnew.of_ok does
      refine .enter (.newContext ih idle hknown does) (ht.frames.trans idle)
        (.block inside block compiles) ?_
      rw [hcontext, hsize]
      exact Nat.lt_succ_self _
  | step _ busy _ does ih => exact .step ih busy does
  | fail _ busy _ does ih => exact .fail ih busy does
  | takeResult _ done does ih => exact .takeResult ih done does

variable (e) in
/-- A state of an evaluation, `Traced` with some journal. -/
def Visited (m : Machine) : Prop := ∃ j, e.Traced False j m

theorem Visited.step {m' : Machine} (h : e.Visited m) (busy : 1 < m.frames.length)
    (does : e.step m = .ok () m') : e.Visited m' := by
  obtain ⟨j, h⟩ := h
  exact ⟨_, h.step busy False.elim does⟩

/-- Whatever an evaluation does leads from one `Visited` state to another. -/
theorem Visited.keeps : e.Keeps e.Visited where
  declareObject := fun _ ⟨_, h⟩ idle named does => ⟨_, h.declareObject idle named does⟩
  globals := fun _ ⟨_, h⟩ idle compiles => ⟨_, h.globals idle compiles⟩
  describe := fun _ ⟨_, h⟩ idle isDescribe => ⟨_, h.describe idle isDescribe⟩
  newContext := fun _ ⟨_, h⟩ idle known does => ⟨_, h.newContext idle known False.elim does⟩
  block := fun _ ⟨_, h⟩ idle inside block compiles sees does =>
    ⟨_, h.block idle inside block compiles sees does⟩
  step := fun _ h busy does => h.step busy does
  fail := fun _ ⟨_, h⟩ busy does => ⟨_, h.fail busy False.elim does⟩
  takeResult := fun _ ⟨_, h⟩ done does => ⟨_, h.takeResult done does⟩

theorem Sees.irregular {t : Tree} {h : Heap} {parent : Link} (sees : e.Sees regular t h parent) :
    e.Sees False t h parent := by
  cases sees with
  | globals => exact .globals
  | created isDescribe member known _ => exact .created isDescribe member known False.elim

/-- What holds at first and is kept (`Keeps`) holds of every `Traced` state,
regular or not. -/
theorem Traced.of_keeps (he : e.natives.Lawful) {I : Machine → Prop} (hI : e.Keeps I)
    (hi : I { heap := e.initialHeap }) (h : e.Traced regular j m) : I m := by
  induction h with
  | initial => exact hi
  | declareObject from_ idle named does ih =>
      exact hI.declareObject (from_.reached he) ih idle named does
  | globals from_ idle compiles ih => exact hI.globals (from_.reached he) ih idle compiles
  | describe from_ idle isDescribe ih => exact hI.describe (from_.reached he) ih idle isDescribe
  | newContext from_ idle known _ does ih =>
      exact hI.newContext (from_.reached he) ih idle known does
  | block from_ idle inside block compiles sees does ih =>
      exact hI.block (from_.reached he) ih idle inside block compiles sees.irregular does
  | step from_ busy _ does ih => exact hI.step (from_.reached he) ih busy does
  | fail from_ busy _ does ih => exact hI.fail (from_.reached he) ih busy does
  | takeResult from_ done does ih => exact hI.takeResult (from_.reached he) ih done does

theorem Traced.visited (he : e.natives.Lawful) (h : e.Traced regular j m) : e.Visited m :=
  h.of_keeps he Visited.keeps ⟨_, .initial⟩

/-- What holds at first and is kept (`Keeps`) holds of every `Visited` state. -/
theorem Visited.of_keeps (he : e.natives.Lawful) {I : Machine → Prop} (hI : e.Keeps I)
    (hi : I { heap := e.initialHeap }) (h : e.Visited m) : I m := by
  obtain ⟨j, h⟩ := h
  exact h.of_keeps he hI hi

end Engine

end ObjectMachine
