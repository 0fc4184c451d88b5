/-
The states an evaluation passes through.

An evaluation is idle or runs one piece of code. Idle, it makes named
objects and contexts; or it enters code (`Engine.Entry`), with a frame
below that holds the place where the value will arrive. Then it takes steps
until only that frame is left, whose value is taken, or until an exception
that nobody handles has cleared the stack. `Engine.Reached` collects the
states in between, all of them.

In each of them every identity exists, and the frames are a region on top
of the holding frame (`Reached.sound_and_shape`).
-/
import Mathlib
import ObjectMachine.Session
import ObjectMachine.Proofs.Machine.Trace

namespace ObjectMachine

/-- The frame in which the value of `runCode` arrives. -/
def holderFrame (context : ContextId) : Frame :=
  { code := [], context, resume := [.result, .return] }

/-- The frame of the code that `runCode` runs. -/
def entryFrame (code : Code) (context : ContextId) : Frame :=
  { code := code ++ [.interrupt .result], context }

/-- The block that a program, a test or a fixture runs. -/
def Tree.body? (t : Tree) : Option Tree :=
  match t.kind with
  | .program _ body => some body
  | .test _ body => some body
  | .fixture body => some body
  | _ => none

theorem Tree.body?_mem_children {t body : Tree} (h : t.body? = some body) :
    body ∈ t.children := by
  unfold body? at h
  unfold children
  split at h <;> cases h
  all_goals next hkind => rw [hkind]; exact List.mem_cons_self

namespace Engine

/-- `create` makes an engine of a program that has the entities of `core?`. -/
theorem create_eq_ok {e : Engine} {p : Program} {natives : Natives} {maxFrames : Nat} :
    create p natives maxFrames = .ok e ↔ ∃ core, World.core? p = .ok core
      ∧ e = { program := p, core, maxFrames, natives } := by
  unfold create
  cases World.core? p with
  | ok core => simp [eq_comm]
  | error name => simp

/-- `takeResult` gives the top operand of the frame a run ends in. -/
theorem takeResult_ok {m m' : Machine} {value : ObjectId} (h : takeResult m = .ok value m') :
    ∃ f rest others, m.frames = f :: rest ∧ f.operands = value :: others
      ∧ m' = { m with frames := rest } := by
  unfold takeResult at h
  split at h
  · cases h
  · next f rest hframes =>
    split at h
    · next top others hoperands =>
      cases h
      exact ⟨f, rest, others, hframes, hoperands, rfl⟩
    · cases h

/-- The code that an evaluation is asked to run: that of the globals, the
blocks of programs, tests and fixtures, and the construction of the object
that the tests of a describe see. -/
inductive Entry (e : Engine) : Code → Prop
  | globals {code : Code}
      (compiles : e.program.globalsCode e.namedObjects e.packageVariables = .ok code) :
      Entry e code
  | block {t body : Tree} {code : Code} (inside : t ∈ e.program.root.preorder)
      (block : t.body? = some body) (compiles : e.program.blockCode body = .ok code) :
      Entry e code
  | describe (module : NodeId) : Entry e [.instantiate module none, .init 0 module true]

/-- The states of an evaluation. While no frame is there, named objects are
declared, contexts are opened and the code of an `Entry` is entered; a run takes
steps until it fails or its result is taken. -/
inductive Reached (e : Engine) : Machine → Prop
  | initial : Reached e { heap := e.initialHeap }
  | declareObject {m m' : Machine} {id : NodeId} (from_ : Reached e m) (idle : m.frames = [])
      (does : e.declareObject id m = .ok () m') : Reached e m'
  | newContext {m m' : Machine} {parent : Link} {context : ContextId} (from_ : Reached e m)
      (idle : m.frames = []) (known : m.heap.Has parent)
      (does : Action.newContext parent m = .ok context m') : Reached e m'
  | enter {m : Machine} {code : Code} {context : ContextId} (from_ : Reached e m)
      (idle : m.frames = []) (entry : e.Entry code) (known : context < m.heap.contexts.size) :
      Reached e { m with frames := [entryFrame code context, holderFrame context] }
  | step {m m' : Machine} (from_ : Reached e m) (busy : 1 < m.frames.length)
      (does : e.step m = .ok () m') : Reached e m'
  | fail {m m' : Machine} {failure : Failure} (from_ : Reached e m) (busy : 1 < m.frames.length)
      (does : e.step m = .error failure m') : Reached e m'
  | takeResult {m m' : Machine} {value : ObjectId} (from_ : Reached e m)
      (done : m.frames.length ≤ 1) (does : takeResult m = .ok value m') : Reached e m'

/-- An engine whose code binds only certain names, that of the globals
included. -/
structure Orderly (e : Engine) (binds : String → Prop) : Prop extends e.Disciplined binds where
  globals : ∀ id ∈ e.packageVariables, binds (e.program.qualifiedName id)

theorem Orderly.of_natives {e : Engine} (h : e.natives.Lawful) : e.Orderly fun _ => True :=
  ⟨.of_natives h, fun _ _ => trivial⟩

theorem namedObjects_isNamedObject {e : Engine} {id : NodeId} (h : id ∈ e.namedObjects) :
    e.program.isKind Kind.isNamedObject id := by
  obtain ⟨kind, hkind, htest⟩ := (Option.any_eq_true _ _).1 (List.mem_filter.1 h).2
  rw [Program.isKind, hkind]
  cases kind with
  | singleton name superclass args mixins members closure =>
      cases name with
      | none => cases htest
      | some name => rfl
  | _ => cases htest

/-- The code of an `Entry` leaves one value. -/
theorem Entry.emits {e : Engine} {binds : String → Prop} (he : e.Orderly binds) {code : Code}
    (h : e.Entry code) : Emits (.reserved binds) 0 1 code := by
  cases h with
  | globals compiles =>
      exact Program.globalsCode_emits he.lawful he.program
        (fun _ hid => namedObjects_isNamedObject hid) he.globals compiles
  | block inside block compiles =>
      have hbody := Tree.mem_preorder_trans inside (Tree.mem_preorder_of_child
        (Tree.body?_mem_children block) (Tree.mem_preorder_self _))
      exact Program.blockCode_emits he.lawful _ (he.program.node hbody) compiles
  | describe module => exact .construct module 0

/-- The frames of a `Reached` state: none, the holding frame with the value, or
a region (`Stacked`) on top of the holding frame. -/
inductive Shape (binds : String → Prop) : List Frame → Prop
  | idle : Shape binds []
  /-- The value has arrived. -/
  | done {holder : Frame} {value : ObjectId} (arrived : holder.operands = [value])
      (empty : holder.code = []) : Shape binds [holder]
  | running {context : ContextId} {frames : List Frame}
      (region : Stacked ⟨binds, fun _ => True⟩ (.closed .block) [holderFrame context] frames) :
      Shape binds frames

section

variable {e : Engine} {binds : String → Prop} {m m' : Machine}

/-- By `Shape`, only a run has more than one frame. -/
theorem Shape.region_of_length (h : Shape binds m.frames) (busy : 1 < m.frames.length) :
    ∃ context,
      Stacked ⟨binds, fun _ => True⟩ (.closed .block) [holderFrame context] m.frames := by
  generalize m.frames = frames at h busy
  cases h with
  | idle => cases busy
  | done _ _ => exact absurd busy (Nat.lt_irrefl 1)
  | running region => exact ⟨_, region⟩

theorem Shape.of_length_le (h : Shape binds m.frames) (done : m.frames.length ≤ 1) :
    m.frames = [] ∨ ∃ holder value, m.frames = [holder] ∧ holder.operands = [value] := by
  generalize m.frames = frames at h done
  cases h with
  | idle => exact .inl rfl
  | done arrived _ => exact .inr ⟨_, _, rfl, arrived⟩
  | running region => exact absurd region.length (Nat.not_lt.2 done)

/-- `initialHeap` is `Closed`. -/
theorem initialHeap_closed (w : World) : w.initialHeap.Closed where
  reserved := Nat.lt_succ_self 3
  root := Nat.one_pos
  object := by
    intro id o ho
    have hmem := Array.mem_of_getElem? ho
    have hbare : o.fields = [] ∧ o.inner = none ∧ o.parent = rootContext := by
      simp only [World.initialHeap, Heap.initial, List.mem_toArray, List.mem_cons,
        List.not_mem_nil, or_false] at hmem
      rcases hmem with rfl | rfl | rfl | rfl <;> exact ⟨rfl, rfl, rfl⟩
    rw [Object.ids, hbare.1, hbare.2.1, hbare.2.2]
    exact ⟨fun x hx => (nomatch hx), Nat.one_pos⟩
  context := by
    intro id c hc
    have hmem := Array.mem_of_getElem? hc
    simp only [World.initialHeap, Heap.initial, List.mem_toArray, List.mem_cons,
      List.not_mem_nil, or_false] at hmem
    subst hmem
    exact ⟨fun x hx => (nomatch hx), fun link hl => (nomatch hl)⟩
  interned := fun entry hentry => nomatch hentry

/-- `declareObject` makes a named object and binds it among the globals. -/
theorem declareObject_manages {S : Prop} (hS : S → m.heap.Closed) (id : NodeId) :
    Action.Manages S 0 (e.declareObject id) m fun _ _ => True := by
  have hnew := Action.allocate_manages (S := S) (n := 0) (m := m) id none rootContext true
    (fun _ x hx => nomatch hx) fun hs => (hS hs).root
  refine hnew.bind fun object m₁ _ hobject => ?_
  exact Action.declare_manages _ (Nat.zero_le _) fun _ => hobject

-- ============================================================= the end

/-- By `unwind`, the `holderFrame` takes a value, and lets exceptions pass. -/
theorem unwind_holder (kind : Interruption) (context : ContextId) :
    unwind kind [holderFrame context] = if kind = .exception then [] else
      [{ holderFrame context with resume := [], pending := some kind }] := by
  cases kind <;> rfl

/-- A run that is left (`Leaving`) has its value, or nobody handled an
exception. -/
theorem leaving_cases {S : Prop} {R : Rules} {root : Terms} {context : ContextId}
    {kind : Interruption} {value : ObjectId}
    (h : Leaving S R root [holderFrame context] e m kind value m') :
    (∃ holder, holder.operands = [value] ∧ holder.code = [] ∧ (S → holder.Sound m'.heap)
      ∧ e.step m = .ok () { m' with frames := [holder] })
    ∨ ∃ module message, e.step m
        = .error (.unhandledException module message) { m' with frames := [] } := by
  have hunwind := h.unwinds.trans (unwind_holder kind context)
  by_cases hexception : kind = .exception
  · subst hexception
    rw [if_pos rfl] at hunwind
    refine .inr ⟨e.className m'.heap value, e.exceptionMessage m'.heap value, ?_⟩
    rw [h.step]
    simp only [interrupt, hunwind]
  · rw [if_neg hexception] at hunwind
    refine .inl ⟨_, rfl, rfl, fun hs => ?_, h.step.trans (interrupt_ok hunwind)⟩
    have hsound := unwind_sound kind (h.frames hs)
    rw [hunwind] at hsound
    refine (hsound _ List.mem_cons_self).of_operands rfl rfl fun id hid => .inr ?_
    rw [List.mem_singleton.1 hid]
    exact h.value hs

/-- What a `step` of a run comes to: a state of the same `Shape`, or a failure
that nobody handled. -/
theorem step_outcome (he : e.Disciplined binds) (hm : m.Sound) {context : ContextId}
    (region : Stacked ⟨binds, fun _ => True⟩ (.closed .block) [holderFrame context] m.frames) :
    (∃ m', e.step m = .ok () m' ∧ m'.Sound ∧ Shape binds m'.frames ∧ m'.frames ≠ []
      ∧ m.heap.Reaches m'.heap)
    ∨ ∃ module message m', e.step m = .error (.unhandledException module message) m'
        ∧ m'.Sound ∧ m'.frames = [] ∧ m.heap.Reaches m'.heap := by
  have hlive : ¬ Finished (.closed .block) [holderFrame context] m.frames := fun h => h.1 rfl
  rcases region.step (S := True) he (fun _ _ => trivial) (fun _ => hm) hlive with
    ⟨m', hstay⟩ | ⟨kind, value, m', hleave⟩
  · exact .inl ⟨m', hstay.step, hstay.sound trivial, .running hstay.stacked,
      List.ne_nil_of_length_pos (Nat.zero_lt_of_lt hstay.stacked.length),
      hstay.follows.reaches trivial⟩
  · rcases leaving_cases hleave with
      ⟨holder, hvalue, hempty, hsound, hstep⟩ | ⟨module, message, hstep⟩
    · refine .inl ⟨_, hstep, ⟨hleave.heap trivial, fun g hg => ?_⟩, .done hvalue hempty,
        List.cons_ne_nil _ _, hleave.follows.reaches trivial⟩
      rw [List.mem_singleton.1 hg]
      exact hsound trivial
    · exact .inr ⟨module, message, _, hstep, ⟨hleave.heap trivial, fun g hg => (nomatch hg)⟩, rfl,
        hleave.follows.reaches trivial⟩

-- ========================================================= all states

/-- An idle machine is `Sound` as soon as its heap is `Closed`. -/
theorem sound_of_idle (h : m.heap.Closed) (idle : m.frames = []) : m.Sound :=
  ⟨h, fun g hg => by rw [idle] at hg; cases hg⟩

/-- The `entryFrame` of an `Entry` is `Running`, as the root of a region. -/
theorem entry_running (he : e.Orderly binds) {code : Code} (entry : e.Entry code)
    (context : ContextId) : Running binds (.closed .block) (entryFrame code context) where
  resume := rfl
  origin _ ho := nomatch ho
  pending hrole := nomatch hrole
  left := by
    have hruns := (entry.emits he .block).runs 0
    refine ⟨code ++ [.interrupt .result], [], ?_, rfl, ?_⟩
    · simp [entryFrame, Terms.closed]
    · exact hruns.append (.interrupt fun _ => rfl)

theorem entry_sound (he : e.Orderly binds) (hc : m.heap.Closed) {code : Code}
    (entry : e.Entry code) {context : ContextId} (known : context < m.heap.contexts.size) :
    (entryFrame code context).Sound m.heap := by
  refine ⟨fun id hid => (nomatch hid), known, fun id hid => ?_⟩
  rw [entryFrame, constantsOf_append, List.mem_append] at hid
  rcases hid with hid | hid
  · exact Nat.lt_of_le_of_lt ((entry.emits he .block).constants id hid) hc.reserved
  · simp [constantsOf, Instruction.constants] at hid

/-- In every `Reached` state, every identity exists (`Sound`), and the frames
are those of a run (`Shape`). -/
theorem Reached.sound_and_shape (he : e.Orderly binds) (h : e.Reached m) :
    m.Sound ∧ Shape binds m.frames := by
  induction h with
  | initial => exact ⟨sound_of_idle (initialHeap_closed e.toWorld) rfl, .idle⟩
  | @declareObject m m' id _ idle does ih =>
      obtain ⟨ht, -⟩ := (declareObject_manages (S := True) (fun _ => ih.1.heap) id).of_ok does
      have hidle : m'.frames = [] := ht.frames.trans idle
      exact ⟨sound_of_idle ((ht.reaches trivial).closed ih.1.heap) hidle, hidle ▸ .idle⟩
  | @newContext m m' parent context _ idle known does ih =>
      have hnew := Action.newContext_manages (S := True) (n := 0) (m := m) (Nat.zero_le _)
        fun _ => known
      obtain ⟨ht, -⟩ := hnew.of_ok does
      have hidle : m'.frames = [] := ht.frames.trans idle
      exact ⟨sound_of_idle ((ht.reaches trivial).closed ih.1.heap) hidle, hidle ▸ .idle⟩
  | @enter m code context _ idle entry known ih =>
      refine ⟨⟨ih.1.heap, fun g hg => ?_⟩, .running (.running (entry_running he entry context)
        .root)⟩
      simp only [List.mem_cons, List.not_mem_nil, or_false] at hg
      rcases hg with rfl | rfl
      · exact entry_sound he ih.1.heap entry known
      · exact ⟨fun id hid => (nomatch hid), known, fun id hid => (nomatch hid)⟩
  | @step m m' _ busy does ih =>
      obtain ⟨context, region⟩ := ih.2.region_of_length busy
      rcases step_outcome he.toDisciplined ih.1 region with
        ⟨m₁, hstep, hsound, hshape, -⟩ | ⟨module, message, m₁, hstep, -⟩
      · cases does.symm.trans hstep
        exact ⟨hsound, hshape⟩
      · cases does.symm.trans hstep
  | @fail m m' failure _ busy does ih =>
      obtain ⟨context, region⟩ := ih.2.region_of_length busy
      rcases step_outcome he.toDisciplined ih.1 region with
        ⟨m₁, hstep, -⟩ | ⟨module, message, m₁, hstep, hsound, hidle, -⟩
      · cases does.symm.trans hstep
      · cases does.symm.trans hstep
        exact ⟨hsound, hidle ▸ .idle⟩
  | @takeResult m m' value _ done does ih =>
      rcases ih.2.of_length_le done with hidle | ⟨holder, value', hframes, hvalue⟩
      · simp only [Engine.takeResult, hidle] at does
        cases does
      · simp only [Engine.takeResult, hframes, hvalue] at does
        cases does
        exact ⟨sound_of_idle ih.1.heap rfl, .idle⟩

end

end Engine

end ObjectMachine
