/-
How evaluations end.

Every function that runs code is followed from an idle state of the
evaluation to the next one. On the way only states of Session/Reached.lean
are passed through, and a run that ends has a value, or ends with one of
three failures: what should be run does not exist, does not compile, or
throws an exception that nobody handles (`Failure.Expected`).

A property of states that is kept by what an evaluation does (`Keeps`) is
carried along: it holds wherever a run ends, and wherever it stops.
-/
import Mathlib
import ObjectMachine.Proofs.Session.Reached

namespace ObjectMachine

/-- The failures that have to do with what is run and not with how. Code
that a run asks for on its way is no block of a program, a test or a
fixture: that it does not compile is an exception. -/
def Failure.Expected (p : Program) : Failure → Prop
  | .unhandledException _ _ => True
  | .unknownEntity _ => True
  | .compile error =>
      ∃ t ∈ p.root.preorder, ∃ body, t.body? = some body ∧ p.blockCode body = .error error
  | .unhandledInterruption _ => False
  | .fault _ => False

theorem deeperThan_iff {α : Type} (n : Nat) (l : List α) :
    deeperThan n l = true ↔ n < l.length := by
  induction l generalizing n with
  | nil => simp [deeperThan]
  | cons x rest ih =>
      cases n with
      | zero => simp [deeperThan]
      | succ n => simp [deeperThan, ih]

namespace Engine

-- ============================================================ contexts

/-- What the block of a program, a test or a fixture sees around it: the
globals, or the object that was made for its describe. Under `regular` that
object is an instance of the describe. -/
inductive Sees (e : Engine) (regular : Prop) (t : Tree) (h : Heap) : Link → Prop
  | globals : Sees e regular t h (.context rootContext)
  | created {describe : NodeId} {id : ObjectId} {o : Object}
      (isDescribe : e.program.isKind Kind.isDescribe describe)
      (member : t ∈ e.program.membersOf describe
        ∨ ∃ node, e.program.tree? node = some t ∧ e.program.parent? node = some describe)
      (known : h.object? id = some o) (own : regular → o.module = describe) :
      Sees e regular t h (.object id)

theorem Sees.has {e : Engine} {regular : Prop} {t : Tree} {h : Heap} {parent : Link}
    (hs : e.Sees regular t h parent) (hc : h.Closed) : h.Has parent := by
  cases hs with
  | globals => exact hc.root
  | created _ _ known _ => exact Heap.lt_size_of_object? known

/-- A property of states that is kept by whatever an evaluation does: each rule
of `Reached`, in the places where `start`, `runProgram` and `runTest` use it. -/
structure Keeps (e : Engine) (I : Machine → Prop) : Prop where
  declareObject : ∀ {m m' : Machine} {id : NodeId}, e.Reached m → I m → m.frames = [] →
    id ∈ e.namedObjects → e.declareObject id m = .ok () m' → I m'
  globals : ∀ {m : Machine} {code : Code}, e.Reached m → I m → m.frames = [] →
    e.program.globalsCode e.namedObjects e.packageVariables = .ok code →
    I { m with frames := [entryFrame code rootContext, holderFrame rootContext] }
  describe : ∀ {m : Machine} {describe : NodeId}, e.Reached m → I m → m.frames = [] →
    e.program.isKind Kind.isDescribe describe →
    I { m with frames := [entryFrame [.instantiate describe none, .init 0 describe true]
      rootContext, holderFrame rootContext] }
  newContext : ∀ {m m' : Machine} {parent : Link} {context : ContextId}, e.Reached m → I m →
    m.frames = [] → m.heap.Has parent → Action.newContext parent m = .ok context m' → I m'
  block : ∀ {m m' : Machine} {t body : Tree} {code : Code} {parent : Link} {context : ContextId},
    e.Reached m → I m → m.frames = [] → t ∈ e.program.root.preorder → t.body? = some body →
    e.program.blockCode body = .ok code → e.Sees False t m.heap parent →
    Action.newContext parent m = .ok context m' →
    I { m' with frames := [entryFrame code context, holderFrame context] }
  step : ∀ {m m' : Machine}, e.Reached m → I m → 1 < m.frames.length → e.step m = .ok () m' → I m'
  fail : ∀ {m m' : Machine} {failure : Failure}, e.Reached m → I m → 1 < m.frames.length →
    e.step m = .error failure m' → I m'
  takeResult : ∀ {m m' : Machine} {value : ObjectId}, e.Reached m → I m → m.frames.length ≤ 1 →
    takeResult m = .ok value m' → I m'

/-- What holds of every state is kept. -/
theorem Keeps.trivial (e : Engine) : e.Keeps fun _ => True := by
  constructor <;> intros <;> exact True.intro

/-- What every `Edit` of a `Closed` heap keeps is kept. -/
theorem Keeps.of_edit {e : Engine} (he : e.natives.Lawful) {J : Heap → Prop}
    (hJ : ∀ {h h' : Heap}, h.Closed → J h → h.Edit h' → J h') : e.Keeps fun m => J m.heap := by
  have hreaches {h h' : Heap} (hc : h.Closed) (hj : J h) (edits : h.Reaches h') : J h' := by
    induction edits with
    | refl => exact hj
    | tail edits edit ih => exact hJ (Heap.Reaches.closed edits hc) ih edit
  have hclosed {m : Machine} (h : e.Reached m) : m.heap.Closed :=
    (h.sound_and_shape (.of_natives he)).1.heap
  have hmakes {m m' : Machine} {parent : Link} {context : ContextId} (h : e.Reached m)
      (hj : J m.heap) (known : m.heap.Has parent)
      (does : Action.newContext parent m = .ok context m') : J m'.heap := by
    have hnew := Action.newContext_manages (S := True) (n := 0) (m := m) (Nat.zero_le _)
      fun _ => known
    exact hreaches (hclosed h) hj ((hnew.of_ok does).1.reaches True.intro)
  have hsteps {m m' : Machine} (h : e.Reached m) (hj : J m.heap) (busy : 1 < m.frames.length)
      (moves : e.Moves m m') : J m'.heap := by
    obtain ⟨hsound, hshape⟩ := h.sound_and_shape (.of_natives he)
    obtain ⟨context, region⟩ := hshape.region_of_length busy
    rcases step_outcome (.of_natives he) hsound region with
      ⟨m₁, hstep, -, -, -, hedits⟩ | ⟨module, message, m₁, hstep, -, -, hedits⟩
    · obtain rfl := moves.eq_of_step hstep
      exact hreaches hsound.heap hj hedits
    · rcases moves with hok | ⟨failure, herror⟩
      · cases hok.symm.trans hstep
      · cases herror.symm.trans hstep
        exact hreaches hsound.heap hj hedits
  exact {
    declareObject := fun h hj _ _ does => hreaches (hclosed h) hj
      (((declareObject_manages (S := True) (fun _ => hclosed h) _).of_ok does).1.reaches
        True.intro)
    globals := fun _ hj _ _ => hj
    describe := fun _ hj _ _ => hj
    newContext := fun h hj _ known does => hmakes h hj known does
    block := fun h hj _ _ _ _ sees does => (hmakes h hj (sees.has (hclosed h)) does : J _)
    step := fun h hj busy does => hsteps h hj busy (.inl does)
    fail := fun h hj busy does => hsteps h hj busy (.inr ⟨_, does⟩)
    takeResult := fun {m m' value} h hj done does => by
      obtain ⟨_, _, _, -, -, rfl⟩ := takeResult_ok does
      exact hj }

-- ================================================================ ends

/-- How a run may stop before its end: in a `Reached` state, and if it fails,
with a failure that is `Expected` and without frames. -/
structure Stopped (e : Engine) (stop : Stop) (m : Machine) : Prop where
  reached : e.Reached m
  failed : ∀ failure, stop = .failed failure → failure.Expected e.program ∧ m.frames = []

/-- An idle state, from which more can be run. -/
structure Idle (e : Engine) (m : Machine) : Prop where
  reached : e.Reached m
  idle : m.frames = []

/-- An idle state after another, whose heap `Reaches` its own. -/
structure IdleAfter (e : Engine) (m m' : Machine) : Prop extends e.Idle m' where
  reaches : m.heap.Reaches m'.heap

variable {e : Engine} {m : Machine}

theorem Idle.closed (he : e.natives.Lawful) (h : e.Idle m) : m.heap.Closed :=
  (h.reached.sound_and_shape (.of_natives he)).1.heap

theorem Idle.refl (h : e.Idle m) : e.IdleAfter m m := ⟨h, .refl⟩

theorem IdleAfter.trans {m' m'' : Machine} (h : e.IdleAfter m m') (h' : e.IdleAfter m' m'') :
    e.IdleAfter m m'' :=
  ⟨h'.toIdle, h.reaches.trans h'.reaches⟩

/-- Where a run may stop (`Stopped`), with a property that is kept. -/
def Halted (e : Engine) (I : Machine → Prop) (stop : Stop) (m : Machine) : Prop :=
  e.Stopped stop m ∧ I m

variable {I : Machine → Prop}

/-- `Run.fail` leaves an idle machine. -/
theorem fail_ensures {α : Type} {ok : α → Machine → Prop} {failure : Failure} (h : e.Idle m)
    (hi : I m) (hf : failure.Expected e.program) :
    Ensures (Run.fail failure) m ok (e.Halted I) := by
  refine Ensures.throw ⟨⟨h.reached, fun failure' heq => ?_⟩, hi⟩
  cases heq
  exact ⟨hf, h.idle⟩

theorem compiled_ensures {code : Except CompileError Code} {bad : Stop → Machine → Prop}
    (h : ∀ error, code = .error error → bad (.failed (.compile error)) m) :
    Ensures (Run.compiled code) m (fun c m' => code = .ok c ∧ m' = m) bad := by
  cases code with
  | ok c => exact Ensures.pure ⟨rfl, rfl⟩
  | error error => exact Ensures.throw (h error rfl)

/-- `blockCode` of a program, a test or a fixture is code that can be entered,
or an error that is `Expected`. -/
theorem blockCode_ensures (h : e.Idle m) (hi : I m) {t body : Tree}
    (inside : t ∈ e.program.root.preorder) (block : t.body? = some body) :
    Ensures (Run.compiled (e.program.blockCode body)) m
      (fun code m' => e.program.blockCode body = .ok code ∧ m' = m) (e.Halted I) := by
  refine compiled_ensures fun error herror => ⟨⟨h.reached, fun failure heq => ?_⟩, hi⟩
  cases heq
  exact ⟨⟨t, inside, body, block, herror⟩, h.idle⟩

theorem newContext_ensures (hI : e.Keeps I) (h : e.Idle m) (hi : I m) {parent : Link}
    (known : m.heap.Has parent) {bad : Stop → Machine → Prop} :
    Ensures (Run.act (Action.newContext parent)) m
      (fun context m' => Action.newContext parent m = .ok context m' ∧ e.IdleAfter m m'
        ∧ context < m'.heap.contexts.size ∧ I m') bad := by
  have hnew := Action.newContext_manages (S := True) (n := 0) (m := m) (Nat.zero_le _)
    fun _ => known
  cases hrun : Action.newContext parent m with
  | error fault m' => exact (hnew.of_error hrun).elim
  | ok context m' =>
      obtain ⟨ht, hc, hsize⟩ := hnew.of_ok hrun
      simp only [Ensures, Run.act, hrun]
      refine ⟨trivial, ⟨⟨.newContext h.reached h.idle known hrun, ht.frames.trans h.idle⟩,
        ht.reaches True.intro⟩, ?_, hI.newContext h.reached hi h.idle known hrun⟩
      rw [hc, hsize]
      exact Nat.lt_succ_self _

-- ============================================================= running

/-- `runAbove` takes steps until the value has arrived: by induction over their
number, with `step_outcome` for each. -/
theorem runAbove_ensures (he : e.natives.Lawful) (hI : e.Keeps I) (steps : Nat)
    (h : e.Reached m) (hi : I m) (hne : m.frames ≠ []) :
    Ensures (e.runAbove 1 steps) m
      (fun _ m' => (e.Reached m' ∧ I m') ∧ m'.frames ≠ [] ∧ m'.frames.length ≤ 1
        ∧ m.heap.Reaches m'.heap) (e.Halted I) := by
  induction steps generalizing m with
  | zero => exact Ensures.throw ⟨⟨h, fun _ heq => nomatch heq⟩, hi⟩
  | succ steps ih =>
      by_cases hdeep : 1 < m.frames.length
      · obtain ⟨hsound, hshape⟩ := h.sound_and_shape (.of_natives he)
        obtain ⟨context, region⟩ := hshape.region_of_length hdeep
        have hrun : e.runAbove 1 (steps + 1) m
            = (e.stepRun >>= fun _ => e.runAbove 1 steps) m := by
          simp only [runAbove, bind, EStateM.bind, get, getThe, MonadStateOf.get, EStateM.get,
            (deeperThan_iff 1 m.frames).2 hdeep, if_true]
        rw [Ensures, hrun]
        rcases step_outcome (.of_natives he) hsound region with
          ⟨m', hstep, -, -, hne', hreaches⟩ | ⟨module, message, m', hstep, -, hidle, -⟩
        · have hfirst : Ensures e.stepRun m (fun _ m₁ => m₁ = m') (e.Halted I) := by
            simp only [Ensures, stepRun, hstep]
          refine hfirst.bind fun _ m₁ h₁ => ?_
          subst h₁
          have hi' := hI.step h hi hdeep hstep
          refine Ensures.mono (ih (.step h hdeep hstep) hi' hne') ?_ fun _ _ h => h
          exact fun _ m₂ h₂ => ⟨h₂.1, h₂.2.1, h₂.2.2.1, hreaches.trans h₂.2.2.2⟩
        · have hfirst : Ensures e.stepRun m (fun _ _ => False) (e.Halted I) := by
            simp only [Ensures, stepRun, hstep]
            refine ⟨⟨.fail h hdeep hstep, fun failure heq => ?_⟩, hI.fail h hi hdeep hstep⟩
            cases heq
            exact ⟨trivial, hidle⟩
          exact hfirst.bind fun _ _ h => h.elim
      · have hrun : e.runAbove 1 (steps + 1) m = .ok () m := by
          have hfalse : deeperThan 1 m.frames = false := by
            rw [Bool.eq_false_iff]
            exact fun h => hdeep ((deeperThan_iff 1 m.frames).1 h)
          simp only [runAbove, bind, EStateM.bind, get, getThe, MonadStateOf.get, EStateM.get,
            hfalse, Bool.false_eq_true, if_false, pure, EStateM.pure]
        rw [Ensures, hrun]
        exact ⟨⟨h, hi⟩, hne, Nat.not_lt.1 hdeep, .refl⟩

theorem get_ensures {bad : Stop → Machine → Prop} :
    Ensures (get : Run Machine) m (fun s m' => s = m ∧ m' = m) bad := ⟨rfl, rfl⟩

/-- `Action.pushFrame` where there is room. -/
theorem pushFrame_fits {w : World} {bad : Stop → Machine → Prop}
    (hroom : m.frames.length < w.maxFrames) (frame : Frame) :
    Ensures (Run.act (Action.pushFrame w frame)) m
      (fun _ m' => m' = { m with frames := frame :: m.frames }) bad := by
  simp only [Ensures, Run.act, Action.pushFrame, hroom, if_true]

/-- A value, and an idle state in which it exists. -/
structure Valued (e : Engine) (I : Machine → Prop) (m : Machine) (value : ObjectId)
    (m' : Machine) : Prop where
  after : e.IdleAfter m m'
  known : value < m'.heap.size
  kept : I m'

/-- `runCode` from an `Idle` state ends `Valued` or `Halted`. -/
theorem runCode_ensures (he : e.natives.Lawful) (hmax : 2 ≤ e.maxFrames) (hI : e.Keeps I)
    (h : e.Idle m) (steps : Nat) {code : Code} (entry : e.Entry code) {context : ContextId}
    (known : context < m.heap.contexts.size)
    (hi : I { m with frames := [entryFrame code context, holderFrame context] }) :
    Ensures (e.runCode steps code context) m (e.Valued I m) (e.Halted I) := by
  refine Ensures.bind get_ensures fun s m₀ h₀ => ?_
  obtain ⟨rfl, rfl⟩ := h₀
  refine Ensures.bind (pushFrame_fits ?_ (holderFrame context)) fun _ m₁ h₁ => ?_
  · rw [h.idle]
    exact Nat.lt_of_lt_of_le Nat.zero_lt_two hmax
  subst h₁
  refine Ensures.bind (pushFrame_fits ?_ (entryFrame code context)) fun _ m₂ h₂ => ?_
  · rw [h.idle]
    exact hmax
  subst h₂
  rw [h.idle]
  have hentered := Reached.enter h.reached h.idle entry known
  refine Ensures.bind (runAbove_ensures he hI steps hentered hi (List.cons_ne_nil _ _))
    fun _ m₂ h₂ => ?_
  obtain ⟨⟨hreached, hi₂⟩, hne, hlen, hreaches⟩ := h₂
  obtain ⟨hsound, hshape⟩ := hreached.sound_and_shape (.of_natives he)
  rcases hshape.of_length_le hlen with hidle | ⟨holder, value, hframes, hvalue⟩
  · exact absurd hidle hne
  · have htake : takeResult m₂ = .ok value { m₂ with frames := [] } := by
      simp only [takeResult, hframes, hvalue]
    simp only [Ensures, htake]
    refine ⟨⟨⟨.takeResult hreached hlen htake, rfl⟩, hreaches⟩, ?_,
      hI.takeResult hreached hi₂ hlen htake⟩
    refine (hsound.frames holder (hframes ▸ List.mem_cons_self)).operands value ?_
    rw [hvalue]
    exact List.mem_cons_self

/-- The block of a program, a test or a fixture is run by `runCode` in a new
context. -/
theorem runBlock_ensures (he : e.natives.Lawful) (hmax : 2 ≤ e.maxFrames) (hI : e.Keeps I)
    (h : e.Idle m) (hi : I m) (steps : Nat) {t body : Tree} {code : Code}
    (inside : t ∈ e.program.root.preorder) (block : t.body? = some body)
    (compiles : e.program.blockCode body = .ok code) {parent : Link}
    (sees : e.Sees False t m.heap parent) {context : ContextId} {m' : Machine}
    (hnew : Action.newContext parent m = .ok context m') (hafter : e.IdleAfter m m')
    (known : context < m'.heap.contexts.size) :
    Ensures (e.runCode steps code context) m' (e.Valued I m) (e.Halted I) := by
  have hentered := hI.block h.reached hi h.idle inside block compiles sees hnew
  refine Ensures.mono (runCode_ensures he hmax hI hafter.toIdle steps
    (.block inside block compiles) known hentered) ?_ fun _ _ h => h
  exact fun value m'' h' => ⟨hafter.trans h'.after, h'.known, h'.kept⟩

-- ================================================== programs and tests

/-- `runProgram` has a value, or the program does not exist, does not compile,
or throws (`Expected`). -/
theorem runProgram_keeps (he : e.natives.Lawful) (hmax : 2 ≤ e.maxFrames) (hI : e.Keeps I)
    (h : e.Idle m) (hi : I m) (steps : Nat) (name : String) :
    Ensures (e.runProgram steps name) m (e.Valued I m) (e.Halted I) := by
  unfold runProgram
  split
  · next body hkind =>
    obtain ⟨id, -, hid⟩ := Option.bind_eq_some_iff.1 hkind
    obtain ⟨t, ht, htk⟩ := Option.map_eq_some_iff.1 hid
    have hbody : t.body? = some body := by rw [Tree.body?, htk]
    have hinside := Program.tree?_mem ht
    refine Ensures.bind (blockCode_ensures h hi hinside hbody) fun code m₁ h₁ => ?_
    obtain ⟨hcode, rfl⟩ := h₁
    have hroot : m₁.heap.Has (.context rootContext) := (h.closed he).root
    refine Ensures.bind (newContext_ensures hI h hi hroot) fun context m₂ h₂ => ?_
    exact runBlock_ensures he hmax hI h hi steps hinside hbody hcode .globals h₂.1 h₂.2.1 h₂.2.2.1
  · exact fail_ensures h hi trivial

/-- The fixtures among the members run one after another. -/
theorem runFixtures_ensures (he : e.natives.Lawful) (hmax : 2 ≤ e.maxFrames) (hI : e.Keeps I)
    (steps : Nat) {created : ObjectId} {describe : NodeId}
    (isDescribe : e.program.isKind Kind.isDescribe describe) (members : List Tree)
    (hmem : members ⊆ e.program.membersOf describe) (h : e.Idle m) (hi : I m)
    (hcreated : created < m.heap.size) :
    Ensures (e.runFixtures steps created members) m (fun _ m' => e.IdleAfter m m' ∧ I m')
      (e.Halted I) := by
  induction members generalizing m with
  | nil => exact Ensures.pure ⟨h.refl, hi⟩
  | cons member rest ih =>
      have hrest : rest ⊆ e.program.membersOf describe := fun t ht =>
        hmem (List.mem_cons_of_mem _ ht)
      have hmember := hmem List.mem_cons_self
      rw [runFixtures]
      split
      · next body hkind =>
        have hbody : member.body? = some body := by rw [Tree.body?, hkind]
        have hinside := Program.membersOf_mem hmember
        refine Ensures.bind (blockCode_ensures h hi hinside hbody) fun code m₁ h₁ => ?_
        obtain ⟨hcode, rfl⟩ := h₁
        have hparent : m₁.heap.Has (.object created) := hcreated
        refine Ensures.bind (newContext_ensures hI h hi hparent) fun context m₂ h₂ => ?_
        obtain ⟨o, ho⟩ := Heap.object?_of_lt hcreated
        refine Ensures.bind (runBlock_ensures he hmax hI h hi steps hinside hbody hcode
          (.created isDescribe (.inl hmember) ho False.elim) h₂.1 h₂.2.1 h₂.2.2.1)
          fun value m₃ h₃ => ?_
        refine Ensures.mono (ih hrest h₃.after.toIdle h₃.kept (h₃.after.reaches.lt hcreated)) ?_
          fun _ _ h => h
        exact fun _ m₄ h₄ => ⟨h₃.after.trans h₄.1, h₄.2⟩
      · exact ih hrest h hi hcreated

theorem describeInstance_ensures (he : e.natives.Lawful) (hmax : 2 ≤ e.maxFrames)
    (hI : e.Keeps I) (h : e.Idle m) (hi : I m) (steps : Nat) {describe : NodeId}
    (isDescribe : e.program.isKind Kind.isDescribe describe) :
    Ensures (e.describeInstance steps describe) m (e.Valued I m) (e.Halted I) := by
  refine Ensures.bind (runCode_ensures he hmax hI h steps (.describe describe) (h.closed he).root
    (hI.describe h.reached hi h.idle isDescribe)) fun created m₁ h₁ => ?_
  refine Ensures.bind (runFixtures_ensures he hmax hI steps isDescribe
    (e.program.membersOf describe) (fun _ hmember => hmember) h₁.after.toIdle h₁.kept h₁.known)
    fun _ m₂ h₂ => ?_
  exact Ensures.pure ⟨h₁.after.trans h₂.1, h₂.1.reaches.lt h₁.known, h₂.2⟩

/-- `runTest` passes, or the test does not exist, does not compile, or throws
(`Expected`). -/
theorem runTest_keeps (he : e.natives.Lawful) (hmax : 2 ≤ e.maxFrames) (hI : e.Keeps I)
    (h : e.Idle m) (hi : I m) (steps : Nat) (test : NodeId) :
    Ensures (e.runTest steps test) m (e.Valued I m) (e.Halted I) := by
  unfold runTest
  split
  · next body hkind =>
    obtain ⟨t, ht, htk⟩ := Option.map_eq_some_iff.1 hkind
    have hbody : t.body? = some body := by rw [Tree.body?, htk]
    have hinside := Program.tree?_mem ht
    -- What is left once it is known what the test sees.
    have hrest : ∀ {m₁ : Machine} {parent : Link}, e.IdleAfter m m₁ → I m₁ →
        e.Sees False t m₁.heap parent →
        Ensures
          (do
            let context ← Run.act (Action.newContext parent)
            let code ← Run.compiled (e.program.blockCode body)
            e.runCode steps code context) m₁ (e.Valued I m) (e.Halted I) := by
      intro m₁ parent hafter hi₁ hsees
      have hparent := hsees.has (hafter.toIdle.closed he)
      refine Ensures.bind (newContext_ensures hI hafter.toIdle hi₁ hparent) fun context m₂ h₂ => ?_
      refine Ensures.bind (blockCode_ensures h₂.2.1.toIdle h₂.2.2.2 hinside hbody)
        fun code m₃ h₃ => ?_
      obtain ⟨hcode, rfl⟩ := h₃
      refine Ensures.mono (runBlock_ensures he hmax hI hafter.toIdle hi₁ steps hinside hbody hcode
        hsees h₂.1 h₂.2.1 h₂.2.2.1) ?_ fun _ _ h => h
      exact fun value m₄ h₄ => ⟨hafter.trans h₄.after, h₄.known, h₄.kept⟩
    dsimp only
    split
    · next describe hdescribe =>
      obtain ⟨hparent, hisDescribe⟩ := Option.filter_eq_some_iff.1 hdescribe
      refine Ensures.bind (describeInstance_ensures he hmax hI h hi steps hisDescribe)
        fun created m₁ h₁ => ?_
      obtain ⟨o, ho⟩ := Heap.object?_of_lt h₁.known
      exact hrest h₁.after h₁.kept
        (.created hisDescribe (.inr ⟨test, ht, hparent⟩) ho False.elim)
    · exact hrest h.refl hi .globals
  · exact fail_ensures h hi trivial

theorem runProgram_ensures (he : e.natives.Lawful) (hmax : 2 ≤ e.maxFrames) (h : e.Idle m)
    (steps : Nat) (name : String) :
    Ensures (e.runProgram steps name) m
      (fun value m' => e.IdleAfter m m' ∧ value < m'.heap.size) e.Stopped :=
  Ensures.mono (runProgram_keeps he hmax (.trivial e) h trivial steps name)
    (fun _ _ h => ⟨h.after, h.known⟩) fun _ _ h => h.1

theorem runTest_ensures (he : e.natives.Lawful) (hmax : 2 ≤ e.maxFrames) (h : e.Idle m)
    (steps : Nat) (test : NodeId) :
    Ensures (e.runTest steps test) m
      (fun value m' => e.IdleAfter m m' ∧ value < m'.heap.size) e.Stopped :=
  Ensures.mono (runTest_keeps he hmax (.trivial e) h trivial steps test)
    (fun _ _ h => ⟨h.after, h.known⟩) fun _ _ h => h.1

-- ============================================================= globals

/-- `declareObject` makes the named objects one after another. -/
theorem declareObjects_ensures (he : e.natives.Lawful) (hI : e.Keeps I) (objects : List NodeId)
    (hobjects : objects ⊆ e.namedObjects) (h : e.Idle m) (hi : I m)
    {bad : Stop → Machine → Prop} :
    Ensures (objects.forM fun id => Run.act (e.declareObject id)) m
      (fun _ m' => e.Idle m' ∧ I m') bad := by
  induction objects generalizing m with
  | nil => exact Ensures.pure ⟨h, hi⟩
  | cons id rest ih =>
      have hfirst : Ensures (Run.act (e.declareObject id)) m (fun _ m' => e.Idle m' ∧ I m')
          bad := by
        have hmakes := declareObject_manages (e := e) (S := True) (fun _ => h.closed he) id
        cases hrun : e.declareObject id m with
        | error fault m' => exact (hmakes.of_error hrun).elim
        | ok value m' =>
            obtain ⟨ht, -⟩ := hmakes.of_ok hrun
            simp only [Ensures, Run.act, hrun]
            exact ⟨⟨.declareObject h.reached h.idle hrun, ht.frames.trans h.idle⟩,
              hI.declareObject h.reached hi h.idle (hobjects List.mem_cons_self) hrun⟩
      exact Ensures.bind hfirst fun _ m' h' =>
        ih (fun x hx => hobjects (List.mem_cons_of_mem _ hx)) h'.1 h'.2

/-- Where two frames do not fit, `runCode` has no value. -/
theorem runCode_no_room (hmax : e.maxFrames < 2) (idle : m.frames = []) (steps : Nat)
    (code : Code) (context : ContextId) :
    Ensures (e.runCode steps code context) m (fun _ _ => False) fun _ _ => True := by
  refine Ensures.bind get_ensures fun s m₀ h₀ => ?_
  obtain ⟨rfl, rfl⟩ := h₀
  have hfirst : Ensures (Run.act (Action.pushFrame e.toWorld (holderFrame context))) m₀
      (fun _ m' => m'.frames.length = 1) fun _ _ => True := by
    by_cases hroom : m₀.frames.length < e.maxFrames
    · simp only [Ensures, Run.act, Action.pushFrame, hroom, if_true]
      rw [idle]
      rfl
    · simp only [Ensures, Run.act, Action.pushFrame, hroom, if_false]
  refine Ensures.bind hfirst fun _ m₁ h₁ => ?_
  have hsecond : Ensures (Run.act (Action.pushFrame e.toWorld (entryFrame code context))) m₁
      (fun _ _ => False) fun _ _ => True := by
    have hfull : ¬ m₁.frames.length < e.maxFrames := by omega
    simp only [Ensures, Run.act, Action.pushFrame, hfull, if_false]
  exact Ensures.bind hsecond fun _ _ h => h.elim

/-- After `start` the machine is `Idle`, and has room to run code. -/
theorem start_keeps (he : e.natives.Lawful) (hI : e.Keeps I) {steps : Nat} {m₀ : Machine}
    (hi : I { heap := e.initialHeap }) (h : e.start steps = .ok () m₀) :
    2 ≤ e.maxFrames ∧ e.Idle m₀ ∧ I m₀ := by
  have hinitial : e.Idle { heap := e.initialHeap } := ⟨.initial, rfl⟩
  have hglobals : Ensures (e.initializeGlobals steps) { heap := e.initialHeap }
      (fun _ m' => 2 ≤ e.maxFrames ∧ e.Idle m' ∧ I m') fun _ _ => True := by
    refine Ensures.bind (declareObjects_ensures he hI _ (fun _ h => h) hinitial hi)
      fun _ m₁ h₁ => ?_
    refine Ensures.bind (compiled_ensures fun _ _ => trivial) fun code m₂ h₂ => ?_
    obtain ⟨hcode, rfl⟩ := h₂
    by_cases hmax : 2 ≤ e.maxFrames
    · have hentered := hI.globals h₁.1.reached h₁.2 h₁.1.idle hcode
      refine Ensures.bind (Ensures.mono (runCode_ensures he hmax hI h₁.1 steps (.globals hcode)
        (h₁.1.closed he).root hentered) (fun _ _ h => h) fun _ _ _ => trivial) fun _ m₃ h₃ => ?_
      exact Ensures.pure ⟨hmax, h₃.after.toIdle, h₃.kept⟩
    · exact Ensures.bind (runCode_no_room (Nat.not_le.1 hmax) h₁.1.idle steps code rootContext)
        fun _ _ h => h.elim
  exact hglobals.of_ok h

theorem start_idle (he : e.natives.Lawful) {steps : Nat} {m₀ : Machine}
    (h : e.start steps = .ok () m₀) : 2 ≤ e.maxFrames ∧ e.Idle m₀ := by
  obtain ⟨hmax, hidle, -⟩ := start_keeps he (.trivial e) trivial h
  exact ⟨hmax, hidle⟩

end Engine

end ObjectMachine
