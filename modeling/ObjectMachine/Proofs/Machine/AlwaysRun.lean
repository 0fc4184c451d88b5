/-
An always block, from its first instruction on.

The block is entered with an interruption: the kind is pending in its
frame, the value is the only operand. It puts the value away in its own
context, runs its sentences and resumes; `AlwaysState` describes the states
after the first instruction. No code binds the local of the value again,
and no other always block runs in the same context, so at the end the value
is still there.
-/
import Mathlib
import ObjectMachine.Proofs.Machine.Roots

namespace ObjectMachine

-- ================================================= single instructions

namespace Engine

variable {e : Engine} {m : Machine} {f : Frame} {rest : List Frame} {ops : List ObjectId}

theorem pop_next {value : ObjectId} (hops : f.operands = value :: ops) :
    Action.pop { m with frames := f.next :: rest }
      = .ok value { m with frames := { f.next with operands := ops } :: rest } := by
  have hnext : f.next.operands = value :: ops := hops
  simp only [Action.pop, Action.onFrame, Frame.pop?, hnext]

theorem step_store {name : String} {value : ObjectId} (hf : m.frames = f :: rest)
    (hi : f.code[f.pc]? = some (.store name false)) (hops : f.operands = value :: ops) :
    e.step m = .ok () { m with
      heap := m.heap.declare f.context name value
      frames := { f.next with operands := ops } :: rest } := by
  rw [step_eq hf hi]
  simp only [execute, bind, EStateM.bind, pop_next hops]
  rfl

theorem step_load {name : String} {value : ObjectId} (hf : m.frames = f :: rest)
    (hi : f.code[f.pc]? = some (.load name)) (hvalue : m.heap.lookup f.context name = some value) :
    e.step m = .ok () { m with frames := f.next.push value :: rest } := by
  have hnext : m.heap.lookup f.next.context name = some value := hvalue
  rw [step_eq hf hi]
  simp only [execute, bind, EStateM.bind, Action.frame, Action.heap, hnext]
  rfl

theorem raised?_resume {kind : Interruption} {value : ObjectId} (hf : m.frames = f :: rest)
    (hi : f.code[f.pc]? = some .resumeInterruption) (hpending : f.pending = some kind)
    (hops : f.operands = value :: ops) :
    e.raised? m = some (kind, value,
      { m with frames := { f.next with operands := ops } :: rest }) := by
  have hnext : f.next.pending = some kind := hpending
  rw [raised?_eq hf hi]
  simp only [execute, bind, EStateM.bind, Action.frame, hnext, pop_next hops]
  rfl

theorem step_pop {value : ObjectId} (hf : m.frames = f :: rest)
    (hi : f.code[f.pc]? = some .pop) (hops : f.operands = value :: ops) :
    e.step m = .ok () { m with frames := { f.next with operands := ops } :: rest } := by
  rw [step_eq hf hi]
  simp only [execute, bind, EStateM.bind, pop_next hops]
  rfl

end Engine

-- ========================================================== the states

/-- The rules inside an always block: `previousLocal` and its context are its
own. -/
def alwaysRules (context : ContextId) : Rules where
  binds name := name ≠ previousLocal
  scopes c := c ≠ context

/-- The `enteredFrame` once it has put away its value. -/
def startedFrame (code : Code) (context : ContextId) (kind : Interruption) : Frame :=
  { code := alwaysCode code, context, pc := 1, pending := some kind }

/-- The states of an always block after its first instruction: in its
sentences, or on its way to resume what it was entered with. -/
inductive AlwaysState (code : Code) (context : ContextId) (kind : Interruption)
    (value : ObjectId) (below : List Frame) (m : Machine) : Prop
  | running
      (region : Stacked (alwaysRules context) (.within (startedFrame code context kind) resumption)
        below m.frames)
      (known : context < m.heap.contexts.size)
      (kept : m.heap.local? context previousLocal = some value)
  | loading {g : Frame} (frames : m.frames = g :: below) (started : g.pc ≠ 0)
      (left : g.code.drop g.pc = [.load previousLocal, .resumeInterruption])
      (place : g.context = context) (pending : g.pending = some kind)
      (kept : m.heap.local? context previousLocal = some value)
  | resuming {g : Frame} {ops : List ObjectId} (frames : m.frames = g :: below)
      (started : g.pc ≠ 0) (left : g.code.drop g.pc = [.resumeInterruption])
      (pending : g.pending = some kind) (top : g.operands = value :: ops)

section

variable {e : Engine} {code : Code} {context : ContextId} {kind : Interruption} {value : ObjectId}
  {below : List Frame} {m m' : Machine}

/-- The first instruction of an always block leads from its `enteredFrame` to an
`AlwaysState`. -/
theorem AlwaysState.start (hlast : Runs (· ≠ previousLocal) .method (some 1) code 0)
    (hframes : m.frames = enteredFrame code context kind value :: below)
    (hknown : context < m.heap.contexts.size) (hstep : e.step m = .ok () m') :
    AlwaysState code context kind value below m' := by
  rw [Engine.step_store hframes rfl rfl] at hstep
  cases hstep
  refine .running (.running (.within hlast rfl rfl) .root) ?_ (Heap.local?_declare_self hknown _ _)
  rw [Heap.contexts_size_declare]
  exact hknown

/-- The root of the region, where it is on top, is in the sentences or at the
end of them. -/
theorem root_running {frames below' : List Frame} {g : Frame}
    (h : Stacked (alwaysRules context) (.within (startedFrame code context kind) resumption) below
      frames) (hframes : frames = g :: below') (hlen : below'.length = below.length) :
    below' = below
      ∧ Running (· ≠ previousLocal) (.within (startedFrame code context kind) resumption) g := by
  rcases h.root_frame (Option.some_ne_none _) with
    ⟨g', hg, hruns⟩ | ⟨above, g', other, habove, hg, -⟩
  · obtain ⟨rfl, rfl⟩ := List.cons.inj (hg.symm.trans hframes)
    exact ⟨rfl, hruns⟩
  · have hall := congrArg List.length (hg.symm.trans hframes)
    rw [List.length_append, List.length_cons, List.length_cons, hlen] at hall
    exact absurd (List.length_eq_zero_iff.1 (by omega)) habove

/-- One step leads to the next `AlwaysState`, unless the block is left. -/
theorem AlwaysState.step (he : e.Disciplined (· ≠ previousLocal))
    (h : AlwaysState code context kind value below m) (hstep : e.step m = .ok () m')
    (hin : below.length < m'.frames.length) : AlwaysState code context kind value below m' := by
  cases h with
  | running region known kept =>
      by_cases hend : m.LeftWith resumption below
      · obtain ⟨g, hframes, hdrop⟩ := hend
        obtain ⟨-, hruns⟩ := root_running region hframes rfl
        obtain ⟨hcode, hcontext, hpending⟩ := hruns.origin _ rfl
        obtain ⟨own, hops, hone⟩ := hruns.at_end hdrop
        obtain ⟨top, rfl⟩ := List.length_eq_one_iff.1 (Option.some.inj hone).symm
        obtain ⟨hi, hleft⟩ := drop_succ_of_drop hdrop
        rw [Engine.step_pop hframes hi hops] at hstep
        cases hstep
        exact .loading rfl (Nat.succ_ne_zero _) hleft hcontext hpending kept
      · have hfresh : ∀ c, m.heap.contexts.size ≤ c → (alwaysRules context).scopes c :=
          fun c hc => (known.trans_le hc).ne'
        rcases region.step (S := False) he hfresh (fun hs => hs.elim) (fun hdone => hend hdone.2)
          with ⟨m₁, hstay⟩ | ⟨other, raised, m₁, hleave⟩
        · cases hstep.symm.trans hstay.step
          refine .running hstay.stacked (known.trans_le hstay.follows.scopes) ?_
          rw [hstay.follows.locals context known (fun h => h rfl) previousLocal fun h => h rfl]
          exact kept
        · rw [(hleave.lands (.inl hstep)).frames] at hin
          exact absurd hin (Nat.not_lt.2 (landing_length_le other raised below))
  | @loading g frames started left place pending kept =>
      obtain ⟨hi, hleft⟩ := drop_succ_of_drop left
      have hlookup : m.heap.lookup g.context previousLocal = some value := by
        rw [place]
        exact Heap.lookup_of_local? kept
      rw [Engine.step_load frames hi hlookup] at hstep
      cases hstep
      exact .resuming rfl (Nat.succ_ne_zero _) hleft pending rfl
  | @resuming g ops frames started left pending top =>
      obtain ⟨hi, -⟩ := drop_succ_of_drop left
      have hraises := Engine.raised?_resume (e := e) frames hi pending top
      rw [Engine.landing_of_raised? hraises (.inl hstep)] at hin
      exact absurd hin (Nat.not_lt.2 (landing_length_le kind value below))

/-- `AlwaysState` is kept along a run, as long as the block is not left. -/
theorem AlwaysState.after (he : e.Disciplined (· ≠ previousLocal))
    (h : AlwaysState code context kind value below m) {n : Nat} (hrun : e.after n m = some m')
    (hin : e.During (n + 1) m fun s => below.length < s.frames.length) :
    AlwaysState code context kind value below m' := by
  induction n generalizing m' with
  | zero =>
      cases hrun
      exact h
  | succ n ih =>
      obtain ⟨m₁, h₁, hstep⟩ := Engine.after_succ.1 hrun
      exact (ih h₁ (hin.mono (Nat.le_succ _))).step he hstep
        (hin (n + 1) (Nat.lt_succ_self _) m' hrun)

/-- In an `AlwaysState` the first instruction is behind: the sentences do not
bind `previousLocal`. -/
theorem AlwaysState.started (h : AlwaysState code context kind value below m) {g : Frame}
    {below' : List Frame} (hframes : m.frames = g :: below')
    (hlen : below'.length = below.length) : g.pc ≠ 0 := by
  cases h with
  | running region known kept =>
      obtain ⟨-, hruns⟩ := root_running region hframes hlen
      obtain ⟨hcode, -, -⟩ := hruns.origin _ rfl
      obtain ⟨todo, own, hdrop, -, hleft⟩ := hruns.left
      intro hpc
      rw [hcode, hpc] at hdrop
      cases todo with
      | nil => cases hdrop
      | cons i todo =>
          obtain rfl : .store previousLocal false = i := (List.cons.inj hdrop).1
          cases hleft with
          | next _ names _ _ => exact names previousLocal false rfl rfl
  | loading frames started _ _ _ _ =>
      cases hframes.symm.trans frames
      exact started
  | resuming frames started _ _ _ =>
      cases hframes.symm.trans frames
      exact started

/-- In an `AlwaysState` the block resumes what it was entered with, which it has
in `pending` and in `previousLocal`. -/
theorem AlwaysState.resumes (h : AlwaysState code context kind value below m) {g : Frame}
    {below' : List Frame} (hframes : m.frames = g :: below')
    (hlen : below'.length = below.length) (hi : g.code[g.pc]? = some .resumeInterruption) :
    ∃ m₁, e.raised? m = some (kind, value, m₁) := by
  cases h with
  | running region known kept =>
      obtain ⟨-, hruns⟩ := root_running region hframes hlen
      obtain ⟨todo, own, hdrop, -, hleft⟩ := hruns.left
      cases todo with
      | nil => cases hi.symm.trans (drop_succ_of_drop hdrop).1
      | cons i todo =>
          cases hi.symm.trans (drop_succ_of_drop hdrop).1
          cases hleft.role_of_resume
  | loading frames _ left _ _ _ =>
      cases hframes.symm.trans frames
      cases hi.symm.trans (drop_succ_of_drop left).1
  | resuming frames _ left pending top =>
      cases hframes.symm.trans frames
      exact ⟨_, Engine.raised?_resume frames hi pending top⟩

/-- From its `enteredFrame` a block executes its first instruction now and never
again, and resumes what it was entered with. -/
theorem entered_run (he : e.Disciplined (· ≠ previousLocal))
    (hlast : Runs (· ≠ previousLocal) .method (some 1) code 0)
    (hframes : m.frames = enteredFrame code context kind value :: below)
    (hknown : context < m.heap.contexts.size) {n : Nat} (hrun : e.after n m = some m')
    (hin : e.During (n + 1) m fun s => below.length < s.frames.length) {g : Frame}
    {below' : List Frame} (hg : m'.frames = g :: below') (hlen : below'.length = below.length) :
    (g.pc = 0 → n = 0) ∧ (g.code[g.pc]? = some .resumeInterruption →
      ∃ m₁, e.raised? m' = some (kind, value, m₁)) := by
  cases n with
  | zero =>
      cases hrun
      cases hframes.symm.trans hg
      exact ⟨fun _ => rfl, fun hi => nomatch hi⟩
  | succ n =>
      obtain ⟨m₁, hstep, hrest⟩ := Engine.after_first hrun
      have hstate : AlwaysState code context kind value below m' := by
        refine (AlwaysState.start hlast hframes hknown hstep).after he hrest fun k hk s hs => ?_
        exact hin (k + 1) (Nat.succ_lt_succ hk) s ((Engine.after_step hstep k).trans hs)
      exact ⟨fun hpc => absurd hpc (hstate.started hg hlen), hstate.resumes hg hlen⟩

end

end ObjectMachine
