/-
What becomes of a frame.

A step is taken by the frame on top of the stack. It comes to its end; or
it goes on, by itself or below frames that it has started; or an
interruption is raised on top of what is left of it (`Engine.Turn`). The
frames below are as they were, until an interruption takes some of them
away. Frames that are started run in new contexts, or among the globals.

So a frame that is on the stack stays there, with its code and its context,
until the stack comes down to what is below it. Until then its counter has
moved along its own code (`CounterIn.after`). Nothing is asked of the code, or
of the frames around. Of native methods it is asked that they do as much
(`Natives.Tactful`).
-/
import Mathlib
import ObjectMachine.Proofs.Library.Conduct
import ObjectMachine.Proofs.Machine.Trace

namespace ObjectMachine

-- ============================================================= unwinding

/-- A frame that takes an interruption it waits for. One that has not started
keeps in `pending` what starts it. -/
def Frame.accepting (f : Frame) (kind : Interruption) : Frame :=
  if f.pc = 0 then { f with resume := [], pending := some kind }
  else { f with resume := f.resume.erase kind }

theorem unwind_cons (kind : Interruption) (f : Frame) (rest : List Frame) :
    unwind kind (f :: rest)
      = if kind ∈ f.resume then f.accepting kind :: rest else unwind kind rest := by
  rw [unwind, Frame.receive?, Frame.takeResume?]
  by_cases h : kind ∈ f.resume
  · rw [if_pos h, if_pos h]
    rfl
  · rw [if_neg h, if_neg h]
    rfl

theorem landing_cons (kind : Interruption) (value : ObjectId) (f : Frame) (rest : List Frame) :
    landing kind value (f :: rest)
      = if kind ∈ f.resume then (f.accepting kind).push value :: rest
        else landing kind value rest := by
  rw [landing, unwind_cons]
  split <;> rfl

/-- By `landing` the value is on top of the frame that takes it. -/
theorem head?_operands_of_landing {kind : Interruption} {value : ObjectId} {frames : List Frame}
    {f : Frame} {rest : List Frame} (h : landing kind value frames = f :: rest) :
    f.operands.head? = some value := by
  unfold landing at h
  cases hunwind : unwind kind frames with
  | nil =>
      rw [hunwind] at h
      cases h
  | cons g below =>
      rw [hunwind] at h
      cases h
      rfl

theorem context_of_mem_landing {kind : Interruption} {value : ObjectId} {frames : List Frame}
    {g : Frame} (hg : g ∈ landing kind value frames) : ∃ k ∈ frames, g.context = k.context := by
  induction frames with
  | nil => cases hg
  | cons f rest ih =>
      rw [landing_cons] at hg
      split at hg
      · rcases List.mem_cons.1 hg with rfl | hg
        · refine ⟨f, List.mem_cons_self, ?_⟩
          unfold Frame.accepting
          split <;> rfl
        · exact ⟨g, List.mem_cons_of_mem _ hg, rfl⟩
      · obtain ⟨k, hk, hcontext⟩ := ih hg
        exact ⟨k, List.mem_cons_of_mem _ hk, hcontext⟩

/-- `landing` searches the frames on top first. -/
theorem landing_append (kind : Interruption) (value : ObjectId) (above below : List Frame) :
    landing kind value (above ++ below)
      = if landing kind value above = [] then landing kind value below
        else landing kind value above ++ below := by
  induction above with
  | nil => rfl
  | cons f above ih =>
      rw [List.cons_append, landing_cons, landing_cons]
      by_cases h : kind ∈ f.resume
      · rw [if_pos h, if_pos h, if_neg (List.cons_ne_nil _ _), List.cons_append]
      · rw [if_neg h, if_neg h, ih]

/-- `landing` leaves nobody where nobody waits for the interruption. -/
theorem landing_eq_nil {kind : Interruption} {value : ObjectId} {frames : List Frame} :
    landing kind value frames = [] ↔ ∀ f ∈ frames, kind ∉ f.resume := by
  induction frames with
  | nil => simp [landing, unwind]
  | cons f rest ih =>
      rw [landing_cons]
      by_cases h : kind ∈ f.resume
      · simp [h]
      · simp [h, ih]

-- ================================================ a frame and its counter

/-- A frame that is another one later on, with the counter where it was. -/
structure Frame.Continues (g f : Frame) : Prop where
  code : g.code = f.code
  context : g.context = f.context
  pc : g.pc = f.pc

theorem Frame.Continues.trans {f g k : Frame} (h : f.Continues g) (h' : g.Continues k) :
    f.Continues k :=
  ⟨h.code.trans h'.code, h.context.trans h'.context, h.pc.trans h'.pc⟩

theorem Frame.accepting_continues (f : Frame) (kind : Interruption) :
    (f.accepting kind).Continues f := by
  unfold Frame.accepting
  split <;> exact ⟨rfl, rfl, rfl⟩

/-- The frame `f` is on the stack, with `rest` below. Frames on top of it run
among the globals, or in contexts from `size` on. -/
def Stands (f : Frame) (rest : List Frame) (size : Nat) (frames : List Frame) : Prop :=
  ∃ above g, frames = above ++ g :: rest ∧ g.Continues f
    ∧ ∀ k ∈ above, k.context = rootContext ∨ size ≤ k.context

section

variable {f g : Frame} {rest frames : List Frame} {size : Nat}

theorem Stands.mono (h : Stands f rest size frames) (hf : f.Continues g) :
    Stands g rest size frames := by
  obtain ⟨above, k, hframes, hk, habove⟩ := h
  exact ⟨above, k, hframes, hk.trans hf, habove⟩

theorem Stands.top (hframes : frames = g :: rest) (h : g.Continues f) :
    Stands f rest size frames :=
  ⟨[], g, hframes, h, nofun⟩

/-- One frame was started. -/
theorem Stands.under {k : Frame} (hframes : frames = k :: g :: rest) (h : g.Continues f)
    (hk : k.context = rootContext ∨ size ≤ k.context) : Stands f rest size frames :=
  ⟨[k], g, hframes, h, fun _ hmem => List.mem_singleton.1 hmem ▸ hk⟩

/-- A frame that `Stands` on the stack is there after `landing`, or the
interruption goes to what is below it. -/
theorem Stands.landing (h : Stands f rest size frames) (kind : Interruption)
    (value : ObjectId) :
    Stands f rest size (landing kind value frames)
      ∨ ObjectMachine.landing kind value frames = ObjectMachine.landing kind value rest := by
  obtain ⟨above, g, rfl, hg, habove⟩ := h
  rw [landing_append]
  split
  · rw [landing_cons]
    split
    · have htakes : ((g.accepting kind).push value).Continues (g.accepting kind) :=
        ⟨rfl, rfl, rfl⟩
      exact .inl (.top rfl (htakes.trans ((g.accepting_continues kind).trans hg)))
    · exact .inr rfl
  · refine .inl ⟨_, g, rfl, hg, fun k hk => ?_⟩
    obtain ⟨k', hk', hcontext⟩ := context_of_mem_landing hk
    exact hcontext ▸ habove k' hk'

end

-- ================================================================== calls

/-- What a call leaves of the frame that made it. -/
def CallLeaves (g : Frame) (rest : List Frame) (size : Nat) :
    EStateM.Result Fault Machine Unit → Prop
  | .ok _ m' => Stands g rest size m'.frames
  | .error _ m' => m'.frames.tail = rest

/-- Native methods that leave the frames below the calling one alone
(`CallLeaves`), and start code among the globals or in new contexts. -/
def Natives.Tactful (natives : Natives) : Prop :=
  ∀ {owner selector : String} {native : Native}, natives.get? owner selector = some native →
    ∀ {w : World} {receiver : ObjectId} {args : List ObjectId} {f : Frame} {rest : List Frame}
      {m : Machine}, native.arity = args.length → m.frames = f :: rest →
      CallLeaves f rest m.heap.contexts.size ((native.perform w receiver args).run m)

variable {e : Engine} {f g : Frame} {rest : List Frame} {m m' : Machine} {i : Instruction}

theorem World.Started.leaves {w : World} {code : Code} {context : ContextId} {heap : Heap}
    {r : EStateM.Result Fault Machine Unit} {size : Nat}
    (h : w.Started code context heap g rest m r)
    (hcontext : context = rootContext ∨ size ≤ context) : CallLeaves g rest size r := by
  cases h with
  | runs => exact .under rfl ⟨rfl, rfl, rfl⟩ hcontext
  | full => rfl

/-- The native methods of the library are `Tactful`. -/
theorem Natives.core_tactful : Natives.core.Tactful := by
  intro owner selector native found w receiver args f rest m arity hframes
  have htail : m.frames.tail = rest := congrArg List.tail hframes
  have hperforms : Performs w receiver args f rest m ((native.perform w receiver args).run m) :=
    core_performs found arity hframes
  generalize (native.perform w receiver args).run m = r at hperforms
  cases hperforms with
  | fault _ => exact htail
  | throw _ _ => exact htail
  | callBack _ _ _ ends => exact ends.leaves (.inl rfl)
  | _ => exact Stands.top rfl ⟨rfl, rfl, rfl⟩

namespace Engine

theorem Constructs.leaves {receiver : ObjectId} {start : NodeId} {args : List ObjectId}
    {initFields : Bool} {r : EStateM.Result Fault Machine Unit}
    (h : e.Constructs receiver start args initFields g rest m r) (hm : m.frames = g :: rest) :
    CallLeaves g rest m.heap.contexts.size r := by
  cases h with
  | refused _ => exact congrArg List.tail hm
  | uncompiled => exact congrArg List.tail hm
  | started _ ends => exact ends.leaves (.inr le_rfl)

section

variable (he : e.natives.Tactful)
include he

theorem Invokes.leaves {method : NodeId} {receiver : ObjectId} {args : List ObjectId}
    {r : EStateM.Result Fault Machine Unit} (h : e.Invokes method receiver args g rest m r)
    (hm : m.frames = g :: rest) : CallLeaves g rest m.heap.contexts.size r := by
  cases h with
  | refused _ => exact congrArg List.tail hm
  | native found arity => exact he found arity hm
  | started _ _ ends => exact ends.leaves (.inr le_rfl)

theorem Dispatches.leaves {receiver : ObjectId} {message : String} {args : List ObjectId}
    {start : Option NodeId} {r : EStateM.Result Fault Machine Unit}
    (h : e.Dispatches receiver message args start g rest m r) (hm : m.frames = g :: rest) :
    CallLeaves g rest m.heap.contexts.size r := by
  cases h with
  | refused _ => exact congrArg List.tail hm
  | answered _ _ ends => exact ends.leaves he hm
  | fallback _ _ _ ends =>
      have hsize : (e.misunderstood message args m.heap).contexts.size
          = m.heap.contexts.size := congrArg Array.size (Heap.contexts_intern ..)
      exact hsize ▸ ends.leaves he hm

-- =========================================================== instructions

/-- Where the counter may be after an instruction, if it was moved past it
before. -/
def Leads (i : Instruction) (f f' : Frame) : Prop :=
  f' = f ∨ ∃ count, i = .conditionalJump count ∧ f' = { f with pc := f.pc + count }

/-- An instruction that is no interruption leaves its frame on the stack
(`Stands`). -/
theorem Conduct.stands (h : e.Conduct f rest m i (.ok .next m')) :
    (∀ kind, i ≠ .interrupt kind)
      ∧ ∃ f', Leads i f f' ∧ Stands f' rest m.heap.contexts.size m'.frames := by
  cases h with
  | init _ _ ends => exact ⟨nofun, f, .inl rfl, (ends.leaves rfl).mono ⟨rfl, rfl, rfl⟩⟩
  | call _ _ ends => exact ⟨nofun, f, .inl rfl, (ends.leaves he rfl).mono ⟨rfl, rfl, rfl⟩⟩
  | @jump count _ others taken _ =>
      refine ⟨nofun, { f with pc := if taken then f.pc + count else f.pc }, ?_,
        .top rfl ⟨rfl, rfl, rfl⟩⟩
      cases taken with
      | true => exact .inr ⟨count, rfl, rfl⟩
      | false => exact .inl rfl
  | branch _ => exact ⟨nofun, f, .inl rfl, .under rfl ⟨rfl, rfl, rfl⟩ (.inr le_rfl)⟩
  | protect =>
      refine ⟨nofun, f, .inl rfl, [_, _, _], _, rfl, ⟨rfl, rfl, rfl⟩, fun k hk => .inr ?_⟩
      simp only [List.mem_cons, List.not_mem_nil, or_false] at hk
      rcases hk with rfl | rfl | rfl
      · exact Nat.le_add_right _ 2
      · exact Nat.le_add_right _ 1
      · exact le_rfl
  | _ => exact ⟨nofun, f, .inl rfl, .top rfl ⟨rfl, rfl, rfl⟩⟩

/-- An instruction that faults has changed nothing below its frame; but the
frame of a protected block may be below one that was started. -/
theorem Conduct.tail_of_error {fault : Fault} (h : e.Conduct f rest m i (.error fault m')) :
    m'.frames.tail = rest
      ∨ (∀ kind, i ≠ .interrupt kind) ∧ Stands f rest m.heap.contexts.size m'.frames.tail := by
  cases h with
  | fault _ _ tail => exact .inl tail
  | initFails _ _ ends => exact .inl (ends.leaves rfl)
  | callFails _ _ ends => exact .inl (ends.leaves he rfl)
  | branchFull => exact .inl rfl
  | protectFull count few =>
      match count, few with
      | 0, _ => exact .inl rfl
      | 1, _ => exact .inr ⟨nofun, .top rfl ⟨rfl, rfl, rfl⟩⟩
      | 2, _ => exact .inr ⟨nofun, .under rfl ⟨rfl, rfl, rfl⟩ (.inr le_rfl)⟩

omit he in
/-- An instruction that raises an interruption leaves its own frame. -/
theorem Conduct.tail_of_interrupt {kind : Interruption} {value : ObjectId}
    (h : e.Conduct f rest m i (.ok (.interrupt kind value) m')) : m'.frames.tail = rest := by
  cases h with
  | interrupt _ => rfl
  | resume _ _ => rfl

end

-- ================================================================== steps

/-- `exceptionOf` makes an exception of every fault, and the frames stay as they
are. -/
theorem exceptionOf_ok (e : Engine) (fault : Fault) (m : Machine) :
    ∃ value heap, e.exceptionOf fault m = .ok value { m with heap } := by
  unfold exceptionOf
  split
  · exact ⟨_, m.heap, rfl⟩
  · exact ⟨_, _, Action.newWithMessage_eq ..⟩

/-- What a step makes of the running frame `f`: it ends, goes on, or raises
something that lands below. -/
inductive Turn (e : Engine) (f : Frame) (rest : List Frame) (m m' : Machine) : Prop
  | ended (ended : f.code[f.pc]? = none) (frames : m'.frames = rest)
  | goesOn {i : Instruction} {f' : Frame} (instruction : f.code[f.pc]? = some i)
      (plain : ∀ kind, i ≠ .interrupt kind) (leads : Leads i f.next f')
      (stands : Stands f' rest m.heap.contexts.size m'.frames)
  | raises {i : Instruction} {kind : Interruption} {value : ObjectId} {m₁ : Machine}
      (instruction : f.code[f.pc]? = some i) (raised : e.raised? m = some (kind, value, m₁))
      (left : m₁.frames.tail = rest
        ∨ (∀ kind, i ≠ .interrupt kind)
          ∧ Stands f.next rest m.heap.contexts.size m₁.frames.tail)
      (lands : m'.frames = landing kind value m₁.frames.tail)

theorem turn (he : e.natives.Tactful) (hf : m.frames = f :: rest) (hmoves : e.Moves m m') :
    e.Turn f rest m m' := by
  cases hi : f.code[f.pc]? with
  | none =>
      have hstep : e.step m = .ok () { m with frames := rest } := by simp only [step, hf, hi]
      rw [hmoves.eq_of_step hstep]
      exact .ended hi rfl
  | some i =>
      have hconduct := execute_conduct (e := e) (m := { m with frames := f.next :: rest }) rfl i
      have hstep := step_eq (e := e) hf hi
      have hraised := raised?_eq (e := e) hf hi
      rw [EStateM.run] at hconduct
      cases hrun : e.execute i { m with frames := f.next :: rest } with
      | ok flow m₁ =>
          rw [hrun] at hconduct hstep hraised
          cases flow with
          | next =>
              obtain ⟨hplain, f', hleads, hstands⟩ := hconduct.stands he
              rw [hmoves.eq_of_step hstep]
              exact .goesOn hi hplain hleads hstands
          | interrupt kind value =>
              exact .raises hi hraised (.inl hconduct.tail_of_interrupt)
                (landing_of_raised? hraised hmoves)
      | error fault m₁ =>
          rw [hrun] at hconduct hraised
          obtain ⟨value, heap, hvalue⟩ := e.exceptionOf_ok fault m₁
          simp only [hvalue] at hraised
          have hleft := hconduct.tail_of_error he
          exact .raises hi hraised hleft (landing_of_raised? hraised hmoves)

end Engine

-- ==================================================== frames further down

/-- A frame runs in a context of one of the frames `above`, in one from
`size` on, or among the globals. -/
def Frame.From (g : Frame) (above : List Frame) (size : Nat) : Prop :=
  (∃ k ∈ above, g.context = k.context) ∨ g.context = rootContext ∨ size ≤ g.context

theorem Stands.from_ {size : Nat} {above bottom frames : List Frame}
    (h : Stands g (above ++ bottom) size frames) (hg : g.context = f.context) :
    ∃ above', frames = above' ++ bottom ∧ ∀ k ∈ above', k.From (f :: above) size := by
  obtain ⟨top, g', rfl, hg', htop⟩ := h
  refine ⟨top ++ g' :: above, by rw [List.append_assoc, List.cons_append], fun k hk => ?_⟩
  rcases List.mem_append.1 hk with hk | hk
  · exact .inr (htop k hk)
  · rcases List.mem_cons.1 hk with rfl | hk
    · exact .inl ⟨f, List.mem_cons_self, hg'.context.trans hg⟩
    · exact .inl ⟨k, List.mem_cons_of_mem _ hk, rfl⟩

/-- Frames at the bottom stay what they are until an interruption gets down to
them by `landing`. -/
theorem step_above (he : e.natives.Tactful) {above bottom : List Frame}
    (hframes : m.frames = above ++ bottom) (deep : above ≠ []) (hmoves : e.Moves m m') :
    (∃ above', m'.frames = above' ++ bottom
        ∧ ∀ g ∈ above', g.From above m.heap.contexts.size)
      ∨ ∃ kind value, e.Lands m m' kind value bottom := by
  obtain ⟨f, above, rfl⟩ := List.exists_cons_of_ne_nil deep
  cases Engine.turn he hframes hmoves with
  | ended _ frames =>
      exact .inl ⟨above, frames, fun g hg => .inl ⟨g, List.mem_cons_of_mem _ hg, rfl⟩⟩
  | goesOn _ _ leads stands =>
      refine .inl (stands.from_ ?_)
      rcases leads with rfl | ⟨count, -, rfl⟩ <;> rfl
  | @raises _ kind value m₁ _ raised left lands =>
      obtain ⟨top, htop, hfrom⟩ : ∃ top, m₁.frames.tail = top ++ bottom
          ∧ ∀ k ∈ top, k.From (f :: above) m.heap.contexts.size := by
        rcases left with left | ⟨-, stands⟩
        · exact ⟨above, left, fun g hg => .inl ⟨g, List.mem_cons_of_mem _ hg, rfl⟩⟩
        · exact stands.from_ rfl
      rw [htop, landing_append] at lands
      split at lands
      · exact .inr ⟨kind, value, ⟨m₁, raised⟩, lands⟩
      · refine .inl ⟨_, lands, fun g hg => ?_⟩
        obtain ⟨k, hk, hcontext⟩ := context_of_mem_landing hg
        unfold Frame.From
        rw [hcontext]
        exact hfrom k hk

theorem suffix_step (he : e.natives.Tactful) {bottom : List Frame} (h : bottom <:+ m.frames)
    (deep : bottom.length < m.frames.length) (hmoves : e.Moves m m') :
    bottom <:+ m'.frames ∨ ∃ kind value, e.Lands m m' kind value bottom := by
  obtain ⟨above, habove⟩ := h
  have hne : above ≠ [] := by
    rintro rfl
    rw [← habove] at deep
    exact absurd deep (Nat.lt_irrefl _)
  refine (step_above he habove.symm hne hmoves).imp_left ?_
  rintro ⟨above', hframes', -⟩
  exact ⟨above', hframes'.symm⟩

theorem suffix_after (he : e.natives.Tactful) {bottom : List Frame} (h : bottom <:+ m.frames)
    {n : Nat} (hrun : e.after n m = some m')
    (deep : e.During (n + 1) m fun s => bottom.length < s.frames.length) :
    bottom <:+ m'.frames := by
  induction n generalizing m' with
  | zero =>
      cases hrun
      exact h
  | succ n ih =>
      obtain ⟨m₁, h₁, hstep⟩ := Engine.after_succ.1 hrun
      have hdeep₁ := deep n (Nat.lt_succ_of_lt (Nat.lt_succ_self n)) m₁ h₁
      rcases suffix_step he (ih h₁ (deep.mono (Nat.le_succ _))) hdeep₁ (.inl hstep) with
        hsuffix | ⟨kind, value, hlands⟩
      · exact hsuffix
      · have hdeep : bottom.length < m'.frames.length := deep (n + 1) (Nat.lt_succ_self _) m' hrun
        rw [hlands.frames] at hdeep
        exact absurd hdeep (Nat.not_lt.2 (landing_length_le kind value bottom))

-- ======================================================== one frame's life

/-- Where the counter may be after an instruction that does not leave the code:
after it, or at the target of a `jump`. -/
def Code.Follows (code : Code) (pc pc' : Nat) : Prop :=
  ∃ i, code[pc]? = some i ∧ (∀ kind, i ≠ .interrupt kind)
    ∧ (pc' = pc + 1 ∨ ∃ count, i = .conditionalJump count ∧ pc' = pc + 1 + count)

/-- `Follows` goes forward only: there are no jumps back. -/
theorem Code.Follows.lt {code : Code} {pc pc' : Nat} (h : code.Follows pc pc') : pc < pc' := by
  obtain ⟨_, -, -, rfl | ⟨count, -, rfl⟩⟩ := h <;> omega

/-- Counters from which code only gets to others of them, unless it is
left. -/
def Code.Confines (code : Code) (P : Nat → Prop) : Prop :=
  ∀ pc pc', P pc → code.Follows pc pc' → P pc'

/-- A frame is on the stack, on top of `rest`, with its counter where `P`
says. If it has its context to itself, the frames above run in others. -/
def CounterIn (own : Prop) (code : Code) (context : ContextId) (P : Nat → Prop)
    (rest frames : List Frame) : Prop :=
  ∃ above g, frames = above ++ g :: rest ∧ g.code = code ∧ g.context = context ∧ P g.pc
    ∧ (own → ∀ k ∈ above, k.context ≠ context)

section

variable {own : Prop} {code : Code} {context : ContextId} {P : Nat → Prop}

theorem Stands.counterIn {size : Nat} {frames : List Frame} (h : Stands f rest size frames)
    (hown : own → context ≠ rootContext ∧ context < size) (hcode : f.code = code)
    (hcontext : f.context = context) (hpc : P f.pc) : CounterIn own code context P rest frames := by
  obtain ⟨above, g, hframes, hg, habove⟩ := h
  refine ⟨above, g, hframes, hg.code.trans hcode, hg.context.trans hcontext, hg.pc ▸ hpc,
    fun ho k hk heq => ?_⟩
  rcases habove k hk with hroot | hnew
  · exact (hown ho).1 (heq ▸ hroot)
  · exact absurd (hown ho).2 (Nat.not_lt.2 (heq ▸ hnew))

/-- `CounterIn` of the frame itself, when it is on top. -/
theorem CounterIn.top {frames below : List Frame} (h : CounterIn own code context P rest frames)
    (hframes : frames = f :: below) (hlength : below.length = rest.length) : P f.pc := by
  obtain ⟨above, g, hg, -, -, hpc, -⟩ := h
  rw [hframes] at hg
  cases above with
  | nil =>
      cases hg
      exact hpc
  | cons top above =>
      have hlong := congrArg List.length hg
      simp only [List.length_append, List.length_cons] at hlong
      omega

theorem CounterIn.mono {P' : Nat → Prop} {frames : List Frame}
    (h : CounterIn own code context P rest frames) (hle : ∀ pc, P pc → P' pc) :
    CounterIn own code context P' rest frames := by
  obtain ⟨above, g, hframes, hcode, hcontext, hpc, habove⟩ := h
  exact ⟨above, g, hframes, hcode, hcontext, hle g.pc hpc, habove⟩

/-- The frame on top takes a step in its own code, along `Follows`. -/
theorem counterIn_of_top (he : e.natives.Tactful) (hframes : m.frames = g :: rest)
    (hown : own → g.context ≠ rootContext ∧ g.context < m.heap.contexts.size)
    (hmoves : e.Moves m m') :
    CounterIn own g.code g.context (g.code.Follows g.pc) rest m'.frames
      ∨ m'.frames.length ≤ rest.length := by
  cases Engine.turn he hframes hmoves with
  | ended _ frames => exact .inr (frames ▸ le_rfl)
  | @goesOn i f' instruction plain leads stands =>
      rcases leads with rfl | ⟨count, hi, rfl⟩
      · exact .inl (stands.counterIn hown rfl rfl ⟨i, instruction, plain, .inl rfl⟩)
      · exact .inl (stands.counterIn hown rfl rfl ⟨i, instruction, plain, .inr ⟨count, hi, rfl⟩⟩)
  | @raises i kind value m₁ instruction raised left lands =>
      have hlow : m'.frames = landing kind value rest → m'.frames.length ≤ rest.length :=
        fun h => h ▸ landing_length_le kind value rest
      rcases left with left | ⟨plain, stands⟩
      · exact .inr (hlow (left ▸ lands))
      · rcases stands.landing kind value with hstands | hpassed
        · exact .inl ((lands ▸ hstands).counterIn hown rfl rfl ⟨i, instruction, plain, .inl rfl⟩)
        · exact .inr (hlow (lands.trans hpassed))

/-- A frame below the running one stays where it is in its code, or an
interruption lands below it. -/
theorem counterIn_of_below (he : e.natives.Tactful) {above : List Frame}
    (hframes : m.frames = above ++ g :: rest) (hne : above ≠ [])
    (hown : own → g.context ≠ rootContext ∧ g.context < m.heap.contexts.size)
    (habove : own → ∀ k ∈ above, k.context ≠ g.context) (hmoves : e.Moves m m') :
    CounterIn own g.code g.context (· = g.pc) rest m'.frames ∨ m'.frames.length ≤ rest.length := by
  rcases step_above he hframes hne hmoves with ⟨above', hframes', hfrom⟩ | ⟨kind, value, hlands⟩
  · refine .inl ⟨above', g, hframes', rfl, rfl, rfl, fun ho k hk heq => ?_⟩
    rcases hfrom k hk with ⟨k', hk', hsame⟩ | hroot | hnew
    · exact habove ho k' hk' (hsame.symm.trans heq)
    · exact (hown ho).1 (heq ▸ hroot)
    · exact absurd (hown ho).2 (Nat.not_lt.2 (heq ▸ hnew))
  · have hself : Stands g rest m.heap.contexts.size (g :: rest) := .top rfl ⟨rfl, rfl, rfl⟩
    rcases hself.landing kind value with hstands | hpassed
    · exact .inl ((hlands.frames ▸ hstands).counterIn hown rfl rfl rfl)
    · rw [hlands.frames, hpassed]
      exact .inr (landing_length_le kind value rest)

theorem CounterIn.step (he : e.natives.Tactful) (hP : code.Confines P)
    (hown : own → context ≠ rootContext ∧ context < m.heap.contexts.size)
    (h : CounterIn own code context P rest m.frames) (hmoves : e.Moves m m') :
    CounterIn own code context P rest m'.frames ∨ m'.frames.length ≤ rest.length := by
  obtain ⟨above, g, hframes, rfl, rfl, hpc, habove⟩ := h
  by_cases hne : above = []
  · subst hne
    exact (counterIn_of_top he hframes hown hmoves).imp_left fun h =>
      h.mono fun pc => hP g.pc pc hpc
  · exact (counterIn_of_below he hframes hne hown habove hmoves).imp_left fun h =>
      h.mono fun pc heq => heq ▸ hpc

/-- `CounterIn` is kept along a run, by code that `Confines` the counter: a
frame moves along its own code until it is left. -/
theorem CounterIn.after (he : e.natives.Tactful) (hP : code.Confines P)
    (h : CounterIn False code context P rest m.frames) {n : Nat} (hrun : e.after n m = some m')
    (hdeep : e.During (n + 1) m fun s => rest.length < s.frames.length) :
    CounterIn False code context P rest m'.frames := by
  induction n generalizing m' with
  | zero =>
      cases hrun
      exact h
  | succ n ih =>
      obtain ⟨m₁, h₁, hstep⟩ := Engine.after_succ.1 hrun
      rcases (ih h₁ (hdeep.mono (Nat.le_succ _))).step he hP False.elim (.inl hstep) with
        hcounter | hlow
      · exact hcounter
      · exact absurd (hdeep (n + 1) (Nat.lt_succ_self _) m' hrun) (Nat.not_lt.2 hlow)

end

end ObjectMachine
