/-
Regions: the frames above a fixed part of the stack.

A region is what a piece of code may do to the stack while it runs. Below
it is `bottom`, which it never looks into. Its lowest frame runs under
given terms, `root`; every frame above was started by the one under it.

# The invariant

The frame on top runs (`Running`): what is left of its code can be executed
with the operands it has. Every other frame waits for exactly one
interruption, and will run again once it gets a value (`Waits`); or it is
an always block or a handler that has not started. `Supports t frames`
says of the frames under the running one that they are of this kind, and
under which terms `t` a frame on top of them runs: what a frame waits for
and what the frame above may be left with have to fit.

# What it gives

An interruption that leaves the running frame is accepted inside the
region, which then goes on, or leaves all of it and reaches the bottom
(`Supports.unwind`). So a step of a region stays in it or leaves it by an
interruption that its root may raise (`Stacked.step`).
-/
import Mathlib
import ObjectMachine.Proofs.Machine.Execute

namespace ObjectMachine

/-- What code may do: the names it may bind (`binds`), and the contexts in which
its always blocks may run (`scopes`). -/
structure Rules where
  binds : String → Prop
  scopes : ContextId → Prop

/-- No restriction. -/
def Rules.free : Rules where
  binds _ := True
  scopes _ := True

/-- What is known of a frame: its `role`, how many operands of its own it has at
the end of its code, if it may get there (`final`), the operands that are not
its own (`floor`), the code that follows (`after`), and, if it matters, the
frame it was when it started. -/
structure Terms where
  role : Role
  final : Option Nat := none
  floor : List ObjectId := []
  after : Code := []
  origin : Option Frame := none

/-- The terms of a frame that the machine has started: its code has no end but
an interruption, and all operands are its own. -/
def Terms.closed (role : Role) : Terms := { role }

/-- A frame that can go on: what is left of its code `Runs` at the depth of its
operands. -/
structure Running (binds : String → Prop) (t : Terms) (f : Frame) : Prop where
  resume : f.resume = []
  origin : ∀ o, t.origin = some o → f.code = o.code ∧ f.context = o.context ∧ f.pending = o.pending
  pending : t.role = .always → f.pending ≠ none
  left : ∃ todo own, f.code.drop f.pc = todo ++ t.after ∧ f.operands = own ++ t.floor
    ∧ Runs binds t.role t.final todo own.length

/-- The frame with an empty `resume` list. -/
def Frame.awake (f : Frame) : Frame := { f with resume := [] }

/-- A frame that is `Running` once it gets a value of the kind. -/
structure Waits (binds : String → Prop) (kind : Interruption) (t : Terms) (f : Frame) : Prop where
  resume : f.resume = [kind]
  started : 0 < f.pc
  runs : ∀ value, Running binds t (f.awake.push value)

/-- An always block that has not started: it accepts every interruption. -/
def alwaysFrame (code : Code) (context : ContextId) : Frame :=
  { code := alwaysCode code, context, resume := Interruption.all }

/-- The `alwaysFrame` as an interruption starts it, which is kept in
`pending`. -/
def enteredFrame (code : Code) (context : ContextId) (kind : Interruption) (value : ObjectId) :
    Frame :=
  { code := alwaysCode code, context, operands := [value], pending := some kind }

/-- A handler that has not started: it accepts an exception. -/
def handlerFrame (code : Code) (context : ContextId) : Frame :=
  { code, context, resume := [.exception] }

/-- Frames on top of which a frame may run under certain terms, down to the
`bottom` of the region, on which the frame of `root` runs. -/
inductive Supports (R : Rules) (root : Terms) (bottom : List Frame) : Terms → List Frame → Prop
  | root : Supports R root bottom root bottom
  /-- The frame made a call. -/
  | call {t : Terms} {f : Frame} {below : List Frame} (waits : Waits R.binds .return t f)
      (under : Supports R root bottom t below) :
      Supports R root bottom (.closed .method) (f :: below)
  /-- The frame started nested code. -/
  | nested {t : Terms} {f : Frame} {below : List Frame} {role : Role} (block : role ≠ .method)
      (waits : Waits R.binds .result t f) (under : Supports R root bottom t below) :
      Supports R root bottom (.closed role) (f :: below)
  /-- An always block will take over from the frame on top. -/
  | always {code : Code} {context : ContextId} {below : List Frame}
      (last : Runs R.binds .method (some 1) code 0) (scope : R.scopes context)
      (under : Supports R root bottom (.closed .always) below) :
      Supports R root bottom (.closed .block) (alwaysFrame code context :: below)
  /-- A handler will take over if the frame on top is left by an exception. -/
  | handler {code : Code} {context : ContextId} {below : List Frame}
      (caught : Runs R.binds .block none code 1)
      (under : Supports R root bottom (.closed .block) below) :
      Supports R root bottom (.closed .block) (handlerFrame code context :: below)

/-- The stack while a region runs: a frame that is `Running` on top of frames
that `Supports` it. -/
inductive Stacked (R : Rules) (root : Terms) (bottom : List Frame) : List Frame → Prop
  | running {t : Terms} {f : Frame} {below : List Frame} (runs : Running R.binds t f)
      (under : Supports R root bottom t below) : Stacked R root bottom (f :: below)
  /-- An always block is about to put away what it was entered with. -/
  | entered {code : Code} {context : ContextId} {kind : Interruption} {value : ObjectId}
      {below : List Frame} (last : Runs R.binds .method (some 1) code 0)
      (scope : R.scopes context) (under : Supports R root bottom (.closed .always) below) :
      Stacked R root bottom (enteredFrame code context kind value :: below)

-- ===================================================== shape of a region

section

variable {R : Rules} {root : Terms} {bottom : List Frame}

theorem Supports.suffix {t : Terms} {frames : List Frame} (h : Supports R root bottom t frames) :
    bottom <:+ frames := by
  induction h with
  | root => exact List.suffix_rfl
  | call _ _ ih => exact ih.trans (List.suffix_cons _ _)
  | nested _ _ _ ih => exact ih.trans (List.suffix_cons _ _)
  | always _ _ _ ih => exact ih.trans (List.suffix_cons _ _)
  | handler _ _ ih => exact ih.trans (List.suffix_cons _ _)

/-- A region has always a frame above the `bottom`. -/
theorem Stacked.length {frames : List Frame} (h : Stacked R root bottom frames) :
    bottom.length < frames.length := by
  cases h with
  | running _ under => exact Nat.lt_succ_of_le under.suffix.length_le
  | entered _ _ under => exact Nat.lt_succ_of_le under.suffix.length_le

/-- The `bottom` of a region is as it was. -/
theorem Stacked.suffix {frames : List Frame} (h : Stacked R root bottom frames) :
    bottom <:+ frames := by
  cases h with
  | running _ under => exact under.suffix.trans (List.suffix_cons _ _)
  | entered _ _ under => exact under.suffix.trans (List.suffix_cons _ _)

/-- Where the root cannot end (`final`), no frame can. -/
theorem Supports.final {t : Terms} {frames : List Frame} (h : Supports R root bottom t frames)
    (hroot : root.final = none) : t.final = none := by
  cases h with
  | root => exact hroot
  | _ => rfl

/-- One more frame on top of a region that can be split. -/
theorem Supports.split_cons {t t₁ : Terms} {f : Frame} {frames above below : List Frame}
    (grow : ∀ {root' bottom'}, Supports R root' bottom' t frames →
      Supports R root' bottom' t₁ (f :: frames))
    (under : Supports R root bottom t frames)
    (ih : ∀ {above}, above ++ below = frames →
      ∃ t', Supports R root bottom t' below ∧ Supports R t' below t frames)
    (hframes : above ++ below = f :: frames) :
    ∃ t', Supports R root bottom t' below ∧ Supports R t' below t₁ (f :: frames) := by
  cases above with
  | nil =>
      obtain rfl : below = f :: frames := hframes
      exact ⟨t₁, grow under, .root⟩
  | cons g above =>
      obtain ⟨t', hbelow, habove⟩ := ih (List.cons.inj hframes).2
      exact ⟨t', hbelow, grow habove⟩

/-- Part of a region is a region on top of the rest, for the terms of the lowest
frame in it. -/
theorem Supports.split {t : Terms} {frames above below : List Frame}
    (h : Supports R root bottom t frames) (hframes : above ++ below = frames)
    (hlen : bottom.length ≤ below.length) :
    ∃ t', Supports R root bottom t' below ∧ Supports R t' below t frames := by
  induction h generalizing above with
  | root =>
      have hall := congrArg List.length hframes
      rw [List.length_append] at hall
      obtain rfl : above = [] := List.length_eq_zero_iff.1 (by omega)
      obtain rfl : below = bottom := hframes
      exact ⟨_, .root, .root⟩
  | call waits under ih => exact split_cons (.call waits) under ih hframes
  | nested block waits under ih => exact split_cons (.nested block waits) under ih hframes
  | always last scope under ih => exact split_cons (.always last scope) under ih hframes
  | handler caught under ih => exact split_cons (.handler caught) under ih hframes

theorem Stacked.split {f : Frame} {above below : List Frame}
    (h : Stacked R root bottom (f :: above ++ below)) (hlen : bottom.length ≤ below.length) :
    ∃ t, Supports R root bottom t below ∧ Stacked R t below (f :: above ++ below) := by
  cases h with
  | running runs under =>
      obtain ⟨t, hbelow, habove⟩ := under.split rfl hlen
      exact ⟨t, hbelow, .running runs habove⟩
  | entered last scope under =>
      obtain ⟨t, hbelow, habove⟩ := under.split rfl hlen
      exact ⟨t, hbelow, .entered last scope habove⟩

-- =========================================================== unwinding

/-- `receive?` of a frame that waits for one kind accepts it and nothing
else. -/
theorem Frame.receive?_of_resume {f : Frame} {kind other : Interruption}
    (hresume : f.resume = [kind]) (hstarted : f.pc ≠ 0) :
    f.receive? other = if other = kind then some f.awake else none := by
  unfold receive? takeResume?
  rw [hresume]
  by_cases hk : other = kind
  · subst hk
    simp [hstarted, awake]
  · simp [hk]

theorem Waits.receive? {binds : String → Prop} {kind other : Interruption} {t : Terms}
    {f : Frame} (h : Waits binds kind t f) :
    f.receive? other = if other = kind then some f.awake else none :=
  Frame.receive?_of_resume h.resume h.started.ne'

theorem alwaysFrame_receive? (code : Code) (context : ContextId) (kind : Interruption) :
    (alwaysFrame code context).receive? kind
      = some { alwaysFrame code context with resume := [], pending := some kind } := by
  cases kind <;> rfl

theorem handlerFrame_receive? (code : Code) (context : ContextId) (kind : Interruption) :
    (handlerFrame code context).receive? kind = if kind = .exception then
      some { handlerFrame code context with resume := [], pending := some kind } else none := by
  cases kind <;> rfl

/-- A frame that the machine has just started is `Running`. -/
theorem Running.fresh {binds : String → Prop} {role : Role} {code : Code}
    (h : Runs binds role none code 0) (hrole : role ≠ .always) (context : ContextId) :
    Running binds (.closed role) { code, context } where
  resume := rfl
  origin _ ho := nomatch ho
  pending halways := absurd halways hrole
  left := ⟨code, [], by simp [Terms.closed], rfl, h⟩

/-- A `handlerFrame` that has caught an exception is `Running`. -/
theorem handler_running {binds : String → Prop} {code : Code}
    (h : Runs binds .block none code 1) (context : ContextId) (value : ObjectId) :
    Running binds (.closed .block) (Frame.push
      { handlerFrame code context with resume := [], pending := some .exception } value) where
  resume := rfl
  origin _ ho := nomatch ho
  pending hrole := nomatch hrole
  left := ⟨code, [value], by simp [Frame.push, handlerFrame, Terms.closed], rfl, h⟩

/-- By induction over `Supports`: an interruption that leaves a frame is
accepted in the region, or it leaves the whole of it. -/
theorem Supports.unwind {t : Terms} {frames : List Frame}
    (h : Supports R root bottom t frames) {kind : Interruption} (hk : t.role.LeftBy kind) :
    (∃ f below, unwind kind frames = f :: below
      ∧ ∀ value, Stacked R root bottom (f.push value :: below))
    ∨ ObjectMachine.unwind kind frames = ObjectMachine.unwind kind bottom := by
  induction h with
  | root => exact .inr rfl
  | @call t f below waits under ih =>
      rw [ObjectMachine.unwind, waits.receive?]
      by_cases hreturn : kind = .return
      · rw [if_pos hreturn]
        exact .inl ⟨_, _, rfl, fun value => .running (waits.runs value) under⟩
      · rw [if_neg hreturn]
        exact ih fun hresult => absurd rfl (hk hresult)
  | @nested t f below role block waits under ih =>
      rw [ObjectMachine.unwind, waits.receive?]
      by_cases hresult : kind = .result
      · rw [if_pos hresult]
        exact .inl ⟨_, _, rfl, fun value => .running (waits.runs value) under⟩
      · rw [if_neg hresult]
        exact ih fun h => absurd h hresult
  | always last scope under ih =>
      rw [ObjectMachine.unwind, alwaysFrame_receive?]
      exact .inl ⟨_, _, rfl, fun value => .entered last scope under⟩
  | @handler code context below caught under ih =>
      rw [ObjectMachine.unwind, handlerFrame_receive?]
      by_cases hexception : kind = .exception
      · rw [if_pos hexception]
        subst hexception
        exact .inl ⟨_, _, rfl, fun value =>
          .running (handler_running caught context value) under⟩
      · rw [if_neg hexception]
        exact ih fun _ h => nomatch h

-- ====================================================== one instruction

theorem Instruction.takes_of_effect {i : Instruction} {takes leaves : Nat}
    (h : i.effect? = some (takes, leaves)) : i.takes = takes := by
  cases i with
  | instantiate module value =>
      match value with
      | some (.number _) => cases h; rfl
      | some (.string _) => cases h; rfl
      | some (.collection _) => cases h; rfl
      | none => cases h; rfl
  | _ => first | (cases h; rfl) | cases h

/-- Code that `Runs` never takes more operands than there are. -/
theorem Runs.takes_le {binds : String → Prop} {role : Role} {final : Option Nat}
    {i : Instruction} {rest : Code} {n : Nat} (h : Runs binds role final (i :: rest) n) :
    i.takes ≤ n := by
  cases h with
  | next effect _ enough _ => exact (Instruction.takes_of_effect effect).trans_le enough
  | jump _ _ _ => exact Nat.succ_le_succ (Nat.zero_le _)
  | ifThenElse _ _ _ => exact Nat.succ_le_succ (Nat.zero_le _)
  | tryCatchAlways _ _ _ _ => exact Nat.zero_le _
  | interrupt _ => exact Nat.succ_le_succ (Nat.zero_le _)
  | resume => exact Nat.succ_le_succ (Nat.zero_le _)

/-- Only code with a `final` depth can be at its end. -/
theorem Runs.final_of_nil {binds : String → Prop} {role : Role} {final : Option Nat} {n : Nat}
    (h : Runs binds role final [] n) : final = some n := by
  cases h
  rfl

/-- `resumeInterruption` is allowed to always blocks only. -/
theorem Runs.role_of_resume {binds : String → Prop} {role : Role} {final : Option Nat}
    {rest : Code} {n : Nat} (h : Runs binds role final (.resumeInterruption :: rest) n) :
    role = .always := by
  cases h with
  | next effect _ _ _ => cases effect
  | resume => rfl

theorem drop_succ_of_drop {α : Type} {l rest : List α} {n : Nat} {a : α}
    (h : l.drop n = a :: rest) : l[n]? = some a ∧ l.drop (n + 1) = rest := by
  refine ⟨?_, ?_⟩
  · rw [← List.head?_drop, h]
    rfl
  · rw [← List.tail_drop, h]
    rfl

section

variable {binds : String → Prop} {t : Terms} {f f' : Frame} {todo : Code} {own : List ObjectId}

/-- A frame that differs from a `Running` one in its counter and its operands,
with `Runs` for what is left. -/
theorem Running.goOn (own : List ObjectId) (h : Running binds t f) (hcode : f'.code = f.code)
    (hcontext : f'.context = f.context) (hpending : f'.pending = f.pending)
    (hresume : f'.resume = []) (hdrop : f'.code.drop f'.pc = todo ++ t.after)
    (hops : f'.operands = own ++ t.floor) (hruns : Runs binds t.role t.final todo own.length) :
    Running binds t f' where
  resume := hresume
  origin o ho := by
    rw [hcode, hcontext, hpending]
    exact h.origin o ho
  pending hrole := by
    rw [hpending]
    exact h.pending hrole
  left := ⟨todo, own, hdrop, hops, hruns⟩

/-- A `Running` frame that has started another one `Waits` for its value. -/
theorem Running.waits (h : Running binds t f) (kind : Interruption) {count : Nat}
    (hdrop : f.code.drop (f.pc + 1) = todo ++ t.after) (hops : f.operands = own ++ t.floor)
    (hcount : count ≤ own.length)
    (hruns : Runs binds t.role t.final todo (own.length - count + 1)) :
    Waits binds kind t ((f.next.dropping count).resuming [kind]) where
  resume := by
    show f.resume ++ [kind] = [kind]
    rw [h.resume]
    rfl
  started := Nat.succ_pos _
  runs value := by
    refine h.goOn (value :: own.drop count) rfl rfl rfl rfl hdrop ?_ ?_
    · show value :: f.operands.drop count = _
      rw [hops, List.drop_append_of_le_length hcount]
      rfl
    · rw [List.length_cons, List.length_drop]
      exact hruns

end

section

variable {R : Rules} {root t : Terms} {bottom below : List Frame} {f : Frame} {i : Instruction}
  {todo : Code} {own : List ObjectId} {n : Nat}

/-- Popping what nested code needs leaves the rest of the operands. -/
theorem own_of_length {d : Nat} (h : own.length = d + 1) : 1 ≤ own.length ∧ own.length - 1 = d := by
  omega

/-- What an instruction of a `Running` frame puts in its place (`Effect`) fits
into the region. -/
theorem Running.effect (h : Running R.binds t f) (under : Supports R root bottom t below)
    (hdrop : f.code.drop (f.pc + 1) = todo ++ t.after) (hops : f.operands = own ++ t.floor)
    {d : Nat} (hd : own.length = d) (hruns : Runs R.binds t.role t.final (i :: todo) d)
    (hscope : R.scopes n) {top : List Frame} (heffect : Effect R.binds f.next n i .next top) :
    Stacked R root bottom (top ++ below) := by
  generalize hrole : t.role = role at hruns
  generalize hfinal : t.final = final at hruns
  cases hruns with
  | @next _ _ _ _ _ takes leaves effect names enough tail =>
      subst hd hrole hfinal
      cases heffect with
      | @straight _ takes' leaves' values effect' count =>
          cases effect.symm.trans effect'
          refine .running (h.goOn (values ++ own.drop takes) rfl rfl rfl h.resume hdrop
            ?_ ?_) under
          · show values ++ f.operands.drop takes = _
            rw [hops, List.drop_append_of_le_length enough, List.append_assoc]
          · rw [List.length_append, List.length_drop, count, Nat.add_comm]
            exact tail
      | @start _ takes' code context effect' runs =>
          cases effect.symm.trans effect'
          exact .running (.fresh runs nofun context)
            (.call (h.waits .return hdrop hops enough tail) under)
      | jump taken => cases effect
      | branch condition => cases effect
      | protect => cases effect
  | @jump _ _ count _ k inside stay taken =>
      subst hrole hfinal
      obtain ⟨hone, hlen⟩ := own_of_length hd
      cases heffect with
      | straight effect' _ => cases effect'
      | start effect' _ => cases effect'
      | jump took =>
          have hown : f.operands.drop 1 = own.drop 1 ++ t.floor := by
            rw [hops, List.drop_append_of_le_length hone]
          have hleft : (own.drop 1).length = k := by
            rw [List.length_drop]
            exact hlen
          cases took with
          | false => exact .running (h.goOn _ rfl rfl rfl h.resume hdrop hown (hleft ▸ stay)) under
          | true =>
              refine .running (h.goOn _ rfl rfl rfl h.resume ?_ hown (hleft ▸ taken)) under
              show f.code.drop (f.pc + 1 + count) = _
              rw [← List.drop_drop, hdrop, List.drop_append_of_le_length inside]
  | @ifThenElse _ _ thenBranch elseBranch _ k yes no tail =>
      subst hrole hfinal
      obtain ⟨hone, hlen⟩ := own_of_length hd
      cases heffect with
      | straight effect' _ => cases effect'
      | start effect' _ => cases effect'
      | @branch _ _ context condition =>
          have hbranch : Runs R.binds .block none (if condition then thenBranch else elseBranch)
              0 := by
            cases condition with
            | true => exact yes
            | false => exact no
          exact .running (.fresh hbranch nofun context)
            (.nested nofun (h.waits .result hdrop hops hone (hlen ▸ tail)) under)
  | @tryCatchAlways _ _ body handler code _ k inner caught last tail =>
      subst hd hrole hfinal
      cases heffect with
      | straight effect' _ => cases effect'
      | start effect' _ => cases effect'
      | protect =>
          exact .running (.fresh inner nofun (n + 2)) (.handler caught (.always last hscope
            (.nested nofun (h.waits .result hdrop hops (Nat.zero_le _) tail) under)))
  | interrupt raises =>
      cases heffect with
      | straight effect' _ => cases effect'
      | start effect' _ => cases effect'
  | resume =>
      cases heffect with
      | straight effect' _ => cases effect'
      | start effect' _ => cases effect'

/-- What a `Running` frame raises of itself, its role allows (`LeftBy`). -/
theorem Effect.leftBy {role : Role} {final : Option Nat} {d : Nat}
    (hruns : Runs R.binds role final (i :: todo) d) {kind : Interruption} {value : ObjectId}
    {top : List Frame} (heffect : Effect R.binds f n i (.interrupt kind value) top) :
    role.LeftBy kind := by
  cases heffect with
  | interrupt _ =>
      cases hruns with
      | interrupt raises => exact raises.leftBy
      | next effect _ _ _ => cases effect
  | resume _ _ =>
      cases hruns with
      | resume => exact fun _ h => nomatch h
      | next effect _ _ _ => cases effect

/-- After a fault too, what is left (`Remains`) fits into the region. -/
theorem Running.remains (h : Running R.binds t f) (under : Supports R root bottom t below)
    (hdrop : f.code.drop (f.pc + 1) = todo ++ t.after) (hops : f.operands = own ++ t.floor)
    (hruns : Runs R.binds t.role t.final (i :: todo) own.length) (hscope : R.scopes n)
    {left : List Frame} (hremains : Remains f.next n below i left) :
    ∃ t', Supports R root bottom t' left := by
  generalize hrole : t.role = role at hruns
  generalize hfinal : t.final = final at hruns
  cases hremains with
  | same => exact ⟨t, under⟩
  | waiting =>
      cases hruns with
      | next effect _ _ _ => cases effect
      | tryCatchAlways inner caught last tail =>
          subst hrole hfinal
          exact ⟨.closed .block, .nested nofun
            (h.waits .result hdrop hops (Nat.zero_le _) tail) under⟩
  | shielded =>
      cases hruns with
      | next effect _ _ _ => cases effect
      | tryCatchAlways inner caught last tail =>
          subst hrole hfinal
          exact ⟨.closed .block, .always last hscope (.nested nofun
            (h.waits .result hdrop hops (Nat.zero_le _) tail) under)⟩

end

end

-- ======================================================= interruptions

/-- `receive?` changes neither operands nor code, so it keeps `Sound`. -/
theorem Frame.receive?_sound {h : Heap} {f g : Frame} {kind : Interruption}
    (hr : f.receive? kind = some g) (hf : f.Sound h) : g.Sound h := by
  unfold Frame.receive? Frame.takeResume? at hr
  split at hr
  · simp only [Option.map_some, Option.some.injEq] at hr
    subst hr
    split <;> exact ⟨hf.operands, hf.context, hf.constants⟩
  · cases hr

theorem unwind_sound {h : Heap} (kind : Interruption) {frames : List Frame}
    (hf : ∀ g ∈ frames, g.Sound h) : ∀ g ∈ unwind kind frames, g.Sound h := by
  induction frames with
  | nil => intro g hg; cases hg
  | cons f rest ih =>
      have hrest : ∀ g ∈ rest, g.Sound h := fun g hg => hf g (List.mem_cons_of_mem _ hg)
      rw [unwind]
      split
      · next f' hr =>
        intro g hg
        rcases List.mem_cons.1 hg with rfl | hg
        · exact Frame.receive?_sound hr (hf f List.mem_cons_self)
        · exact hrest g hg
      · exact ih hrest

theorem Engine.interrupt_ok {e : Engine} {m : Machine} {kind : Interruption} {value : ObjectId}
    {f : Frame} {below : List Frame} (h : unwind kind m.frames.tail = f :: below) :
    e.interrupt kind value m = .ok () { m with frames := f.push value :: below } := by
  simp only [Engine.interrupt, h]

-- ====================================================== steps of regions

/-- What the steps of a region leave as it was. In the contexts outside
`scopes`, names other than those of `binds` are bound as before; under `S` the
heap has changed by `Reaches`. -/
structure Machine.Follows (S : Prop) (R : Rules) (m m' : Machine) : Prop where
  scopes : m.heap.contexts.size ≤ m'.heap.contexts.size
  reaches : S → m.heap.Reaches m'.heap
  locals : ∀ c < m.heap.contexts.size, ¬ R.scopes c → ∀ name, ¬ R.binds name →
    m'.heap.local? c name = m.heap.local? c name

theorem Machine.Follows.refl (S : Prop) (R : Rules) (m : Machine) : m.Follows S R m :=
  ⟨le_rfl, fun _ => .refl, fun _ _ _ _ _ => rfl⟩

theorem Machine.Follows.trans {S : Prop} {R : Rules} {m m' m'' : Machine}
    (h : m.Follows S R m') (h' : m'.Follows S R m'') : m.Follows S R m'' :=
  ⟨h.scopes.trans h'.scopes, fun hs => (h.reaches hs).trans (h'.reaches hs),
    fun c hc hscope name hname => (h'.locals c (hc.trans_le h.scopes) hscope name hname).trans
      (h.locals c hc hscope name hname)⟩

theorem Machine.Advanced.follows {S : Prop} {R : Rules} {i : Instruction} {f : Frame}
    {m m' : Machine} (h : m.Advanced S i f m')
    (hspares : ∀ c name, ¬ R.scopes c → ¬ R.binds name → i.Spares f c name) :
    m.Follows S R m' :=
  ⟨h.scopes, h.reaches, fun c hc hscope name hname =>
    h.locals c hc name (hspares c name hscope hname)⟩

/-- A step that raises an interruption which leaves the region for its
`bottom`. -/
structure Leaving (S : Prop) (R : Rules) (root : Terms) (bottom : List Frame) (e : Engine)
    (m : Machine) (kind : Interruption) (value : ObjectId) (m' : Machine) : Prop where
  raises : e.raised? m = some (kind, value, m')
  unwinds : unwind kind m'.frames.tail = unwind kind bottom
  follows : m.Follows S R m'
  heap : S → m'.heap.Closed
  frames : S → ∀ g ∈ m'.frames.tail, g.Sound m'.heap
  value : S → value < m'.heap.size

theorem Leaving.step {S : Prop} {R : Rules} {root : Terms} {bottom : List Frame} {e : Engine}
    {m m' : Machine} {kind : Interruption} {value : ObjectId}
    (h : Leaving S R root bottom e m kind value m') : e.step m = e.interrupt kind value m' :=
  Engine.step_of_raised? h.raises

/-- A step after which the region is still `Stacked`. -/
structure Staying (S : Prop) (R : Rules) (root : Terms) (bottom : List Frame) (e : Engine)
    (m m' : Machine) : Prop where
  step : e.step m = .ok () m'
  stacked : Stacked R root bottom m'.frames
  follows : m.Follows S R m'
  sound : S → m'.Sound

/-- The root of the region has come to the end of its code, with no frame on
top. -/
def Finished (root : Terms) (bottom frames : List Frame) : Prop :=
  root.final ≠ none ∧ ∃ f, frames = f :: bottom ∧ f.code.drop f.pc = root.after

section

variable {S : Prop} {R : Rules} {root : Terms} {bottom : List Frame} {e : Engine} {m : Machine}

/-- A `Running` frame has an instruction left unless the region is `Finished`,
since only the root can be at the end of its code. -/
theorem Running.live {t : Terms} {f : Frame} {below : List Frame} (h : Running R.binds t f)
    (under : Supports R root bottom t below) (hlive : ¬ Finished root bottom (f :: below)) :
    ∃ i todo own, f.code[f.pc]? = some i ∧ f.code.drop (f.pc + 1) = todo ++ t.after
      ∧ f.operands = own ++ t.floor
      ∧ Runs R.binds t.role t.final (i :: todo) own.length := by
  obtain ⟨todo, own, hdrop, hops, hruns⟩ := h.left
  cases todo with
  | nil =>
      have hfinal := hruns.final_of_nil
      cases under with
      | root => exact absurd ⟨hfinal ▸ Option.some_ne_none _, f, rfl, hdrop⟩ hlive
      | _ => cases hfinal
  | cons i todo =>
      obtain ⟨hi, hnext⟩ := drop_succ_of_drop hdrop
      exact ⟨i, todo, own, hi, hnext, hops, hruns⟩

/-- An interruption that is `Raised` on top of a region stays in it or leaves
it, as `Supports.unwind` says. -/
theorem Raised.stays_or_leaves {i : Instruction} {f : Frame} {rest : List Frame}
    {kind : Interruption} {value : ObjectId} {m' : Machine} {t : Terms}
    (h : Raised S R.binds i f rest m kind value m')
    (hraises : e.raised? m = some (kind, value, m'))
    (under : Supports R root bottom t m'.frames.tail) (hk : t.role.LeftBy kind)
    (hspares : ∀ c name, ¬ R.scopes c → ¬ R.binds name → i.Spares f c name) :
    (∃ m', Staying S R root bottom e m m')
    ∨ ∃ kind value m', Leaving S R root bottom e m kind value m' := by
  have hfollows := h.advanced.follows hspares
  rcases under.unwind hk with ⟨g, below, hunwind, hstacked⟩ | hunwind
  · refine .inl ⟨_, (Engine.step_of_raised? hraises).trans (Engine.interrupt_ok hunwind),
      hstacked value,
      ⟨hfollows.scopes, hfollows.reaches, hfollows.locals⟩, fun hs => ⟨h.heap hs, fun g' hg => ?_⟩⟩
    have hsound := unwind_sound kind (h.frames hs)
    rw [hunwind] at hsound
    rcases List.mem_cons.1 hg with rfl | hg
    · refine (hsound g List.mem_cons_self).of_operands rfl rfl fun id hid => ?_
      rcases List.mem_cons.1 hid with rfl | hid
      · exact .inr (h.value hs)
      · exact .inl hid
    · exact hsound g' (List.mem_cons_of_mem _ hg)
  · exact .inr ⟨kind, value, m', hraises, hunwind, hfollows, h.heap, h.frames, h.value⟩

/-- The instructions of code that `Runs` bind only what they may (`Spares`). -/
theorem Runs.spares {role : Role} {final : Option Nat} {i : Instruction} {todo : Code} {d : Nat}
    (h : Runs R.binds role final (i :: todo) d) (f : Frame) (c : ContextId) (name : String)
    (hname : ¬ R.binds name) : i.Spares f c name := by
  intro lookup hi
  subst hi
  cases h with
  | next _ names _ _ => exact absurd (names name lookup rfl) hname

/-- The frame on top of a region has the operands for its next instruction. -/
theorem Stacked.ready {f : Frame} {below : List Frame} (h : Stacked R root bottom (f :: below))
    (hlive : ¬ Finished root bottom (f :: below)) {i : Instruction}
    (hi : f.code[f.pc]? = some i) :
    i.takes ≤ f.operands.length ∧ (i = .resumeInterruption → f.pending ≠ none) := by
  cases h with
  | running runs under =>
      obtain ⟨i', todo, own, hi', -, hops, hruns⟩ := runs.live under hlive
      cases hi.symm.trans hi'
      refine ⟨?_, fun hresume => ?_⟩
      · rw [hops, List.length_append]
        exact hruns.takes_le.trans (Nat.le_add_right _ _)
      · subst hresume
        exact runs.pending hruns.role_of_resume
  | entered last scope under =>
      cases hi
      exact ⟨le_rfl, fun h => nomatch h⟩

/-- One step of a region: it is `Staying`, or an interruption is `Leaving`
it. -/
theorem Stacked.step (he : e.Disciplined R.binds)
    (hfresh : ∀ c, m.heap.contexts.size ≤ c → R.scopes c) (hS : S → m.Sound)
    (h : Stacked R root bottom m.frames) (hlive : ¬ Finished root bottom m.frames) :
    (∃ m', Staying S R root bottom e m m')
    ∨ ∃ kind value m', Leaving S R root bottom e m kind value m' := by
  generalize hframes : m.frames = frames at h hlive
  have hready := h
  cases h with
  | @running t f below runs under =>
      obtain ⟨i, todo, own, hi, hnext, hops, hruns⟩ := runs.live under hlive
      obtain ⟨htakes, hpending⟩ := hready.ready hlive hi
      have hspares : ∀ c name, ¬ R.scopes c → ¬ R.binds name → i.Spares f.next c name :=
        fun c name _ hname => hruns.spares f.next c name hname
      have hscope := hfresh _ le_rfl
      rcases Engine.step_cases he hframes hS hi htakes hpending with
        ⟨m', hstep, hexec⟩ | ⟨kind, value, m', hstep, hraised⟩
      · obtain ⟨top, heffect, htop⟩ := hexec.effect
        refine .inl ⟨m', hstep, ?_, hexec.advanced.follows hspares, hexec.sound⟩
        rw [htop]
        exact runs.effect under hnext hops rfl hruns hscope heffect
      · rcases hraised.cause with ⟨htail, top, heffect⟩ | ⟨rfl, hremains⟩
        · exact hraised.stays_or_leaves hstep (htail ▸ under) (heffect.leftBy hruns) hspares
        · obtain ⟨t', hsupports⟩ := runs.remains under hnext hops hruns hscope hremains
          exact hraised.stays_or_leaves hstep hsupports t'.role.leftBy_exception hspares
  | @entered code context kind value below last scope under =>
      have hspares : ∀ c name, ¬ R.scopes c → ¬ R.binds name →
          (Instruction.store previousLocal false).Spares
            (enteredFrame code context kind value).next c name := by
        intro c name hscope _ lookup hi
        cases hi
        exact ⟨rfl, fun hc => hscope (hc ▸ scope)⟩
      obtain ⟨htakes, hpending⟩ := hready.ready (i := .store previousLocal false) hlive rfl
      rcases Engine.step_cases he hframes hS rfl htakes hpending with
        ⟨m', hstep, hexec⟩ | ⟨kind', value', m', hstep, hraised⟩
      · obtain ⟨top, heffect, htop⟩ := hexec.effect
        refine .inl ⟨m', hstep, ?_, hexec.advanced.follows hspares, hexec.sound⟩
        rw [htop]
        cases heffect with
        | @straight _ takes leaves values effect count =>
            cases effect
            obtain rfl := List.length_eq_zero_iff.1 count
            refine .running (t := .closed .always) ⟨rfl, fun _ ho => (nomatch ho),
              fun _ h => (nomatch h), code ++ resumption, [], ?_, rfl, last.resumed⟩ under
            exact (List.append_nil _).symm
        | start effect _ => cases effect
      · rcases hraised.cause with ⟨htail, top, heffect⟩ | ⟨rfl, hremains⟩
        · cases heffect
        · have htail : m'.frames.tail = below := by
            cases hremains
            rfl
          exact hraised.stays_or_leaves hstep (htail ▸ under) (Role.leftBy_exception _) hspares

end

end ObjectMachine
