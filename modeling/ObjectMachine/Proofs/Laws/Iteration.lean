/-
Lists apply a block to each of their elements.

`map` and `forEach` write code that sends `apply` to the block for one element
after another (`Traversal.code`), and run it in a frame of its own. The elements
are those of the list at that time. An application may do whatever it likes
above this frame; once it comes back, its value is on the stack, and what was
there before still is. So the values of all applications are there when `map`
makes the list (`lists_apply_blocks`). If one of them does not come back, the
frame never runs again, and there is no other application.

The frame is one more of those that `maxFrames` limits. Where there is no room
for it the call itself raises an exception, even if the list is empty
(`full_stack_refuses_empty_map`).
-/
import Mathlib
import ObjectMachine.Proofs.Laws.AlwaysBlocks
import ObjectMachine.Proofs.Laws.Arguments

namespace ObjectMachine

-- ================================================================= calls

def Instruction.isCall : Instruction → Bool
  | .call _ _ _ => true
  | _ => false

namespace Machine

/-- The running frame has `depth` frames below it, and its next instruction is a
`call`. -/
def callsAbove (depth : Nat) (m : Machine) : Bool :=
  match m.frames with
  | f :: rest => rest.length == depth && f.code[f.pc]?.any Instruction.isCall
  | [] => false

/-- The next instruction is a `call` of `message`, with the receiver and the
arguments on top of the operands. -/
def Sends (m : Machine) (receiver : ObjectId) (message : String) (args : List ObjectId) : Prop :=
  ∃ f rest others, m.frames = f :: rest ∧ f.code[f.pc]? = some (.call message args.length none)
    ∧ f.operands = args.reverse ++ receiver :: others

variable {m : Machine} {f : Frame} {rest : List Frame} {depth : Nat}

theorem callsAbove_of_call (hframes : m.frames = f :: rest) {message : String} {arity : Nat}
    {start : Option NodeId} (hi : f.code[f.pc]? = some (.call message arity start)) :
    m.callsAbove rest.length = true := by
  simp [callsAbove, hframes, hi, Instruction.isCall]

theorem length_of_callsAbove (h : m.callsAbove depth = true) : m.frames.length = depth + 1 := by
  unfold callsAbove at h
  split at h
  · next hframes =>
    rw [hframes, List.length_cons, beq_iff_eq.1 (Bool.and_eq_true_iff.1 h).1]
  · cases h

end Machine

namespace Engine

/-- In the `n` states after `m`, there are more frames than in `m`. -/
def Stays (e : Engine) (n : Nat) (m : Machine) : Prop :=
  ∀ k s, 0 < k → k ≤ n → e.after k m = some s → m.frames.length < s.frames.length

/-- The instruction of the running frame gets a value in `n + 1` steps, with
other frames on top of it until then (`Stays`). -/
structure Answers (e : Engine) (m : Machine) (value : ObjectId) (n : Nat) (m' : Machine) :
    Prop where
  run : e.after (n + 1) m = some m'
  stays : e.Stays n m
  frames : ∃ f rest i, m.frames = f :: rest ∧ f.code[f.pc]? = some i
    ∧ m'.frames = f.answered i value :: rest

/-- `Answers` in some number of steps. -/
def Answered (e : Engine) (m : Machine) (value : ObjectId) : Prop :=
  ∃ n m', e.Answers m value n m'

/-- The states among the first `n` of a run that are `callsAbove depth`. -/
def calls (e : Engine) (depth n : Nat) (m : Machine) : List Machine :=
  (List.range n).filterMap fun k => (e.after k m).filter fun s => s.callsAbove depth

variable {e : Engine} {m m' s : Machine} {depth n k : Nat}

theorem calls_add (hrun : e.after k m = some s) (n : Nat) :
    e.calls depth (k + n) m = e.calls depth k m ++ e.calls depth n s := by
  rw [calls, List.range_add, List.filterMap_append, List.filterMap_map]
  congr 2
  funext j
  simp only [Function.comp_apply, after_add k j hrun]

theorem calls_one (h : m.callsAbove depth = false) : e.calls depth 1 m = [] := by
  have hfirst : (e.after 0 m).filter (fun s => s.callsAbove depth) = none :=
    Option.filter_some_neg h
  rw [calls, List.range_one, List.filterMap_cons, hfirst]
  rfl

/-- A frame that has made a call makes no other while the run `Stays` above
it. -/
theorem calls_of_stays (hcall : m.callsAbove depth = true) (hstays : e.Stays n m) :
    e.calls depth (n + 1) m = [m] := by
  have hfirst : (e.after 0 m).filter (fun s => s.callsAbove depth) = some m :=
    Option.filter_eq_some_iff.2 ⟨rfl, hcall⟩
  rw [calls, List.range_succ_eq_map, List.filterMap_cons, hfirst, List.filterMap_map,
    List.cons_inj_right, List.filterMap_eq_nil_iff]
  intro k hk
  rw [Function.comp_apply, Option.filter_eq_none_iff]
  intro s hs hcall'
  have hdeep := hstays (k + 1) s (Nat.succ_pos k) (List.mem_range.1 hk) hs
  rw [Machine.length_of_callsAbove hcall, Machine.length_of_callsAbove hcall'] at hdeep
  exact absurd hdeep (Nat.lt_irrefl _)

end Engine

-- ============================================================ traversals

/-- The two native methods of lists that apply a block to every element. -/
inductive Traversal
  | forEach
  | map

namespace Traversal

open Natives

def selector : Traversal → String
  | forEach => "forEach"
  | map => "map"

/-- The code that comes after each `applyCode`: `forEach` drops the
answer, `map` keeps it. -/
def settle : Traversal → Code
  | forEach => [.pop]
  | map => []

/-- The code for one element: push the block, push the element, send `apply`,
and `settle`. -/
def piece (t : Traversal) (block element : ObjectId) : Code :=
  applyCode block element ++ t.settle

/-- The code after the last `piece`: `map` collects `count` operands into a
list, `forEach` pushes `void`, and both return. -/
def last (t : Traversal) (w : World) (count : Nat) : Code :=
  match t with
  | forEach => [.push .void, .interrupt .return]
  | map => [.instantiate w.core.list (some (.collection count)), .interrupt .return]

def code (t : Traversal) (w : World) (block : ObjectId) (elements : List ObjectId) : Code :=
  elements.flatMap (t.piece block) ++ t.last w elements.length

/-- The operands that `settle` leaves of the answers, the last one on top. -/
def kept (t : Traversal) (answers : List ObjectId) : List ObjectId :=
  match t with
  | forEach => []
  | map => answers.reverse

/-- The value that a traversal answers: `void`, or a list of the answers. -/
def Result (t : Traversal) (w : World) (answers : List ObjectId) (value : ObjectId) (h : Heap) :
    Prop :=
  match t with
  | forEach => value = .void
  | map => ∃ o, h.object? value = some o ∧ o.module = w.core.list
      ∧ o.inner = some (.collection answers)

/-- The frame of a traversal is on top of `under`, with the code for the
elements of `todo` left (`piece`, `last`) and the answers to those before `kept`
as operands. -/
def Ready (t : Traversal) (w : World) (block : ObjectId) (count : Nat)
    (todo answers : List ObjectId) (under : List Frame) (m : Machine) : Prop :=
  ∃ g, m.frames = g :: under ∧ g.resume = [] ∧ g.operands = t.kept answers
    ∧ g.code.drop g.pc = todo.flatMap (t.piece block) ++ t.last w count

/-- The same two instructions later: the next one sends `apply` for
`element`. -/
def Applying (t : Traversal) (w : World) (block : ObjectId) (count : Nat) (element : ObjectId)
    (todo answers : List ObjectId) (under : List Frame) (m : Machine) : Prop :=
  ∃ g, m.frames = g :: under ∧ g.resume = [] ∧ g.operands = element :: block :: t.kept answers
    ∧ g.code.drop g.pc
      = .call "apply" 1 none :: (t.settle ++ (todo.flatMap (t.piece block) ++ t.last w count))

end Traversal

namespace Engine

open ObjectMachine.Action

/-- A run of `n` steps that `Stays` above `depth` frames and in which the
`calls` of the frame there are, in order, `apply` for each of `elements`, each
of them `Answered` with the one of `answers` at its place. -/
structure Applied (e : Engine) (block : ObjectId) (depth : Nat) (elements answers : List ObjectId)
    (n : Nat) (m m' : Machine) : Prop where
  run : e.after n m = some m'
  deep : e.During n m fun s => depth < s.frames.length
  sent : List.Forall₂ (fun x s => s.Sends block "apply" [x]) elements (e.calls depth n m)
  answered : List.Forall₂ e.Answered (e.calls depth n m) answers

section

variable {e : Engine} {m s m' : Machine} {block : ObjectId} {depth n k : Nat}
  {elements others answers replies : List ObjectId}

/-- Two such runs, one after the other. -/
theorem Applied.append (h : e.Applied block depth elements answers n m s)
    (h' : e.Applied block depth others replies k s m') :
    e.Applied block depth (elements ++ others) (answers ++ replies) (n + k) m m' where
  run := (after_add n k h.run).trans h'.run
  deep j hj x hx := by
    by_cases hfirst : j < n
    · exact h.deep j hfirst x hx
    · obtain ⟨r, rfl⟩ := Nat.exists_eq_add_of_le (Nat.le_of_not_lt hfirst)
      rw [after_add n r h.run] at hx
      exact h'.deep r (Nat.lt_of_add_lt_add_left hj) x hx
  sent := by
    rw [calls_add h.run]
    exact List.rel_append h.sent h'.sent
  answered := by
    rw [calls_add h.run]
    exact List.rel_append h.answered h'.answered

theorem Applied.none : e.Applied block depth [] [] 0 m m :=
  ⟨rfl, nofun, .nil, .nil⟩

/-- A step at an instruction that is no call is such a run, without elements. -/
theorem Applied.of_step {f : Frame} {rest : List Frame} {i : Instruction}
    (hframes : m.frames = f :: rest) (hi : f.code[f.pc]? = some i) (hcall : i.isCall = false)
    (hstep : e.step m = .ok () m') : e.Applied block rest.length [] [] 1 m m' := by
  have hcalls : e.calls rest.length 1 m = [] :=
    calls_one (by simp [Machine.callsAbove, hframes, hi, hcall])
  refine ⟨after_step hstep 0, fun k hk s hs => ?_, ?_, ?_⟩
  · obtain rfl := Nat.lt_one_iff.1 hk
    cases hs
    rw [hframes]
    exact Nat.lt_succ_self _
  · rw [hcalls]
    exact .nil
  · rw [hcalls]
    exact .nil

/-- A call of `apply` that `Answers` is such a run, with one element. -/
theorem Applied.of_answers {element value : ObjectId} (hcall : m.callsAbove depth = true)
    (hsends : m.Sends block "apply" [element]) (hanswers : e.Answers m value n m') :
    e.Applied block depth [element] [value] (n + 1) m m' := by
  have hcalls := calls_of_stays hcall hanswers.stays
  have hlength := Machine.length_of_callsAbove hcall
  refine ⟨hanswers.run, fun k hk s hs => ?_, ?_, ?_⟩
  · rcases Nat.eq_zero_or_pos k with rfl | hpos
    · cases hs
      exact hlength ▸ Nat.lt_succ_self _
    · have hdeep := hanswers.stays k s hpos (Nat.le_of_lt_succ hk) hs
      rw [hlength] at hdeep
      exact Nat.lt_of_succ_lt hdeep
  · rw [hcalls]
    exact .cons hsends .nil
  · rw [hcalls]
    exact .cons ⟨n, m', hanswers⟩ .nil

end

variable {e : Engine} {m : Machine} {g : Frame} {under : List Frame} {count : Nat}

theorem step_push {id : ObjectId} (hframes : m.frames = g :: under)
    (hi : g.code[g.pc]? = some (.push id)) :
    e.step m = .ok () { m with frames := g.next.push id :: under } := by
  have hexecute : e.execute (.push id) { m with frames := g.next :: under }
      = .ok .next { m with frames := g.next.push id :: under } := rfl
  rw [step_eq hframes hi, hexecute]

theorem step_collect {module : NodeId} (hframes : m.frames = g :: under)
    (hi : g.code[g.pc]? = some (.instantiate module (some (.collection count))))
    (enough : count ≤ g.operands.length) :
    e.step m = .ok () { m with
      heap := (m.heap.allocate
        { module, inner := some (.collection (g.operands.take count).reverse) }).2
      frames := (g.next.dropping count).push m.heap.size :: under } := by
  have hexecute : (e.execute (.instantiate module (some (.collection count)))).run
      { m with frames := g.next :: under } = .ok .next { m with
        heap := (m.heap.allocate
          { module, inner := some (.collection (g.operands.take count).reverse) }).2
        frames := (g.next.dropping count).push m.heap.size :: under } := by
    rw [execute, instantiate,
      bind_ok (by rw [bind_ok (popMany_ok (f := g.next) rfl enough), onHeap_eq]),
      bind_ok (push_ok rfl _)]
    rfl
  rw [EStateM.run] at hexecute
  rw [step_eq hframes hi, hexecute]

/-- `interrupt .return` hands the operand on top to the frame below, which waits
for it. -/
theorem step_return {value : ObjectId} {others : List ObjectId} {f : Frame} {rest : List Frame}
    {i : Instruction} (hframes : m.frames = g :: f.waiting i .return :: rest)
    (hresume : f.resume = []) (hi : g.code[g.pc]? = some (.interrupt .return))
    (hops : g.operands = value :: others) :
    e.step m = .ok () { m with frames := f.answered i value :: rest } := by
  have hexecute : (e.execute (.interrupt .return)).run
      { m with frames := g.next :: f.waiting i .return :: rest }
      = .ok (.interrupt .return value)
        { m with frames := { g.next with operands := others } :: f.waiting i .return :: rest } :=
    bind_ok (pop_ok (f := g.next) rfl hops)
  have hlanding := landing_waiting hresume i .return .return value rest
  rw [if_pos rfl, landing] at hlanding
  rw [EStateM.run] at hexecute
  rw [step_eq hframes hi, hexecute]
  simp only [interrupt, List.tail_cons]
  cases hunwind : unwind .return (f.waiting i .return :: rest) with
  | nil =>
      rw [hunwind] at hlanding
      cases hlanding
  | cons h below =>
      rw [hunwind, List.modifyHead_cons] at hlanding
      rw [← hlanding]

end Engine

namespace Traversal

open Engine

variable {e : Engine} {m s : Machine} {under : List Frame} {t : Traversal}
  {block element : ObjectId} {count : Nat} {todo answers : List ObjectId}

/-- A `Ready` traversal with an element left is `Applying` after the two
pushes. -/
theorem Ready.applies (h : t.Ready e.toWorld block count (element :: todo) answers under m) :
    ∃ s, e.Applied block under.length [] [] 2 m s
      ∧ t.Applying e.toWorld block count element todo answers under s := by
  obtain ⟨g, hframes, hresume, hops, hcode⟩ := h
  rw [List.flatMap_cons, piece, Natives.applyCode, List.append_assoc, List.append_assoc] at hcode
  obtain ⟨hi, hdrop⟩ := drop_succ_of_drop hcode
  obtain ⟨hi₁, hdrop₁⟩ := drop_succ_of_drop hdrop
  have hstep := step_push (e := e) hframes hi
  have hstep₁ := step_push (e := e) (m := { m with frames := g.next.push block :: under }) rfl hi₁
  have happlied : e.Applied block under.length [] [] 2 m _ :=
    (Applied.of_step hframes hi rfl hstep).append (Applied.of_step rfl hi₁ rfl hstep₁)
  exact ⟨_, happlied, _, rfl, hresume, congrArg (element :: block :: ·) hops, hdrop₁⟩

theorem Applying.callsAbove (h : t.Applying e.toWorld block count element todo answers under s) :
    s.callsAbove under.length = true := by
  obtain ⟨g, hframes, -, -, hcode⟩ := h
  exact Machine.callsAbove_of_call hframes (drop_succ_of_drop hcode).1

theorem Applying.sends (h : t.Applying e.toWorld block count element todo answers under s) :
    s.Sends block "apply" [element] := by
  obtain ⟨g, hframes, -, hops, hcode⟩ := h
  exact ⟨g, under, _, hframes, (drop_succ_of_drop hcode).1, hops⟩

/-- Once `apply` is answered, `settle` leaves the traversal `Ready` for the next
element. -/
theorem Applying.ready (h : t.Applying e.toWorld block count element todo answers under s)
    {value : ObjectId} {n : Nat} {s' : Machine} (hanswers : e.Answers s value n s') :
    ∃ k m', e.Applied block under.length [element] [value] k s m'
      ∧ t.Ready e.toWorld block count todo (answers ++ [value]) under m' := by
  have hone := Applied.of_answers h.callsAbove h.sends hanswers
  obtain ⟨g, hframes, hresume, hops, hcode⟩ := h
  obtain ⟨hi, hdrop⟩ := drop_succ_of_drop hcode
  obtain ⟨f, rest, i, hframes', hi', hback⟩ := hanswers.frames
  cases hframes.symm.trans hframes'
  cases hi.symm.trans hi'
  have hops' : (g.answered (.call "apply" 1 none) value).operands = value :: t.kept answers := by
    rw [Frame.answered, hops]
    rfl
  cases t with
  | forEach =>
      obtain ⟨hi₁, hdrop₁⟩ := drop_succ_of_drop hdrop
      have hstep := step_pop (e := e) hback hi₁ hops'
      exact ⟨_, _, hone.append (Applied.of_step hback hi₁ rfl hstep), _, rfl, hresume, rfl, hdrop₁⟩
  | map =>
      refine ⟨_, _, hone, _, hback, hresume, ?_, hdrop⟩
      rw [hops', kept, kept, List.reverse_append]
      rfl

/-- By induction over `todo`: a `Ready` traversal applies the block to all
elements that are left, or comes to be `Applying` it to one for which there is
no answer. -/
theorem Ready.run (h : t.Ready e.toWorld block count todo answers under m) :
    (∃ n m' more, e.Applied block under.length todo more n m m'
      ∧ t.Ready e.toWorld block count [] (answers ++ more) under m')
    ∨ ∃ sent element unsent n s more given, todo = sent ++ element :: unsent
      ∧ e.Applied block under.length sent more n m s
      ∧ t.Applying e.toWorld block count element unsent given under s
      ∧ ∀ value, ¬ e.Answered s value := by
  induction todo generalizing m answers with
  | nil => exact .inl ⟨0, m, [], .none, by rwa [List.append_nil]⟩
  | cons element todo ih =>
      obtain ⟨s, hquiet, happlying⟩ := h.applies
      by_cases hanswered : ∃ value, e.Answered s value
      · obtain ⟨value, n, s', hanswers⟩ := hanswered
        obtain ⟨k, m', hone, hready⟩ := happlying.ready hanswers
        have hfirst := hquiet.append hone
        rcases ih hready with ⟨r, m'', more, hall, hlast⟩
          | ⟨sent, stuck, unsent, r, s', more, given, rfl, hall, hstuck, hnever⟩
        · refine .inl ⟨_, m'', value :: more, hfirst.append hall, ?_⟩
          rwa [List.append_assoc] at hlast
        · exact .inr ⟨element :: sent, stuck, unsent, _, s', value :: more, given, rfl,
            hfirst.append hall, hstuck, hnever⟩
      · exact .inr ⟨[], element, todo, 2, s, [], answers, rfl, hquiet, happlying,
          not_exists.1 hanswered⟩

/-- A `Ready` traversal without elements left has its `Result` on the stack
after one step, and returns it next. -/
theorem Ready.results (h : t.Ready e.toWorld block answers.length [] answers under m) :
    ∃ m' g value others, e.Applied block under.length [] [] 1 m m' ∧ m'.frames = g :: under
      ∧ g.operands = value :: others ∧ g.code[g.pc]? = some (.interrupt .return)
      ∧ t.Result e.toWorld answers value m'.heap ∧ (t = .map → value = m.heap.size) := by
  obtain ⟨g, hframes, -, hops, hcode⟩ := h
  cases t with
  | forEach =>
      obtain ⟨hi, hdrop⟩ := drop_succ_of_drop hcode
      obtain ⟨hi₁, -⟩ := drop_succ_of_drop hdrop
      have happlied : e.Applied block under.length [] [] 1 m _ :=
        .of_step hframes hi rfl (step_push hframes hi)
      exact ⟨_, _, .void, _, happlied, rfl, rfl, hi₁, rfl, nofun⟩
  | map =>
      obtain ⟨hi, hdrop⟩ := drop_succ_of_drop hcode
      obtain ⟨hi₁, -⟩ := drop_succ_of_drop hdrop
      have hlength : g.operands.length = answers.length := by rw [hops, kept, List.length_reverse]
      have htake : (g.operands.take answers.length).reverse = answers := by
        rw [List.take_of_length_le hlength.le, hops, kept, List.reverse_reverse]
      have hstep := step_collect (e := e) hframes hi hlength.ge
      rw [htake] at hstep
      have happlied : e.Applied block under.length [] [] 1 m _ := .of_step hframes hi rfl hstep
      exact ⟨_, _, m.heap.size, _, happlied, rfl, rfl, hi₁,
        ⟨_, (Heap.object?_allocate ..).trans (if_pos rfl), rfl, rfl⟩, fun _ => rfl⟩

end Traversal

-- =============================================================== outcome

namespace Engine

open ObjectMachine.Action

variable {e : Engine} {m m' m₁ s : Machine} {f : Frame} {rest : List Frame} {i : Instruction}
  {t : Traversal} {block : ObjectId} {elements : List ObjectId} {n : Nat}

/-- The running frame calls the method of a `Traversal` on a list, with a block,
and the lookup finds the native method of the library. -/
inductive CallsList (e : Engine) (t : Traversal) (m : Machine) (f : Frame) (block : ObjectId)
    (elements : List ObjectId) : Instruction → Prop
  | call {message : String} {start : Option NodeId} {list : ObjectId} {others : List ObjectId}
      {object : Object} {method owner : NodeId} {parameters : List Tree} {body : Option Tree}
      (operands : f.operands = block :: list :: others)
      (known : m.heap.object? list = some object)
      (holds : object.inner = some (.collection elements))
      (found : e.methodFor object.module message 1 start = some method)
      (isNative : e.program.kind? method = some (.method t.selector parameters body true))
      (within : e.program.parent? method = some owner)
      (name : e.program.qualifiedName owner = CoreNames.listClass) :
      CallsList e t m f block elements (.call message 1 start)

/-- The native method pushes a frame with the code of the traversal, by
`pushReturning`. -/
theorem perform_traversal {w : World} {list : ObjectId} {object : Object}
    (known : m.heap.object? list = some object)
    (holds : object.inner = some (.collection elements)) :
    ∃ native, Natives.core.get? CoreNames.listClass t.selector = some native ∧ native.arity = 1
      ∧ (native.perform w list [block]).run m
        = (pushReturning w (t.code w block elements) rootContext).run m := by
  have hblock : (Natives.argument [block] 0).run m = .ok block m := rfl
  have hlist : (Action.list w list).run m = .ok elements m := by
    have hinner : (inner list).run m = .ok (some (.collection elements)) m := by
      show EStateM.Result.ok ((m.heap.object? list).bind Object.inner) m = _
      rw [known, Option.bind_some, holds]
    rw [Action.list, bind_ok hinner]
    rfl
  cases t with
  | forEach => exact ⟨_, rfl, rfl, (bind_ok hblock).trans (bind_ok hlist)⟩
  | map => exact ⟨_, rfl, rfl, (bind_ok hblock).trans (bind_ok hlist)⟩

theorem pushReturning_eq {w : World} (hframes : m.frames = f :: rest) (code : Code)
    (context : ContextId) :
    (pushReturning w code context).run m
      = if rest.length + 1 < w.maxFrames then
          .ok () { m with frames := { code, context } :: f.resuming [.return] :: rest }
        else .error (.stackOverflow w.maxFrames)
          { m with frames := f.resuming [.return] :: rest } := by
  simp only [EStateM.run, pushReturning, await, onFrame, bind, EStateM.bind, hframes, pushFrame,
    List.length_cons]

/-- So does the `call`, and it changes nothing else. -/
theorem CallsList.executes (hn : e.natives = Natives.core)
    (h : e.CallsList t m f block elements i) (rest : List Frame) :
    (e.execute i).run { m with frames := f.next :: rest }
      = if rest.length + 1 < e.maxFrames then
          .ok .next { m with
            frames := { code := t.code e.toWorld block elements, context := rootContext }
              :: f.waiting i .return :: rest }
        else .error (.stackOverflow e.maxFrames)
          { m with frames := f.waiting i .return :: rest } := by
  cases h with
  | @call message start list others object method owner parameters body operands known holds found
      isNative within name =>
    have hargs : (popMany 1).run { m with frames := f.next :: rest }
        = .ok [block] { m with frames := f.next.dropping 1 :: rest } := by
      rw [popMany_ok (f := f.next) rfl (by simp [Frame.next, operands])]
      simp [Frame.next, operands]
    have hreceiver : pop.run { m with frames := f.next.dropping 1 :: rest }
        = .ok list { m with frames := f.next.dropping 2 :: rest } := by
      have htop : (f.next.dropping 1).operands = list :: others := by
        simp [Frame.next, Frame.dropping, operands]
      rw [pop_ok rfl htop]
      simp [Frame.next, Frame.dropping, operands]
    have hdispatch {m : Machine} (known : m.heap.object? list = some object) :
        (e.dispatch list message [block] start).run m
          = (pushReturning e.toWorld (t.code e.toWorld block elements) rootContext).run m := by
      obtain ⟨native, hnative, harity, hperform⟩ := perform_traversal known holds
      have hanswered : (e.dispatch list message [block] start).run m
          = (e.invoke method list [block]).run m := dispatch_answered known found
      rw [hanswered, ← hperform]
      simp only [invoke, isNative, invokeNative, within, Option.map_some, Option.getD_some, name,
        hn, hnative, harity, List.length_singleton, if_true]
    have hpush := (hdispatch (m := { m with frames := f.next.dropping 2 :: rest }) known).trans
      (pushReturning_eq rfl ..)
    rw [execute, bind_ok hargs, bind_ok hreceiver]
    split_ifs at hpush ⊢
    · exact bind_ok hpush
    · exact bind_error hpush

/-- The call is followed by a state that is `Ready` for all elements, or by the
exception of `Fault.stackOverflow`. -/
theorem CallsList.starts (hn : e.natives = Natives.core)
    (h : e.CallsList t m f block elements i) (hframes : m.frames = f :: rest)
    (hi : f.code[f.pc]? = some i) :
    (e.step m = .ok () { m with
      frames := { code := t.code e.toWorld block elements, context := rootContext }
        :: f.waiting i .return :: rest })
    ∨ (e.maxFrames ≤ m.frames.length
      ∧ ∀ m', e.Moves m m' → ∃ value, e.Lands m m' .exception value rest) := by
  have hexecutes := h.executes hn rest
  rw [EStateM.run] at hexecutes
  split_ifs at hexecutes with hroom
  · left
    rw [step_eq hframes hi, hexecutes]
  · refine .inr ⟨by rw [hframes]; exact Nat.le_of_not_lt hroom, fun m' hmoves => ?_⟩
    have hnew := newWithMessage_eq e.toWorld e.core.evaluationError
      (Fault.stackOverflow e.maxFrames).message { m with frames := f.waiting i .return :: rest }
    rw [EStateM.run] at hnew
    have hraised : e.raised? m = some (.exception, m.heap.size, { m with
        heap := e.toWorld.withMessage e.core.evaluationError
          (Fault.stackOverflow e.maxFrames).message m.heap
        frames := f.waiting i .return :: rest }) := by
      rw [raised?_eq hframes hi, hexecutes]
      simp only [exceptionOf, hnew]
    exact ⟨_, ⟨_, hraised⟩, landing_of_raised? hraised hmoves⟩

theorem stays_iff (hstep : e.step m = .ok () m₁) :
    e.Stays n m ↔ e.During n m₁ fun s => m.frames.length < s.frames.length := by
  refine ⟨fun h k hk s hs => ?_, fun h k s hpos hk hs => ?_⟩
  · exact h (k + 1) s (Nat.succ_pos k) hk ((after_step hstep k).trans hs)
  · obtain ⟨j, rfl⟩ := Nat.exists_eq_succ_of_ne_zero hpos.ne'
    exact h j hk s ((after_step hstep j).symm.trans hs)

/-- A step from within a run that `Stays` above `m` leaves more frames than `m`
has. -/
theorem Stays.moves (h : e.Stays n m) (hrun : e.after n m = some s) {r : Nat} (hr : r < n)
    (hpart : e.after r m = some m₁) (hmoves : e.Moves m₁ m') :
    m.frames.length < m'.frames.length := by
  obtain ⟨m₂, h₂⟩ := after_of_le (Nat.succ_le_of_lt hr) hrun
  obtain ⟨_, h₁, hstep⟩ := after_succ.1 h₂
  cases hpart.symm.trans h₁
  obtain rfl := hmoves.eq_of_step hstep
  exact h (r + 1) _ (Nat.succ_pos r) hr h₂

theorem Reached.of_stays (hm : e.Reached m) (hbusy : 1 < m.frames.length)
    (hrun : e.after n m = some s) (hstays : e.Stays n m) : e.Reached s := by
  refine hm.after hrun fun k hk x hx => ?_
  rcases Nat.eq_zero_or_pos k with rfl | hpos
  · cases hx
    exact hbusy
  · exact hbusy.trans (hstays k x hpos hk.le hx)

/-- The first state with no more frames than `m` has, when `m` is about to
execute an instruction that `awaits?` a value. Either the frame of `m` is on top
again, after its instruction and with the value pushed, or some other
interruption `Lands` in the frames below it. This is `start_outcome` with no rule
on what is bound. -/
theorem Reached.outcome (hn : e.natives = Natives.core) (hm : e.Reached m)
    (hframes : m.frames = f :: rest) (hi : f.code[f.pc]? = some i) {kind : Interruption}
    (hkind : i.awaits? = some kind) (hrun : e.after n m = some m₁) (hmoves : e.Moves m₁ m')
    (hstays : e.Stays n m) (hback : m'.frames.length ≤ m.frames.length) :
    (∃ value, m'.frames = f.answered i value :: rest)
    ∨ ∃ other value, other ≠ kind ∧ e.Lands m₁ m' other value rest := by
  have he : e.Orderly Rules.free.binds := .of_natives (hn ▸ Natives.core_lawful)
  obtain ⟨-, htakes, t, hfinal, hrunning⟩ := hm.starting he hframes hi hkind
  rw [hframes, List.length_cons] at hback
  refine start_outcome (R := .free) he.toDisciplined (fun _ => trivial) hrunning hfinal hframes hi
    htakes hkind hrun hmoves (fun k s hpos hk hs => ?_) hback
  have hdeep := hstays k s hpos hk hs
  rwa [hframes] at hdeep

/-- If there are fewer frames then, it is the second case of
`Reached.outcome`. -/
theorem Reached.passes (hn : e.natives = Natives.core) (hm : e.Reached m)
    (hframes : m.frames = f :: rest) (hi : f.code[f.pc]? = some i) {kind : Interruption}
    (hkind : i.awaits? = some kind) (hrun : e.after n m = some m₁) (hmoves : e.Moves m₁ m')
    (hstays : e.Stays n m) (hlow : m'.frames.length < m.frames.length) :
    ∃ other value, other ≠ kind ∧ e.Lands m₁ m' other value rest := by
  refine (hm.outcome hn hframes hi hkind hrun hmoves hstays hlow.le).resolve_left ?_
  rintro ⟨value, hvalue⟩
  rw [hvalue, hframes] at hlow
  exact absurd hlow (Nat.lt_irrefl _)

/-- Where the instruction is not `Answered`, a run that keeps the frame keeps
others on top of it: by `Reached.outcome` the first state in which it is on top
would be an answer. -/
theorem Reached.stays (hn : e.natives = Natives.core) (hm : e.Reached m)
    (hframes : m.frames = f :: rest) (hi : f.code[f.pc]? = some i) {kind : Interruption}
    (hkind : i.awaits? = some kind) (hnever : ∀ value, ¬ e.Answered m value)
    (hdeep : e.During (n + 1) m fun s => rest.length < s.frames.length) : e.Stays n m := by
  induction n with
  | zero => exact fun k s hpos hk => absurd hpos (Nat.not_lt.2 hk)
  | succ n ih =>
      have hstays := ih (hdeep.mono (Nat.le_succ _))
      intro k s hpos hk hs
      rcases Nat.le_succ_iff.1 hk with hk | rfl
      · exact hstays k s hpos hk hs
      · by_contra hlow
        obtain ⟨m₁, hrun, hstep⟩ := after_succ.1 hs
        rcases hm.outcome hn hframes hi hkind hrun (.inl hstep) hstays (Nat.le_of_not_lt hlow) with
          ⟨value, hvalue⟩ | ⟨other, value, -, hlands⟩
        · exact hnever value ⟨n, s, hs, hstays, f, rest, i, hframes, hi, hvalue⟩
        · have hlength : rest.length < s.frames.length := hdeep (n + 1) (Nat.lt_succ_self _) s hs
          rw [hlands.frames] at hlength
          exact absurd hlength (Nat.not_lt.2 (landing_length_le ..))

/-- The call is answered with `value` in `n + 1` steps. The `calls` of the frame
of the traversal until then are `apply` for each of `elements`, each is
`Answered` by one of `answers`, and `value` is the `Result`. The list that `map`
answers is new. -/
structure Completes (e : Engine) (t : Traversal) (m : Machine) (block : ObjectId)
    (elements answers : List ObjectId) (value : ObjectId) (n : Nat) (m' : Machine) : Prop where
  answered : e.Answers m value n m'
  sent : List.Forall₂ (fun x s => s.Sends block "apply" [x]) elements
    (e.calls m.frames.length (n + 1) m)
  replies : List.Forall₂ e.Answered (e.calls m.frames.length (n + 1) m) answers
  result : t.Result e.toWorld answers value m'.heap
  fresh : t = .map → ∀ k s, k < n → e.after k m = some s → s.heap.size ≤ value

/-- The three outcomes of a call that applies a block to the elements of a
list. -/
inductive Iterates (e : Engine) (t : Traversal) (m : Machine) (rest : List Frame)
    (block : ObjectId) (elements : List ObjectId) : Prop
  /-- There are `maxFrames` frames already, so that `pushReturning` finds no room
  for the code of the traversal. Nothing is applied; the next step throws the
  exception of `Fault.stackOverflow`, which lands in the frames below. -/
  | refused (full : e.maxFrames ≤ m.frames.length)
      (raises : ∀ m', e.Moves m m' → ∃ value, e.Lands m m' .exception value rest)
  | completed {n : Nat} {m' : Machine} {value : ObjectId} {answers : List ObjectId}
      (completes : e.Completes t m block elements answers value n m') :
      Iterates e t m rest block elements
  /-- There is no answer for one of the elements. This is the last application,
  and if an interruption comes out of it, it `Lands` below the call too. -/
  | stopped {n : Nat} {s : Machine} {sent unsent answers : List ObjectId} {element : ObjectId}
      (split : elements = sent ++ element :: unsent) (run : e.after n m = some s)
      (stays : e.Stays n m)
      (before : List.Forall₂ (fun x s => s.Sends block "apply" [x]) sent
        (e.calls m.frames.length n m))
      (replies : List.Forall₂ e.Answered (e.calls m.frames.length n m) answers)
      (sends : s.Sends block "apply" [element]) (unanswered : ∀ value, ¬ e.Answered s value)
      (last : ∀ r, n ≤ r → e.Stays r m →
        e.calls m.frames.length (r + 1) m = e.calls m.frames.length n m ++ [s])
      (passes : ∀ r s' m', e.after r m = some s' → e.Stays r m → e.Moves s' m' →
        m'.frames.length ≤ m.frames.length →
          ∃ other value, other ≠ .return ∧ e.Lands s' m' other value rest) :
      Iterates e t m rest block elements

section

variable (hn : e.natives = Natives.core) (hm : e.Reached m) (hframes : m.frames = f :: rest)
  (hi : f.code[f.pc]? = some i) (hkind : i.awaits? = some .return)
  (hstep : e.step m = .ok () m₁)
include hframes hstep

/-- The frame of the traversal is above the calling one, so the call itself is
not among its `calls`. -/
theorem calls_of_step (n : Nat) :
    e.calls m.frames.length (n + 1) m = e.calls m.frames.length n m₁ := by
  have hfirst : e.calls m.frames.length 1 m = [] :=
    calls_one (by simp [Machine.callsAbove, hframes])
  rw [Nat.add_comm, calls_add (after_step hstep 0), hfirst, List.nil_append]

include hn hm hi hkind

/-- A traversal that has `Applied` the block to all elements and is `Ready` with
none left is `completed`. -/
theorem iterates_of_applied {n : Nat} {m₂ : Machine} {answers : List ObjectId}
    (happlied : e.Applied block m.frames.length elements answers n m₁ m₂)
    (hready : t.Ready e.toWorld block elements.length [] answers (f.waiting i .return :: rest) m₂) :
    e.Iterates t m rest block elements := by
  have he : e.Orderly Rules.free.binds := .of_natives (hn ▸ Natives.core_lawful)
  obtain ⟨-, -, _, -, hrunning⟩ := hm.starting he hframes hi hkind
  rw [happlied.sent.length_eq, happlied.answered.length_eq] at hready
  obtain ⟨m₃, g, value, others, hresults, hframes₃, hops, hreturn, hresult, hfresh⟩ :=
    hready.results
  have hstep₃ := step_return (e := e) hframes₃ hrunning.resume hreturn hops
  have hlast := hresults.append (Applied.of_step hframes₃ hreturn rfl hstep₃)
  have hlength : (f.waiting i .return :: rest).length = m.frames.length := by
    rw [hframes]
    rfl
  rw [hlength] at hlast
  have hall := happlied.append hlast
  simp only [List.append_nil] at hall
  refine .completed ⟨⟨(after_step hstep _).trans hall.run, (stays_iff hstep).2 hall.deep, f, rest,
    i, hframes, hi, rfl⟩, ?_, ?_, hresult, fun ht k s hk hs => ?_⟩
  · rw [calls_of_step hframes hstep]
    exact hall.sent
  · rw [calls_of_step hframes hstep]
    exact hall.answered
  · -- What is there when the list is made has been there no later than the last answer.
    rw [hfresh ht]
    obtain ⟨j, hj⟩ : ∃ j, n + 1 = k + j := Nat.exists_eq_add_of_le (Nat.le_of_lt_succ hk)
    have hlater : e.after j s = some m₂ := by
      rw [← after_add k j hs, ← hj, after_step hstep]
      exact happlied.run
    exact (after_grows hn hlater).size_le

/-- A traversal that is `Applying` the block to an element without an answer is
`stopped`. -/
theorem iterates_of_unanswered {n count : Nat} {sent unsent answers given : List ObjectId}
    {element : ObjectId} (hsplit : elements = sent ++ element :: unsent)
    (happlied : e.Applied block m.frames.length sent answers n m₁ s)
    (happlying : t.Applying e.toWorld block count element unsent given
      (f.waiting i .return :: rest) s)
    (hnever : ∀ value, ¬ e.Answered s value) : e.Iterates t m rest block elements := by
  have he : e.Orderly Rules.free.binds := .of_natives (hn ▸ Natives.core_lawful)
  obtain ⟨hbusy, -, _, -, hrunning⟩ := hm.starting he hframes hi hkind
  have hlength : m.frames.length = (f.waiting i .return :: rest).length := by
    rw [hframes]
    rfl
  have hcalls := happlying.callsAbove
  have hrun : e.after (n + 1) m = some s := (after_step hstep n).trans happlied.run
  have hstays : e.Stays (n + 1) m := by
    refine (stays_iff hstep).2 fun k hk x hx => ?_
    rcases Nat.lt_succ_iff_lt_or_eq.1 hk with hk | rfl
    · exact happlied.deep k hk x hx
    · cases happlied.run.symm.trans hx
      rw [Machine.length_of_callsAbove hcalls, hlength]
      exact Nat.lt_succ_self _
  have hreached : e.Reached s := hm.of_stays hbusy hrun hstays
  obtain ⟨g, hframes', -, -, hcode⟩ := id happlying
  obtain ⟨hi', -⟩ := drop_succ_of_drop hcode
  -- From then on the frame of the traversal is below others.
  have hbelow : ∀ j, e.Stays (n + 1 + j) m → e.Stays j s := by
    intro j hj
    refine hreached.stays hn hframes' hi' rfl hnever fun k hk x hx => ?_
    rw [← hlength]
    exact hj (n + 1 + k) x (Nat.lt_of_lt_of_le (Nat.succ_pos n) (Nat.le_add_right _ _))
      (Nat.add_le_add_left (Nat.le_of_lt_succ hk) _) ((after_add _ _ hrun).trans hx)
  have hsent := happlied.sent
  have hanswered := happlied.answered
  rw [← calls_of_step hframes hstep] at hsent hanswered
  refine .stopped hsplit hrun hstays hsent hanswered happlying.sends hnever
    (fun r hr hstays' => ?_) fun r s' m' hs' hstays' hmoves hback => ?_
  · obtain ⟨j, rfl⟩ := Nat.exists_eq_add_of_le hr
    rw [Nat.add_assoc, calls_add hrun, hlength, calls_of_stays hcalls (hbelow j hstays')]
  · by_cases hr : n + 1 ≤ r
    · obtain ⟨j, rfl⟩ := Nat.exists_eq_add_of_le hr
      rw [after_add _ _ hrun] at hs'
      have hlow : m'.frames.length < s.frames.length := by
        rw [hframes', List.length_cons, ← hlength]
        exact Nat.lt_succ_of_le hback
      obtain ⟨other, value, hother, hraises, hlands⟩ :=
        hreached.passes hn hframes' hi' rfl hs' hmoves (hbelow j hstays') hlow
      rw [landing_waiting hrunning.resume, if_neg hother] at hlands
      exact ⟨other, value, hother, hraises, hlands⟩
    · exact absurd (hstays.moves hrun (Nat.lt_of_not_le hr) hs' hmoves) (Nat.not_lt.2 hback)

end

/-- `map` and `forEach` apply the block to the elements that the list has when
they are called, to each one once and in order (`completed`), unless an
application does not come back with a value: then it is the last one
(`stopped`). Where `maxFrames` leaves no room for the frame of the traversal,
the call raises an exception instead (`refused`). -/
theorem lists_apply_blocks (hn : e.natives = Natives.core) (hm : e.Reached m)
    (hframes : m.frames = f :: rest) (hi : f.code[f.pc]? = some i)
    (hcall : e.CallsList t m f block elements i) : e.Iterates t m rest block elements := by
  have hkind : i.awaits? = some .return := by
    cases hcall
    rfl
  have hlength : m.frames.length = (f.waiting i .return :: rest).length := by
    rw [hframes]
    rfl
  rcases hcall.starts hn hframes hi with hstep | ⟨hfull, hraises⟩
  · have hready : t.Ready e.toWorld block elements.length elements []
        (f.waiting i .return :: rest) { m with
          frames := { code := t.code e.toWorld block elements, context := rootContext }
            :: f.waiting i .return :: rest } := by
      refine ⟨_, rfl, rfl, ?_, rfl⟩
      cases t <;> rfl
    rcases hready.run with ⟨n, m₂, answers, happlied, hdone⟩
      | ⟨sent, element, unsent, n, s, answers, given, hsplit, happlied, happlying, hnever⟩
    · rw [← hlength] at happlied
      exact iterates_of_applied hn hm hframes hi hkind hstep happlied hdone
    · rw [← hlength] at happlied
      exact iterates_of_unanswered hn hm hframes hi hkind hstep hsplit happlied happlying hnever
  · exact .refused hfull hraises

/-- `Answers` determines the number of steps, the state and the value: it is the
first state in which the frame is back. -/
theorem Answers.unique {value other : ObjectId} {n' : Nat} {s : Machine}
    (h : e.Answers m value n m') (h' : e.Answers m other n' s) :
    n = n' ∧ m' = s ∧ value = other := by
  -- The frame is on top again at the end of the one, so not on the way of the other.
  have hle {a b : ObjectId} {k k' : Nat} {x y : Machine} (h : e.Answers m a k x)
      (h' : e.Answers m b k' y) : k' ≤ k := by
    by_contra hlt
    obtain ⟨f, rest, i, hframes, -, hback⟩ := h.frames
    have hdeep := h'.stays (k + 1) x (Nat.succ_pos k) (Nat.lt_of_not_le hlt) h.run
    rw [hframes, hback] at hdeep
    exact absurd hdeep (Nat.lt_irrefl _)
  obtain rfl := Nat.le_antisymm (hle h' h) (hle h h')
  obtain rfl : m' = s := Option.some.inj (h.run.symm.trans h'.run)
  obtain ⟨f, rest, i, hframes, hi, hback⟩ := h.frames
  obtain ⟨g, under, j, hframes', hj, hback'⟩ := h'.frames
  cases hframes.symm.trans hframes'
  cases hi.symm.trans hj
  have hoperands := congrArg Frame.operands (List.cons.inj (hback.symm.trans hback')).1
  exact ⟨rfl, rfl, (List.cons.inj hoperands).1⟩

/-- A call is not `Answered` if the first state with its frame on top, or gone,
always comes from an interruption that `Lands` below it. -/
theorem not_answered_of_passes (hframes : m.frames = f :: rest)
    (hpasses : ∀ r s m', e.after r m = some s → e.Stays r m → e.Moves s m' →
      m'.frames.length ≤ m.frames.length → ∃ other value, e.Lands s m' other value rest)
    (value : ObjectId) : ¬ e.Answered m value := by
  rintro ⟨n, m', h⟩
  obtain ⟨s, hs, hstep⟩ := after_succ.1 h.run
  obtain ⟨g, under, i, hframes', -, hback⟩ := h.frames
  have hlength : m'.frames.length = m.frames.length := by
    rw [hframes', hback]
    rfl
  obtain ⟨other, _, hlands⟩ := hpasses n s m' hs h.stays (.inl hstep) hlength.le
  have hlow := landing_length_le other ‹_› rest
  rw [← hlands.frames, hlength, hframes] at hlow
  exact absurd hlow (Nat.not_succ_le_self _)

/-- A call whose next step throws is not `Answered`. -/
theorem not_answered_of_raises (hframes : m.frames = f :: rest)
    (hraises : ∀ m', e.Moves m m' → ∃ value, e.Lands m m' .exception value rest)
    (value : ObjectId) : ¬ e.Answered m value := by
  refine not_answered_of_passes hframes (fun r s m' hs hstays hmoves _ => ?_) value
  rcases Nat.eq_zero_or_pos r with rfl | hpos
  · cases hs
    exact ⟨_, hraises m' hmoves⟩
  · obtain ⟨m₁, h₁⟩ := after_of_le hpos hs
    obtain ⟨_, hzero, hstep⟩ := after_succ.1 h₁
    cases hzero
    obtain ⟨thrown, hlands⟩ := hraises m₁ (.inl hstep)
    have hdeep := hstays 1 m₁ Nat.one_pos hpos h₁
    have hlow := landing_length_le .exception thrown rest
    rw [hlands.frames, hframes] at hdeep
    exact absurd (hdeep.trans_le hlow) (Nat.not_succ_lt_self)

/-- A call that is answered has the outcome `completed`: the other two exclude
an answer. -/
theorem Iterates.completes (h : e.Iterates t m rest block elements)
    (hframes : m.frames = f :: rest) {value : ObjectId} (hanswers : e.Answers m value n m') :
    ∃ answers, e.Completes t m block elements answers value n m' := by
  cases h with
  | refused _ raises => exact absurd ⟨n, m', hanswers⟩ (not_answered_of_raises hframes raises value)
  | completed completes =>
      obtain ⟨rfl, rfl, rfl⟩ := completes.answered.unique hanswers
      exact ⟨_, completes⟩
  | stopped _ _ _ _ _ _ _ _ passes =>
      refine absurd ⟨n, m', hanswers⟩ (not_answered_of_passes hframes ?_ value)
      intro r s' m' hs' hstays hmoves hback
      obtain ⟨other, value, -, hlands⟩ := passes r s' m' hs' hstays hmoves hback
      exact ⟨other, value, hlands⟩

end Engine

namespace Choir

open Build

def listOf (elements : List Tree) : Tree :=
  .of (.literal (.collection (.of (.reference "List" (some 8))) elements))

/-- A program that maps a list of two elements, with a closure that answers its
argument, and one that maps a list of none. -/
def forest : List Tree :=
  [Sample.library [nativeMethod "map" ["block"]],
   program "main" [send (listOf [boolean true, boolean false]) "map"
     [closure ["voice"] [.of (.reference "voice" (some 21))]]],
   program "silence" [send (listOf []) "map" [boolean true]]]

def engine : Engine := Sample.engineOf forest

/-- There is room for the frame of a program and the one below it. -/
def narrow : Engine := { engine with maxFrames := 2 }

/-- The code of the program. -/
def code : Code :=
  [.push .true, .push .false, .instantiate 8 (some (.collection 2)), .instantiate 19 none,
   .init 0 19 true, .call "map" 1 none]

/-- The code of the one with an empty list. -/
def silence : Code :=
  [.instantiate 8 (some (.collection 0)), .push .true, .call "map" 1 none]

/-- `code` is about to run in the root context of `e`, above the frame that
awaits its value. -/
def started (e : Engine) (code : Code) : Machine where
  heap := e.initialHeap
  frames := [entryFrame code rootContext, holderFrame rootContext]

/-- The heap once the list and the closure are there. -/
def heap : Heap :=
  (((engine.initialHeap.allocate
    { module := 8, inner := some (.collection [.true, .false]) }).2.allocate
    { module := 19, parent := 0, answersSelf := false }).2.newContext (.object 5)).2.declare
      1 "self" 5

/-- The list, the object 4, is about to be mapped with the closure, the
object 5. -/
def calling : Machine where
  heap := heap
  frames := [{ entryFrame code rootContext with pc := 5, operands := [5, 4] },
    holderFrame rootContext]

/-- It has been mapped, to the object 6. -/
def mapped : Machine where
  heap := (((((heap.newContext (.object 5)).2.declare 2 "voice" .true).newContext
    (.object 5)).2.declare 3 "voice" .false).allocate
      { module := 8, inner := some (.collection [.true, .false]) }).2
  frames := [{ entryFrame code rootContext with pc := 6, operands := [6] },
    holderFrame rootContext]

theorem reached {e : Engine} {code : Code} (id : NodeId)
    (h : ((e.program.tree? id).bind Tree.body?).map e.program.blockCode = some (.ok code)) :
    e.Reached (started e code) := by
  obtain ⟨body, hbody, hcode⟩ := Option.map_eq_some_iff.1 h
  obtain ⟨t, ht, hbody⟩ := Option.bind_eq_some_iff.1 hbody
  exact .enter .initial rfl (.block (Program.tree?_mem ht) hbody hcode) Nat.one_pos

end Choir

open Engine in
/-- `lists_apply_blocks` for `map`: the closure is sent `apply` for each of the
two elements, and what it answers is the new list. -/
theorem choir_applies_block :
    Choir.engine.Reached Choir.calling
      ∧ (∃ f rest, Choir.calling.frames = f :: rest ∧ f.code[f.pc]? = some (.call "map" 1 none)
        ∧ Choir.engine.CallsList .map Choir.calling f 5 [ObjectId.true, ObjectId.false]
          (.call "map" 1 none))
      ∧ Choir.engine.Completes .map Choir.calling 5 [ObjectId.true, ObjectId.false]
        [ObjectId.true, ObjectId.false] 6 12 Choir.mapped := by
  have hrun :
      Choir.engine.after 7 (Choir.started Choir.engine Choir.code) = some Choir.calling := by
    cbv
  have hm : Choir.engine.Reached Choir.calling :=
    (Choir.reached 11 rfl).after hrun (during_of_all (by decide +kernel))
  obtain ⟨f, rest, o, hframes, hops, known, holds, found⟩ : ∃ f rest o,
      Choir.calling.frames = f :: rest ∧ f.operands = [5, 4]
        ∧ Choir.calling.heap.object? 4 = some o
        ∧ o.inner = some (.collection [ObjectId.true, ObjectId.false])
        ∧ Choir.engine.methodFor o.module "map" 1 none = some 9 :=
    ⟨_, _, _, rfl, rfl, rfl, rfl, rfl⟩
  have hcall : Choir.engine.CallsList .map Choir.calling f 5 [ObjectId.true, ObjectId.false]
      (.call "map" 1 none) := .call hops known holds found rfl rfl rfl
  cases hframes
  have hstep := (hcall.starts rfl rfl rfl).resolve_right fun h => absurd h.1 (by decide)
  have hanswers : Choir.engine.Answers Choir.calling 6 12 Choir.mapped :=
    ⟨by cbv, (stays_iff hstep).2 (during_of_all (by decide +kernel)), _, _, _, rfl, rfl, rfl⟩
  obtain ⟨answers, hcompletes⟩ :=
    (lists_apply_blocks rfl hm rfl rfl hcall).completes rfl hanswers
  -- What the closure has answered is what the list is made of.
  obtain ⟨new, hnew, -, hlist⟩ := hcompletes.result
  cases hnew
  cases hlist
  exact ⟨hm, ⟨_, _, rfl, rfl, hcall⟩, hcompletes⟩

open Engine in
/-- At the limit of frames the call of `map` on an empty list is not answered,
although there is no application that could fail: it raises an exception. -/
theorem full_stack_refuses_empty_map :
    ∃ m f rest, Choir.narrow.after 2 (Choir.started Choir.narrow Choir.silence) = some m
      ∧ Choir.narrow.Reached m ∧ m.frames = f :: rest
      ∧ f.code[f.pc]? = some (.call "map" 1 none)
      ∧ Choir.narrow.CallsList .map m f ObjectId.true [] (.call "map" 1 none)
      ∧ (∀ n, Choir.narrow.calls m.frames.length n m = [])
      ∧ (∀ value, ¬ Choir.narrow.Answered m value)
      ∧ ∀ m', Choir.narrow.Moves m m' → ∃ value, Choir.narrow.Lands m m' .exception value rest := by
  obtain ⟨m, f, rest, o, hrun, hframes, hi, hops, known, holds, found⟩ : ∃ m f rest o,
      Choir.narrow.after 2 (Choir.started Choir.narrow Choir.silence) = some m
        ∧ m.frames = f :: rest ∧ f.code[f.pc]? = some (.call "map" 1 none)
        ∧ f.operands = [ObjectId.true, 4] ∧ m.heap.object? 4 = some o
        ∧ o.inner = some (.collection [])
        ∧ Choir.narrow.methodFor o.module "map" 1 none = some 9 :=
    ⟨_, _, _, _, rfl, rfl, rfl, rfl, rfl, rfl, rfl⟩
  have hm : Choir.narrow.Reached m :=
    (Choir.reached 25 rfl).after hrun (during_of_all (by decide +kernel))
  have hcall : Choir.narrow.CallsList .map m f ObjectId.true [] (.call "map" 1 none) :=
    .call hops known holds found rfl rfl rfl
  have hfails : Choir.narrow.after 1 m = none := by
    cases hrun
    rfl
  have hraises := (hcall.starts rfl hframes hi).resolve_left fun hstep => by
    cases (after_step hstep 0).symm.trans hfails
  refine ⟨m, f, rest, hrun, hm, hframes, hi, hcall, fun n => ?_,
    not_answered_of_raises hframes hraises.2, hraises.2⟩
  rw [calls, List.filterMap_eq_nil_iff]
  rintro (- | k) -
  · exact Option.filter_some_neg (by simp [Machine.callsAbove, hframes])
  · cases hlater : Choir.narrow.after (k + 1) m with
    | none => rfl
    | some s =>
        obtain ⟨_, hnext⟩ := after_of_le (Nat.succ_le_succ (Nat.zero_le k)) hlater
        cases hfails.symm.trans hnext

end ObjectMachine
