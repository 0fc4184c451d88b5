/-
Every instruction conducts itself as Machine/Conduct.lean says.

Each action is run once, on a machine whose running frame is known, and the
instructions are put together from that: an action that succeeds goes on
where it ends (`bind_ok`), one that faults is the end (`bind_error`).
-/
import Mathlib
import ObjectMachine.Proofs.Machine.Conduct

namespace ObjectMachine

/-- `assign` of a name that is bound nowhere changes nothing. -/
theorem Heap.assign_eq_false {h heap : Heap} {id : ContextId} {name : String} {value : ObjectId}
    (hfails : h.assign id name value = (false, heap)) : heap = h := by
  unfold assign at hfails
  split at hfails <;> cases hfails
  rfl

theorem Fault.unthrown_of_plain {fault : Fault} (h : fault.plain = true) : fault.Unthrown := by
  rintro id rfl
  cases h

-- ============================================================ actions

namespace Action

variable {f : Frame} {rest : List Frame} {m : Machine}

/-- What follows an action that succeeds. -/
theorem bind_ok {α β : Type} {a : Action α} {k : α → Action β} {value : α} {m' : Machine}
    (h : a.run m = .ok value m') : (a >>= k).run m = (k value).run m' := by
  simp only [EStateM.run] at h
  simp only [EStateM.run, bind, EStateM.bind, h]

theorem bind_error {α β : Type} {a : Action α} {k : α → Action β} {fault : Fault} {m' : Machine}
    (h : a.run m = .error fault m') : (a >>= k).run m = .error fault m' := by
  simp only [EStateM.run] at h
  simp only [EStateM.run, bind, EStateM.bind, h]

theorem heap_eq (m : Machine) : heap.run m = .ok m.heap m := rfl

theorem onHeap_eq {α : Type} (change : Heap → α × Heap) (m : Machine) :
    (onHeap change).run m = .ok (change m.heap).1 { m with heap := (change m.heap).2 } := rfl

theorem newContext_eq (parent : Link) (m : Machine) :
    (newContext parent).run m
      = .ok m.heap.contexts.size { m with heap := (m.heap.newContext parent).2 } := rfl

theorem declare_eq (context : ContextId) (name : String) (value : ObjectId) (m : Machine) :
    (declare context name value).run m
      = .ok () { m with heap := m.heap.declare context name value } := rfl

theorem newString_eq (w : World) (value : String) (m : Machine) :
    (newString w value).run m = .ok (m.heap.string value w.core.string).1
      { m with heap := (m.heap.string value w.core.string).2 } := rfl

theorem newList_eq (w : World) (elements : List ObjectId) (m : Machine) :
    (newList w elements).run m = .ok m.heap.size { m with heap := (m.heap.allocate
      { module := w.core.list, inner := some (.collection elements) }).2 } := rfl

/-- `Action.object` of an object that exists. -/
theorem object_ok {id : ObjectId} {o : Object} (known : m.heap.object? id = some o) :
    (object id).run m = .ok o m := by
  simp only [EStateM.run, object, heap, bind, EStateM.bind, known]
  rfl

theorem object_error {id : ObjectId} (unknown : m.heap.object? id = none) :
    (object id).run m = .error (.unknownObject id) m := by
  simp only [EStateM.run, object, heap, bind, EStateM.bind, unknown]
  rfl

/-- `clearFields` of an object that exists is `putAll`. -/
theorem clearFields_ok {receiver : ObjectId} {o : Object}
    (known : m.heap.object? receiver = some o) (names : List String) :
    (clearFields receiver names).run m
      = .ok () { m with heap := m.heap.putAll receiver names .null } := by
  simp only [EStateM.run, clearFields, object, heap, bind, EStateM.bind, known, pure, EStateM.pure]
  rfl

theorem clearFields_error {receiver : ObjectId} (unknown : m.heap.object? receiver = none)
    (names : List String) :
    (clearFields receiver names).run m = .error (.unknownObject receiver) m := by
  simp only [EStateM.run, clearFields, object, heap, bind, EStateM.bind, unknown]
  rfl

theorem newWithMessage_eq (w : World) (module : NodeId) (message : String) (m : Machine) :
    (newWithMessage w module message).run m
      = .ok m.heap.size { m with heap := w.withMessage module message m.heap } := by
  have hsize : m.heap.size
      < ((m.heap.allocate { module }).2.string message w.core.string).2.size :=
    Nat.lt_of_lt_of_le (by simp) (Heap.size_le_intern ..)
  obtain ⟨o, ho⟩ := Heap.object?_of_lt hsize
  rw [newWithMessage, bind_ok (onHeap_eq ..), bind_ok (newString_eq ..),
    bind_ok (clearFields_ok ho _), bind_ok (onHeap_eq ..)]
  rfl

/-- An action that `Reads` succeeds, or faults, and leaves the machine as it
is. -/
theorem Reads.cases {α : Type} {a : Action α} {Q : α → Prop} (h : Reads a m Q) :
    (∃ value, a.run m = .ok value m ∧ Q value) ∨ ∃ fault, a.run m = .error fault m
      ∧ fault.plain = true := by
  cases ha : a.run m with
  | ok value m' =>
      obtain ⟨rfl, hq⟩ := Ensures.of_ok h ha
      exact .inl ⟨value, rfl, hq⟩
  | error fault m' =>
      obtain ⟨rfl, hplain⟩ := Ensures.of_error h ha
      exact .inr ⟨fault, rfl, hplain⟩

section frames

variable (hf : m.frames = f :: rest)
include hf

theorem frame_ok : frame.run m = .ok f m := by
  simp only [EStateM.run, frame, hf]

theorem pop_ok {value : ObjectId} {others : List ObjectId} (top : f.operands = value :: others) :
    pop.run m = .ok value { m with frames := { f with operands := others } :: rest } := by
  simp only [EStateM.run, pop, onFrame, hf, Frame.pop?, top]

theorem pop_error (top : f.operands = []) : pop.run m = .error .stackUnderflow m := by
  simp only [EStateM.run, pop, onFrame, hf, Frame.pop?, top]

theorem popMany_ok {count : Nat} (enough : count ≤ f.operands.length) :
    (popMany count).run m = .ok (f.operands.take count).reverse
      { m with frames := f.dropping count :: rest } := by
  simp only [EStateM.run, popMany, onFrame, hf, Frame.popMany?, enough, if_true]
  rfl

theorem popMany_error {count : Nat} (few : ¬ count ≤ f.operands.length) :
    (popMany count).run m = .error .stackUnderflow m := by
  simp only [EStateM.run, popMany, onFrame, hf, Frame.popMany?, few, if_false]

theorem push_ok (value : ObjectId) :
    (push value).run m = .ok () { m with frames := f.push value :: rest } := by
  simp only [EStateM.run, push, onFrame, hf]

theorem peek_ok {value : ObjectId} {others : List ObjectId} (top : f.operands = value :: others) :
    peek.run m = .ok value m := by
  simp only [EStateM.run, peek, onFrame, hf, top, List.head?_cons, Option.map_some]
  rw [← hf]

theorem peek_error (top : f.operands = []) : peek.run m = .error .stackUnderflow m := by
  simp only [EStateM.run, peek, onFrame, hf, top, List.head?_nil, Option.map_none]

theorem await_ok (kind : Interruption) :
    (await kind).run m = .ok () { m with frames := f.resuming [kind] :: rest } := by
  simp only [EStateM.run, await, onFrame, hf]

end frames

/-- `field` finds a field that the object has, or faults. -/
theorem field_cases (w : World) (receiver : ObjectId) (name : String) :
    (∃ o value, m.heap.object? receiver = some o ∧ o.fields.get? name = some value
      ∧ (field w receiver name).run m = .ok value m)
    ∨ ∃ fault, (field w receiver name).run m = .error fault m ∧ fault.Unthrown := by
  cases known : m.heap.object? receiver with
  | none =>
      refine .inr ⟨.unknownObject receiver, ?_, by rintro _ ⟨⟩⟩
      rw [field, bind_error (object_error known)]
  | some o =>
      cases held : o.fields.get? name with
      | none =>
          refine .inr ⟨.missingField (w.program.qualifiedName o.module) name, ?_,
            by rintro _ ⟨⟩⟩
          rw [field, bind_ok (object_ok known), held]
          rfl
      | some value =>
          refine .inl ⟨o, value, rfl, held, ?_⟩
          rw [field, bind_ok (object_ok known), held]
          rfl

/-- `boolean` of `true` or `false` is that boolean, and faults of anything
else. -/
theorem boolean_cases (w : World) (id : ObjectId) :
    (∃ value, id = .ofBool value ∧ (boolean w id).run m = .ok value m)
      ∨ ∃ fault, (boolean w id).run m = .error fault m ∧ fault.plain = true := by
  by_cases htrue : id = ObjectId.true
  · refine .inl ⟨true, htrue, ?_⟩
    simp only [boolean, htrue, if_true]
    rfl
  · by_cases hfalse : id = ObjectId.false
    · refine .inl ⟨false, hfalse, ?_⟩
      subst hfalse
      rfl
    · rcases (mismatch_reads (m := m) (α := Bool) (Q := fun _ => False) w id "Boolean").cases with
        ⟨_, -, hfalse⟩ | hfault
      · cases hfalse
      · refine .inr ?_
        rwa [boolean, if_neg htrue, if_neg hfalse]

/-- `pushFrame` starts a frame, or there are too many. -/
theorem pushFrame_cases (w : World) (frame : Frame) (m : Machine) :
    (pushFrame w frame).run m = .ok () { m with frames := frame :: m.frames }
      ∨ (pushFrame w frame).run m = .error (.stackOverflow w.maxFrames) m := by
  simp only [EStateM.run, pushFrame]
  split
  · exact .inl rfl
  · exact .inr rfl

end Action

namespace Engine

open ObjectMachine.Action

variable {e : Engine} {f g : Frame} {rest : List Frame} {m : Machine}

theorem bindParameters_eq (w : World) (context : ContextId) (parameters : List Tree)
    (args : List ObjectId) (m : Machine) :
    (bindParameters w context parameters args).run m
      = .ok () { m with heap := w.bindAll context parameters args m.heap } := by
  induction parameters generalizing args m with
  | nil => rfl
  | cons parameter rest ih =>
      rw [bindParameters, World.bindAll]
      generalize parameter.kind = kind
      cases kind with
      | parameter name collects => cases collects <;> exact ih ..
      | _ => exact ih ..

/-- `pushReturning` starts code, unless there are too many frames
(`Started`). -/
theorem pushReturning_started {w : World} (hg : m.frames = g :: rest) (code : Code)
    (context : ContextId) (heap : Heap) :
    w.Started code context heap g rest m ((pushReturning w code context).run { m with heap }) := by
  simp only [EStateM.run, pushReturning, await, onFrame, bind, EStateM.bind, hg, pushFrame]
  split
  · exact .runs
  · exact .full

theorem compiled_ok {code : Except CompileError Code} {c : Code} (h : code = .ok c) :
    (compiled code).run m = .ok c m := by
  rw [h]
  rfl

theorem compiled_error {code : Except CompileError Code} {error : CompileError}
    (h : code = .error error) : (compiled code).run m = .error (.compile error) m := by
  rw [h]
  rfl

/-- `prepared` leaves contexts alone. -/
theorem contexts_prepared (receiver : ObjectId) (start : NodeId) (initFields : Bool) (h : Heap) :
    (e.prepared receiver start initFields h).contexts = h.contexts := by
  unfold prepared
  split
  · exact Action.putFields_contexts ..
  · rfl

/-- What is left of `construct` once fields are cleared ends as `Constructs`
says. -/
theorem construct_prepared (hg : m.frames = g :: rest) (receiver : ObjectId) (start : NodeId)
    (args : List ObjectId) (initFields : Bool) :
    e.Constructs receiver start args initFields g rest m
      ((do
        let code ← compiled (e.program.initCode start
          (e.program.lookupConstructor? start args.length) initFields)
        let context ← newContext (.object receiver)
        declare context "self" receiver
        match (e.program.lookupConstructor? start args.length).bind e.program.kind? with
        | some (.constructor parameters _ _) => bindParameters e.toWorld context parameters args
        | _ => pure ()
        pushReturning e.toWorld code context : Action Unit).run
        { m with heap := e.prepared receiver start initFields m.heap }) := by
  cases hcode : e.program.initCode start (e.program.lookupConstructor? start args.length)
      initFields with
  | error error =>
      rw [bind_error (compiled_error rfl)]
      exact .uncompiled
  | ok code =>
      refine .started hcode ?_
      rw [bind_ok (compiled_ok rfl), bind_ok (newContext_eq ..), bind_ok (declare_eq ..)]
      simp only [contexts_prepared]
      have hbind : (match (e.program.lookupConstructor? start args.length).bind
            e.program.kind? with
          | some (.constructor parameters _ _) => do
            bindParameters e.toWorld m.heap.contexts.size parameters args
            pushReturning e.toWorld code m.heap.contexts.size
          | _ => pushReturning e.toWorld code m.heap.contexts.size)
          = (do
            bindParameters e.toWorld m.heap.contexts.size
              (e.parametersOf (e.program.lookupConstructor? start args.length)) args
            pushReturning e.toWorld code m.heap.contexts.size) := by
        unfold parametersOf
        generalize (e.program.lookupConstructor? start args.length).bind e.program.kind? = kind
        rcases kind with _ | kind
        · rfl
        · cases kind with
          | _ => rfl
      rw [hbind, bind_ok (bindParameters_eq ..)]
      exact pushReturning_started hg ..

theorem construct_conduct (hg : m.frames = g :: rest) (receiver : ObjectId) (start : NodeId)
    (args : List ObjectId) (initFields : Bool) :
    e.Constructs receiver start args initFields g rest m
      ((e.construct receiver start args initFields).run m) := by
  have hrest := construct_prepared (e := e) hg receiver start args initFields
  unfold construct
  dsimp only
  split
  · exact .refused (by rintro _ ⟨⟩)
  · split
    · next hinit =>
      subst hinit
      cases known : m.heap.object? receiver with
      | none =>
          rw [bind_error (clearFields_error known _)]
          exact .refused (by rintro _ ⟨⟩)
      | some o =>
          rw [bind_ok (clearFields_ok known _)]
          exact hrest
    · next hinit =>
      rw [Bool.not_eq_true] at hinit
      subst hinit
      exact hrest

theorem invoke_conduct (hg : m.frames = g :: rest) (method : NodeId) (receiver : ObjectId)
    (args : List ObjectId) :
    e.Invokes method receiver args g rest m ((e.invoke method receiver args).run m) := by
  unfold invoke
  split
  · next selector parameters body isNative hkind =>
    split
    · unfold invokeNative
      dsimp only
      split
      · next native hfound =>
        split
        · next harity => exact .native hfound harity
        · exact .refused rfl
      · exact .refused rfl
    · cases hcode : e.program.methodCode method with
      | error error =>
          rw [bind_error (compiled_error rfl)]
          exact .refused rfl
      | ok code =>
          refine .started hkind hcode ?_
          rw [bind_ok (compiled_ok rfl), bind_ok (newContext_eq ..), bind_ok (bindParameters_eq ..)]
          exact pushReturning_started hg ..
  · exact .refused rfl

theorem dispatch_conduct (hg : m.frames = g :: rest) (receiver : ObjectId) (message : String)
    (args : List ObjectId) (start : Option NodeId) :
    e.Dispatches receiver message args start g rest m
      ((e.dispatch receiver message args start).run m) := by
  unfold dispatch
  cases known : m.heap.object? receiver with
  | none =>
      rw [bind_error (object_error known)]
      exact .refused (by rintro _ ⟨⟩)
  | some o =>
      rw [bind_ok (object_ok known)]
      dsimp only
      split
      · next method hfound => exact .answered known hfound (invoke_conduct hg ..)
      · next hmissing =>
        split
        · next fallback hfound =>
          rw [bind_ok (newString_eq ..), bind_ok (newList_eq ..)]
          have hinvoke := invoke_conduct (e := e)
            (m := { m with heap := e.misunderstood message args m.heap }) hg fallback receiver
            [(m.heap.string message e.core.string).1, (m.heap.string message e.core.string).2.size]
          exact .fallback known hmissing hfound hinvoke
        · exact .refused (by rintro _ ⟨⟩)

-- ======================================================= instructions

theorem sheltered_succ (f : Frame) (count : Nat) (h : Heap) :
    sheltered f (count + 1) h = ((sheltered f count h).newContext (.context f.context)).2 := by
  rw [sheltered, List.range_succ, List.foldl_append]
  rfl

theorem contexts_size_sheltered (f : Frame) (count : Nat) (h : Heap) :
    (sheltered f count h).contexts.size = h.contexts.size + count := by
  induction count with
  | zero => rfl
  | succ count ih => rw [sheltered_succ, Heap.newContext, Array.size_push, ih, Nat.add_assoc]

theorem pushBlock_eq (parent : ContextId) (code : Code) (resume : List Interruption)
    (m : Machine) :
    (e.pushBlock parent code resume).run m
      = (pushFrame e.toWorld { code, context := m.heap.contexts.size, resume }).run
        { m with heap := (m.heap.newContext (.context parent)).2 } := by
  rw [pushBlock, bind_ok (newContext_eq ..)]

section

variable (hf : m.frames = f :: rest)
include hf

/-- Without an operand the instruction faults, and nothing else happens. -/
theorem Conduct.underflow {i : Instruction} :
    e.Conduct f rest m i (.error .stackUnderflow m) :=
  .fault (by rintro _ ⟨⟩) rfl (by rw [hf]; rfl)

-- The equations of `execute` are made once, before all the proofs below ask for them.
attribute [local simp] execute

theorem conduct_load (name : String) :
    e.Conduct f rest m (.load name) ((e.execute (.load name)).run m) := by
  rw [execute, bind_ok (frame_ok hf)]
  dsimp only
  rw [bind_ok (heap_eq m)]
  cases hfound : m.heap.lookup f.context name with
  | some value =>
      dsimp only
      rw [bind_ok (push_ok hf value)]
      exact .load hfound
  | none => exact .fault (by rintro _ ⟨⟩) rfl (by rw [hf]; rfl)

theorem conduct_store (name : String) (lookup : Bool) :
    e.Conduct f rest m (.store name lookup) ((e.execute (.store name lookup)).run m) := by
  rw [execute]
  cases top : f.operands with
  | nil =>
      rw [bind_error (pop_error hf top)]
      exact .underflow hf
  | cons value others =>
      rw [bind_ok (pop_ok hf top), bind_ok (frame_ok rfl)]
      cases lookup with
      | false => exact .bind top
      | true =>
          dsimp only
          simp only [if_true]
          rw [bind_ok (onHeap_eq ..)]
          cases hfound : m.heap.assign f.context name value with
          | mk bound heap =>
              cases bound with
              | true => exact .assign top hfound
              | false =>
                  exact .fault (by rintro _ ⟨⟩) (Heap.assign_eq_false hfound) rfl

theorem conduct_push (id : ObjectId) :
    e.Conduct f rest m (.push id) ((e.execute (.push id)).run m) := by
  rw [execute, bind_ok (push_ok hf id)]
  exact .push

theorem conduct_pop : e.Conduct f rest m .pop ((e.execute .pop).run m) := by
  rw [execute]
  cases top : f.operands with
  | nil =>
      rw [bind_error (pop_error hf top)]
      exact .underflow hf
  | cons value others =>
      rw [bind_ok (pop_ok hf top)]
      exact .pop top

theorem conduct_dup : e.Conduct f rest m .dup ((e.execute .dup).run m) := by
  rw [execute]
  cases top : f.operands with
  | nil =>
      rw [bind_error (peek_error hf top)]
      exact .underflow hf
  | cons value others =>
      rw [bind_ok (peek_ok hf top), bind_ok (push_ok hf value)]
      exact .dup top

theorem conduct_swap : e.Conduct f rest m .swap ((e.execute .swap).run m) := by
  rw [execute]
  cases top : f.operands with
  | nil =>
      rw [bind_error (pop_error hf top)]
      exact .underflow hf
  | cons first others =>
      rw [bind_ok (pop_ok hf top)]
      cases others with
      | nil =>
          rw [bind_error (pop_error rfl rfl)]
          exact .fault (by rintro _ ⟨⟩) rfl rfl
      | cons second others =>
          rw [bind_ok (pop_ok rfl rfl), bind_ok (push_ok rfl first), bind_ok (push_ok rfl second)]
          exact .swap top

theorem conduct_get (name : String) :
    e.Conduct f rest m (.get name) ((e.execute (.get name)).run m) := by
  rw [execute]
  cases top : f.operands with
  | nil =>
      rw [bind_error (pop_error hf top)]
      exact .underflow hf
  | cons receiver others =>
      rw [bind_ok (pop_ok hf top)]
      rcases field_cases (m := { m with frames := { f with operands := others } :: rest })
        e.toWorld receiver name with ⟨o, value, known, held, hfield⟩ | ⟨fault, hfield, hunthrown⟩
      · rw [bind_ok hfield, bind_ok (push_ok rfl value)]
        exact .get top known held
      · rw [bind_error hfield]
        exact .fault hunthrown rfl rfl

theorem conduct_set (name : String) :
    e.Conduct f rest m (.set name) ((e.execute (.set name)).run m) := by
  rw [execute]
  cases top : f.operands with
  | nil =>
      rw [bind_error (pop_error hf top)]
      exact .underflow hf
  | cons value others =>
      rw [bind_ok (pop_ok hf top)]
      cases others with
      | nil =>
          rw [bind_error (pop_error rfl rfl)]
          exact .fault (by rintro _ ⟨⟩) rfl rfl
      | cons receiver others =>
          rw [bind_ok (pop_ok rfl rfl)]
          rcases field_cases (m := { m with frames := { f with operands := others } :: rest })
            e.toWorld receiver name with ⟨o, old, known, held, hfield⟩ | ⟨fault, hfield, hunthrown⟩
          · have hset : (setField e.toWorld receiver name value).run
                { m with frames := { f with operands := others } :: rest }
                = .ok () { m with
                  heap := m.heap.putField receiver name value
                  frames := { f with operands := others } :: rest } := by
              rw [setField, bind_ok hfield]
              rfl
            rw [bind_ok hset]
            exact .set top known held
          · have hset : (setField e.toWorld receiver name value).run
                { m with frames := { f with operands := others } :: rest }
                = .error fault { m with frames := { f with operands := others } :: rest } := by
              rw [setField, bind_error hfield]
            rw [bind_error hset]
            exact .fault hunthrown rfl rfl

/-- `instantiate` without a value always makes an instance (`instanceIn`). -/
theorem execute_make (module : NodeId) :
    (e.execute (.instantiate module none)).run m = .ok .next { m with
      heap := (m.heap.allocate (e.instanceIn f.context module)).2
      frames := f.push m.heap.size :: rest } := by
  have hframes (heap : Heap) : ({ m with heap } : Machine).frames = f :: rest := hf
  have hmake : (e.instantiate module none).run m = .ok m.heap.size
      { m with heap := (m.heap.allocate (e.instanceIn f.context module)).2 } := by
    unfold instantiate instanceIn
    dsimp only
    generalize e.program.kind? module = kind
    rcases kind with _ | kind
    · rfl
    · cases kind with
      | singleton name superclass args mixins members closure =>
          cases name with
          | none =>
              rw [bind_ok (frame_ok hf)]
              rfl
          | some name => rfl
      | _ => rfl
  rw [execute, bind_ok hmake, bind_ok (push_ok (hframes _) _)]
  rfl

theorem conduct_instantiate (module : NodeId) (value : Option Primitive) :
    e.Conduct f rest m (.instantiate module value)
      ((e.execute (.instantiate module value)).run m) := by
  have hframes (heap : Heap) : ({ m with heap } : Machine).frames = f :: rest := hf
  cases value with
  | none =>
      rw [execute_make hf]
      exact .make
  | some value =>
      rw [execute]
      cases value with
      | number value =>
          rw [instantiate, bind_ok (onHeap_eq ..),
            bind_ok (push_ok (hframes _) _)]
          exact .number
      | string value =>
          rw [instantiate, bind_ok (onHeap_eq ..),
            bind_ok (push_ok (hframes _) _)]
          exact .string
      | collection count =>
          rw [instantiate]
          by_cases enough : count ≤ f.operands.length
          · rw [bind_ok (by rw [bind_ok (popMany_ok hf enough), onHeap_eq]),
              bind_ok (push_ok rfl _)]
            exact .collection enough
          · rw [bind_error (by rw [bind_error (popMany_error hf enough)])]
            exact .underflow hf

theorem conduct_init (arity : Nat) (start : NodeId) (initFields : Bool) :
    e.Conduct f rest m (.init arity start initFields)
      ((e.execute (.init arity start initFields)).run m) := by
  rw [execute]
  cases top : f.operands with
  | nil =>
      rw [bind_error (pop_error hf top)]
      exact .underflow hf
  | cons receiver others =>
      rw [bind_ok (pop_ok hf top)]
      by_cases enough : arity ≤ others.length
      · have hdrop : Frame.dropping { f with operands := others } arity
            = f.dropping (arity + 1) := by
          simp only [Frame.dropping, top, List.drop_succ_cons]
        rw [bind_ok (popMany_ok rfl enough), hdrop]
        have hends := construct_conduct (e := e)
          (m := { m with frames := f.dropping (arity + 1) :: rest }) rfl receiver start
          (others.take arity).reverse initFields
        cases hrun : (e.construct receiver start (others.take arity).reverse initFields).run
            { m with frames := f.dropping (arity + 1) :: rest } with
        | ok value m' =>
            rw [bind_ok hrun]
            rw [hrun] at hends
            exact .init top enough hends
        | error fault m' =>
            rw [bind_error hrun]
            rw [hrun] at hends
            exact .initFails top enough hends
      · rw [bind_error (popMany_error rfl enough)]
        exact .fault (by rintro _ ⟨⟩) rfl rfl

theorem conduct_call (message : String) (arity : Nat) (start : Option NodeId) :
    e.Conduct f rest m (.call message arity start)
      ((e.execute (.call message arity start)).run m) := by
  rw [execute]
  by_cases enough : arity ≤ f.operands.length
  · rw [bind_ok (popMany_ok hf enough)]
    cases top : f.operands.drop arity with
    | nil =>
        rw [bind_error (pop_error rfl top)]
        exact .fault (by rintro _ ⟨⟩) rfl rfl
    | cons receiver others =>
        have hdrop : { f.dropping arity with operands := others } = f.dropping (arity + 1) := by
          simp only [Frame.dropping, ← List.tail_drop, top, List.tail_cons]
        rw [bind_ok (pop_ok rfl top), hdrop]
        have hends := dispatch_conduct (e := e)
          (m := { m with frames := f.dropping (arity + 1) :: rest }) rfl receiver message
          (f.operands.take arity).reverse start
        cases hrun : (e.dispatch receiver message (f.operands.take arity).reverse start).run
            { m with frames := f.dropping (arity + 1) :: rest } with
        | ok value m' =>
            rw [bind_ok hrun]
            rw [hrun] at hends
            exact .call enough top hends
        | error fault m' =>
            rw [bind_error hrun]
            rw [hrun] at hends
            exact .callFails enough top hends
  · rw [bind_error (popMany_error hf enough)]
    exact .underflow hf

theorem conduct_inherits (module : NodeId) :
    e.Conduct f rest m (.inherits module) ((e.execute (.inherits module)).run m) := by
  rw [execute]
  cases top : f.operands with
  | nil =>
      rw [bind_error (pop_error hf top)]
      exact .underflow hf
  | cons value others =>
      rw [bind_ok (pop_ok hf top)]
      set m₁ : Machine := { m with frames := { f with operands := others } :: rest } with hm₁
      cases known : m.heap.object? value with
      | none =>
          rw [bind_error (object_error (m := m₁) known)]
          exact .fault (by rintro _ ⟨⟩) rfl rfl
      | some o =>
          rw [bind_ok (object_ok (m := m₁) known)]
          dsimp only
          rw [bind_ok (push_ok rfl _)]
          exact .inherits top known

theorem conduct_conditionalJump (count : Nat) :
    e.Conduct f rest m (.conditionalJump count) ((e.execute (.conditionalJump count)).run m) := by
  rw [execute]
  cases top : f.operands with
  | nil =>
      rw [bind_error (pop_error hf top)]
      exact .underflow hf
  | cons condition others =>
      rw [bind_ok (pop_ok hf top)]
      rcases boolean_cases (m := { m with frames := { f with operands := others } :: rest })
        e.toWorld condition with ⟨value, -, hvalue⟩ | ⟨fault, hfault, hplain⟩
      · rw [bind_ok hvalue]
        cases value with
        | true => exact .jump false top
        | false => exact .jump true top
      · rw [bind_error hfault]
        exact .fault (Fault.unthrown_of_plain hplain) rfl rfl

theorem conduct_ifThenElse (thenBranch elseBranch : Code) :
    e.Conduct f rest m (.ifThenElse thenBranch elseBranch)
      ((e.execute (.ifThenElse thenBranch elseBranch)).run m) := by
  rw [execute]
  cases top : f.operands with
  | nil =>
      rw [bind_error (pop_error hf top)]
      exact .underflow hf
  | cons condition others =>
      rw [bind_ok (pop_ok hf top)]
      have hdrop : { f with operands := others } = f.dropping 1 := by
        rw [Frame.dropping, top, List.drop_one, List.tail_cons]
      rw [hdrop]
      rcases boolean_cases (m := { m with frames := f.dropping 1 :: rest })
        e.toWorld condition with ⟨value, rfl, hvalue⟩ | ⟨fault, hfault, hplain⟩
      · rw [bind_ok hvalue]
        dsimp only
        rw [bind_ok (frame_ok rfl), bind_ok (await_ok rfl _)]
        rcases pushFrame_cases e.toWorld
          { code := if value then thenBranch else elseBranch, context := m.heap.contexts.size }
          { m with
            heap := (m.heap.newContext (.context f.context)).2
            frames := (f.dropping 1).resuming [.result] :: rest } with hpush | hpush
        · rw [bind_ok ((pushBlock_eq ..).trans hpush)]
          exact .branch top
        · rw [bind_error ((pushBlock_eq ..).trans hpush)]
          exact .branchFull
      · rw [bind_error hfault]
        exact .fault (Fault.unthrown_of_plain hplain) rfl rfl

theorem conduct_tryCatchAlways (body handler always : Code) :
    e.Conduct f rest m (.tryCatchAlways body handler always)
      ((e.execute (.tryCatchAlways body handler always)).run m) := by
  have hblock (count : Nat) (code : Code) (resume : List Interruption) (frames : List Frame) :
      (e.pushBlock f.context code resume).run { m with heap := sheltered f count m.heap, frames }
        = (pushFrame e.toWorld { code, context := m.heap.contexts.size + count, resume }).run
          { m with heap := sheltered f (count + 1) m.heap, frames } := by
    rw [pushBlock_eq, contexts_size_sheltered, sheltered_succ]
  rw [execute, bind_ok (frame_ok hf)]
  dsimp only
  rw [bind_ok (await_ok hf _)]
  -- The frames of the block fit one after another; the first that does not
  -- leaves those before it, and its context.
  rcases pushFrame_cases e.toWorld
    { code := always, context := m.heap.contexts.size, resume := Interruption.all }
    { m with heap := sheltered f 1 m.heap, frames := f.resuming [.result] :: rest } with
    halways | halways
  · rw [bind_ok ((pushBlock_eq ..).trans halways)]
    rcases pushFrame_cases e.toWorld
      { code := handler, context := m.heap.contexts.size + 1, resume := [.exception] }
      { m with
        heap := sheltered f 2 m.heap
        frames := { code := always, context := m.heap.contexts.size, resume := Interruption.all }
          :: f.resuming [.result] :: rest } with hhandler | hhandler
    · rw [bind_ok ((hblock 1 ..).trans hhandler)]
      rcases pushFrame_cases e.toWorld { code := body, context := m.heap.contexts.size + 2 }
        { m with
          heap := sheltered f 3 m.heap
          frames := { code := handler, context := m.heap.contexts.size + 1, resume := [.exception] }
            :: { code := always, context := m.heap.contexts.size, resume := Interruption.all }
            :: f.resuming [.result] :: rest } with hbody | hbody
      · rw [bind_ok ((hblock 2 ..).trans hbody)]
        exact .protect
      · rw [bind_error ((hblock 2 ..).trans hbody)]
        exact .protectFull 2 (by decide)
    · rw [bind_error ((hblock 1 ..).trans hhandler)]
      exact .protectFull 1 (by decide)
  · rw [bind_error ((pushBlock_eq ..).trans halways)]
    exact .protectFull 0 (by decide)

theorem conduct_interrupt (kind : Interruption) :
    e.Conduct f rest m (.interrupt kind) ((e.execute (.interrupt kind)).run m) := by
  rw [execute]
  cases top : f.operands with
  | nil =>
      rw [bind_error (pop_error hf top)]
      exact .underflow hf
  | cons value others =>
      rw [bind_ok (pop_ok hf top)]
      exact .interrupt top

theorem conduct_resumeInterruption :
    e.Conduct f rest m .resumeInterruption ((e.execute .resumeInterruption).run m) := by
  rw [execute, bind_ok (frame_ok hf)]
  cases pending : f.pending with
  | none => exact .fault (by rintro _ ⟨⟩) rfl (by rw [hf]; rfl)
  | some kind =>
      dsimp only
      cases top : f.operands with
      | nil =>
          rw [bind_error (pop_error hf top)]
          exact .underflow hf
      | cons value others =>
          rw [bind_ok (pop_ok hf top)]
          exact .resume pending top

/-- Every instruction ends in one of the ways of `Conduct`. -/
theorem execute_conduct (i : Instruction) : e.Conduct f rest m i ((e.execute i).run m) := by
  cases i with
  | load name => exact conduct_load hf name
  | store name lookup => exact conduct_store hf name lookup
  | push id => exact conduct_push hf id
  | pop => exact conduct_pop hf
  | dup => exact conduct_dup hf
  | swap => exact conduct_swap hf
  | get name => exact conduct_get hf name
  | set name => exact conduct_set hf name
  | instantiate module value => exact conduct_instantiate hf module value
  | init arity start initFields => exact conduct_init hf arity start initFields
  | call message arity start => exact conduct_call hf message arity start
  | inherits module => exact conduct_inherits hf module
  | conditionalJump count => exact conduct_conditionalJump hf count
  | ifThenElse thenBranch elseBranch => exact conduct_ifThenElse hf thenBranch elseBranch
  | tryCatchAlways body handler always => exact conduct_tryCatchAlways hf body handler always
  | interrupt kind => exact conduct_interrupt hf kind
  | resumeInterruption => exact conduct_resumeInterruption hf

end

-- ============================================================== steps

/-- A frame that differs from another one at most in what it waits for. -/
structure Alike (g g' : Frame) : Prop where
  code : g.code = g'.code
  context : g.context = g'.context
  pc : g.pc = g'.pc
  operands : g.operands = g'.operands

/-- `unwind` leaves frames that were there before, up to what they wait for. -/
theorem mem_unwind {kind : Interruption} {frames : List Frame} (hg : g ∈ unwind kind frames) :
    ∃ g' ∈ frames, Alike g g' := by
  induction frames with
  | nil => cases hg
  | cons first rest ih =>
      rw [unwind] at hg
      split at hg
      · next first' hreceive =>
        rcases List.mem_cons.1 hg with rfl | hg
        · refine ⟨first, List.mem_cons_self, ?_⟩
          obtain ⟨taken, htaken, rfl⟩ := Option.map_eq_some_iff.1 hreceive
          unfold Frame.takeResume? at htaken
          split at htaken
          · cases htaken
            split <;> exact ⟨rfl, rfl, rfl, rfl⟩
          · cases htaken
        · exact ⟨g, List.mem_cons_of_mem _ hg, rfl, rfl, rfl, rfl⟩
      · obtain ⟨g', hg', halike⟩ := ih hg
        exact ⟨g', List.mem_cons_of_mem _ hg', halike⟩

theorem interrupt_unwinds (kind : Interruption) (value : ObjectId) (m : Machine) :
    Unwinds kind value m (e.interrupt kind value m) := by
  unfold interrupt
  split
  · next g below hunwind => exact .caught hunwind
  · next hunwind => exact .uncaught hunwind

theorem raise_raises (fault : Fault) (m : Machine) :
    ∃ value m', e.Raises m fault value m' ∧ e.raise fault m = e.interrupt .exception value m' := by
  by_cases hthrown : ∃ id, fault = .thrown id
  · obtain ⟨id, rfl⟩ := hthrown
    exact ⟨id, m, .thrown, rfl⟩
  · have hunthrown : fault.Unthrown := fun id heq => hthrown ⟨id, heq⟩
    have hnew : newWithMessage e.toWorld e.core.evaluationError fault.message m = _ :=
      newWithMessage_eq ..
    refine ⟨_, _, .made hunthrown, ?_⟩
    cases fault with
    | thrown id => exact absurd rfl (hunthrown id)
    | _ => simp only [raise, hnew]

/-- Every step ends in one of the ways of `Steps`. -/
theorem step_steps (hf : m.frames = f :: rest) : e.Steps f rest m (e.step m) := by
  cases hi : f.code[f.pc]? with
  | none =>
      have hstep : e.step m = .ok () { m with frames := rest } := by simp only [step, hf, hi]
      rw [hstep]
      exact .done hi
  | some i =>
      rw [step_eq hf hi]
      have hconduct := execute_conduct (e := e) (m := { m with frames := f.next :: rest }) rfl i
      cases hrun : e.execute i { m with frames := f.next :: rest } with
      | ok flow m' =>
          rw [EStateM.run, hrun] at hconduct
          cases flow with
          | next => exact .next hi hconduct
          | interrupt kind value => exact .leaves hi hconduct (interrupt_unwinds kind value m')
      | error fault m' =>
          rw [EStateM.run, hrun] at hconduct
          obtain ⟨value, m'', hraises, heq⟩ := raise_raises (e := e) fault m'
          show e.Steps f rest m (e.raise fault m')
          rw [heq]
          exact .raises hi hconduct hraises (interrupt_unwinds _ value m'')

end Engine

end ObjectMachine
