/-
Arguments are bound to parameters, and none is lost.

A call looks for a method or a constructor that accepts as many arguments as
there are, and then binds them in a new context. If parameters have different
names, and only the last one may collect arguments, there is an argument for
each of them, and the last one gets a new list of what is left (`Bound`). So no
parameter is null because there was nothing to bind it to.

It does not matter how the call comes there: by the message, by a message to
`super`, by the fallback for messages that are not understood, or by a
construction (`Engine.CallsTo`).
-/
import Mathlib
import ObjectMachine.Proofs.Laws.Initializers

namespace ObjectMachine

-- ============================================================ parameters

namespace Kind

variable {α : Type}

def isParameter : Kind α → Bool
  | .parameter .. => true
  | _ => false

/-- A parameter that collects arguments. -/
def collects : Kind α → Bool
  | .parameter _ varArg => varArg
  | _ => false

/-- The parameters of a method or a constructor. -/
def parameters : Kind α → List α
  | .method _ parameters _ _ => parameters
  | .constructor parameters _ _ => parameters
  | _ => []

end Kind

/-- Parameters with different names, of which only the last one may collect
arguments. -/
structure ProperParameters (parameters : List Tree) : Prop where
  each : ∀ t ∈ parameters, t.kind.isParameter
  distinct : (parameters.filterMap Tree.name?).Nodup
  single : ∀ t ∈ parameters.dropLast, t.kind.collects = false

theorem ProperParameters.tail {t : Tree} {rest : List Tree} (h : ProperParameters (t :: rest)) :
    ProperParameters rest where
  each s hs := h.each s (List.mem_cons_of_mem _ hs)
  distinct := h.distinct.sublist ((List.sublist_cons_self t rest).filterMap _)
  single s hs := by
    cases rest with
    | nil => cases hs
    | cons => exact h.single s (List.mem_cons_of_mem _ hs)

/-- One parameter, and those after it. -/
theorem ProperParameters.cons_cases {t : Tree} {rest : List Tree}
    (h : ProperParameters (t :: rest)) :
    (∃ name, t.kind = .parameter name false ∧ name ∉ rest.filterMap Tree.name?)
      ∨ ∃ name, t.kind = .parameter name true ∧ rest = [] := by
  have hparameter := h.each t List.mem_cons_self
  cases hkind : t.kind with
  | parameter name varArg =>
      cases varArg with
      | false =>
          have hdistinct := h.distinct
          rw [List.filterMap_cons_some (b := name) (by rw [Tree.name?, hkind]; rfl)] at hdistinct
          exact .inl ⟨name, rfl, (List.nodup_cons.1 hdistinct).1⟩
      | true =>
          refine .inr ⟨name, rfl, ?_⟩
          by_contra hne
          have hsingle := h.single t (by
            rw [List.dropLast_cons_of_ne_nil hne]
            exact List.mem_cons_self)
          rw [hkind] at hsingle
          cases hsingle
  | _ =>
      rw [hkind] at hparameter
      cases hparameter

theorem acceptsArity_iff {parameters : List Tree} {arity : Nat} :
    Program.acceptsArity parameters arity ↔
      if parameters.getLast?.any (fun t => t.kind.collects) then parameters.length ≤ arity + 1
      else arity = parameters.length := by
  unfold Program.acceptsArity
  cases parameters.getLast? with
  | none => simp
  | some t =>
      obtain ⟨id, span, kind⟩ := t
      cases kind with
      | parameter name varArg => cases varArg <;> simp [Tree.kind, Kind.collects]
      | _ => simp [Tree.kind, Kind.collects]

/-- A parameter that does not collect arguments takes one of them:
`acceptsArity` of the others goes on without it. -/
theorem exists_arg_of_acceptsArity {t : Tree} (ht : t.kind.collects = false) {rest : List Tree}
    {args : List ObjectId} (h : Program.acceptsArity (t :: rest) args.length) :
    ∃ arg others, args = arg :: others ∧ Program.acceptsArity rest others.length := by
  rw [acceptsArity_iff] at h
  have hlast : (t :: rest).getLast?.any (fun t => t.kind.collects)
      = rest.getLast?.any fun t => t.kind.collects := by
    cases rest with
    | nil => simp [ht]
    | cons second rest => rw [List.getLast?_cons_cons]
  rw [hlast, List.length_cons] at h
  cases args with
  | nil =>
      rw [List.length_nil] at h
      split at h
      · next hcollects =>
        obtain rfl := List.length_eq_zero_iff.1 (Nat.le_zero.1 (Nat.le_of_succ_le_succ h))
        cases hcollects
      · omega
  | cons arg others =>
      refine ⟨arg, others, rfl, acceptsArity_iff.2 ?_⟩
      rw [List.length_cons] at h
      split_ifs at h ⊢ <;> omega

-- =============================================================== binding

namespace World

/-- Arguments, and what parameters are bound to in a context, as `bindAll` goes
through them. Each parameter is bound to an argument, in their order, or the
last one to a list of those that are left, which is none of the objects that
were there `before`. -/
inductive Bound (w : World) (before : Nat) (h : Heap) (context : ContextId) :
    List Tree → List ObjectId → Prop
  | none : Bound w before h context [] []
  | fixed {t : Tree} {name : String} {arg : ObjectId} {rest : List Tree} {args : List ObjectId}
      (parameter : t.kind = .parameter name false) (bound : h.local? context name = some arg)
      (others : Bound w before h context rest args) :
      Bound w before h context (t :: rest) (arg :: args)
  | collected {t : Tree} {name : String} {list : ObjectId} {o : Object} {args : List ObjectId}
      (parameter : t.kind = .parameter name true) (bound : h.local? context name = some list)
      (fresh : before ≤ list) (known : h.object? list = some o) (isList : o.module = w.core.list)
      (holds : o.inner = some (.collection args)) : Bound w before h context [t] args

variable {w : World} {before : Nat} {h : Heap} {context : ContextId} {parameters : List Tree}
  {args : List ObjectId}

/-- `bindAll` of arguments that are accepted leaves nothing out. -/
theorem bindAll_bound (hparameters : ProperParameters parameters)
    (haccepts : Program.acceptsArity parameters args.length) (hcontext : context < h.contexts.size)
    (hbefore : before ≤ h.size) :
    w.Bound before (w.bindAll context parameters args h) context parameters args := by
  induction parameters generalizing args h with
  | nil =>
      have hempty : args = [] := by simpa [Program.acceptsArity] using haccepts
      exact hempty ▸ .none
  | cons t rest ih =>
      rcases hparameters.cons_cases with ⟨name, hkind, hnew⟩ | ⟨name, hkind, rfl⟩
      · obtain ⟨arg, others, rfl, haccepts'⟩ :=
          exists_arg_of_acceptsArity (by rw [hkind]; rfl) haccepts
        rw [bindAll, hkind]
        refine .fixed hkind ?_ (ih hparameters.tail haccepts' ?_ ?_)
        · rw [local?_bindAll hnew]
          exact Heap.local?_declare_self hcontext name arg
        · rwa [Heap.contexts_size_declare]
        · rwa [Heap.size_declare]
      · rw [bindAll, hkind]
        exact .collected hkind (Heap.local?_declare_self hcontext name h.size) hbefore
          ((Heap.object?_allocate ..).trans (if_pos rfl)) rfl rfl

/-- The values that a parameter is bound to in a context: those in its list if
it collects arguments. -/
def valuesOf (h : Heap) (context : ContextId) (parameter : Tree) : List ObjectId :=
  match parameter.kind with
  | .parameter name true =>
    match ((h.local? context name).bind h.object?).bind Object.inner with
    | some (.collection elements) => elements
    | _ => []
  | .parameter name false => (h.local? context name).toList
  | _ => []

/-- `Bound` by the places of parameters: none of them is without argument, and
their `valuesOf` together are the arguments. -/
structure Binds (w : World) (before : Nat) (h : Heap) (context : ContextId)
    (parameters : List Tree) (args : List ObjectId) : Prop where
  fixed : ∀ (i : Nat) (t : Tree) (name : String), parameters[i]? = some t →
    t.kind = .parameter name false → ∃ arg, args[i]? = some arg ∧ h.local? context name = some arg
  collected : ∀ (i : Nat) (t : Tree) (name : String), parameters[i]? = some t →
    t.kind = .parameter name true → i ≤ args.length ∧ ∃ list o,
      h.local? context name = some list ∧ before ≤ list ∧ h.object? list = some o
      ∧ o.module = w.core.list ∧ o.inner = some (.collection (args.drop i))
  whole : parameters.flatMap (valuesOf h context) = args

theorem Bound.binds (hbound : w.Bound before h context parameters args) :
    w.Binds before h context parameters args := by
  induction hbound with
  | none => exact ⟨nofun, nofun, rfl⟩
  | @fixed t name arg rest args parameter bound others ih =>
      refine ⟨fun i s other hs hkind => ?_, fun i s other hs hkind => ?_, ?_⟩
      · cases i with
        | zero =>
            cases hs
            cases parameter.symm.trans hkind
            exact ⟨arg, rfl, bound⟩
        | succ i => exact ih.fixed i s other hs hkind
      · cases i with
        | zero =>
            cases hs
            cases parameter.symm.trans hkind
        | succ i =>
            obtain ⟨hle, hlist⟩ := ih.collected i s other hs hkind
            exact ⟨Nat.succ_le_succ hle, hlist⟩
      · rw [List.flatMap_cons, ih.whole, valuesOf, parameter]
        simp only [bound]
        rfl
  | @collected t name list o args parameter bound fresh known isList holds =>
      refine ⟨fun i s other hs hkind => ?_, fun i s other hs hkind => ?_, ?_⟩
      · cases i with
        | zero =>
            cases hs
            cases parameter.symm.trans hkind
        | succ i => cases hs
      · cases i with
        | zero =>
            cases hs
            cases parameter.symm.trans hkind
            exact ⟨Nat.zero_le _, list, o, bound, fresh, known, isList, holds⟩
        | succ i => cases hs
      · rw [List.flatMap_singleton, valuesOf, parameter]
        simp only [bound, Option.bind_some, known, holds]

end World

-- ================================================================= calls

/-- A method or a constructor that is run on an object with arguments, and the
code it has been compiled to. -/
structure Activation where
  callee : NodeId
  code : Except CompileError Code
  receiver : ObjectId
  args : List ObjectId

namespace Engine

open ObjectMachine.Action

variable {e : Engine} {m : Machine} {g : Frame} {rest : List Frame}

/-- How calls come to what they run: a message, also to `super`, to the method
that `methodFor` finds; one that is not understood, to the fallback, with the
selector and a list; and a construction to the constructor of
`lookupConstructor?`. -/
inductive CallsTo (e : Engine) (h : Heap) : Action Unit → Activation → Prop
  | message {receiver : ObjectId} {object : Object} {message : String} {args : List ObjectId}
      {start : Option NodeId} {method : NodeId} (known : h.object? receiver = some object)
      (found : e.methodFor object.module message args.length start = some method) :
      CallsTo e h (e.dispatch receiver message args start)
        ⟨method, e.program.methodCode method, receiver, args⟩
  | fallback {receiver : ObjectId} {object : Object} {message : String} {args : List ObjectId}
      {start : Option NodeId} {method : NodeId} (known : h.object? receiver = some object)
      (missing : e.methodFor object.module message args.length start = none)
      (found : e.program.lookupMethod? object.module fallbackSelector 2 = some method) :
      CallsTo e h (e.dispatch receiver message args start)
        ⟨method, e.program.methodCode method, receiver,
          [(h.string message e.core.string).1, (h.string message e.core.string).2.size]⟩
  | construction {receiver : ObjectId} {object : Object} {start : NodeId} {args : List ObjectId}
      {initFields : Bool} {constructor : NodeId} (known : h.object? receiver = some object)
      (found : e.program.lookupConstructor? start args.length = some constructor) :
      CallsTo e h (e.construct receiver start args initFields)
        ⟨constructor, e.program.initCode start (some constructor) initFields, receiver, args⟩

/-- What becomes of the arguments of a call. Code of the program is `Started` in
a new context that `Binds` them. A native method gets them as they are. Where
there is no code there is no context either. -/
inductive Receives (e : Engine) (a : Activation) (kind : Kind Tree) (g : Frame)
    (rest : List Frame) (m : Machine) : EStateM.Result Fault Machine Unit → Prop
  | bound {code : Code} {heap : Heap} {r : EStateM.Result Fault Machine Unit}
      (compiles : a.code = .ok code)
      (ends : e.toWorld.Started code m.heap.contexts.size heap g rest m r)
      (binds : e.toWorld.Binds m.heap.size heap m.heap.contexts.size kind.parameters a.args) :
      Receives e a kind g rest m r
  | native {selector : String} {parameters : List Tree} {body : Option Tree} {heap : Heap}
      (isNative : kind = .method selector parameters body true)
      (contexts : heap.contexts = m.heap.contexts) :
      Receives e a kind g rest m
        ((e.invokeNative a.callee selector a.receiver a.args).run { m with heap })
  | uncompiled {error : CompileError} {heap : Heap} (fails : a.code = .error error)
      (contexts : heap.contexts = m.heap.contexts) :
      Receives e a kind g rest m (.error (.compile error) { m with heap })

/-- `invoke` of a method that accepts so many arguments `Receives` them. -/
theorem invoke_receives (hg : m.frames = g :: rest) {heap : Heap}
    (hcontexts : heap.contexts = m.heap.contexts) (hsize : m.heap.size ≤ heap.size)
    {method receiver : NodeId} {args : List ObjectId} {kind : Kind Tree}
    (hkind : e.program.kind? method = some kind) (hmethod : kind.isMethod)
    (hparameters : ProperParameters kind.parameters)
    (haccepts : Program.acceptsArity kind.parameters args.length) :
    e.Receives ⟨method, e.program.methodCode method, receiver, args⟩ kind g rest m
      ((e.invoke method receiver args).run { m with heap }) := by
  unfold invoke
  split
  · next selector parameters body isNative hsome =>
    cases hkind.symm.trans hsome
    cases isNative with
    | true => exact .native rfl hcontexts
    | false =>
        rw [if_neg Bool.false_ne_true]
        cases hcode : e.program.methodCode method with
        | error error =>
            rw [bind_error (compiled_error rfl)]
            exact .uncompiled rfl hcontexts
        | ok code =>
            rw [bind_ok (compiled_ok rfl), bind_ok (Action.newContext_eq ..),
              bind_ok (bindParameters_eq ..)]
            simp only [hcontexts]
            refine .bound rfl (pushReturning_started hg ..) (World.Bound.binds ?_)
            refine World.bindAll_bound hparameters haccepts ?_ hsize
            simp [Heap.newContext, hcontexts]
  · next hother =>
    cases kind with
    | method => exact absurd hkind (hother _ _ _ _)
    | _ => cases hmethod

/-- `construct` with a constructor that accepts so many arguments `Receives`
them. -/
theorem construct_receives (hg : m.frames = g :: rest) {receiver : ObjectId} {object : Object}
    (known : m.heap.object? receiver = some object) {start constructor : NodeId}
    {args : List ObjectId}
    (found : e.program.lookupConstructor? start args.length = some constructor)
    {parameters : List Tree} {baseCall : Option (BaseCall Tree)} {body : Tree}
    (hkind : e.program.kind? constructor = some (.constructor parameters baseCall body))
    (hparameters : ProperParameters parameters)
    (haccepts : Program.acceptsArity parameters args.length) (initFields : Bool) :
    e.Receives ⟨constructor, e.program.initCode start (some constructor) initFields, receiver, args⟩
      (.constructor parameters baseCall body) g rest m
      ((e.construct receiver start args initFields).run m) := by
  have hprepared : ∀ rest : Action Unit, ((do
      if initFields then
        clearFields receiver ((e.program.initializedFields start).filterMap Tree.name?)
      rest : Action Unit)).run m
        = rest.run { m with heap := e.prepared receiver start initFields m.heap } := by
    intro rest
    cases initFields with
    | true => exact bind_ok (clearFields_ok known _)
    | false => rfl
  have hcontexts : (e.prepared receiver start initFields m.heap).contexts = m.heap.contexts :=
    contexts_prepared ..
  have hsize : (e.prepared receiver start initFields m.heap).size = m.heap.size := by
    cases initFields with
    | true => exact putFields_size ..
    | false => rfl
  unfold construct
  simp only [found, Option.isNone_some, Bool.false_and, Bool.false_eq_true, if_false,
    Option.bind_some, hkind]
  rw [hprepared]
  cases hcode : e.program.initCode start (some constructor) initFields with
  | error error =>
      rw [bind_error (compiled_error rfl)]
      exact .uncompiled rfl hcontexts
  | ok code =>
      rw [bind_ok (compiled_ok rfl), bind_ok (Action.newContext_eq ..), bind_ok (declare_eq ..),
        bind_ok (bindParameters_eq ..)]
      simp only [hcontexts]
      refine .bound rfl (pushReturning_started hg ..) (World.Bound.binds ?_)
      refine World.bindAll_bound hparameters haccepts ?_ ?_
      · simp [Heap.newContext, hcontexts]
      · rw [Heap.size_declare]
        exact hsize.ge

/-- A `declaredMethod?` for a message takes so many arguments. -/
theorem acceptsArity_of_declaredMethod? {p : Program} (hp : p.root.Numbered)
    {owner method : NodeId} {message : String} {arity : Nat}
    (found : p.declaredMethod? owner message arity = some method) {kind : Kind Tree}
    (hkind : p.kind? method = some kind) :
    kind.isMethod ∧ Program.acceptsArity kind.parameters arity := by
  obtain ⟨member, hfound, rfl⟩ := Option.map_eq_some_iff.1 found
  have hmember := Program.membersOf_mem (List.mem_of_find?_eq_some hfound)
  cases (Program.kind?_of_mem hp hmember).symm.trans hkind
  have hanswers := List.find?_some hfound
  unfold Program.answers at hanswers
  split at hanswers
  · next hmethod =>
    rw [hmethod]
    exact ⟨rfl, (Bool.and_eq_true_iff.1 hanswers).2⟩
  · cases hanswers

/-- So does the constructor of `lookupConstructor?`, wherever it is inherited
from. -/
theorem acceptsArity_of_lookupConstructor? {p : Program} (hp : p.root.Numbered)
    {start constructor : NodeId} {arity : Nat}
    (found : p.lookupConstructor? start arity = some constructor) {kind : Kind Tree}
    (hkind : p.kind? constructor = some kind) :
    kind.isConstructor ∧ Program.acceptsArity kind.parameters arity := by
  obtain ⟨rest, hfound⟩ := Program.lookupConstructor?_eq_some_iff.1 found
  clear found
  induction hfound with
  | inherited _ _ _ ih => exact ih
  | @own _ member accepts same =>
      subst same
      have hmember := (List.mem_filter.1 (List.mem_of_find?_eq_some accepts)).1
      cases (Program.kind?_of_mem hp (Program.membersOf_mem hmember)).symm.trans hkind
      have hconstructs := List.find?_some accepts
      unfold Program.constructs at hconstructs
      split at hconstructs
      · next hconstructor =>
        rw [hconstructor]
        exact ⟨rfl, hconstructs⟩
      · cases hconstructs

/-- The method of `methodFor` is declared by a module for so many arguments,
whether all ancestors are asked or only those after one. -/
theorem declaredMethod?_of_methodFor {module method : NodeId} {message : String} {arity : Nat}
    {start : Option NodeId} (found : e.methodFor module message arity start = some method) :
    ∃ owner, e.program.declaredMethod? owner message arity = some method := by
  cases start with
  | none =>
      obtain ⟨owner, -, hdeclared⟩ := List.exists_of_findSome?_eq_some found
      exact ⟨owner, hdeclared⟩
  | some start =>
      obtain ⟨owner, -, hdeclared⟩ := List.exists_of_findSome?_eq_some found
      exact ⟨owner, hdeclared⟩

section

variable {receiver : ObjectId} {object : Object} {message : String} {args : List ObjectId}
  {start : Option NodeId} {method : NodeId}

theorem dispatch_answered (known : m.heap.object? receiver = some object)
    (found : e.methodFor object.module message args.length start = some method) :
    (e.dispatch receiver message args start).run m = (e.invoke method receiver args).run m := by
  unfold dispatch
  rw [bind_ok (object_ok known)]
  dsimp only
  split
  · next hfound => cases hfound.symm.trans found; rfl
  · next hmissing => cases hmissing.symm.trans found

theorem dispatch_fallback (known : m.heap.object? receiver = some object)
    (missing : e.methodFor object.module message args.length start = none)
    (found : e.program.lookupMethod? object.module fallbackSelector 2 = some method) :
    (e.dispatch receiver message args start).run m
      = (e.invoke method receiver [(m.heap.string message e.core.string).1,
          (m.heap.string message e.core.string).2.size]).run
        { m with heap := e.misunderstood message args m.heap } := by
  unfold dispatch
  rw [bind_ok (object_ok known)]
  dsimp only
  split
  · next hfound => cases hfound.symm.trans missing
  · rw [found]
    dsimp only
    rw [bind_ok (newString_eq ..), bind_ok (newList_eq ..)]
    rfl

end

/-- In a linked program a call to a method or a constructor with proper
parameters loses no argument and makes up none. However it is found, the code
runs in a new context in which each fixed parameter is bound to the argument in
its place, the last one, if it collects arguments, to a new list of those that
are left, and the values of all parameters together are the arguments. -/
theorem arguments_are_bound {base : Option Program} {forest : List Tree}
    (hlink : Program.link base forest = .ok e.program) (hframes : m.frames = g :: rest)
    {call : Action Unit} {a : Activation} (hcall : e.CallsTo m.heap call a) {kind : Kind Tree}
    (hkind : e.program.kind? a.callee = some kind)
    (hparameters : ProperParameters kind.parameters) :
    e.Receives a kind g rest m (call.run m) := by
  obtain ⟨root, targets, hlinks⟩ := Program.links_of_link hlink
  have hp : e.program.root.Numbered := hlinks.numbered_outcome
  cases hcall with
  | @message receiver object message args start method known found =>
      obtain ⟨owner, hdeclared⟩ := declaredMethod?_of_methodFor found
      obtain ⟨hmethod, haccepts⟩ := acceptsArity_of_declaredMethod? hp hdeclared hkind
      rw [dispatch_answered known found]
      exact invoke_receives hframes rfl le_rfl hkind hmethod hparameters haccepts
  | @fallback receiver object message args start method known missing found =>
      obtain ⟨owner, -, hdeclared⟩ := List.exists_of_findSome?_eq_some found
      obtain ⟨hmethod, haccepts⟩ := acceptsArity_of_declaredMethod? hp hdeclared hkind
      rw [dispatch_fallback known missing found]
      have hcontexts : (e.misunderstood message args m.heap).contexts = m.heap.contexts :=
        Heap.contexts_intern ..
      have hsize : m.heap.size ≤ (e.misunderstood message args m.heap).size := by
        rw [misunderstood, Heap.size_allocate]
        exact Nat.le_succ_of_le (Heap.size_le_intern ..)
      exact invoke_receives hframes hcontexts hsize hkind hmethod hparameters haccepts
  | @construction receiver object start args initFields constructor known found =>
      obtain ⟨hconstructor, haccepts⟩ := acceptsArity_of_lookupConstructor? hp found hkind
      cases kind with
      | constructor parameters baseCall body =>
          exact construct_receives hframes known found hkind hparameters haccepts initFields
      | _ => cases hconstructor

end Engine

namespace Sample

open Build

/-- A method that takes one argument, and any number of others. -/
def crew : List Tree :=
  [package "port" [mixin "Ship"
    [.of (.method "sail" [param "captain", .of (.parameter "others" true)] (some (block []))
      false)]]]

def port (p : Program) : Engine where
  program := p
  core := ⟨2, 2, 2, 2, 2, 2⟩
  maxFrames := 2
  natives := []

/-- A ship, and a frame that may send it a message. -/
def pier (p : Program) : Machine where
  heap := ((port p).initialHeap.allocate { module := 2 }).2
  frames := [{ code := [], context := rootContext }]

end Sample

/-- With one argument fewer than parameters, the list of the others is there
and is empty. -/
theorem sample_arguments_are_bound :
    ∃ p kind code heap, Program.link none Sample.crew = .ok p ∧ p.kind? 3 = some kind
      ∧ kind.parameters.length = 2 ∧ ProperParameters kind.parameters
      ∧ p.methodCode 3 = .ok code
      ∧ (Sample.port p).toWorld.Started code 1 heap { code := [], context := rootContext } []
          (Sample.pier p)
          (((Sample.port p).dispatch 4 "sail" [ObjectId.true] none).run (Sample.pier p))
      ∧ (Sample.port p).toWorld.Binds 5 heap 1 kind.parameters [ObjectId.true] := by
  obtain ⟨p, parameters, body, code, hlink, hkind, hlength, hparameters, hcode, hfound⟩ :
      ∃ p parameters body code, Program.link none Sample.crew = .ok p
        ∧ p.kind? 3 = some (.method "sail" parameters body false)
        ∧ parameters.length = 2 ∧ ProperParameters parameters
        ∧ p.methodCode 3 = .ok code ∧ (Sample.port p).methodFor 2 "sail" 1 none = some 3 :=
    ⟨_, _, _, _, rfl, rfl, rfl, ⟨by decide, by decide, by decide⟩, rfl, rfl⟩
  have hknown : (Sample.pier p).heap.object? 4 = some { id := 4, module := 2 } := rfl
  have hcall : (Sample.port p).CallsTo (Sample.pier p).heap
      ((Sample.port p).dispatch 4 "sail" [ObjectId.true] none) _ := .message hknown hfound
  have hreceives := Engine.arguments_are_bound hlink rfl hcall hkind hparameters
  generalize hrun : ((Sample.port p).dispatch 4 "sail" [ObjectId.true] none).run (Sample.pier p) = r
    at hreceives
  cases hreceives with
  | native isNative => cases isNative
  | uncompiled fails => cases hcode.symm.trans fails
  | bound compiles ends binds =>
      exact ⟨p, _, _, _, hlink, hkind, hlength, hparameters, compiles, hrun ▸ ends, binds⟩

end ObjectMachine
