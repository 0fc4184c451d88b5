/-
Calls to `super`.

A call to `super` is compiled with the message and the module from which the
search goes on: the name and the owner of the nearest method around it. Who
receives it is found out at run time, as whatever `self` is there. For the code
of a method both are about the same thing, whatever the method goes through in
the meantime: `self` is the receiver, and the method has been found in its
hierarchy (`super_calls_stay_in_hierarchy`).

Closures are the exception. The nearest method around their sentences is that
of the closure, but `self` is what it is around the closure, and has nothing to
do with the closure (`closure_super_call_is_lost`).
-/
import Mathlib
import ObjectMachine.Proofs.Laws.TrackedFrames
import ObjectMachine.Proofs.Laws.Selves
import ObjectMachine.Proofs.Laws.SuperChains

namespace ObjectMachine

-- ========================================================= static methods

namespace Program

variable {p : Program}

theorem enclosingMethod?_child (hp : p.root.Numbered) {t c : Tree} (ht : t ∈ p.root.preorder)
    (hc : c ∈ t.children) :
    p.enclosingMethod? c.identity
      = if t.kind.isMethod then some t.identity else p.enclosingMethod? t.identity := by
  rw [enclosingMethod?, ancestors_eq_cons hp (parent?_of_child hp ht hc), List.find?_cons,
    isKind_of_mem hp ht]
  cases t.kind.isMethod <;> rfl

/-- Nodes whose code is in one piece (`Tree.inline`) have the same
`enclosingMethod?`. -/
theorem enclosingMethod?_of_mem_inline (hp : p.root.Numbered) {t s : Tree}
    (ht : t ∈ p.root.preorder) (hs : s ∈ t.inline) :
    p.enclosingMethod? s.identity = p.enclosingMethod? t.identity := by
  induction t using Tree.ofChildren with
  | h t ih =>
      rw [Tree.inline_eq] at hs
      rcases List.mem_cons.1 hs with rfl | hs
      · rfl
      · obtain ⟨c, hc, hs⟩ := List.mem_flatMap.1 hs
        have hchild : c ∈ t.children := Kind.mem_children_of_mem_inlined hc
        have hmethod : t.kind.isMethod = false := by
          cases hkind : t.kind with
          | method name parameters body native =>
              rw [hkind] at hc
              cases hc
          | _ => rfl
        rw [ih c hchild (mem_of_child ht hchild) hs, enclosingMethod?_child hp ht hchild,
          hmethod]
        rfl

/-- The `enclosingMethod?` of the nodes in the body of a method is that
method. -/
theorem enclosingMethod?_of_body (hp : p.root.Numbered) {method : NodeId} {name : String}
    {parameters : List Tree} {body s : Tree} {native : Bool}
    (hkind : p.kind? method = some (.method name parameters (some body) native))
    (hs : s ∈ body.inline) :
    s ∈ p.root.preorder ∧ p.enclosingMethod? s.identity = some method := by
  obtain ⟨t, htree, ht⟩ := Option.map_eq_some_iff.1 hkind
  obtain ⟨hmem, rfl⟩ := (tree?_eq_some_iff hp).1 htree
  have hchild : body ∈ t.children := by
    rw [Tree.children, ht]
    simp [Kind.children]
  have hbody : body ∈ p.root.preorder := mem_of_child hmem hchild
  refine ⟨Tree.mem_preorder_trans hbody (Tree.mem_preorder_of_mem_inline hs), ?_⟩
  rw [enclosingMethod?_of_mem_inline hp hbody hs, enclosingMethod?_child hp hmem hchild, ht]
  rfl

/-- A `superMethod` has the name and the owner of the enclosing method. -/
theorem superMethod_of_enclosing {method node : NodeId} {name : String}
    {parameters : List Tree} {body : Option Tree} {native : Bool}
    (hkind : p.kind? method = some (.method name parameters body native))
    (hmethod : p.enclosingMethod? node = some method) {message : String} {owner : NodeId}
    (h : p.superMethod node = .ok (message, owner)) :
    p.name? method = some message ∧ p.parent? method = some owner := by
  have hname : p.name? method = some name := by
    rw [name?, hkind]
    rfl
  simp only [superMethod, hmethod] at h
  split at h
  · cases h
  · next howner =>
    rw [hname] at h
    cases h
    exact ⟨hname, howner⟩

/-- A call that continues a method: it stands for a call to `super` in that
method, is the message that the method answers, and is looked for after the
module of the method. -/
structure ContinuesMethod (p : Program) (method : NodeId) (message : String) (arity : Nat)
    (start : NodeId) : Prop where
  written : ∃ node args, p.kind? node = some (.superSend args) ∧ args.length = arity
    ∧ p.enclosingMethod? node = some method
  message : p.name? method = some message
  start : p.parent? method = some start

/-- The demands on the code of a method: a call from `super` is
`ContinuesMethod`, and its receiver is marked. -/
def ownSuper (p : Program) (method : NodeId) : Demands where
  delegates marks message arity start :=
    marks[arity]? = some true ∧ p.ContinuesMethod method message arity start

theorem methodCode_ownSuper (hp : p.root.Numbered) {method : NodeId} {code : Code}
    (h : p.methodCode method = .ok code) :
    Tracks (p.ownSuper method) true false none [] code := by
  refine methodCode_tracks (fun name parameters body native hkind s hs => ?_) (fun _ => trivial) h
  unfold Admits
  split
  · next args hsuper =>
    intro message owner hfound own marks hown
    obtain ⟨hmem, hmethod⟩ := enclosingMethod?_of_body hp hkind hs
    obtain ⟨hname, howner⟩ := superMethod_of_enclosing hkind hmethod hfound
    refine ⟨?_, ⟨s.identity, args, ?_, rfl, hmethod⟩, hname, howner⟩
    · rw [← hown, List.getElem?_append_right le_rfl, Nat.sub_self]
      rfl
    · rw [kind?_of_mem hp hmem, hsuper]
  · exact fun _ _ => trivial
  · trivial

end Program

-- ============================================================ activations

namespace Engine

variable {e : Engine} {m m' : Machine}

/-- The method that is run for a message: the one that answers it, or else
the one for messages that nobody answers. -/
def chosenMethod? (e : Engine) (module : NodeId) (message : String) (arity : Nat)
    (start : Option NodeId) : Option NodeId :=
  (e.methodFor module message arity start).or (e.program.lookupMethod? module fallbackSelector 2)

/-- A step that starts the code of the `chosenMethod?` for `receiver`: there is
a frame more, and a context for it. -/
structure BeginsMethod (e : Engine) (m m' : Machine) (receiver : ObjectId) (method : NodeId) :
    Prop where
  step : e.step m = .ok () m'
  instruction : ∃ f rest message arity start object, m.frames = f :: rest
    ∧ f.code[f.pc]? = some (.call message arity start) ∧ f.operands[arity]? = some receiver
    ∧ m.heap.object? receiver = some object
    ∧ e.chosenMethod? object.module message arity start = some method
  begins : m.frames.length < m'.frames.length
  opens : m.heap.contexts.size < m'.heap.contexts.size

/-- The owner of the method is in the `hierarchy` of the receiver. -/
theorem BeginsMethod.owner (hp : e.program.root.Numbered) {receiver : ObjectId} {method : NodeId}
    (h : e.BeginsMethod m m' receiver method) {object : Object}
    (ho : m.heap.object? receiver = some object) :
    ∃ owner ∈ e.program.hierarchy object.module, e.program.parent? method = some owner := by
  obtain ⟨f, rest, message, arity, start, object', -, -, -, ho', hmethod⟩ := h.instruction
  cases ho.symm.trans ho'
  have hfound :
      ∃ message arity start, e.methodFor object.module message arity start = some method := by
    rcases Option.or_eq_some_iff.1 hmethod with hfound | ⟨-, hfound⟩
    · exact ⟨_, _, _, hfound⟩
    · exact ⟨fallbackSelector, 2, none, hfound⟩
  obtain ⟨message, arity, start, hfound⟩ := hfound
  obtain ⟨owner, hparent, -, hinherits⟩ := owner_of_methodFor hp hfound
  exact ⟨owner, of_decide_eq_true hinherits, hparent⟩

section

variable {receiver : ObjectId} {args : List ObjectId} {g : Frame} {rest : List Frame}

/-- Native methods open no context. -/
theorem Performs.contexts_of_ok {w : World}
    (h : Natives.Performs w receiver args g rest m (.ok () m')) :
    m'.heap.contexts = m.heap.contexts := by
  cases h with
  | number value => exact Heap.contexts_intern ..
  | string value => exact Heap.contexts_intern ..
  | add _ _ => exact Heap.contexts_updateObject ..
  | callBack _ _ _ ends =>
      cases ends
      rfl
  | _ => rfl

/-- In the context that `invoking` opens, `self` is the receiver. -/
theorem invoking_selfIn (hnames : e.program.Avoids "self") {parameters : List Tree}
    (hparameters : ∀ t ∈ parameters, t ∈ e.program.root.preorder) {h : Heap} {o : Object}
    (ho : h.object? receiver = some o) (answers : o.answersSelf = true) :
    (e.invoking receiver parameters args h).SelfIn receiver h.contexts.size := by
  have hnew : (h.newContext (.object receiver)).2.context? h.contexts.size
      = some { parent := some (.object receiver) } := by
    rw [Heap.context?_newContext, if_pos rfl]
  have hbound : (h.newContext (.object receiver)).2.Grows (e.invoking receiver parameters args h) :=
    (e.toWorld.bindAll_changes h.contexts.size parameters args _).grows
  obtain ⟨c, hc, hcgrows⟩ := hbound.context hnew
  obtain ⟨o', ho', hogrows⟩ := ((Heap.newContext_grows ..).trans hbound).object ho
  refine .receiver hc ?_ hcgrows.parent ho' (hogrows.answersSelf.trans answers)
  rw [invoking, World.local?_bindAll (hnames.not_mem_names hparameters), Heap.local?, hnew]
  rfl

theorem Invokes.runs (hn : e.natives = Natives.core) (hnames : e.program.Avoids "self")
    {method : NodeId} (h : e.Invokes method receiver args g rest m (.ok () m'))
    (hframes : m.frames = g :: rest) (opens : m.heap.contexts.size < m'.heap.contexts.size)
    {o : Object} (ho : m.heap.object? receiver = some o) (answers : o.answersSelf = true) :
    ∃ code, e.program.methodCode method = .ok code
      ∧ m'.frames = { code, context := m.heap.contexts.size } :: g.resuming [.return] :: rest
      ∧ m'.heap.SelfIn receiver m.heap.contexts.size := by
  generalize hr : (.ok () m' : EStateM.Result Fault Machine Unit) = r at h
  cases h with
  | refused _ => cases hr
  | @native owner selector native found arity =>
      rw [hn] at found
      have hperforms : Natives.Performs e.toWorld receiver args g rest m
          ((native.perform e.toWorld receiver args).run m) :=
        Natives.core_performs found arity hframes
      rw [← hr] at hperforms
      rw [Performs.contexts_of_ok hperforms] at opens
      exact absurd opens (lt_irrefl _)
  | @started selector parameters body isNative code r isMethod compiles ends =>
      subst hr
      have hparameters : ∀ t ∈ parameters, t ∈ e.program.root.preorder := fun t ht =>
        Program.kind?_child_mem isMethod (by simp [Kind.children, ht])
      cases ends with
      | runs => exact ⟨code, compiles, rfl, invoking_selfIn hnames hparameters ho answers⟩

theorem Dispatches.runs (hn : e.natives = Natives.core) (hnames : e.program.Avoids "self")
    {message : String} {start : Option NodeId}
    (h : e.Dispatches receiver message args start g rest m (.ok () m'))
    (hframes : m.frames = g :: rest) (opens : m.heap.contexts.size < m'.heap.contexts.size)
    {o : Object} (ho : m.heap.object? receiver = some o) (answers : o.answersSelf = true) :
    ∃ method code, e.chosenMethod? o.module message args.length start = some method
      ∧ e.program.methodCode method = .ok code
      ∧ m'.frames = { code, context := m.heap.contexts.size } :: g.resuming [.return] :: rest
      ∧ m'.heap.SelfIn receiver m.heap.contexts.size := by
  cases h with
  | answered known found ends =>
      cases ho.symm.trans known
      obtain ⟨code, hruns⟩ := ends.runs hn hnames hframes opens ho answers
      exact ⟨_, code, Option.or_eq_some_iff.2 (.inl found), hruns⟩
  | fallback known missing found ends =>
      cases ho.symm.trans known
      have hcontexts : (e.misunderstood message args m.heap).contexts = m.heap.contexts :=
        (Heap.contexts_allocate ..).trans (Heap.contexts_intern ..)
      have hcall : m.heap.Changes (· <+: ·) (e.misunderstood message args m.heap) :=
        (Heap.Change.string ..).changes.trans (Heap.allocateList_changes ..)
      obtain ⟨o', ho', hgrows⟩ := hcall.grows.object ho
      obtain ⟨code, hcode, hframes', hsees⟩ := ends.runs hn hnames hframes (hcontexts ▸ opens) ho'
        (hgrows.answersSelf.trans answers)
      rw [hcontexts] at hframes' hsees
      exact ⟨_, code, Option.or_eq_some_iff.2 (.inr ⟨missing, found⟩), hcode, hframes', hsees⟩

end

/-- A method begins with the frame that runs its `methodCode`, in which `self`
is the receiver (`SelfIn`). -/
theorem BeginsMethod.runs (hn : e.natives = Natives.core) (hnames : e.program.Avoids "self")
    {receiver : ObjectId} {method : NodeId} (h : e.BeginsMethod m m' receiver method)
    {o : Object} (ho : m.heap.object? receiver = some o) (answers : o.answersSelf = true) :
    ∃ code below, e.program.methodCode method = .ok code
      ∧ m'.frames = { code, context := m.heap.contexts.size } :: below
      ∧ below.length = m.frames.length ∧ m'.heap.SelfIn receiver m.heap.contexts.size := by
  obtain ⟨f, rest, message, arity, start, o', hframes, hi, hreceiver, ho', hmethod⟩ := h.instruction
  cases ho.symm.trans ho'
  rcases step_conduct (hn ▸ Natives.core_tactful) hframes hi h.step with
    does | ⟨_, _, _, does, -⟩ | ⟨value, hlands⟩ | ⟨_, _, _, _, hother, -⟩
  · cases does with
    | @call _ _ _ x others _ enough top ends =>
        obtain rfl : x = receiver := by
          have hhead := congrArg List.head? top
          rw [List.head?_drop] at hhead
          exact Option.some.inj (hhead.symm.trans hreceiver)
        obtain ⟨method', code, hmethod', hcode, hframes', hsees⟩ :=
          ends.runs hn hnames rfl h.opens ho answers
        rw [List.length_reverse, List.length_take, Nat.min_eq_left enough] at hmethod'
        cases hmethod.symm.trans hmethod'
        exact ⟨code, _, hcode, hframes', by rw [hframes]; rfl, hsees⟩
  · cases does
  · have hbegins := h.begins
    rw [hframes, hlands] at hbegins
    exact absurd ((landing_length_le ..).trans (Nat.le_succ _)) (Nat.not_le_of_lt hbegins)
  · cases hother

end Engine

-- =============================================================== the code

namespace Tracking

variable {E E' : Tracking} {below : List Frame} {h : Heap}

/-- While nothing is called, the frame on top `Runs`. -/
theorem Holds.runs_of_uncalled {frames : List Frame} (hholds : E.Holds below h frames)
    (huncalled : ∀ g ∈ frames.take (frames.length - below.length), g.resume ≠ [.return]) :
    ∃ E' f rest, frames = f :: rest ∧ E'.Runs h f ∧ E.Under below h E' rest := by
  cases hholds with
  | runs runs under => exact ⟨_, _, _, rfl, runs, under⟩
  | @calls E' above f rest deep waits called under =>
      obtain ⟨between, rfl⟩ := under.suffix
      refine absurd called (huncalled f ?_)
      have hsplit : above ++ f :: (between ++ below) = (above ++ f :: between) ++ below := by simp
      rw [hsplit, List.length_append, Nat.add_sub_cancel, List.take_left]
      exact List.mem_append_right _ List.mem_cons_self

/-- A tracked frame that is at a call to `super` meets `demands.delegates`, with
marks that its operands agree with. -/
theorem Runs.delegates {f : Frame} (runs : E.Runs h f) {message : String} {arity : Nat}
    {start : NodeId} (hcall : f.code[f.pc]? = some (.call message arity (some start)))
    (hafter : E.after = []) (hfloor : E.floor = []) :
    ∃ marks, Marked E.object marks f.operands ∧ E.demands.delegates marks message arity start := by
  obtain ⟨todo, marks, own, hdrop, hops, hmarked, htracks⟩ := runs.left
  rw [hafter, List.append_nil] at hdrop
  rw [hfloor, List.append_nil] at hops
  have hhead : todo.head? = some (.call message arity (some start)) := by
    rw [← hdrop, List.head?_drop, hcall]
  obtain ⟨i, todo, rfl⟩ : ∃ i rest, todo = i :: rest :=
    List.exists_cons_of_ne_nil (by rintro rfl; cases hhead)
  cases hhead
  generalize E.block = block at htracks
  generalize E.final = final at htracks
  cases htracks with
  | next _ _ met _ => exact ⟨marks, hops ▸ hmarked, met⟩

end Tracking

-- ============================================================ the theorem

namespace Engine

/-- When a method calls `super`, the call goes to the receiver of the method,
as the message that the method answers, and the search goes on after the
module that declares the method: in whatever comes after this module in the
hierarchy of the receiver, of which it is a part. -/
theorem super_calls_stay_in_hierarchy {e : Engine} (hn : e.natives = Natives.core)
    (hp : e.program.root.Numbered) (hnames : e.program.Avoids "self") {m m₁ : Machine}
    (hm : e.Visited m) {receiver : ObjectId} {method : NodeId}
    (hbegins : e.BeginsMethod m m₁ receiver method) {object : Object}
    (hobject : m.heap.object? receiver = some object)
    (hopen : ¬ e.program.isKind Kind.isClosure object.module) {n : Nat} {s : Machine}
    (hrun : e.after n m₁ = some s)
    (hduring : e.During (n + 1) m₁ fun s => m.frames.length < s.frames.length)
    (huncalled : ∀ g ∈ s.frames.take (s.frames.length - m.frames.length), g.resume ≠ [.return])
    {f : Frame} {rest : List Frame} (hf : s.frames = f :: rest) {message : String} {arity : Nat}
    {start : NodeId} (hcall : f.code[f.pc]? = some (.call message arity (some start))) :
    f.operands[arity]? = some receiver ∧ e.program.ContinuesMethod method message arity start
    ∧ ∃ o before after, s.heap.object? receiver = some o ∧ o.module = object.module
      ∧ e.program.hierarchy o.module = before ++ start :: after
      ∧ e.program.lookupMethodAfter? o.module message arity start
        = after.findSome? fun ancestor => e.program.declaredMethod? ancestor message arity := by
  have he : e.natives.Lawful := hn ▸ Natives.core_lawful
  obtain ⟨code, below, hcode, hframes₁, hlength, hsees⟩ :=
    hbegins.runs hn hnames hobject (hm.answersSelf hn hobject hopen)
  -- The frames of the method are tracked for the receiver.
  let E : Tracking := { demands := e.program.ownSuper method, object := receiver }
  have hbusy : 1 < m.frames.length := by
    obtain ⟨f₀, rest₀, _, _, _, _, hframes₀, hi₀, -⟩ := hbegins.instruction
    exact hm.busy he hframes₀ hi₀
  have hvisited₁ : e.Visited m₁ := hm.step hbusy hbegins.step
  have hfirst : E.Holds below m₁.heap m₁.frames := by
    rw [hframes₁]
    refine .runs ⟨rfl, fun _ => hsees, nofun, code, [], [], (List.append_nil _).symm, rfl, .nil, ?_⟩
      .root
    exact Program.methodCode_ownSuper hp hcode
  have hbelow : below ≠ [] := List.ne_nil_of_length_pos (hlength ▸ Nat.zero_lt_of_lt hbusy)
  rw [← hlength] at hduring huncalled
  have hholds : E.Holds below s.heap s.frames :=
    hfirst.after hn hnames hvisited₁ hbelow hrun hduring fun _ _ _ _ hdone => hdone.1 rfl
  -- Nothing is called, so it is one of them that runs.
  obtain ⟨E', g, under, hg, hruns, hunder⟩ := hholds.runs_of_uncalled huncalled
  cases hf.symm.trans hg
  obtain ⟨marks, hmarked, hdelegates⟩ := hruns.delegates hcall
    (by cases hunder <;> rfl) (by cases hunder <;> rfl)
  rw [hunder.object_eq] at hmarked
  rw [hunder.demands_eq] at hdelegates
  obtain ⟨hmark, hcontinues⟩ := hdelegates
  obtain ⟨owner, hmem, howner⟩ := hbegins.owner hp hobject
  cases hcontinues.start.symm.trans howner
  obtain ⟨before, after, hsplit⟩ := List.append_of_mem hmem
  obtain ⟨o, ho, hgrows⟩ :=
    (after_grows hn (n := n + 1) ((after_step hbegins.step n).trans hrun)).object hobject
  rw [← hgrows.module] at hsplit
  exact ⟨hmarked.operand hmark, hcontinues, o, before, after, ho, hgrows.module, hsplit,
    Program.lookupMethodAfter?_eq hsplit⟩

end Engine

namespace Heirs

open Build

/-- A class with a method that another class overrides with something else. -/
def forest (overriding : Tree) : List Tree :=
  [Sample.library [],
   classNamed "Elder" [method "share" [] [answer (boolean true)]],
   .of (.classDecl "Heir" (some (.of (.reference "Elder" (some 9)))) []
     [method "share" [] [answer overriding]]),
   program "main" [send (.of (.newInstance (.of (.reference "Heir" (some 14))) [])) "share" []]]

/-- `super` is called from a block of the method. -/
def fromBlock : Tree := ifElse (boolean true) [superSend []] [null]

/-- `super` is called from a closure in the method. -/
def fromClosure : Tree := send (closure [] [superSend []]) "apply" []

def engine (overriding : Tree) : Engine := Sample.engineOf (forest overriding)

/-- The frame of the program, in the root context. -/
def running (pc : Nat) (operands : List ObjectId) : Frame :=
  { code := [.instantiate 14 none, .init 0 14 true, .call "share" 0 none, .interrupt .result]
    context := 1, pc, operands }

/-- The heap once the heir is made. -/
def heap (overriding : Tree) : Heap :=
  (engine overriding).constructing 4 14 [] true
    (((engine overriding).initialHeap.newContext (.context 0)).2.allocate
      { module := 14, parent := 0 }).2

/-- The heir is about to be asked. -/
def asked (overriding : Tree) : Machine where
  heap := heap overriding
  frames := [running 2 [4], holderFrame 1]

/-- The code of the method that calls `super` from a block. -/
def sharing : Code :=
  [.push .true,
    .ifThenElse [.load "self", .call "share" 0 (some 14), .interrupt .result]
      [.push .null, .interrupt .result],
    .interrupt .return, .push .void, .interrupt .return]

/-- This method has begun. -/
def begun : Machine where
  heap := ((asked fromBlock).heap.newContext (.object 4)).2
  frames := [{ code := sharing, context := 3 }, (running 3 []).resuming [.return], holderFrame 1]

/-- It is about to call `super`. -/
def delegating : Machine where
  heap := (begun.heap.newContext (.context 3)).2
  frames :=
    [{ code := [.load "self", .call "share" 0 (some 14), .interrupt .result]
       context := 4, pc := 1, operands := [4] },
     { code := sharing, context := 3, pc := 2, resume := [.result] },
     (running 3 []).resuming [.return], holderFrame 1]

/-- The closure of the other method is about to call `super`. -/
def lost : Machine where
  heap := (((engine fromClosure).constructing 5 21 [] true
    ((((asked fromClosure).heap.newContext (.object 4)).2.allocate
      { module := 21, parent := 3, answersSelf := false }).2)).newContext (.object 5)).2
  frames :=
    [{ code := [.load "self", .call "apply" 0 (some 21), .interrupt .return, .push .void,
         .interrupt .return]
       context := 5, pc := 1, operands := [4] },
     { code := [.instantiate 21 none, .init 0 21 true, .call "apply" 0 none, .interrupt .return,
         .push .void, .interrupt .return]
       context := 3, pc := 3, resume := [.return] },
     (running 3 []).resuming [.return], holderFrame 1]

end Heirs

open Engine in
/-- From a block of the method, the call goes to the method of the superclass. -/
theorem block_super_call_continues :
    (Heirs.engine Heirs.fromBlock).Visited (Heirs.asked Heirs.fromBlock)
      ∧ (Heirs.engine Heirs.fromBlock).BeginsMethod (Heirs.asked Heirs.fromBlock) Heirs.begun 4 16
      ∧ (Heirs.engine Heirs.fromBlock).after 3 Heirs.begun = some Heirs.delegating
      ∧ ∃ o before after, Heirs.delegating.heap.object? 4 = some o ∧ o.module = 14
        ∧ (Heirs.engine Heirs.fromBlock).program.hierarchy o.module = before ++ 14 :: after
        ∧ (Heirs.engine Heirs.fromBlock).program.lookupMethodAfter? o.module "share" 0 14
          = after.findSome? fun ancestor =>
            (Heirs.engine Heirs.fromBlock).program.declaredMethod? ancestor "share" 0 := by
  have hm : (Heirs.engine Heirs.fromBlock).Visited (Heirs.asked Heirs.fromBlock) :=
    visited_of_runProgram Natives.core_lawful
      (show (Heirs.engine Heirs.fromBlock).start 10
        = .ok () { heap := (Heirs.engine Heirs.fromBlock).initialHeap } from rfl)
      (show (Heirs.engine Heirs.fromBlock).runProgram 4 "main" _ = .error .outOfSteps _ by cbv)
  have hbegins : (Heirs.engine Heirs.fromBlock).BeginsMethod (Heirs.asked Heirs.fromBlock)
      Heirs.begun 4 16 :=
    ⟨rfl, ⟨_, _, _, _, _, _, rfl, rfl, rfl, rfl, rfl⟩, by decide, by decide⟩
  have hnumbered : (Heirs.engine Heirs.fromBlock).program.root.Numbered :=
    Tree.numbered_of_checkNumbered (by decide +kernel)
  have hnames : (Heirs.engine Heirs.fromBlock).program.Avoids "self" := by
    unfold Program.Avoids
    decide +kernel
  have hrun : (Heirs.engine Heirs.fromBlock).after 3 Heirs.begun = some Heirs.delegating := by cbv
  have hduring : (Heirs.engine Heirs.fromBlock).During 4 Heirs.begun
      fun s => 2 < s.frames.length := during_of_all (by decide +kernel)
  obtain ⟨-, -, hconclusion⟩ := super_calls_stay_in_hierarchy rfl hnumbered hnames hm hbegins rfl
    (by decide +kernel) hrun hduring (by decide) rfl rfl
  exact ⟨hm, hbegins, hrun, hconclusion⟩

/-- From a closure in the method, the call goes to the receiver of the method
as a message to the closure, and is looked for after the closure: there is
nothing, although the method does override another one. -/
theorem closure_super_call_is_lost :
    (Heirs.engine Heirs.fromClosure).Visited Heirs.lost
      ∧ (Heirs.engine Heirs.fromClosure).program.kind? 25 = some (.superSend [])
      ∧ 16 ∈ (Heirs.engine Heirs.fromClosure).program.ancestors 25
      ∧ (Heirs.engine Heirs.fromClosure).program.name? 16 = some "share"
      ∧ (∃ f rest, Heirs.lost.frames = f :: rest
        ∧ f.code[f.pc]? = some (.call "apply" 0 (some 21)) ∧ f.operands[0]? = some 4)
      ∧ (Heirs.lost.heap.object? 4).map Object.module = some 14
      ∧ 21 ∉ (Heirs.engine Heirs.fromClosure).program.hierarchy 14
      ∧ (Heirs.engine Heirs.fromClosure).chosenMethod? 14 "apply" 0 (some 21) = none
      ∧ (Heirs.engine Heirs.fromClosure).program.lookupMethodAfter? 14 "share" 0 14 = some 10 :=
  ⟨Engine.visited_of_runProgram Natives.core_lawful
      (show (Heirs.engine Heirs.fromClosure).start 10
        = .ok () { heap := (Heirs.engine Heirs.fromClosure).initialHeap } from rfl)
      (show (Heirs.engine Heirs.fromClosure).runProgram 11 "main" _ = .error .outOfSteps _ by cbv),
    rfl, by decide +kernel, rfl, ⟨_, _, rfl, rfl, rfl⟩, rfl, by decide +kernel, rfl, rfl⟩

end ObjectMachine
