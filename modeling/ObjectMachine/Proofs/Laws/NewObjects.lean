/-
Expressions that make objects.

`new` and the literals of objects and closures are compiled to an instruction
that makes the object, one that constructs it, and, for arguments given by
name, code that sets fields of it. What is left on the stack is what the
construction returns, and this is the object as long as the construction comes
to its end, where `self` is returned (`creations_leave_new_object`).

Nothing else is asked of the arguments and of the bodies of constructors, or
of other constructors that are run on the way: what those return is dropped.
But `return` is possible in a constructor, too, and it returns from the
construction. And `self` is a name like others, which a parameter may have
(`returning_constructors_replace_object`).
-/
import Mathlib
import ObjectMachine.Proofs.Laws.TrackedFrames

namespace ObjectMachine

-- ============================================================== creations

/-- The code of an expression that makes an object, in parts: what is
evaluated before, the module of the object and the number of arguments it is
constructed with, and what is done with it in the end. -/
structure Creation where
  before : Code
  module : NodeId
  arity : Nat
  finish : Code

namespace Creation

/-- The code from the instruction on that makes the object. -/
def making (c : Creation) : Code :=
  .instantiate c.module none :: .init c.arity c.module true :: c.finish

def code (c : Creation) : Code := c.before ++ c.making

end Creation

/-- An expression that makes an object. -/
def Kind.isCreation {α : Type} : Kind α → Bool
  | .newInstance _ _ => true
  | .literal (.singleton _) => true
  | _ => false

def Kind.isReturn {α : Type} : Kind α → Bool
  | .returnStmt _ => true
  | _ => false

namespace Program

variable {p : Program}

/-- The parts of the code of an expression that makes an object, as
`expressionCode` puts them together. -/
def creation (p : Program) : Tree → Except CompileError Creation
  | .node _ _ (.literal (.singleton (.node id _ (.singleton _ _ args _ _ _)))) => do
    let before ← p.argumentsCode args
    return { before, module := id.getD 0, arity := args.length, finish := [] }
  | .node _ _ (.literal (.singleton object)) =>
    return { before := [], module := object.identity, arity := 0, finish := [] }
  | .node _ _ (.newInstance instantiated args) => do
    let module ← linkedTarget instantiated
    if hasNamedArguments args then
      let named ← p.namedArgumentsCode args
      return { before := [], module, arity := 0
               finish := named ++ [.dup, .call "initialize" 0 none, .pop] }
    else
      let before ← p.argumentsCode args
      return { before, module, arity := args.length, finish := [] }
  | .node id _ kind => .error (.notAnExpression kind.label (id.getD 0))

/-- The demands `{}` ask nothing of any tree. -/
theorem admitsAll_of_nothing (bySelf : Bool) (t : Tree) : p.AdmitsAll {} bySelf t := by
  intro s _
  unfold Admits
  split
  · exact fun _ _ _ _ _ _ => trivial
  · exact fun _ _ => trivial
  · trivial

/-- The code of an `isCreation` is that of its `creation`: arguments for the
constructor come first, and the object stays where it is afterwards
(`Tracks`). -/
theorem exists_creation {pal : Palette} (hpal : pal.Lawful) (hbinds : ∀ t, p.BindsOnly pal t)
    {t : Tree} (ht : t.kind.isCreation) {code : Code} (h : p.expressionCode t = .ok code) :
    ∃ c, p.creation t = .ok c ∧ c.code = code ∧ Emits pal 0 c.arity c.before
      ∧ Tracks {} false false (some [true]) [true] c.finish := by
  have hbefore {args : List Tree} {before : Code} (hargs : p.argumentsCode args = .ok before) :
      Emits pal 0 args.length before := argumentsCode_emits hpal args (fun t _ => hbinds t) hargs
  obtain ⟨id, span, kind⟩ := t
  cases kind with
  | newInstance instantiated args =>
      simp only [expressionCode, bind_ok_iff] at h
      obtain ⟨module, hmodule, h⟩ := h
      cases hnamed : hasNamedArguments args with
      | true =>
          simp only [hnamed, if_true, bind_ok_iff, pure_ok_iff] at h
          obtain ⟨named, hargs, rfl⟩ := h
          refine ⟨⟨[], module, 0, _⟩, ?_, rfl, .nil 0, ?_⟩
          · simp only [creation, hnamed, if_true, bind_ok_iff, pure_ok_iff]
            exact ⟨module, hmodule, named, hargs, rfl⟩
          · exact namedArgumentsCode_tracks args (fun t _ => admitsAll_of_nothing false t) hargs
              (initialized_tracks .done)
      | false =>
          simp only [hnamed, Bool.false_eq_true, if_false, bind_ok_iff, pure_ok_iff] at h
          obtain ⟨before, hargs, rfl⟩ := h
          refine ⟨⟨before, module, args.length, []⟩, ?_, rfl, hbefore hargs, .done⟩
          simp only [creation, hnamed, Bool.false_eq_true, if_false, bind_ok_iff, pure_ok_iff]
          exact ⟨module, hmodule, before, hargs, rfl⟩
  | literal value =>
      cases value with
      | singleton object =>
          obtain ⟨id, span, kind⟩ := object
          cases kind with
          | singleton name superclass args mixins members closure =>
              simp only [expressionCode, bind_ok_iff, pure_ok_iff] at h
              obtain ⟨before, hargs, rfl⟩ := h
              refine ⟨⟨before, id.getD 0, args.length, []⟩, ?_, rfl, hbefore hargs, .done⟩
              simp only [creation, bind_ok_iff, pure_ok_iff]
              exact ⟨before, hargs, rfl⟩
          | _ =>
              cases h
              exact ⟨⟨[], _, 0, []⟩, rfl, rfl, .nil 0, .done⟩
      | _ => cases ht
  | _ => cases ht

-- ========================================================== constructions

/-- The demands on the code of a construction: nothing is returned but the
object, and not from a block. -/
def returnsObject : Demands where
  returns block marks := block = false ∧ marks.head? = some true

/-- A construction without `return`: there is none in the code of its
`initTrees`. -/
def ReturnFree (p : Program) (module : NodeId) (arity : Nat) : Prop :=
  ∀ t ∈ p.initTrees module (p.lookupConstructor? module arity), ∀ s ∈ t.inline,
    s.kind.isReturn = false

theorem initCode_returnsObject {module : NodeId} {arity : Nat} (hfree : p.ReturnFree module arity)
    {code : Code} (h : p.initCode module (p.lookupConstructor? module arity) true = .ok code) :
    Tracks returnsObject true false none [] code := by
  refine initCode_tracks (fun t ht s hs => ?_) (fun _ => ⟨rfl, rfl⟩) h
  have hkind := hfree t ht s hs
  unfold Admits
  split
  · exact fun _ _ _ _ _ _ => trivial
  · next hreturn =>
    rw [hreturn] at hkind
    cases hkind
  · trivial

end Program

namespace Engine

variable {e : Engine} {m m' : Machine} {g : Frame} {rest : List Frame} {module : NodeId}
  {receiver : ObjectId}

/-- In the context that `constructing` opens, the object is `self`
(`SelfIn`). -/
theorem constructing_selfIn (hnames : e.program.Avoids "self") (start : NodeId)
    (args : List ObjectId) (initFields : Bool) (h : Heap) :
    (e.constructing receiver start args initFields h).SelfIn receiver h.contexts.size := by
  have hparameters : ∀ t ∈ e.parametersOf (e.program.lookupConstructor? start args.length),
      t ∈ e.program.root.preorder := by
    intro t ht
    unfold parametersOf at ht
    split at ht
    · next hkind =>
      obtain ⟨constructor, -, hkind⟩ := Option.bind_eq_some_iff.1 hkind
      exact Program.kind?_child_mem hkind (by simp [Kind.children, ht])
    · cases ht
  have hsize : (e.prepared receiver start initFields h).contexts.size = h.contexts.size := by
    rw [contexts_prepared]
  refine .bound ?_
  rw [constructing, World.local?_bindAll (hnames.not_mem_names hparameters), ← hsize]
  exact Heap.local?_declare_self (by simp [Heap.newContext]) "self" receiver

theorem step_makes (hframes : m.frames = g :: rest)
    (hi : g.code[g.pc]? = some (.instantiate module none)) (hstep : e.step m = .ok () m') :
    m' = { m with
      heap := (m.heap.allocate (e.instanceIn g.context module)).2
      frames := g.next.push m.heap.size :: rest } := by
  have hmake := execute_make (e := e) (m := { m with frames := g.next :: rest }) rfl module
  rw [EStateM.run] at hmake
  simp only [Engine.step, hframes, hi] at hstep
  rw [show ({ g with pc := g.pc + 1 } : Frame) = g.next from rfl, hmake] at hstep
  cases hstep
  rfl

/-- A step at an `init` that does not fail begins the construction in a frame of
its own. -/
theorem step_constructs (hn : e.natives = Natives.core) (hframes : m.frames = g :: rest)
    {arity : Nat} (hi : g.code[g.pc]? = some (.init arity module true)) {others : List ObjectId}
    (hops : g.operands = receiver :: others) (hstep : e.step m = .ok () m')
    (hdeep : rest.length < m'.frames.length) :
    ∃ code args, args.length = arity
      ∧ e.program.initCode module (e.program.lookupConstructor? module arity) true = .ok code
      ∧ m'.frames = { code, context := m.heap.contexts.size }
        :: g.waiting (.init arity module true) .return :: rest
      ∧ m'.heap = e.constructing receiver module args true m.heap := by
  rcases step_conduct (hn ▸ Natives.core_tactful) hframes hi hstep with
    does | ⟨_, _, _, does, -⟩ | ⟨value, hlands⟩ | ⟨_, _, _, _, hother, -⟩
  · cases does with
    | @init _ _ _ x others' _ top enough ends =>
        cases hops.symm.trans top
        have hlength : (others.take arity).reverse.length = arity := by
          rw [List.length_reverse, List.length_take, Nat.min_eq_left enough]
        cases ends with
        | started compiles ends =>
            rw [hlength] at compiles
            cases ends
            exact ⟨_, _, hlength, compiles, rfl, rfl⟩
  · cases does
  · rw [hlands] at hdeep
    exact absurd hdeep (Nat.not_lt.2 (landing_length_le ..))
  · cases hother

/-- A `ReturnFree` construction that comes to an end gives the object: the
tracking of the frame of `initCode` is `Faithful`. -/
theorem construction_answers (hn : e.natives = Natives.core) (hnames : e.program.Avoids "self")
    (hm : e.Visited m) (hframes : m.frames = g :: rest) (hresume : g.resume = []) {arity : Nat}
    (hi : g.code[g.pc]? = some (.init arity module true)) {others : List ObjectId}
    (hops : g.operands = receiver :: others) (hfree : e.program.ReturnFree module arity) {n : Nat}
    (hrun : e.after (n + 1) m = some m')
    (hstays : e.During (n + 2) m fun s => rest.length < s.frames.length)
    (hlow : m'.frames.length = rest.length + 1) :
    ∃ k s, k ≤ n + 1 ∧ e.after k m = some s
      ∧ s.frames = g.answered (.init arity module true) receiver :: rest := by
  have he : e.natives.Lawful := hn ▸ Natives.core_lawful
  obtain ⟨m₁, hstep, hrest⟩ := after_first hrun
  have hfirst : e.after 1 m = some m₁ := after_step hstep 0
  obtain ⟨code, args, -, hcode, hframes₁, hheap₁⟩ := step_constructs hn hframes hi hops hstep
    (hstays 1 (Nat.succ_lt_succ (Nat.succ_pos n)) m₁ hfirst)
  have hvisited₁ : e.Visited m₁ := hm.step (hm.busy he hframes hi) hstep
  let E : Tracking := { demands := Program.returnsObject, object := receiver }
  have hfaithful : E.Faithful := fun block mark marks ⟨hblock, hmark⟩ =>
    ⟨hblock, Option.some.inj hmark⟩
  have hholds :
      E.Holds (g.waiting (.init arity module true) .return :: rest) m₁.heap m₁.frames := by
    rw [hframes₁]
    refine .runs ⟨rfl, fun _ => ?_, nofun, code, [], [], (List.append_nil _).symm, rfl, .nil, ?_⟩
      .root
    · rw [hheap₁]
      exact constructing_selfIn hnames ..
    · exact Program.initCode_returnsObject hfree hcode
  obtain ⟨k, s, hk, hs, kind, value, hlands, hreturn⟩ :=
    hholds.ends hn hnames hvisited₁ (List.cons_ne_nil _ _) rfl hrest hlow.le
  have hlater : e.after (k + 2) m = some s := (after_step hstep (k + 1)).trans hs
  rw [landing_waiting hresume] at hlands
  split at hlands
  · next hkind =>
    rw [hreturn hfaithful hkind] at hlands
    exact ⟨k + 2, s, Nat.succ_le_succ hk, hlater, hlands⟩
  · -- Anything else would not have left the frame on the stack.
    have hdeep : rest.length < s.frames.length :=
      hstays (k + 2) (Nat.succ_lt_succ (Nat.succ_lt_succ hk)) s hlater
    rw [hlands] at hdeep
    exact absurd hdeep (Nat.not_lt.2 (landing_length_le ..))

/-- The code of `finish` leaves the object on the stack, where `Tracks` has its
mark. -/
theorem finish_leaves_object (hn : e.natives = Natives.core) (hnames : e.program.Avoids "self")
    (hm : e.Visited m) (hframes : m.frames = g :: rest) (hresume : g.resume = [])
    (hrest : rest ≠ []) {floor : List ObjectId} (hops : g.operands = receiver :: floor)
    {finish after : Code} (hdrop : g.code.drop g.pc = finish ++ after)
    (htracks : Tracks {} false false (some [true]) [true] finish) {n : Nat}
    (hrun : e.after n m = some m')
    (hstays : e.During (n + 1) m fun s => rest.length < s.frames.length)
    (hlive : e.During n m fun s => ¬ s.LeftWith after rest) {g' : Frame}
    (hframes' : m'.frames = g' :: rest) (hend : g'.code.drop g'.pc = after) :
    g'.operands = receiver :: floor := by
  let E : Tracking :=
    { demands := {}, object := receiver, bySelf := false, final := some [true], floor, after }
  have hruns : E.Runs m.heap g :=
    ⟨hresume, nofun, nofun, finish, [true], [receiver], hdrop, hops, .cons (fun _ => rfl) .nil,
      htracks⟩
  have hholds : E.Holds rest m.heap m.frames := hframes ▸ .runs hruns .root
  have hlast := hholds.after hn hnames hm hrest hrun hstays fun k hk s hs hdone =>
    hlive k hk s hs hdone.2
  obtain ⟨marks, own, hmarks, hops', hmarked⟩ := hlast.at_end hframes' hend
  cases hmarks
  obtain ⟨first, none, hfirst, hnone, rfl⟩ := List.forall₂_cons_left_iff.1 hmarked
  rw [hops', hfirst rfl, List.forall₂_nil_left_iff.1 hnone]
  rfl

/-- The code of `making` leaves the object in the place of the arguments. -/
theorem making_leaves_object (hn : e.natives = Natives.core) (hnames : e.program.Avoids "self")
    {c : Creation} (hfree : e.program.ReturnFree c.module c.arity)
    (hfinish : Tracks {} false false (some [true]) [true] c.finish) (hm : e.Visited m)
    (hframes : m.frames = g :: rest) {own floor : List ObjectId} (hops : g.operands = own ++ floor)
    (hown : own.length = c.arity) {after : Code} (hdrop : g.code.drop g.pc = c.making ++ after)
    {n : Nat} (hrun : e.after n m = some m')
    (hstays : e.During (n + 1) m fun s => rest.length < s.frames.length)
    (hlive : e.During n m fun s => ¬ s.LeftWith after rest) {g' : Frame}
    (hframes' : m'.frames = g' :: rest) (hend : g'.code.drop g'.pc = after) :
    0 < n ∧ g'.operands = m.heap.size :: floor
      ∧ ∃ o, m'.heap.object? m.heap.size = some o ∧ o.module = c.module := by
  have he : e.natives.Lawful := hn ▸ Natives.core_lawful
  obtain ⟨hi, hdrop₁⟩ := drop_succ_of_drop hdrop
  obtain ⟨hi₁, hdrop₂⟩ := drop_succ_of_drop hdrop₁
  have hbusy : 1 < m.frames.length := hm.busy he hframes hi
  have hresume : g.resume = [] := hm.resume_nil he hbusy hframes
  have hrest : rest ≠ [] := by
    rintro rfl
    rw [hframes] at hbusy
    exact absurd hbusy (lt_irrefl _)
  -- There is code left before the end, so the run goes on.
  have hmore {s : Machine} {f : Frame} {more : Code} (hf : s.frames = f :: rest)
      (hleft : f.code.drop f.pc = more ++ after) (hne : more ≠ []) {r : Nat}
      (hr : e.after r s = some m') : ∃ r', r = r' + 1 := by
    refine Nat.exists_eq_succ_of_ne_zero ?_
    rintro rfl
    cases hr
    cases hf.symm.trans hframes'
    exact hne (List.append_left_eq_self.1 (hleft.symm.trans hend))
  obtain ⟨n, rfl⟩ := hmore hframes hdrop (List.cons_ne_nil _ _) hrun
  -- The object is made.
  obtain ⟨m₁, hstep, hrun₁⟩ := after_first hrun
  have hfirst : e.after 1 m = some m₁ := after_step hstep 0
  have hmade := step_makes hframes hi hstep
  have hframes₁ : m₁.frames = g.next.push m.heap.size :: rest := by rw [hmade]
  obtain ⟨n, rfl⟩ := hmore hframes₁ hdrop₁ (List.cons_ne_nil _ _) hrun₁
  -- It is constructed.
  obtain ⟨k, s, hk, hs, hframes₂⟩ := construction_answers hn hnames
    (hm.along he hframes hi hfirst (hstays.mono (Nat.succ_le_succ (Nat.zero_le _)))) hframes₁
    hresume hi₁ rfl hfree hrun₁ (hstays.later hfirst (Nat.add_comm ..).le) (by rw [hframes']; rfl)
  -- What is left to do keeps it.
  have hs' : e.after (k + 1) m = some s := (after_step hstep k).trans hs
  obtain ⟨r, hr⟩ := Nat.exists_eq_add_of_le hk
  have hrun₂ : e.after r s = some m' := (after_add k r hs).symm.trans (hr ▸ hrun₁)
  have hops₂ : (((g.next.push m.heap.size).answered (.init c.arity c.module true)
      m.heap.size).operands) = m.heap.size :: floor := by
    show m.heap.size :: (m.heap.size :: g.operands).drop (c.arity + 1) = _
    rw [List.drop_succ_cons, hops, ← hown, List.drop_left]
  have hresult := finish_leaves_object hn hnames
    (hm.along he hframes hi hs' (hstays.mono (by omega))) hframes₂ hresume hrest hops₂ hdrop₂
    hfinish hrun₂ (hstays.later hs' (by omega)) (hlive.later hs' (by omega)) hframes' hend
  obtain ⟨o, ho, hgrows⟩ := (after_grows hn hrun₁).object
    (show m₁.heap.object? m.heap.size = some _ by
      rw [hmade]
      exact (Heap.object?_allocate ..).trans (if_pos rfl))
  exact ⟨Nat.succ_pos _, hresult, o, ho, hgrows.module.trans (e.instanceIn_module ..)⟩

end Engine

-- ============================================================ the theorem

/-- A frame `f` that runs the code of a creation, `after` it, leaves the object
that is made at its own place in that code. In the state `s`, which comes on
the way from `m` to `m'`, the frame is about to run `c.making`, and the next
identity that the heap gives out is the one that is on top of the operands of
`f` in the end. -/
structure Engine.LeavesNewObject (e : Engine) (c : Creation) (after : Code) (f : Frame)
    (rest : List Frame) (n : Nat) (m s m' : Machine) : Prop where
  passes : ∃ k < n, e.after k m = some s
  making : ∃ g, s.frames = g :: rest ∧ g.code = f.code ∧ g.code.drop g.pc = c.making ++ after
  left : ∃ g, m'.frames = g :: rest ∧ g.operands = s.heap.size :: f.operands
  object : ∃ o, m'.heap.object? s.heap.size = some o ∧ o.module = c.module

open Engine in
/-- An expression that makes an object, be it `new` or the literal of an object
or a closure, leaves the object on top of the operands that were there: the one
that is made at its own place in the code (`LeavesNewObject`). This is so if the
object is constructed without `return`, and no name is `self`. -/
theorem creations_leave_new_object {e : Engine} (hn : e.natives = Natives.core)
    (hnames : e.program.Avoids "self") {t : Tree} (ht : t.kind.isCreation) {code after : Code}
    (hcode : e.program.expressionCode t = .ok code)
    (hfree : ∀ c, e.program.creation t = .ok c → e.program.ReturnFree c.module c.arity)
    {m m' : Machine} (hm : e.Visited m) {f : Frame} {rest : List Frame}
    (hframes : m.frames = f :: rest) (hstart : f.code.drop f.pc = code ++ after) {n : Nat}
    (hrun : e.after n m = some m')
    (hstays : e.During (n + 1) m fun s => rest.length < s.frames.length)
    (hbefore : after ≠ [] → e.During n m fun s => ¬ s.LeftWith after rest)
    (hend : m'.LeftWith after rest) :
    ∃ c s, e.program.creation t = .ok c ∧ c.code = code
      ∧ e.LeavesNewObject c after f rest n m s m' := by
  have he : e.natives.Lawful := hn ▸ Natives.core_lawful
  have hdisciplined : e.Disciplined Rules.free.binds := .of_natives he
  obtain ⟨c, hc, rfl, hemits, hfinish⟩ := Program.exists_creation hdisciplined.lawful
    (fun _ _ _ _ _ => trivial) ht hcode
  have hlive : e.During n m fun s => ¬ s.LeftWith after rest := by
    by_cases hafter : after = []
    · exact hafter ▸ hstays.not_ended hrun
    · exact hbefore hafter
  obtain ⟨i, todo, hcons⟩ := List.exists_cons_of_ne_nil (l := c.code ++ after)
    (by simp [Creation.code, Creation.making])
  have hi : f.code[f.pc]? = some i := (drop_succ_of_drop (hstart.trans hcons)).1
  -- What is evaluated before leaves as many values as there are arguments.
  obtain ⟨k, s, g, own, hk, hs, hg, hdrop, hgcode, -, hops, hown⟩ := passes hdisciplined
    ((hemits .method).runs 0) hframes (hm.resume_nil he (hm.busy he hframes hi) hframes)
    (hstart.trans (List.append_assoc ..)) (by simp [Creation.making]; omega) hrun hstays hend
  rw [Nat.zero_add] at hown
  obtain ⟨r, rfl⟩ := Nat.exists_eq_add_of_le hk
  have hvisited : e.Visited s :=
    hm.along he hframes hi hs (hstays.mono (hk.trans (Nat.le_succ _)))
  obtain ⟨g', hframes', hdrop'⟩ := hend
  obtain ⟨hr, hresult, o, ho, hmodule⟩ := making_leaves_object hn hnames (hfree c hc) hfinish
    hvisited hg hops hown hdrop ((after_add k r hs).symm.trans hrun) (hstays.later hs le_rfl)
    (hlive.later hs le_rfl) hframes' hdrop'
  exact ⟨c, s, hc, rfl, ⟨k, Nat.lt_add_of_pos_right hr, hs⟩, ⟨g, hg, hgcode, hdrop⟩,
    ⟨g', hframes', hresult⟩, o, ho, hmodule⟩

namespace Mint

open Build

/-- A new coin, in what is the program below. -/
def coin : Tree := .of (.newInstance (.of (.reference "Coin" (some 14))) [boolean false])

/-- A class whose constructor runs another one, which returns something, and
a program that makes an instance of it. -/
def forest (parameter : String) (sentences : List Tree) : List Tree :=
  [Sample.library [],
   classNamed "Blank" [constructor [] [answer (boolean true)]],
   .of (.classDecl "Coin" (some (.of (.reference "Blank" (some 9)))) []
     [constructor [parameter] sentences]),
   program "main" [coin]]

def engine (parameter : String) (sentences : List Tree) : Engine :=
  Sample.engineOf (forest parameter sentences)

def minting : Code := [.push .false, .instantiate 14 none, .init 1 14 true]

/-- The frame of the program. -/
def running (pc : Nat) (operands : List ObjectId) : Frame :=
  { code := minting ++ [.interrupt .result], context := 1, pc, operands }

def started (parameter : String) (sentences : List Tree) : Machine where
  heap := ((engine parameter sentences).initialHeap.newContext (.context 0)).2
  frames := [running 0 [], holderFrame 1]

/-- The sentences of a constructor that returns. -/
def returning : List Tree := [answer (boolean true)]

/-- The program has come to the end of the expression, with a value. -/
def ended (parameter : String) (sentences : List Tree) (value : ObjectId) : Machine where
  heap := (engine parameter sentences).constructing
    (if parameter = "self" then .false else 4) 9 [] false
    ((engine parameter sentences).constructing 4 14 [.false] true
      ((started parameter sentences).heap.allocate { module := 14, parent := 0 }).2)
  frames := [running 3 [value], holderFrame 1]

end Mint

open Engine in
/-- The coin is what is left, whatever the other constructor returns. -/
theorem coin_is_new_object :
    (Mint.engine "value" []).Visited (Mint.started "value" [])
      ∧ (Mint.engine "value" []).program.expressionCode Mint.coin = .ok Mint.minting
      ∧ (Mint.engine "value" []).after 12 (Mint.started "value" [])
        = some (Mint.ended "value" [] 4)
      ∧ ∃ c s, (Mint.engine "value" []).program.creation Mint.coin = .ok c
        ∧ c.code = Mint.minting
        ∧ (Mint.engine "value" []).LeavesNewObject c [.interrupt .result] (Mint.running 0 [])
          [holderFrame 1] 12 (Mint.started "value" []) s (Mint.ended "value" [] 4) := by
  have hm : (Mint.engine "value" []).Visited (Mint.started "value" []) :=
    visited_of_runProgram Natives.core_lawful
      (show (Mint.engine "value" []).start 10
        = .ok () { heap := (Mint.engine "value" []).initialHeap } from rfl)
      (show (Mint.engine "value" []).runProgram 0 "main" _ = .error .outOfSteps _ by cbv)
  have hcode : (Mint.engine "value" []).program.expressionCode Mint.coin = .ok Mint.minting := rfl
  have hnames : (Mint.engine "value" []).program.Avoids "self" := by
    unfold Program.Avoids
    decide +kernel
  have hfree : ∀ c, (Mint.engine "value" []).program.creation Mint.coin = .ok c →
      (Mint.engine "value" []).program.ReturnFree c.module c.arity := by
    intro c hc
    cases hc
    unfold Program.ReturnFree
    decide +kernel
  have hrun : (Mint.engine "value" []).after 12 (Mint.started "value" [])
      = some (Mint.ended "value" [] 4) := by cbv
  have hstays : (Mint.engine "value" []).During 13 (Mint.started "value" [])
      fun s => 1 < s.frames.length := during_of_all (by decide +kernel)
  have hbefore : (Mint.engine "value" []).During 12 (Mint.started "value" [])
      fun s => ¬ s.LeftWith [.interrupt .result] [holderFrame 1] := by
    have hlonger : (Mint.engine "value" []).During 12 (Mint.started "value" []) fun s =>
        ¬ (s.frames.length = 2
          ∧ s.frames.head?.map (fun g => (g.code.drop g.pc).length) = some 1) :=
      during_of_all (by decide +kernel)
    rintro k hk s hs ⟨g, hg, hdrop⟩
    refine hlonger k hk s hs ?_
    rw [hg, List.head?_cons, Option.map_some, hdrop]
    exact ⟨rfl, rfl⟩
  exact ⟨hm, hcode, hrun, creations_leave_new_object rfl hnames rfl hcode hfree hm rfl rfl hrun
    hstays (fun _ => hbefore) ⟨_, rfl, rfl⟩⟩

/-- A constructor that returns something has this left in the place of the
coin, which is the object 4, and so has one with a parameter that is called
`self`. -/
theorem returning_constructors_replace_object :
    (Mint.engine "value" Mint.returning).Visited (Mint.started "value" Mint.returning)
      ∧ (Mint.engine "value" Mint.returning).program.expressionCode Mint.coin = .ok Mint.minting
      ∧ (Mint.engine "value" Mint.returning).after 10 (Mint.started "value" Mint.returning)
        = some (Mint.ended "value" Mint.returning .true)
      ∧ (Mint.engine "self" []).Visited (Mint.started "self" [])
      ∧ (Mint.engine "self" []).program.expressionCode Mint.coin = .ok Mint.minting
      ∧ (Mint.engine "self" []).after 12 (Mint.started "self" [])
        = some (Mint.ended "self" [] .false) := by
  have hreturning := Engine.visited_of_runProgram Natives.core_lawful
    (show (Mint.engine "value" Mint.returning).start 10
      = .ok () { heap := (Mint.engine "value" Mint.returning).initialHeap } from rfl)
    (show (Mint.engine "value" Mint.returning).runProgram 0 "main" _
      = .error .outOfSteps (Mint.started "value" Mint.returning) by cbv)
  have hself := Engine.visited_of_runProgram Natives.core_lawful
    (show (Mint.engine "self" []).start 10
      = .ok () { heap := (Mint.engine "self" []).initialHeap } from rfl)
    (show (Mint.engine "self" []).runProgram 0 "main" _
      = .error .outOfSteps (Mint.started "self" []) by cbv)
  exact ⟨hreturning, rfl, by cbv, hself, rfl, by cbv⟩

end ObjectMachine
