/-
What the objects of an evaluation are instances of.

An object keeps its identity, its module, and whether it is `self` to its own
methods (`answersSelf`), so a property `P` of the last two has to be looked at
for new objects only. Their modules are those of the library that the machine
needs (`World.Within`), the classes of exceptions, the named objects, and what
the code of a frame instantiates (`makesOf`). All code that is ever run is
compiled or calls back. So `P` is kept by whatever an evaluation does
(`instancesOf_keeps`) if it holds of what these can make (`Engine.MakesOnly`).

A linked program makes instances of its own nodes only (`makesOnly_nodes`);
Laws/Selves.lean has another property of this form.
-/
import Mathlib
import ObjectMachine.Proofs.Code.Layout
import ObjectMachine.Proofs.Library.Conduct
import ObjectMachine.Proofs.Session.Reserved
import ObjectMachine.Proofs.Session.Traced

namespace ObjectMachine

-- ================================================================ heaps

/-- Every object is found under its identity, and `P` holds of its module and
its `answersSelf`. -/
def Heap.InstancesOf (P : NodeId → Bool → Prop) (h : Heap) : Prop :=
  ∀ id o, h.object? id = some o → o.id = id ∧ P o.module o.answersSelf

namespace Heap.InstancesOf

variable {P : NodeId → Bool → Prop} {h : Heap}

theorem allocate (hh : h.InstancesOf P) {o : Object} (ho : P o.module o.answersSelf) :
    (h.allocate o).2.InstancesOf P := by
  intro id o' ho'
  rw [object?_allocate] at ho'
  split at ho'
  · next heq =>
    cases ho'
    exact ⟨heq.symm, ho⟩
  · exact hh id o' ho'

/-- `InstancesOf` depends on neither the fields nor the `inner` part of an
object. -/
theorem updateObject (hh : h.InstancesOf P) (id : ObjectId) {f : Object → Object}
    (hid : ∀ o, (f o).id = o.id) (hmodule : ∀ o, (f o).module = o.module)
    (hself : ∀ o, (f o).answersSelf = o.answersSelf) : (h.updateObject id f).InstancesOf P := by
  intro id' o' ho'
  rw [object?_updateObject] at ho'
  split at ho'
  · obtain ⟨o, ho, rfl⟩ := Option.map_eq_some_iff.1 ho'
    rw [hid, hmodule, hself]
    exact hh id' o ho
  · exact hh id' o' ho'

theorem putField (hh : h.InstancesOf P) (id : ObjectId) (name : String) (value : ObjectId) :
    (h.putField id name value).InstancesOf P :=
  hh.updateObject id (fun _ => rfl) (fun _ => rfl) fun _ => rfl

theorem putAll (hh : h.InstancesOf P) (id : ObjectId) (names : List String) (value : ObjectId) :
    (h.putAll id names value).InstancesOf P := by
  unfold Heap.putAll
  induction names generalizing h with
  | nil => exact hh
  | cons name rest ih => exact ih (hh.putField id name value)

theorem intern (hh : h.InstancesOf P) (key : String) {module : NodeId} (hm : P module true)
    (inner : Inner) : (h.intern key module inner).2.InstancesOf P := by
  unfold Heap.intern
  split
  · exact hh
  · exact hh.allocate hm

theorem number (hh : h.InstancesOf P) (value : Float) {module : NodeId} (hm : P module true) :
    (h.number value module).2.InstancesOf P := hh.intern _ hm _

theorem string (hh : h.InstancesOf P) (value : String) {module : NodeId} (hm : P module true) :
    (h.string value module).2.InstancesOf P := hh.intern _ hm _

/-- Contexts have nothing to do with `InstancesOf`. -/
theorem declare (hh : h.InstancesOf P) (context : ContextId) (name : String) (value : ObjectId) :
    (h.declare context name value).InstancesOf P := hh

theorem newContext (hh : h.InstancesOf P) (parent : Link) :
    (h.newContext parent).2.InstancesOf P := hh

theorem assign (hh : h.InstancesOf P) (id : ContextId) (name : String) (value : ObjectId) :
    (h.assign id name value).2.InstancesOf P := by
  unfold Heap.assign
  split
  · exact hh
  · exact hh.putField _ _ _
  · exact hh

theorem sheltered (hh : h.InstancesOf P) (f : Frame) (n : Nat) :
    (Engine.sheltered f n h).InstancesOf P := by
  induction n with
  | zero => exact hh
  | succ n ih =>
      rw [Engine.sheltered_succ]
      exact ih.newContext _

end Heap.InstancesOf

/-- What holds of the library modules that the machine needs (`World.core`). -/
structure World.Within (w : World) (P : NodeId → Prop) : Prop where
  object : P w.core.object
  boolean : P w.core.boolean
  number : P w.core.number
  string : P w.core.string
  list : P w.core.list
  evaluationError : P w.core.evaluationError

section

variable {e : Engine} {P : NodeId → Bool → Prop} {h : Heap} (hw : e.toWorld.Within (P · true))
include hw

theorem Heap.InstancesOf.bindAll (hh : h.InstancesOf P) (context : ContextId)
    (parameters : List Tree) (args : List ObjectId) :
    (e.toWorld.bindAll context parameters args h).InstancesOf P := by
  induction parameters generalizing args h with
  | nil => exact hh
  | cons parameter rest ih =>
      rw [World.bindAll]
      refine ih ?_ _
      split
      · exact (hh.allocate hw.list).declare _ _ _
      · exact hh.declare _ _ _
      · exact hh

theorem Heap.InstancesOf.withMessage (hh : h.InstancesOf P) {module : NodeId} (hm : P module true)
    (message : String) : (e.toWorld.withMessage module message h).InstancesOf P :=
  (((hh.allocate hm).string message hw.string).putAll _ _ _).putField _ _ _

theorem Heap.InstancesOf.constructing (hh : h.InstancesOf P) (receiver : ObjectId) (start : NodeId)
    (args : List ObjectId) (initFields : Bool) :
    (e.constructing receiver start args initFields h).InstancesOf P := by
  have hprepared : (e.prepared receiver start initFields h).InstancesOf P := by
    unfold Engine.prepared
    split
    · exact hh.putAll _ _ _
    · exact hh
  exact ((hprepared.newContext _).declare _ _ _).bindAll hw _ _ _

end

-- ================================================================= code

mutual

/-- The modules that an instruction makes instances of, nested code
included. -/
def Instruction.makes : Instruction → List NodeId
  | .instantiate module _ => [module]
  | .ifThenElse thenBranch elseBranch => makesOf thenBranch ++ makesOf elseBranch
  | .tryCatchAlways body handler always => makesOf body ++ makesOf handler ++ makesOf always
  | _ => []

/-- The modules that code makes instances of. -/
def makesOf : List Instruction → List NodeId
  | [] => []
  | i :: rest => i.makes ++ makesOf rest

end

/-- Code that makes instances of certain modules only. -/
def Makes (Q : NodeId → Prop) (code : Code) : Prop := ∀ module ∈ makesOf code, Q module

theorem makesOf_append (code more : Code) :
    makesOf (code ++ more) = makesOf code ++ makesOf more := by
  induction code with
  | nil => rfl
  | cons i rest ih => rw [List.cons_append, makesOf, makesOf, ih, List.append_assoc]

theorem makes_subset {code : Code} {i : Instruction} (hi : i ∈ code) : i.makes ⊆ makesOf code := by
  induction code with
  | nil => cases hi
  | cons first rest ih =>
      rw [makesOf]
      rcases List.mem_cons.1 hi with rfl | hi
      · exact List.subset_append_left _ _
      · exact List.Subset.trans (ih hi) (List.subset_append_right _ _)

theorem Instruction.Simple.makes_lt {p : Program} {i : Instruction} (h : i.Simple p) :
    ∀ module ∈ i.makes, module < p.size := by
  cases i with
  | instantiate module value =>
      cases value with
      | none => exact h.elim
      | some value =>
          intro module' hmem
          rw [List.mem_singleton.1 hmem]
          exact h.1
  | ifThenElse thenBranch elseBranch => exact h.elim
  | tryCatchAlways body handler always => exact h.elim
  | _ => exact fun _ hmem => nomatch hmem

/-- Code that is `Laid` out makes instances of nodes of the program. -/
theorem Laid.makes {p : Program} {zone : Zone} {code : Code} {notes : List Note}
    (h : Laid p zone code notes) : Makes (· < p.size) code := by
  have hcons {i : Instruction} {code : Code} (hi : ∀ module ∈ i.makes, module < p.size)
      (hcode : Makes (· < p.size) code) : Makes (· < p.size) (i :: code) :=
    fun module hmem => (List.mem_append.1 hmem).elim (hi module) (hcode module)
  have hnone {i : Instruction} (hi : i.makes = []) : ∀ module ∈ i.makes, module < p.size := by
    rw [hi]
    exact fun _ hmem => nomatch hmem
  induction h with
  | nil => exact fun _ hmem => nomatch hmem
  | plain simple _ ih => exact hcons simple.makes_lt ih
  | make known _ _ ih =>
      refine hcons (fun module hmem => ?_) (hcons (hnone rfl) ih)
      rw [List.mem_singleton.1 hmem]
      exact known
  | delegate _ _ ih => exact hcons (hnone rfl) (hcons (hnone rfl) ih)
  | jump _ _ ih _ => exact hcons (hnone rfl) ih
  | branch _ _ _ _ _ ihThen ihElse ih =>
      exact hcons (fun module hmem => (List.mem_append.1 hmem).elim (ihThen module)
        (ihElse module)) ih
  | protect _ _ _ _ _ _ _ ihBody ihHandler ihAlways ih =>
      exact hcons (fun module hmem => (List.mem_append.1 hmem).elim
        (fun hmem => (List.mem_append.1 hmem).elim (ihBody module) (ihHandler module))
        (ihAlways module)) ih
  | reference _ _ _ ih => exact hcons (hnone rfl) ih
  | bind _ _ ih => exact hcons (hnone rfl) ih
  | assign _ _ ih => exact hcons (hnone rfl) ih
  | handle _ _ ih => exact hcons (hnone rfl) ih
  | leave _ _ ih => exact hcons (hnone rfl) ih

theorem makesOf_flatMap_applyCode (block : ObjectId) (elements : List ObjectId) (after : Code)
    (hafter : makesOf after = []) :
    makesOf (elements.flatMap fun element => Natives.applyCode block element ++ after) = [] := by
  induction elements with
  | nil => rfl
  | cons element rest ih =>
      rw [List.flatMap_cons, makesOf_append, makesOf_append, ih, hafter]
      rfl

theorem Natives.CallsBack.makes {w : World} {Q : NodeId → Prop} (hlist : Q w.core.list)
    {block : ObjectId} {elements : List ObjectId} {code : Code}
    (h : CallsBack w block elements code) : Makes Q code := by
  intro module hmem
  cases h with
  | each =>
      rw [makesOf_append, makesOf_flatMap_applyCode _ _ _ rfl] at hmem
      cases hmem
  | collect =>
      have hcalls := makesOf_flatMap_applyCode block elements [] rfl
      simp only [List.append_nil] at hcalls
      rw [makesOf_append, hcalls] at hmem
      rw [List.mem_singleton.1 hmem]
      exact hlist

-- ============================================================= machines

/-- The objects of a machine are as `P` says, and the code of its frames makes
instances of the modules of `Q` only. -/
structure Machine.InstancesOf (P : NodeId → Bool → Prop) (Q : NodeId → Prop) (m : Machine) :
    Prop where
  heap : m.heap.InstancesOf P
  frames : ∀ g ∈ m.frames, Makes Q g.code

/-- A machine that is `InstancesOf` once the running frame is left, if it has to
be. -/
def Settles (P : NodeId → Bool → Prop) (Q : NodeId → Prop) {ε α : Type} :
    EStateM.Result ε Machine α → Prop
  | .ok _ m => m.InstancesOf P Q
  | .error _ m => m.heap.InstancesOf P ∧ ∀ g ∈ m.frames.tail, Makes Q g.code

theorem makes_mem_cons₂ {Q : NodeId → Prop} {f g : Frame} {rest : List Frame}
    (hf : Makes Q f.code) (hg : Makes Q g.code) (hrest : ∀ g ∈ rest, Makes Q g.code) :
    ∀ g' ∈ f :: g :: rest, Makes Q g'.code :=
  List.forall_mem_cons.2 ⟨hf, List.forall_mem_cons.2 ⟨hg, hrest⟩⟩

theorem World.Started.settles {w : World} {P : NodeId → Bool → Prop} {Q : NodeId → Prop}
    {code : Code} {context : ContextId} {heap : Heap} {g : Frame} {rest : List Frame}
    {m : Machine} {r : EStateM.Result Fault Machine Unit}
    (h : w.Started code context heap g rest m r)
    (hheap : heap.InstancesOf P) (hcode : Makes Q code) (hg : Makes Q g.code)
    (hrest : ∀ g ∈ rest, Makes Q g.code) : Settles P Q r := by
  cases h with
  | runs => exact ⟨hheap, makes_mem_cons₂ hcode hg hrest⟩
  | full => exact ⟨hheap, hrest⟩

namespace Engine

variable {e : Engine} {P : NodeId → Bool → Prop} {Q : NodeId → Prop} {f g : Frame}
  {rest : List Frame} {m : Machine}

/-- What an engine can make is as `P` says: the code that it compiles makes
instances of the modules of `Q` only, and `P` holds of these and of all that is
made without such code. -/
structure MakesOnly (e : Engine) (P : NodeId → Bool → Prop) (Q : NodeId → Prop) : Prop
    extends e.toWorld.Within (P · true) where
  natives : e.natives = Natives.core
  entity : ∀ {name : String} {id : NodeId}, e.program.entity? name = some id → P id true
  named : ∀ {id : NodeId}, id ∈ e.namedObjects → P id true
  value : ∀ {module : NodeId}, Q module → P module true
  made : ∀ {module : NodeId}, Q module → ∀ context, P module
    (e.instanceIn context module).answersSelf
  collects : Q e.core.list
  method : ∀ {method : NodeId} {code : Code}, e.program.methodCode method = .ok code → Makes Q code
  init : ∀ {start : NodeId} {constructor : Option NodeId} {initFields : Bool} {code : Code},
    e.program.initCode start constructor initFields = .ok code → Makes Q code
  globals : ∀ {code : Code},
    e.program.globalsCode e.namedObjects e.packageVariables = .ok code → Makes Q code
  block : ∀ {t body : Tree} {code : Code}, t ∈ e.program.root.preorder → t.body? = some body →
    e.program.blockCode body = .ok code → Makes Q code
  describe : ∀ {id : NodeId}, e.program.isKind Kind.isDescribe id → Q id

section

variable (hw : e.MakesOnly P Q) (hrest : ∀ g ∈ rest, Makes Q g.code)
include hw hrest

theorem Constructs.settles {receiver : ObjectId} {start : NodeId} {args : List ObjectId}
    {initFields : Bool} {r : EStateM.Result Fault Machine Unit}
    (h : e.Constructs receiver start args initFields g rest m r) (hm : m.heap.InstancesOf P)
    (htail : m.frames.tail = rest) (hg : Makes Q g.code) : Settles P Q r := by
  cases h with
  | refused _ => exact ⟨hm, htail ▸ hrest⟩
  | uncompiled =>
      refine ⟨?_, htail ▸ hrest⟩
      show (e.prepared receiver start initFields m.heap).InstancesOf P
      unfold prepared
      split
      · exact hm.putAll _ _ _
      · exact hm
  | started compiles ends =>
      exact ends.settles (hm.constructing hw.toWithin _ _ _ _) (hw.init compiles) hg hrest

theorem Performs.settles {receiver : ObjectId} {args : List ObjectId}
    {r : EStateM.Result Fault Machine Unit}
    (h : Natives.Performs e.toWorld receiver args g rest m r) (hm : m.heap.InstancesOf P)
    (htail : m.frames.tail = rest) (hg : Makes Q g.code) : Settles P Q r := by
  have hframes : ∀ value : ObjectId, ∀ g' ∈ g.push value :: rest, Makes Q g'.code :=
    fun _ => List.forall_mem_cons.2 ⟨hg, hrest⟩
  cases h with
  | fault _ => exact ⟨hm, htail ▸ hrest⟩
  | reserved _ => exact ⟨hm, hframes _⟩
  | element _ _ => exact ⟨hm, hframes _⟩
  | number value => exact ⟨hm.number value hw.number, hframes _⟩
  | string value => exact ⟨hm.string value hw.string, hframes _⟩
  | print line => exact ⟨hm, hframes _⟩
  | add _ _ => exact ⟨hm.updateObject _ (fun _ => rfl) (fun _ => rfl) fun _ => rfl, hframes _⟩
  | callBack _ _ calls ends => exact ends.settles hm (calls.makes hw.collects) hg hrest
  | throw message found => exact ⟨hm.withMessage hw.toWithin (hw.entity found) _, htail ▸ hrest⟩

theorem Invokes.settles {method : NodeId} {receiver : ObjectId} {args : List ObjectId}
    {r : EStateM.Result Fault Machine Unit} (h : e.Invokes method receiver args g rest m r)
    (hm : m.heap.InstancesOf P) (hframes : m.frames = g :: rest) (hg : Makes Q g.code) :
    Settles P Q r := by
  have htail : m.frames.tail = rest := by rw [hframes]; rfl
  cases h with
  | refused _ => exact ⟨hm, htail ▸ hrest⟩
  | native found arity =>
      rw [hw.natives] at found
      exact Performs.settles hw hrest (Natives.core_performs found arity hframes) hm htail hg
  | started _ compiles ends =>
      exact ends.settles ((hm.newContext _).bindAll hw.toWithin _ _ _) (hw.method compiles) hg hrest

theorem Dispatches.settles {receiver : ObjectId} {message : String} {args : List ObjectId}
    {start : Option NodeId} {r : EStateM.Result Fault Machine Unit}
    (h : e.Dispatches receiver message args start g rest m r) (hm : m.heap.InstancesOf P)
    (hframes : m.frames = g :: rest) (hg : Makes Q g.code) : Settles P Q r := by
  cases h with
  | refused _ =>
      refine ⟨hm, ?_⟩
      rw [hframes]
      exact hrest
  | answered _ _ ends => exact ends.settles hw hrest hm hframes hg
  | fallback _ _ _ ends =>
      exact ends.settles hw hrest ((hm.string message hw.string).allocate hw.list) hframes hg

/-- Every instruction that ends as `Conduct` says `Settles`. -/
theorem Conduct.settles {i : Instruction} {r : EStateM.Result Fault Machine Flow}
    (h : e.Conduct f rest m i r) (hm : m.heap.InstancesOf P) (hf : Makes Q f.code)
    (hi : ∀ module ∈ i.makes, Q module) : Settles P Q r := by
  have hsame {g : Frame} (hg : g.code = f.code) : ∀ g' ∈ g :: rest, Makes Q g'.code :=
    List.forall_mem_cons.2 ⟨hg ▸ hf, hrest⟩
  cases h with
  | fault _ heap tail =>
      refine ⟨?_, tail ▸ hrest⟩
      rw [heap]
      exact hm
  | load _ => exact ⟨hm, hsame rfl⟩
  | bind _ => exact ⟨hm.declare _ _ _, hsame rfl⟩
  | @assign name value _ _ _ found =>
      have hassigned := hm.assign f.context name value
      rw [found] at hassigned
      exact ⟨hassigned, hsame rfl⟩
  | push => exact ⟨hm, hsame rfl⟩
  | pop _ => exact ⟨hm, hsame rfl⟩
  | dup _ => exact ⟨hm, hsame rfl⟩
  | swap _ => exact ⟨hm, hsame rfl⟩
  | get _ _ _ => exact ⟨hm, hsame rfl⟩
  | set _ _ _ => exact ⟨hm.putField _ _ _, hsame rfl⟩
  | number => exact ⟨hm.number _ (hw.value (hi _ List.mem_cons_self)), hsame rfl⟩
  | string => exact ⟨hm.string _ (hw.value (hi _ List.mem_cons_self)), hsame rfl⟩
  | collection _ => exact ⟨hm.allocate (hw.value (hi _ List.mem_cons_self)), hsame rfl⟩
  | @make module =>
      refine ⟨hm.allocate ?_, hsame rfl⟩
      rw [instanceIn_module]
      exact hw.made (hi module List.mem_cons_self) f.context
  | init _ _ ends => exact ends.settles hw hrest hm rfl hf
  | initFails _ _ ends => exact ends.settles hw hrest hm rfl hf
  | call _ _ ends => exact ends.settles hw hrest hm rfl hf
  | callFails _ _ ends => exact ends.settles hw hrest hm rfl hf
  | inherits _ _ => exact ⟨hm, hsame rfl⟩
  | jump _ _ => exact ⟨hm, hsame rfl⟩
  | @branch thenBranch elseBranch condition others top =>
      refine ⟨hm.newContext _, makes_mem_cons₂ (fun module hmem => hi module ?_) hf hrest⟩
      cases condition with
      | true => exact List.mem_append_left _ hmem
      | false => exact List.mem_append_right _ hmem
  | branchFull => exact ⟨hm.newContext _, hrest⟩
  | @protect body handler always =>
      refine ⟨hm.sheltered f 3, List.forall_mem_cons.2 ⟨fun module hmem => hi module ?_,
        List.forall_mem_cons.2 ⟨fun module hmem => hi module ?_, makes_mem_cons₂
          (fun module hmem => hi module ?_) hf hrest⟩⟩⟩
      · exact List.mem_append_left _ (List.mem_append_left _ hmem)
      · exact List.mem_append_left _ (List.mem_append_right _ hmem)
      · exact List.mem_append_right _ hmem
  | @protectFull body handler always n few =>
      refine ⟨hm.sheltered f (n + 1), fun g' hg' => ?_⟩
      have hall := List.mem_of_mem_tail hg'
      rcases List.mem_append.1 hall with hmem | hmem
      · have hframe := List.mem_of_mem_take (List.mem_reverse.1 hmem)
        simp only [List.mem_cons, List.not_mem_nil, or_false] at hframe
        rcases hframe with rfl | rfl
        · exact fun module hmem => hi module (List.mem_append_right _ hmem)
        · exact fun module hmem => hi module
            (List.mem_append_left _ (List.mem_append_right _ hmem))
      · have hwaiting : (f.resuming [.result]).code = f.code := rfl
        exact hsame hwaiting g' hmem
  | interrupt _ => exact ⟨hm, hsame rfl⟩
  | resume _ _ => exact ⟨hm, hsame rfl⟩

end

/-- Frames that `Unwinds` leaves are as they were. -/
theorem Unwinds.instancesOf {kind : Interruption} {value : ObjectId}
    {r : EStateM.Result Failure Machine Unit} (h : Unwinds kind value m r)
    (hm : m.heap.InstancesOf P) (htail : ∀ g ∈ m.frames.tail, Makes Q g.code) :
    (stateOf r).InstancesOf P Q := by
  cases h with
  | @caught g below unwinds =>
      have hleft : ∀ g' ∈ g :: below, Makes Q g'.code := by
        intro g' hg'
        rw [← unwinds] at hg'
        obtain ⟨g'', hg'', halike⟩ := mem_unwind hg'
        rw [halike.code]
        exact htail g'' hg''
      refine ⟨hm, List.forall_mem_cons.2 ⟨?_, ?_⟩⟩
      · exact hleft g List.mem_cons_self
      · exact fun g' hg' => hleft g' (List.mem_cons_of_mem _ hg')
  | uncaught _ => exact ⟨hm, fun _ hg => nomatch hg⟩

/-- One step of an engine that `MakesOnly` these keeps `InstancesOf`. -/
theorem step_instancesOf (hw : e.MakesOnly P Q) (hm : m.InstancesOf P Q) (busy : m.frames ≠ []) :
    (stateOf (e.step m)).InstancesOf P Q := by
  obtain ⟨f, rest, hf⟩ := List.exists_cons_of_ne_nil busy
  have hrest : ∀ g ∈ rest, Makes Q g.code := fun g hg =>
    hm.frames g (hf ▸ List.mem_cons_of_mem _ hg)
  have hown : Makes Q f.next.code := hm.frames f (hf ▸ List.mem_cons_self)
  have hmakes {i : Instruction} (hi : f.code[f.pc]? = some i) : ∀ module ∈ i.makes,
      Q module := fun module hmem => hown module (makes_subset (List.mem_of_getElem? hi) hmem)
  have hsteps := step_steps (e := e) hf
  generalize e.step m = r at hsteps
  cases hsteps with
  | done _ => exact ⟨hm.heap, hrest⟩
  | next hi does => exact does.settles hw hrest hm.heap hown (hmakes hi)
  | leaves hi does ends =>
      have hleft := does.settles hw hrest hm.heap hown (hmakes hi)
      exact ends.instancesOf hleft.heap fun g hg => hleft.frames g (List.mem_of_mem_tail hg)
  | raises hi does raised ends =>
      obtain ⟨hheap, htail⟩ := does.settles hw hrest hm.heap hown (hmakes hi)
      cases raised with
      | thrown => exact ends.instancesOf hheap htail
      | made _ => exact ends.instancesOf (hheap.withMessage hw.toWithin hw.evaluationError _) htail

end Engine

-- ============================================================== globals

namespace Program

variable {p : Program}

theorem path_ne_nil {id package : NodeId} (hparent : p.parent? id = some package)
    (hpackage : p.isKind Kind.isPackage package) : p.path id ≠ [] := by
  have habove : package ∈ p.ancestors id := by
    obtain ⟨site, hsite, -⟩ := Option.bind_eq_some_iff.1 hparent
    obtain ⟨hlt, -⟩ := Array.getElem?_eq_some_iff.1 hsite
    obtain ⟨fuel, hfuel⟩ := Nat.exists_eq_succ_of_ne_zero (Nat.ne_of_gt (Nat.zero_lt_of_lt hlt))
    rw [ancestors, size, hfuel, climb, hparent]
    exact List.mem_cons_self
  obtain ⟨kind, hkind, htest⟩ := (Option.any_eq_true _ _).1 hpackage
  obtain ⟨name, hname⟩ : ∃ name, p.name? package = some name := by
    rw [name?, hkind]
    cases kind with
    | package name imports members => exact ⟨name, rfl⟩
    | _ => cases htest
  refine List.ne_nil_of_mem (List.mem_reverse.2 (List.mem_filterMap.2 ⟨package, ?_, hname⟩))
  refine List.mem_filter.2 ⟨habove, ?_⟩
  rw [isKind, hkind, Option.any_some, htest, Bool.true_or]

/-- The `qualifiedName` of what is declared in a package has a dot. -/
theorem dot_mem_qualifiedName {id : NodeId} {kind : Kind Tree} (hkind : p.kind? id = some kind)
    {name : String} (hname : kind.name? = some name)
    (hparent : ((p.parent? id).bind p.kind?).any Kind.isPackage) :
    '.' ∈ (p.qualifiedName id).toList := by
  cases habove : p.parent? id with
  | none =>
      rw [habove] at hparent
      cases hparent
  | some package =>
      rw [habove] at hparent
      obtain ⟨first, rest, hpath⟩ := List.exists_cons_of_ne_nil (path_ne_nil habove hparent)
      rw [qualifiedName_eq hkind hname, hpath]
      cases rest with
      | nil => exact dot_mem_joinDots first name []
      | cons second rest => exact dot_mem_joinDots first second (rest ++ [name])

end Program

namespace Engine

variable {e : Engine} {m : Machine}

theorem mem_packageMembers {id : NodeId} (h : id ∈ e.packageMembers) :
    ((e.program.parent? id).bind e.program.kind?).any Kind.isPackage := (List.mem_filter.1 h).2

/-- The `packageVariables` are bound to names with dots. -/
theorem packageVariables_dotted {id : NodeId} (h : id ∈ e.packageVariables) :
    '.' ∈ (e.program.qualifiedName id).toList := by
  obtain ⟨hmember, hvariable⟩ := List.mem_filter.1 h
  obtain ⟨kind, hkind, htest⟩ := (Option.any_eq_true _ _).1 hvariable
  cases kind with
  | varDecl name constant value =>
      exact Program.dot_mem_qualifiedName hkind rfl (mem_packageMembers hmember)
  | _ => cases htest

/-- `globalsCode` is laid out in the zone of the globals (`Lays`). -/
theorem globals_lays (hp : e.program.Linked) {code : Code}
    (h : e.program.globalsCode e.namedObjects e.packageVariables = .ok code) :
    ∃ notes, e.program.Lays .globals code notes :=
  Program.globalsCode_lays hp (fun _ hid => namedObjects_isNamedObject hid)
    (fun _ hid => ⟨packageVariables_dotted hid, mem_packageMembers (List.mem_filter.1 hid).1⟩) h

-- =========================================================== evaluations

theorem lt_size_of_isKind (hp : e.program.Linked) {test : Kind Tree → Bool} {id : NodeId}
    (h : e.program.isKind test id) : id < e.program.size := by
  obtain ⟨kind, hkind, -⟩ := (Option.any_eq_true _ _).1 h
  obtain ⟨t, htree, -⟩ := Option.map_eq_some_iff.1 hkind
  obtain ⟨hmem, rfl⟩ := (Program.tree?_eq_some_iff hp.complete.numbered).1 htree
  exact Program.lt_size_of_mem hp.complete.numbered hmem

theorem makes_entry {Q : NodeId → Prop} {code : Code} (h : Makes Q code) :
    Makes Q (code ++ [.interrupt .result]) := by
  intro module hmem
  rw [makesOf_append] at hmem
  rcases List.mem_append.1 hmem with hmem | hmem
  · exact h module hmem
  · cases hmem

/-- The heap after `declareObject`. -/
def declaring (e : Engine) (id : NodeId) (h : Heap) : Heap :=
  (h.allocate { module := id }).2.declare rootContext (e.program.qualifiedName id) h.size

theorem declareObject_eq (id : NodeId) (m : Machine) :
    e.declareObject id m = .ok () { m with heap := e.declaring id m.heap } := rfl

theorem newContext_eq (parent : Link) (m : Machine) : Action.newContext parent m
    = .ok m.heap.contexts.size { m with heap := (m.heap.newContext parent).2 } := rfl

/-- Code that is entered is a frame more, which has to be one that `Makes` the
modules of `Q`. -/
theorem instancesOf_enter {P : NodeId → Bool → Prop} {Q : NodeId → Prop} (h : m.heap.InstancesOf P)
    {code : Code} (hcode : Makes Q code) (context : ContextId) :
    Machine.InstancesOf P Q
      { m with frames := [entryFrame code context, holderFrame context] } :=
  ⟨h, makes_mem_cons₂ (makes_entry hcode) (fun _ hmem => nomatch hmem) fun _ hg => nomatch hg⟩

/-- `core?` finds the library modules by name. -/
theorem core_within {e : Engine} {P : NodeId → Prop}
    (hentity : ∀ {name : String} {id : NodeId}, e.program.entity? name = some id → P id)
    (h : World.core? e.program = .ok e.core) : e.toWorld.Within P := by
  simp only [World.core?, bind_ok_iff, pure_ok_iff] at h
  obtain ⟨object, hobject, boolean, hboolean, number, hnumber, string, hstring, list, hlist,
    evaluationError, hevaluationError, heq⟩ := h
  constructor <;> rw [← heq]
  · split at hobject <;> cases hobject
    exact hentity ‹_›
  · split at hboolean <;> cases hboolean
    exact hentity ‹_›
  · split at hnumber <;> cases hnumber
    exact hentity ‹_›
  · split at hstring <;> cases hstring
    exact hentity ‹_›
  · split at hlist <;> cases hlist
    exact hentity ‹_›
  · split at hevaluationError <;> cases hevaluationError
    exact hentity ‹_›

theorem entity?_lt_size (hp : e.program.Linked) {name : String} {id : NodeId}
    (h : e.program.entity? name = some id) : id < e.program.size :=
  (Program.entity?_named hp.complete.numbered h).1

/-- The engine of a `Linked` program makes instances of its nodes. -/
theorem makesOnly_nodes (hp : e.program.Linked) (hn : e.natives = Natives.core)
    (hw : e.toWorld.Within (· < e.program.size)) :
    e.MakesOnly (fun module _ => module < e.program.size) (· < e.program.size) where
  toWithin := hw
  natives := hn
  entity := entity?_lt_size hp
  named hid := lt_size_of_isKind hp (namedObjects_isNamedObject hid)
  value hlt := hlt
  made hlt _ := hlt
  collects := hw.list
  method := by
    intro method code hcode
    obtain ⟨_, _, _, _, -, hlaid⟩ := Program.methodCode_laid hp hcode
    exact hlaid.makes
  init hcode := (Program.initCode_laid hp hcode).makes
  globals := by
    intro code hcode
    obtain ⟨notes, hlays⟩ := globals_lays hp hcode
    exact hlays.laid.makes
  block := by
    intro t body code inside block hcode
    have hbody := Tree.mem_preorder_trans inside (Tree.mem_preorder_of_child
      (Tree.body?_mem_children block) (Tree.mem_preorder_self _))
    exact (Program.blockCode_lays hp body hbody hcode).laid.makes
  describe := lt_size_of_isKind hp

theorem makesOnly_of_create {p : Program} (hp : p.Linked) {maxFrames : Nat}
    (h : create p Natives.core maxFrames = .ok e) :
    e.program = p ∧ e.MakesOnly (fun module _ => module < p.size) (· < p.size) := by
  obtain ⟨core, hcore, rfl⟩ := create_eq_ok.1 h
  exact ⟨rfl, makesOnly_nodes hp rfl (core_within (entity?_lt_size hp) hcore)⟩

section

variable {P : NodeId → Bool → Prop} {Q : NodeId → Prop} (hw : e.MakesOnly P Q)
include hw

theorem instancesOf_initial : Machine.InstancesOf P Q { heap := e.initialHeap } := by
  refine ⟨fun id o ho => ?_, fun _ hg => nomatch hg⟩
  rcases id with _ | _ | _ | _ | id
  · cases ho
    exact ⟨rfl, hw.object⟩
  · cases ho
    exact ⟨rfl, hw.boolean⟩
  · cases ho
    exact ⟨rfl, hw.boolean⟩
  · cases ho
    exact ⟨rfl, hw.object⟩
  · cases ho

/-- `InstancesOf` is kept by every step, entry and declaration (`Keeps`). -/
theorem instancesOf_keeps : e.Keeps (Machine.InstancesOf P Q) where
  declareObject := by
    intro m m' id _ hm idle named does
    rw [declareObject_eq] at does
    cases does
    have hnew := hm.heap.allocate (o := { module := id }) (hw.named named)
    exact ⟨hnew.declare _ _ _, hm.frames⟩
  globals := fun _ hm _ compiles => instancesOf_enter hm.heap (hw.globals compiles) rootContext
  describe := by
    intro m describe _ hm _ isDescribe
    refine instancesOf_enter hm.heap (fun module hmem => ?_) rootContext
    rw [List.mem_singleton.1 hmem]
    exact hw.describe isDescribe
  newContext := by
    intro m m' parent context _ hm idle _ does
    rw [newContext_eq] at does
    cases does
    exact ⟨hm.heap.newContext _, hm.frames⟩
  block := by
    intro m m' t body code parent context _ hm idle inside block compiles _ does
    rw [newContext_eq] at does
    cases does
    have hnew : ({ m with heap := (m.heap.newContext parent).2 } : Machine).heap.InstancesOf P :=
      hm.heap.newContext parent
    exact instancesOf_enter hnew (hw.block inside block compiles) _
  step := by
    intro m m' _ hm busy does
    have hstep := step_instancesOf hw hm (List.ne_nil_of_length_pos (Nat.zero_lt_of_lt busy))
    rwa [does] at hstep
  fail := by
    intro m m' failure _ hm busy does
    have hstep := step_instancesOf hw hm (List.ne_nil_of_length_pos (Nat.zero_lt_of_lt busy))
    rwa [does] at hstep
  takeResult := by
    intro m m' value _ hm _ does
    obtain ⟨_, rest, _, hframes, -, rfl⟩ := takeResult_ok does
    exact ⟨hm.heap, fun g hg => hm.frames g (hframes ▸ List.mem_cons_of_mem _ hg)⟩

/-- In every `Visited` state the heap is `InstancesOf`. -/
theorem Visited.instancesOf (h : e.Visited m) : m.heap.InstancesOf P :=
  (h.of_keeps (hw.natives ▸ Natives.core_lawful) (instancesOf_keeps hw)
    (instancesOf_initial hw)).heap

end

end Engine

end ObjectMachine
