/-
Calls and constructions answer as they should.

A method or constructor of the program is started in a new context, in
which its parameters are bound, and runs compiled code, which returns.
A native method answers by itself. Sending a message and constructing an
object come down to one or the other.
-/
import Mathlib
import ObjectMachine.Proofs.Code.Operands
import ObjectMachine.Proofs.Library.Natives

namespace ObjectMachine

/-- What compiled code may push: the objects every heap starts with. -/
def Palette.reserved (binds : String → Prop) : Palette where
  binds := binds
  pushes id := id ≤ ObjectId.void

/-- An engine whose code binds only certain names (`BindsOnly`), and whose
native methods answer calls. -/
structure Engine.Disciplined (e : Engine) (binds : String → Prop) : Prop where
  exception : binds exceptionLocal
  program : e.program.BindsOnly (.reserved binds) e.program.root
  natives : e.natives.Lawful

theorem Engine.Disciplined.lawful {e : Engine} {binds : String → Prop}
    (h : e.Disciplined binds) : (Palette.reserved binds).Lawful :=
  ⟨h.exception, fun _ hid => hid⟩

/-- Where any name may be bound, only the native methods matter. -/
theorem Engine.Disciplined.of_natives {e : Engine} (h : e.natives.Lawful) :
    e.Disciplined fun _ => True :=
  ⟨trivial, fun _ _ _ _ => trivial, h⟩

namespace Engine

open ObjectMachine.Action

variable {S : Prop} {binds : String → Prop} {n : Nat} {m : Machine}

-- =========================================================== parameters

/-- `bindParameters` binds in the context it is given only. -/
theorem bindParameters_manages (w : World) {context : ContextId} (parameters : List Tree)
    {args : List ObjectId} (hn : n ≤ context) (hS : S → m.Trusts args) :
    Manages S n (bindParameters w context parameters args) m fun _ _ => True := by
  induction parameters generalizing args m with
  | nil => exact Ensures.pure ⟨.refl S n m, trivial⟩
  | cons parameter rest ih =>
      have hrest : ∀ {m' : Machine}, m.Touched S n m' → S → m'.Trusts args.tail := fun ht hs =>
        (hS hs).mono (ht.reaches hs) (List.tail_subset args)
      rw [bindParameters]
      split
      · have hlist := newList_manages (n := n) (fun hs => (hS hs).1) w fun hs => (hS hs).2
        refine hlist.bind fun collected m₁ t₁ hc => ?_
        refine (declare_manages _ hn fun _ => hc).bind fun _ m₂ t₂ _ => ?_
        exact ih (hrest (t₁.trans t₂))
      · refine (declare_manages _ hn fun hs => ?_).bind fun _ m₁ t₁ _ => ih (hrest t₁)
        cases args with
        | nil => exact Nat.lt_trans (by decide) (hS hs).1.reserved
        | cons first others => exact (hS hs).2 first List.mem_cons_self
      · exact ih (hrest (.refl S n m))

-- ==================================================== starting methods

/-- `pushReturning` of code that `Returns`, in a context of its own, answers. -/
theorem pushReturning_compiled (w : World) {code : Code} {context : ContextId}
    (hcode : Returns (.reserved binds) code) (hS : S → m.heap.Closed)
    (hc : context < m.heap.contexts.size) :
    Answers S binds n (pushReturning w code context) m := by
  refine pushReturning_answers w hcode.runs fun hs => ⟨fun id hid => ?_, hc⟩
  exact Nat.lt_of_le_of_lt (hcode.constants id hid) (hS hs).reserved

theorem compiled_reads {code : Except CompileError Code} :
    Reads (compiled code) m fun c => code = .ok c := by
  cases code with
  | ok c => exact .pure rfl
  | error error => exact .throw rfl

theorem invokeNative_answers {e : Engine} (he : e.natives.Lawful) {method : NodeId}
    {selector : String} {receiver : ObjectId} {args : List ObjectId}
    (hS : S → m.Trusts (receiver :: args)) :
    Answers S binds n (e.invokeNative method selector receiver args) m := by
  unfold invokeNative
  dsimp only
  split
  · next native hnative =>
    split
    · next harity => exact he.get? hnative S binds n m _ receiver args harity.symm hS
    · exact throw_answers (.of_plain rfl)
  · exact throw_answers (.of_plain rfl)

theorem invoke_answers {e : Engine} (he : e.Disciplined binds) {method : NodeId}
    {receiver : ObjectId} {args : List ObjectId} (hn : n ≤ m.heap.contexts.size)
    (hS : S → m.Trusts (receiver :: args)) :
    Answers S binds n (e.invoke method receiver args) m := by
  unfold invoke
  split
  · split
    · exact invokeNative_answers he.natives hS
    · refine compiled_reads.answers fun code hcode => ?_
      have hreturns := Program.methodCode_returns he.lawful he.program hcode
      have hreceiver : S → m.heap.Has (.object receiver) := fun hs =>
        (hS hs).2 receiver List.mem_cons_self
      refine (newContext_manages hn hreceiver).touches.answers fun context m₁ t₁ hc => ?_
      obtain ⟨rfl, hsize⟩ := hc
      have hargs : S → m₁.Trusts args := fun hs =>
        (hS hs).mono (t₁.reaches hs) (List.subset_cons_self _ _)
      refine (bindParameters_manages e.toWorld _ hn hargs).touches.answers fun _ m₂ t₂ _ => ?_
      refine pushReturning_compiled e.toWorld hreturns (t₂.closed fun hs => (hargs hs).1)
        (Nat.lt_of_lt_of_le ?_ t₂.scopes)
      rw [hsize]
      exact Nat.lt_succ_self _
  · exact throw_answers (.of_plain rfl)

/-- What is left of `construct` once the fields are cleared. -/
theorem startConstruction_answers {e : Engine} (he : e.Disciplined binds) {receiver : ObjectId}
    {start : NodeId} {args : List ObjectId} {initFields : Bool} (constructor : Option NodeId)
    (hn : n ≤ m.heap.contexts.size) (hS : S → m.Trusts (receiver :: args)) :
    Answers S binds n
      (do
        let code ← compiled (e.program.initCode start constructor initFields)
        let context ← newContext (.object receiver)
        declare context "self" receiver
        match constructor.bind e.program.kind? with
        | some (.constructor parameters _ _) => bindParameters e.toWorld context parameters args
        | _ => pure ()
        pushReturning e.toWorld code context) m := by
  refine compiled_reads.answers fun code hcode => ?_
  have hreturns := Program.initCode_returns he.lawful he.program hcode
  have hreceiver : S → m.heap.Has (.object receiver) := fun hs =>
    (hS hs).2 receiver List.mem_cons_self
  refine (newContext_manages hn hreceiver).touches.answers fun context m₁ t₁ hc => ?_
  obtain ⟨rfl, hsize⟩ := hc
  have hself := declare_manages (S := S) "self" hn fun hs => (t₁.reaches hs).lt (hreceiver hs)
  refine hself.touches.answers fun _ m₂ t₂ _ => ?_
  have hS₂ : S → m₂.Trusts args := fun hs =>
    (hS hs).mono ((t₁.trans t₂).reaches hs) (List.subset_cons_self _ _)
  have hcontext : m.heap.contexts.size < m₂.heap.contexts.size := by
    refine Nat.lt_of_lt_of_le ?_ t₂.scopes
    rw [hsize]
    exact Nat.lt_succ_self _
  dsimp only
  split
  · refine (bindParameters_manages e.toWorld _ hn hS₂).touches.answers fun _ m₃ t₃ _ => ?_
    exact pushReturning_compiled e.toWorld hreturns (t₃.closed fun hs => (hS₂ hs).1)
      (hcontext.trans_le t₃.scopes)
  · exact pushReturning_compiled e.toWorld hreturns (fun hs => (hS₂ hs).1) hcontext

/-- `construct` answers with a frame that returns the object. -/
theorem construct_answers {e : Engine} (he : e.Disciplined binds) {receiver : ObjectId}
    {start : NodeId} {args : List ObjectId} {initFields : Bool}
    (hn : n ≤ m.heap.contexts.size) (hS : S → m.Trusts (receiver :: args)) :
    Answers S binds n (e.construct receiver start args initFields) m := by
  unfold construct
  dsimp only
  split
  · exact throw_answers (.of_plain rfl)
  · split
    · have hreceiver : S → receiver < m.heap.size := fun hs =>
        (hS hs).2 receiver List.mem_cons_self
      refine (clearFields_touches (fun hs => (hS hs).1) _ hreceiver).answers fun _ m' ht _ => ?_
      refine startConstruction_answers he _ (hn.trans ht.scopes) fun hs => ?_
      exact ⟨ht.closed (fun hs => (hS hs).1) hs, fun id hid =>
        (ht.reaches hs).lt ((hS hs).2 id hid)⟩
    · exact startConstruction_answers he _ hn hS

/-- Whatever becomes of a message, `dispatch` answers or faults. -/
theorem dispatch_answers {e : Engine} (he : e.Disciplined binds) {receiver : ObjectId}
    {message : String} {args : List ObjectId} {start : Option NodeId}
    (hn : n ≤ m.heap.contexts.size) (hS : S → m.Trusts (receiver :: args)) :
    Answers S binds n (e.dispatch receiver message args start) m := by
  have hreceiver : S → receiver < m.heap.size := fun hs => (hS hs).2 receiver List.mem_cons_self
  unfold dispatch
  refine (object_touches hreceiver).answers fun object m' _ hm => ?_
  obtain ⟨rfl, -⟩ := hm
  dsimp only
  split
  · exact invoke_answers he hn hS
  · split
    · have hstring := newString_manages (n := n) (fun hs => (hS hs).1) e.toWorld message
      refine hstring.touches.answers fun selector m₁ t₁ hselector => ?_
      have hargs : S → ∀ x ∈ args, x < m₁.heap.size := fun hs x hx =>
        (t₁.reaches hs).lt ((hS hs).2 x (List.mem_cons_of_mem _ hx))
      refine (newList_manages (t₁.closed fun hs => (hS hs).1) e.toWorld hargs).touches.answers
        fun list m₂ t₂ hlist => ?_
      refine invoke_answers he ((hn.trans t₁.scopes).trans t₂.scopes) fun hs => ?_
      refine ⟨t₂.closed (t₁.closed fun hs => (hS hs).1) hs, fun id hid => ?_⟩
      simp only [List.mem_cons, List.not_mem_nil, or_false] at hid
      rcases hid with rfl | rfl | rfl
      · exact ((t₁.trans t₂).reaches hs).lt (hreceiver hs)
      · exact (t₂.reaches hs).lt (hselector hs)
      · exact hlist
    · exact throw_answers ⟨fun _ => rfl, fun _ _ hthrown => nomatch hthrown⟩

end Engine

end ObjectMachine
