/-
The native methods of the library answer calls as code of the program does.

Each of them reads what it needs, which leaves the machine as it is, and
then finishes in one of a few ways: it pushes one value, throws, or starts
code that returns one. So each is lawful (`Behaviour.Lawful`) as soon as it
is known how it finishes, and the whole table is (`core_lawful`).
-/
import Mathlib
import ObjectMachine.Library.Natives
import ObjectMachine.Proofs.Machine.Answers

namespace ObjectMachine

/-- A heap that can be relied on to have certain objects. -/
def Machine.Trusts (m : Machine) (ids : List ObjectId) : Prop :=
  m.heap.Closed ∧ ∀ id ∈ ids, id < m.heap.size

/-- Of fewer objects, and later. -/
theorem Machine.Trusts.mono {m m' : Machine} {ids ids' : List ObjectId} (h : m.Trusts ids)
    (edits : m.heap.Reaches m'.heap) (hids : ids' ⊆ ids) : m'.Trusts ids' :=
  ⟨edits.closed h.1, fun id hid => edits.lt (h.2 id (hids hid))⟩

namespace Natives

open ObjectMachine.Action

/-- A native method that answers calls with the right number of arguments. -/
def Behaviour.Lawful (b : Behaviour) (arity : Nat) : Prop :=
  ∀ (S : Prop) (binds : String → Prop) (n : Nat) (m : Machine) (w : World)
    (receiver : ObjectId) (args : List ObjectId), args.length = arity →
    (S → m.Trusts (receiver :: args)) →
      Answers S binds n (b w receiver args) m

section finishing

variable {S : Prop} {binds : String → Prop} {n : Nat} {m : Machine} (hS : S → m.heap.Closed)
include hS

/-- The objects every heap starts with can be answered. -/
theorem push_reserved_answers {value : ObjectId} (hv : value ≤ ObjectId.void) :
    Answers S binds n (push value) m :=
  push_answers fun hs => Nat.lt_of_le_of_lt hv (hS hs).reserved

theorem pushBool_answers (value : Bool) : Answers S binds n (pushBool value) m :=
  push_reserved_answers hS (by cases value <;> decide)

theorem pushNumber_answers (w : World) (value : Float) :
    Answers S binds n (pushNumber w value) m :=
  (newNumber_manages hS w value).touches.answers fun _ _ _ hid => push_answers hid

theorem pushString_answers (w : World) (value : String) :
    Answers S binds n (pushString w value) m :=
  (newString_manages hS w value).touches.answers fun _ _ _ hid => push_answers hid

theorem throwNew_answers (w : World) (className message : String) :
    Answers S binds n (throwNew w className message) m :=
  (newException_touches hS w className message).answers fun _ _ _ hid =>
    throw_answers (.of_thrown hid)

end finishing

-- ============================================================= reading

theorem argument_reads {m : Machine} {args : List ObjectId} {index : Nat} {x : ObjectId}
    (h : args[index]? = some x) : Reads (argument args index) m (· = x) := by
  unfold argument
  rw [h]
  exact .pure rfl

theorem operands_reads {m : Machine} (w : World) (receiver x : ObjectId) :
    Reads (operands w receiver [x]) m fun _ => True := by
  refine (number_reads w receiver).bind fun a _ => ?_
  refine Reads.bind (argument_reads rfl) fun y hy => ?_
  exact (number_reads w y).bind fun b _ => .pure trivial

-- ============================================ objects, booleans, numbers

theorem same_lawful : Behaviour.Lawful same 1 := by
  intro S binds n m w receiver args hargs hS
  obtain ⟨x, rfl⟩ := List.length_eq_one_iff.1 hargs
  exact (argument_reads rfl).answers fun y _ => pushBool_answers (fun hs => (hS hs).1) _

theorem identity_lawful : Behaviour.Lawful identity 0 := by
  intro S binds n m w receiver args _ hS
  exact pushNumber_answers (fun hs => (hS hs).1) w _

theorem toText_lawful : Behaviour.Lawful toText 0 := by
  intro S binds n m w receiver args _ hS
  exact (display_reads w receiver).answers fun text _ =>
    pushString_answers (fun hs => (hS hs).1) w text

theorem className_lawful : Behaviour.Lawful className 0 := by
  intro S binds n m w receiver args _ hS
  exact heap_reads.answers fun h _ => pushString_answers (fun hs => (hS hs).1) w _

theorem messageNotUnderstood_lawful : Behaviour.Lawful messageNotUnderstood 2 := by
  intro S binds n m w receiver args hargs hS
  obtain ⟨x, y, rfl⟩ := List.length_eq_two.1 hargs
  refine Reads.answers (argument_reads rfl) fun x' _ => ?_
  refine (string_reads w x').answers fun selector _ => ?_
  refine Reads.answers (argument_reads rfl) fun y' _ => ?_
  refine (list_reads w y').answers fun elements _ => ?_
  refine (display_reads w receiver).answers fun text _ => ?_
  exact throwNew_answers (fun hs => (hS hs).1) w _ _

theorem booleanOperation_lawful (f : Bool → Bool → Bool) :
    Behaviour.Lawful (booleanOperation f) 1 := by
  intro S binds n m w receiver args hargs hS
  obtain ⟨x, rfl⟩ := List.length_eq_one_iff.1 hargs
  refine (boolean_reads w receiver).answers fun a _ => ?_
  refine Reads.answers (argument_reads rfl) fun y _ => ?_
  exact (boolean_reads w y).answers fun b _ => pushBool_answers (fun hs => (hS hs).1) _

theorem negate_lawful : Behaviour.Lawful negate 0 := by
  intro S binds n m w receiver args _ hS
  exact (boolean_reads w receiver).answers fun value _ =>
    pushBool_answers (fun hs => (hS hs).1) _

theorem arithmetic_lawful (f : Float → Float → Float) : Behaviour.Lawful (arithmetic f) 1 := by
  intro S binds n m w receiver args hargs hS
  obtain ⟨x, rfl⟩ := List.length_eq_one_iff.1 hargs
  exact (operands_reads w receiver x).answers fun _ _ =>
    pushNumber_answers (fun hs => (hS hs).1) w _

theorem division_lawful (f : Float → Float → Float) : Behaviour.Lawful (division f) 1 := by
  intro S binds n m w receiver args hargs hS
  obtain ⟨x, rfl⟩ := List.length_eq_one_iff.1 hargs
  refine (operands_reads w receiver x).answers fun ab _ => ?_
  obtain ⟨a, b⟩ := ab
  dsimp only
  split
  · exact throw_answers (.of_plain rfl)
  · exact pushNumber_answers (fun hs => (hS hs).1) w _

theorem comparison_lawful (f : Float → Float → Bool) : Behaviour.Lawful (comparison f) 1 := by
  intro S binds n m w receiver args hargs hS
  obtain ⟨x, rfl⟩ := List.length_eq_one_iff.1 hargs
  exact (operands_reads w receiver x).answers fun _ _ =>
    pushBool_answers (fun hs => (hS hs).1) _

theorem absolute_lawful : Behaviour.Lawful absolute 0 := by
  intro S binds n m w receiver args _ hS
  exact (number_reads w receiver).answers fun value _ =>
    pushNumber_answers (fun hs => (hS hs).1) w _

-- ====================================================== strings, lists

theorem concatenate_lawful : Behaviour.Lawful concatenate 1 := by
  intro S binds n m w receiver args hargs hS
  obtain ⟨x, rfl⟩ := List.length_eq_one_iff.1 hargs
  refine (string_reads w receiver).answers fun text _ => ?_
  refine Reads.answers (argument_reads rfl) fun y _ => ?_
  exact (display_reads w y).answers fun other _ =>
    pushString_answers (fun hs => (hS hs).1) w _

theorem stringSize_lawful : Behaviour.Lawful stringSize 0 := by
  intro S binds n m w receiver args _ hS
  exact (string_reads w receiver).answers fun text _ =>
    pushNumber_answers (fun hs => (hS hs).1) w _

theorem toUpperCase_lawful : Behaviour.Lawful toUpperCase 0 := by
  intro S binds n m w receiver args _ hS
  exact (string_reads w receiver).answers fun text _ =>
    pushString_answers (fun hs => (hS hs).1) w _

theorem addElement_lawful : Behaviour.Lawful addElement 1 := by
  intro S binds n m w receiver args hargs hS
  obtain ⟨x, rfl⟩ := List.length_eq_one_iff.1 hargs
  refine Reads.answers (argument_reads rfl) fun y hy => ?_
  subst hy
  refine (listAdd_touches w receiver fun hs => (hS hs).2 y (by simp)).answers fun _ m' ht _ => ?_
  exact push_reserved_answers (ht.closed fun hs => (hS hs).1) le_rfl

/-- What a collection holds exists. -/
theorem elements_lt {h : Heap} (hc : h.Closed) {id : ObjectId} {elements : List ObjectId}
    (held : (h.object? id).bind Object.inner = some (.collection elements)) :
    ∀ x ∈ elements, x < h.size := by
  obtain ⟨o, ho, hinner⟩ := Option.bind_eq_some_iff.1 held
  intro x hx
  refine (hc.object ho).1 x (List.mem_append_right _ ?_)
  rw [hinner]
  exact hx

theorem elementAt_lawful : Behaviour.Lawful elementAt 1 := by
  intro S binds n m w receiver args hargs hS
  obtain ⟨x, rfl⟩ := List.length_eq_one_iff.1 hargs
  refine Reads.answers (argument_reads rfl) fun y _ => ?_
  refine (number_reads w y).answers fun index _ => ?_
  refine (list_reads w receiver).answers fun elements held => ?_
  split
  · next element hget =>
    obtain ⟨n, -, hn⟩ := Option.bind_eq_some_iff.1 hget
    exact push_answers fun hs =>
      elements_lt (hS hs).1 held element (List.mem_of_getElem? hn)
  · exact throw_answers (.of_plain rfl)

theorem listSize_lawful : Behaviour.Lawful listSize 0 := by
  intro S binds n m w receiver args _ hS
  exact (list_reads w receiver).answers fun elements _ =>
    pushNumber_answers (fun hs => (hS hs).1) w _

theorem listIsEmpty_lawful : Behaviour.Lawful listIsEmpty 0 := by
  intro S binds n m w receiver args _ hS
  exact (list_reads w receiver).answers fun elements _ =>
    pushBool_answers (fun hs => (hS hs).1) _

-- ======================================================= calling back

/-- What the code that calls back into the program may push. -/
def callbacks (binds : String → Prop) (block : ObjectId) (elements : List ObjectId) : Palette where
  binds := binds
  pushes id := id ∈ block :: elements ∨ id = ObjectId.void

theorem applyCode_emits {binds : String → Prop} {block element : ObjectId}
    {elements : List ObjectId} (he : element ∈ elements) :
    Emits (callbacks binds block elements) 0 1 (applyCode block element) := by
  have hblock : Emits (callbacks binds block elements) 0 1 [.push block] :=
    .push (.inl List.mem_cons_self)
  have helement : Emits (callbacks binds block elements) 0 1 [.push element] :=
    .push (.inl (List.mem_cons_of_mem _ he))
  have hcall : Emits (callbacks binds block elements) 2 1 [.call "apply" 1 none] :=
    .plain rfl (by simp) (by simp)
  exact hblock.append ((helement.lift 1).append hcall)

/-- One call for each element, the answers dropped. -/
theorem forEachCode_emits {binds : String → Prop} {block : ObjectId} {all : List ObjectId}
    (elements : List ObjectId) (he : elements ⊆ all) :
    Emits (callbacks binds block all) 0 0
      (elements.flatMap fun element => applyCode block element ++ [.pop]) := by
  induction elements with
  | nil => exact .nil 0
  | cons element rest ih =>
      have hpop : Emits (callbacks binds block all) 1 0 [.pop] := .plain rfl (by simp) (by simp)
      rw [List.flatMap_cons]
      exact ((applyCode_emits (he List.mem_cons_self)).append hpop).append
        (ih fun x hx => he (List.mem_cons_of_mem _ hx))

/-- One call for each element, the answers kept. -/
theorem mapCode_emits {binds : String → Prop} {block : ObjectId} {all : List ObjectId}
    (elements : List ObjectId) (he : elements ⊆ all) :
    Emits (callbacks binds block all) 0 elements.length
      (elements.flatMap fun element => applyCode block element) := by
  induction elements with
  | nil => exact .nil 0
  | cons element rest ih =>
      rw [List.flatMap_cons, List.length_cons]
      refine (applyCode_emits (he List.mem_cons_self)).append ?_
      simpa using (ih fun x hx => he (List.mem_cons_of_mem _ hx)).lift 1

/-- Code that calls back and returns answers a call. -/
theorem callback_answers {S : Prop} {binds : String → Prop} {n : Nat} {m : Machine} (w : World)
    {block receiver : ObjectId} {elements : List ObjectId} {code : Code}
    (hS : S → m.Trusts (receiver :: [block]))
    (held : (m.heap.object? receiver).bind Object.inner = some (.collection elements))
    (hcode : Returns (callbacks binds block elements) code) :
    Answers S binds n (pushReturning w code rootContext) m := by
  refine pushReturning_answers w hcode.runs fun hs => ⟨fun id hid => ?_, (hS hs).1.root⟩
  rcases hcode.constants id hid with hmem | rfl
  · rcases List.mem_cons.1 hmem with rfl | hmem
    · exact (hS hs).2 id (by simp)
    · exact elements_lt (hS hs).1 held id hmem
  · exact (hS hs).1.reserved

theorem forEach_lawful : Behaviour.Lawful forEach 1 := by
  intro S binds n m w receiver args hargs hS
  obtain ⟨x, rfl⟩ := List.length_eq_one_iff.1 hargs
  refine Reads.answers (argument_reads rfl) fun block hb => ?_
  subst hb
  refine (list_reads w receiver).answers fun elements held => ?_
  have hvoid : Emits (callbacks binds block elements) 0 1 [.push .void] := .push (.inr rfl)
  exact callback_answers w hS held
    ⟨0, _, (forEachCode_emits elements fun _ h => h).append hvoid, by simp⟩

theorem mapElements_lawful : Behaviour.Lawful mapElements 1 := by
  intro S binds n m w receiver args hargs hS
  obtain ⟨x, rfl⟩ := List.length_eq_one_iff.1 hargs
  refine Reads.answers (argument_reads rfl) fun block hb => ?_
  subst hb
  refine (list_reads w receiver).answers fun elements held => ?_
  have hlist : Emits (callbacks binds block elements) elements.length 1
      [.instantiate w.core.list (some (.collection elements.length))] :=
    .plain rfl (by simp) (by simp)
  exact callback_answers w hS held
    ⟨0, _, (mapCode_emits elements fun _ h => h).append hlist, by simp⟩

-- ======================================================= known objects

theorem println_lawful : Behaviour.Lawful println 1 := by
  intro S binds n m w receiver args hargs hS
  obtain ⟨x, rfl⟩ := List.length_eq_one_iff.1 hargs
  refine Reads.answers (argument_reads rfl) fun y _ => ?_
  refine (display_reads w y).answers fun line _ => ?_
  refine (print_manages line).touches.answers fun _ m' ht _ => ?_
  exact push_reserved_answers (ht.closed fun hs => (hS hs).1) le_rfl

theorem assertThat_lawful (expected : Bool) (message : String) :
    Behaviour.Lawful (assertThat expected message) 1 := by
  intro S binds n m w receiver args hargs hS
  obtain ⟨x, rfl⟩ := List.length_eq_one_iff.1 hargs
  refine Reads.answers (argument_reads rfl) fun y _ => ?_
  refine (boolean_reads w y).answers fun value _ => ?_
  split
  · exact push_reserved_answers (fun hs => (hS hs).1) le_rfl
  · exact throwNew_answers (fun hs => (hS hs).1) w _ _

theorem assertEquals_lawful : Behaviour.Lawful assertEquals 2 := by
  intro S binds n m w receiver args hargs hS
  obtain ⟨x, y, rfl⟩ := List.length_eq_two.1 hargs
  refine Reads.answers (argument_reads rfl) fun expected _ => ?_
  refine Reads.answers (argument_reads rfl) fun actual _ => ?_
  split
  · exact push_reserved_answers (fun hs => (hS hs).1) le_rfl
  · refine (display_reads w expected).answers fun _ _ => ?_
    refine (display_reads w actual).answers fun _ _ => ?_
    exact throwNew_answers (fun hs => (hS hs).1) w _ _

-- ========================================================== the table

/-- A table of native methods that all answer calls. -/
def Lawful (natives : Natives) : Prop :=
  ∀ entry ∈ natives, Behaviour.Lawful entry.2.perform entry.2.arity

theorem Lawful.get? {natives : Natives} (h : natives.Lawful) {module selector : String}
    {native : Native} (hget : natives.get? module selector = some native) :
    Behaviour.Lawful native.perform native.arity := by
  obtain ⟨l, r, rfl, -⟩ := List.lookup_eq_some_iff.1 hget
  exact h ((module, selector), native) (by simp)

/-- The native methods of the library answer calls. -/
theorem core_lawful : Natives.core.Lawful := by
  unfold core
  repeat' refine List.forall_mem_cons.2 ⟨?_, ?_⟩
  · exact same_lawful
  · exact identity_lawful
  · exact toText_lawful
  · exact className_lawful
  · exact messageNotUnderstood_lawful
  · exact booleanOperation_lawful _
  · exact booleanOperation_lawful _
  · exact negate_lawful
  · exact toText_lawful
  · exact arithmetic_lawful _
  · exact arithmetic_lawful _
  · exact arithmetic_lawful _
  · exact division_lawful _
  · exact division_lawful _
  · exact comparison_lawful fun a b => decide (a < b)
  · exact comparison_lawful fun a b => decide (a > b)
  · exact comparison_lawful fun a b => decide (a ≤ b)
  · exact comparison_lawful fun a b => decide (a ≥ b)
  · exact absolute_lawful
  · exact toText_lawful
  · exact concatenate_lawful
  · exact stringSize_lawful
  · exact toUpperCase_lawful
  · exact toText_lawful
  · exact addElement_lawful
  · exact elementAt_lawful
  · exact listSize_lawful
  · exact listIsEmpty_lawful
  · exact forEach_lawful
  · exact mapElements_lawful
  · exact println_lawful
  · exact assertThat_lawful _ _
  · exact assertThat_lawful _ _
  · exact assertEquals_lawful
  · exact fun entry h => nomatch h

end Natives

end ObjectMachine
