/-
What the native methods of the library do, to the letter.

A native method reads what it needs and then ends in one of the ways of
`Performs`: it answers a value that was there before or a number or a
string, prints, adds an element to a list, calls back, or faults. The whole
table keeps to that (`core_performs`).
-/
import Mathlib
import ObjectMachine.Proofs.Library.Natives
import ObjectMachine.Proofs.Machine.Conducted

namespace ObjectMachine

namespace Natives

open ObjectMachine.Action

/-- The code of a method that calls a block back for every element of a
list. -/
inductive CallsBack (w : World) (block : ObjectId) (elements : List ObjectId) : Code → Prop
  | each : CallsBack w block elements
      ((elements.flatMap fun element => applyCode block element ++ [.pop])
        ++ [.push .void, .interrupt .return])
  | collect : CallsBack w block elements
      ((elements.flatMap fun element => applyCode block element)
        ++ [.instantiate w.core.list (some (.collection elements.length)), .interrupt .return])

/-- The elements of a list. -/
def Holds (h : Heap) (id : ObjectId) (elements : List ObjectId) : Prop :=
  (h.object? id).bind Object.inner = some (.collection elements)

/-- How a native method ends, called by the frame `f` on top of `rest`. -/
inductive Performs (w : World) (receiver : ObjectId) (args : List ObjectId) (f : Frame)
    (rest : List Frame) (m : Machine) : EStateM.Result Fault Machine Unit → Prop
  | fault {fault : Fault} (plain : fault.plain = true) :
      Performs w receiver args f rest m (.error fault m)
  | reserved {value : ObjectId} (reserved : value ≤ ObjectId.void) :
      Performs w receiver args f rest m (.ok () { m with frames := f.push value :: rest })
  | element {value : ObjectId} {elements : List ObjectId}
      (held : Holds m.heap receiver elements) (among : value ∈ elements) :
      Performs w receiver args f rest m (.ok () { m with frames := f.push value :: rest })
  | number (value : Float) :
      Performs w receiver args f rest m (.ok () { m with
        heap := (m.heap.number value w.core.number).2
        frames := f.push (m.heap.number value w.core.number).1 :: rest })
  | string (value : String) :
      Performs w receiver args f rest m (.ok () { m with
        heap := (m.heap.string value w.core.string).2
        frames := f.push (m.heap.string value w.core.string).1 :: rest })
  | print (line : String) :
      Performs w receiver args f rest m (.ok () { m with
        console := m.console.push line
        frames := f.push .void :: rest })
  | add {element : ObjectId} {elements : List ObjectId} (given : element ∈ args)
      (held : Holds m.heap receiver elements) :
      Performs w receiver args f rest m (.ok () { m with
        heap := m.heap.updateObject receiver fun object =>
          { object with inner := some (.collection (elements ++ [element])) }
        frames := f.push .void :: rest })
  | callBack {block : ObjectId} {elements : List ObjectId} {code : Code}
      {r : EStateM.Result Fault Machine Unit} (given : block ∈ args)
      (held : Holds m.heap receiver elements) (calls : CallsBack w block elements code)
      (ends : w.Started code rootContext m.heap f rest m r) :
      Performs w receiver args f rest m r
  | throw {className : String} {module : NodeId} (message : String)
      (found : w.program.entity? className = some module) :
      Performs w receiver args f rest m (.error (.thrown m.heap.size)
        { m with heap := w.withMessage module message m.heap })

-- ============================================================= finishing

section

variable {w : World} {receiver : ObjectId} {args : List ObjectId} {f : Frame} {rest : List Frame}
  {m : Machine}

/-- A method goes on after it has read something. -/
theorem performs_of_reads {α : Type} {a : Action α} {k : α → Action Unit} {Q : α → Prop}
    (ha : Reads a m Q)
    (hk : ∀ value, Q value → Performs w receiver args f rest m ((k value).run m)) :
    Performs w receiver args f rest m ((a >>= k).run m) := by
  rcases ha.cases with ⟨value, hrun, hq⟩ | ⟨fault, hrun, hplain⟩
  · rw [bind_ok hrun]
    exact hk value hq
  · rw [bind_error hrun]
    exact .fault hplain

theorem performs_throw {fault : Fault} (h : fault.plain = true) :
    Performs w receiver args f rest m ((throw fault : Action Unit).run m) :=
  .fault h

theorem throwNew_performs (className message : String) :
    Performs w receiver args f rest m ((throwNew w className message).run m) := by
  unfold throwNew newException
  split
  · next module hfound =>
    rw [bind_ok (newWithMessage_eq ..)]
    exact .throw message hfound
  · exact .fault rfl

variable (hf : m.frames = f :: rest)
include hf

theorem push_performs {value : ObjectId} (h : value ≤ ObjectId.void) :
    Performs w receiver args f rest m ((push value).run m) := by
  rw [push_ok hf]
  exact .reserved h

theorem pushBool_performs (value : Bool) :
    Performs w receiver args f rest m ((pushBool value).run m) :=
  push_performs hf (by cases value <;> decide)

theorem pushNumber_performs (value : Float) :
    Performs w receiver args f rest m ((pushNumber w value).run m) := by
  have hframes (heap : Heap) : ({ m with heap } : Machine).frames = f :: rest := hf
  rw [pushNumber, newNumber, bind_ok (onHeap_eq ..), push_ok (hframes _)]
  exact .number value

theorem pushString_performs (value : String) :
    Performs w receiver args f rest m ((pushString w value).run m) := by
  have hframes (heap : Heap) : ({ m with heap } : Machine).frames = f :: rest := hf
  rw [pushString, bind_ok (newString_eq ..), push_ok (hframes _)]
  exact .string value

end

-- ============================================================ the table

/-- A native method that ends in one of the ways of `Performs`, called with
the right number of arguments. -/
def Behaviour.Plain (b : Behaviour) (arity : Nat) : Prop :=
  ∀ (w : World) (receiver : ObjectId) (args : List ObjectId) (f : Frame) (rest : List Frame)
    (m : Machine), args.length = arity → m.frames = f :: rest →
      Performs w receiver args f rest m ((b w receiver args).run m)

theorem same_plain : Behaviour.Plain same 1 := by
  intro w receiver args f rest m hargs hf
  obtain ⟨x, rfl⟩ := List.length_eq_one_iff.1 hargs
  exact performs_of_reads (argument_reads rfl) fun y _ => pushBool_performs hf _

theorem identity_plain : Behaviour.Plain identity 0 :=
  fun _ _ _ _ _ _ _ hf => pushNumber_performs hf _

theorem toText_plain : Behaviour.Plain toText 0 := by
  intro w receiver args f rest m _ hf
  exact performs_of_reads (display_reads w receiver) fun text _ => pushString_performs hf text

theorem className_plain : Behaviour.Plain className 0 := by
  intro w receiver args f rest m _ hf
  exact performs_of_reads heap_reads fun h _ => pushString_performs hf _

theorem messageNotUnderstood_plain : Behaviour.Plain messageNotUnderstood 2 := by
  intro w receiver args f rest m hargs hf
  obtain ⟨x, y, rfl⟩ := List.length_eq_two.1 hargs
  refine performs_of_reads (argument_reads rfl) fun x' _ => ?_
  refine performs_of_reads (string_reads w x') fun selector _ => ?_
  refine performs_of_reads (argument_reads rfl) fun y' _ => ?_
  refine performs_of_reads (list_reads w y') fun elements _ => ?_
  refine performs_of_reads (display_reads w receiver) fun text _ => ?_
  exact throwNew_performs _ _

theorem booleanOperation_plain (op : Bool → Bool → Bool) :
    Behaviour.Plain (booleanOperation op) 1 := by
  intro w receiver args f rest m hargs hf
  obtain ⟨x, rfl⟩ := List.length_eq_one_iff.1 hargs
  refine performs_of_reads (boolean_reads w receiver) fun a _ => ?_
  refine performs_of_reads (argument_reads rfl) fun y _ => ?_
  exact performs_of_reads (boolean_reads w y) fun b _ => pushBool_performs hf _

theorem negate_plain : Behaviour.Plain negate 0 := by
  intro w receiver args f rest m _ hf
  exact performs_of_reads (boolean_reads w receiver) fun value _ => pushBool_performs hf _

theorem arithmetic_plain (op : Float → Float → Float) : Behaviour.Plain (arithmetic op) 1 := by
  intro w receiver args f rest m hargs hf
  obtain ⟨x, rfl⟩ := List.length_eq_one_iff.1 hargs
  exact performs_of_reads (operands_reads w receiver x) fun _ _ => pushNumber_performs hf _

theorem division_plain (op : Float → Float → Float) : Behaviour.Plain (division op) 1 := by
  intro w receiver args f rest m hargs hf
  obtain ⟨x, rfl⟩ := List.length_eq_one_iff.1 hargs
  refine performs_of_reads (operands_reads w receiver x) fun ab _ => ?_
  obtain ⟨a, b⟩ := ab
  dsimp only
  split
  · exact performs_throw rfl
  · exact pushNumber_performs hf _

theorem comparison_plain (op : Float → Float → Bool) : Behaviour.Plain (comparison op) 1 := by
  intro w receiver args f rest m hargs hf
  obtain ⟨x, rfl⟩ := List.length_eq_one_iff.1 hargs
  exact performs_of_reads (operands_reads w receiver x) fun _ _ => pushBool_performs hf _

theorem absolute_plain : Behaviour.Plain absolute 0 := by
  intro w receiver args f rest m _ hf
  exact performs_of_reads (number_reads w receiver) fun value _ => pushNumber_performs hf _

theorem concatenate_plain : Behaviour.Plain concatenate 1 := by
  intro w receiver args f rest m hargs hf
  obtain ⟨x, rfl⟩ := List.length_eq_one_iff.1 hargs
  refine performs_of_reads (string_reads w receiver) fun text _ => ?_
  refine performs_of_reads (argument_reads rfl) fun y _ => ?_
  exact performs_of_reads (display_reads w y) fun other _ => pushString_performs hf _

theorem stringSize_plain : Behaviour.Plain stringSize 0 := by
  intro w receiver args f rest m _ hf
  exact performs_of_reads (string_reads w receiver) fun text _ => pushNumber_performs hf _

theorem toUpperCase_plain : Behaviour.Plain toUpperCase 0 := by
  intro w receiver args f rest m _ hf
  exact performs_of_reads (string_reads w receiver) fun text _ => pushString_performs hf _

theorem addElement_plain : Behaviour.Plain addElement 1 := by
  intro w receiver args f rest m hargs hf
  obtain ⟨x, rfl⟩ := List.length_eq_one_iff.1 hargs
  refine performs_of_reads (argument_reads rfl) fun y hy => ?_
  subst hy
  rcases (list_reads (m := m) w receiver).cases with
    ⟨elements, hrun, held⟩ | ⟨fault, hrun, hplain⟩
  · have hadd : (listAdd w receiver y).run m = .ok () { m with
        heap := m.heap.updateObject receiver fun object =>
          { object with inner := some (.collection (elements ++ [y])) } } := by
      rw [listAdd, bind_ok hrun]
      rfl
    have hframes (heap : Heap) : ({ m with heap } : Machine).frames = f :: rest := hf
    rw [bind_ok hadd, push_ok (hframes _)]
    exact .add List.mem_cons_self held
  · have hadd : (listAdd w receiver y).run m = .error fault m := by
      rw [listAdd, bind_error hrun]
    rw [bind_error hadd]
    exact performs_throw hplain

theorem elementAt_plain : Behaviour.Plain elementAt 1 := by
  intro w receiver args f rest m hargs hf
  obtain ⟨x, rfl⟩ := List.length_eq_one_iff.1 hargs
  refine performs_of_reads (argument_reads rfl) fun y _ => ?_
  refine performs_of_reads (number_reads w y) fun index _ => ?_
  refine performs_of_reads (list_reads w receiver) fun elements held => ?_
  split
  · next element hget =>
    obtain ⟨n, -, hn⟩ := Option.bind_eq_some_iff.1 hget
    rw [push_ok hf]
    exact .element held (List.mem_of_getElem? hn)
  · exact performs_throw rfl

theorem listSize_plain : Behaviour.Plain listSize 0 := by
  intro w receiver args f rest m _ hf
  exact performs_of_reads (list_reads w receiver) fun elements _ => pushNumber_performs hf _

theorem listIsEmpty_plain : Behaviour.Plain listIsEmpty 0 := by
  intro w receiver args f rest m _ hf
  exact performs_of_reads (list_reads w receiver) fun elements _ => pushBool_performs hf _

theorem forEach_plain : Behaviour.Plain forEach 1 := by
  intro w receiver args f rest m hargs hf
  obtain ⟨x, rfl⟩ := List.length_eq_one_iff.1 hargs
  refine performs_of_reads (argument_reads rfl) fun block hb => ?_
  subst hb
  refine performs_of_reads (list_reads w receiver) fun elements held => ?_
  exact .callBack List.mem_cons_self held .each (Engine.pushReturning_started hf ..)

theorem mapElements_plain : Behaviour.Plain mapElements 1 := by
  intro w receiver args f rest m hargs hf
  obtain ⟨x, rfl⟩ := List.length_eq_one_iff.1 hargs
  refine performs_of_reads (argument_reads rfl) fun block hb => ?_
  subst hb
  refine performs_of_reads (list_reads w receiver) fun elements held => ?_
  exact .callBack List.mem_cons_self held .collect (Engine.pushReturning_started hf ..)

theorem println_plain : Behaviour.Plain println 1 := by
  intro w receiver args f rest m hargs hf
  obtain ⟨x, rfl⟩ := List.length_eq_one_iff.1 hargs
  refine performs_of_reads (argument_reads rfl) fun y _ => ?_
  refine performs_of_reads (display_reads w y) fun line _ => ?_
  have hprint : (print line).run m = .ok () { m with console := m.console.push line } := rfl
  rw [bind_ok hprint, push_ok (m := { m with console := m.console.push line }) hf]
  exact .print line

theorem assertThat_plain (expected : Bool) (message : String) :
    Behaviour.Plain (assertThat expected message) 1 := by
  intro w receiver args f rest m hargs hf
  obtain ⟨x, rfl⟩ := List.length_eq_one_iff.1 hargs
  refine performs_of_reads (argument_reads rfl) fun y _ => ?_
  refine performs_of_reads (boolean_reads w y) fun value _ => ?_
  split
  · exact push_performs hf le_rfl
  · exact throwNew_performs _ _

theorem assertEquals_plain : Behaviour.Plain assertEquals 2 := by
  intro w receiver args f rest m hargs hf
  obtain ⟨x, y, rfl⟩ := List.length_eq_two.1 hargs
  refine performs_of_reads (argument_reads rfl) fun expected _ => ?_
  refine performs_of_reads (argument_reads rfl) fun actual _ => ?_
  split
  · exact push_performs hf le_rfl
  · refine performs_of_reads (display_reads w expected) fun _ _ => ?_
    refine performs_of_reads (display_reads w actual) fun _ _ => ?_
    exact throwNew_performs _ _

/-- The native methods of the library end in the ways of `Performs`. -/
theorem core_plain : ∀ entry ∈ core, Behaviour.Plain entry.2.perform entry.2.arity := by
  unfold core
  repeat' refine List.forall_mem_cons.2 ⟨?_, ?_⟩
  · exact same_plain
  · exact identity_plain
  · exact toText_plain
  · exact className_plain
  · exact messageNotUnderstood_plain
  · exact booleanOperation_plain _
  · exact booleanOperation_plain _
  · exact negate_plain
  · exact toText_plain
  · exact arithmetic_plain _
  · exact arithmetic_plain _
  · exact arithmetic_plain _
  · exact division_plain _
  · exact division_plain _
  · exact comparison_plain fun a b => decide (a < b)
  · exact comparison_plain fun a b => decide (a > b)
  · exact comparison_plain fun a b => decide (a ≤ b)
  · exact comparison_plain fun a b => decide (a ≥ b)
  · exact absolute_plain
  · exact toText_plain
  · exact concatenate_plain
  · exact stringSize_plain
  · exact toUpperCase_plain
  · exact toText_plain
  · exact addElement_plain
  · exact elementAt_plain
  · exact listSize_plain
  · exact listIsEmpty_plain
  · exact forEach_plain
  · exact mapElements_plain
  · exact println_plain
  · exact assertThat_plain _ _
  · exact assertThat_plain _ _
  · exact assertEquals_plain
  · exact fun entry h => nomatch h

/-- How a native method of the library ends. -/
theorem core_performs {owner selector : String} {native : Native}
    (found : core.get? owner selector = some native) {w : World} {receiver : ObjectId}
    {args : List ObjectId} (arity : native.arity = args.length) {f : Frame} {rest : List Frame}
    {m : Machine} (hf : m.frames = f :: rest) :
    Performs w receiver args f rest m ((native.perform w receiver args).run m) := by
  obtain ⟨l, r, hentries, -⟩ := List.lookup_eq_some_iff.1 found
  have hmem : ((owner, selector), native) ∈ core := by
    rw [hentries]
    simp
  exact core_plain _ hmem w receiver args f rest m arity.symm hf

end Natives

end ObjectMachine
