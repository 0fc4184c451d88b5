/-
What actions do to a machine, apart from its frames.

`Ensures a m ok bad` gives both endings of an action a postcondition. Two
kinds of action are worth a name. One that `Reads` leaves the machine as it
is. One that `Touches` it changes the heap or prints, but leaves frames
alone, and so many of the oldest contexts as is said; if it never faults,
it `Manages`.

# Trust

What is said about frames holds of every machine. That identities exist
can only be said of a machine in which they existed before. Both are
proved of each action at once: the second is stated under a proposition
`S`, from which the callers of an action know that what they hand to it
exists.
-/
import Mathlib
import ObjectMachine.Machine.Run
import ObjectMachine.Proofs.Heap.Edits

namespace ObjectMachine

-- =============================================================== faults

/-- The faults that say something about the machine and not about the
program it runs. -/
def Fault.internal : Fault → Bool
  | .stackUnderflow => true
  | .noActiveFrame => true
  | .unknownObject _ => true
  | .noPendingInterruption => true
  | _ => false

/-- The fault of a message that nobody answers. -/
def Fault.unanswered : Fault → Bool
  | .messageNotUnderstood .. => true
  | _ => false

/-- The faults that are neither internal nor carry an exception, and do not
come from sending a message. -/
def Fault.plain : Fault → Bool
  | .thrown _ => false
  | fault => !fault.internal && !fault.unanswered

/-- A fault that a program may run into: it is not `internal`, and the exception
it carries exists. -/
structure Fault.Lawful (S : Prop) (h : Heap) (fault : Fault) : Prop where
  internal : S → fault.internal = false
  thrown : S → ∀ id, fault = .thrown id → id < h.size

theorem Fault.Lawful.of_plain {S : Prop} {h : Heap} {fault : Fault} (hp : fault.plain = true) :
    fault.Lawful S h := by
  cases fault <;> first
    | exact absurd hp Bool.false_ne_true
    | exact ⟨fun _ => rfl, fun _ id hid => nomatch hid⟩

theorem Fault.Lawful.of_thrown {S : Prop} {h : Heap} {id : ObjectId} (hid : S → id < h.size) :
    (Fault.thrown id).Lawful S h := by
  refine ⟨fun _ => rfl, fun hS id' heq => ?_⟩
  cases heq
  exact hid hS

-- ====================================================== postconditions

/-- What holds after an action or a run, however it ends. -/
def Ensures {ε α : Type} (a : EStateM ε Machine α) (m : Machine) (ok : α → Machine → Prop)
    (bad : ε → Machine → Prop) : Prop :=
  match a m with
  | .ok value m' => ok value m'
  | .error fault m' => bad fault m'

section rules

variable {ε α β : Type} {m : Machine} {bad bad' : ε → Machine → Prop}

theorem Ensures.pure {value : α} {ok : α → Machine → Prop} (h : ok value m) :
    Ensures (Pure.pure value) m ok bad := h

theorem Ensures.throw {fault : ε} {ok : α → Machine → Prop} (h : bad fault m) :
    Ensures (MonadExcept.throw fault) m ok bad := h

theorem Ensures.bind {a : EStateM ε Machine α} {k : α → EStateM ε Machine β}
    {mid : α → Machine → Prop} {ok : β → Machine → Prop} (h : Ensures a m mid bad)
    (hk : ∀ value m', mid value m' → Ensures (k value) m' ok bad) :
    Ensures (a >>= k) m ok bad := by
  simp only [Ensures, Bind.bind, EStateM.bind] at *
  cases ha : a m with
  | ok value m' =>
      rw [ha] at h
      exact hk value m' h
  | error fault m' =>
      rw [ha] at h
      exact h

theorem Ensures.mono {a : EStateM ε Machine α} {ok ok' : α → Machine → Prop}
    (h : Ensures a m ok bad) (hok : ∀ value m', ok value m' → ok' value m')
    (hbad : ∀ fault m', bad fault m' → bad' fault m') : Ensures a m ok' bad' := by
  simp only [Ensures] at *
  cases ha : a m with
  | ok value m' =>
      rw [ha] at h
      exact hok value m' h
  | error fault m' =>
      rw [ha] at h
      exact hbad fault m' h

theorem Ensures.of_ok {a : EStateM ε Machine α} {ok : α → Machine → Prop}
    (h : Ensures a m ok bad) {value : α} {m' : Machine} (ha : a m = .ok value m') :
    ok value m' := by
  simpa only [Ensures, ha] using h

theorem Ensures.of_error {a : EStateM ε Machine α} {ok : α → Machine → Prop}
    (h : Ensures a m ok bad) {fault : ε} {m' : Machine} (ha : a m = .error fault m') :
    bad fault m' := by
  simpa only [Ensures, ha] using h

end rules

namespace Action

-- ============================================================== reading

/-- An action that leaves the machine as it is; what it answers is in `Q`. -/
def Reads {α : Type} (a : Action α) (m : Machine) (Q : α → Prop) : Prop :=
  Ensures a m (fun value m' => m' = m ∧ Q value) fun fault m' => m' = m ∧ fault.plain = true

section reading

variable {α β : Type} {m : Machine} (w : World) (id : ObjectId)

theorem Reads.pure {value : α} {Q : α → Prop} (h : Q value) :
    Reads (Pure.pure value : Action α) m Q :=
  Ensures.pure ⟨rfl, h⟩

theorem Reads.throw {fault : Fault} {Q : α → Prop} (h : fault.plain = true) :
    Reads (MonadExcept.throw fault : Action α) m Q :=
  Ensures.throw ⟨rfl, h⟩

theorem Reads.bind {a : Action α} {k : α → Action β} {P : α → Prop} {Q : β → Prop}
    (h : Reads a m P) (hk : ∀ value, P value → Reads (k value) m Q) : Reads (a >>= k) m Q := by
  refine Ensures.bind h fun value m' hm => ?_
  obtain ⟨rfl, hv⟩ := hm
  exact hk value hv

theorem heap_reads : Reads heap m (· = m.heap) := ⟨rfl, rfl⟩

theorem mismatch_reads (expected : String) {Q : α → Prop} :
    Reads (mismatch w expected id) m Q :=
  heap_reads.bind fun _ _ => .throw rfl

theorem inner_reads : Reads (inner id) m (· = (m.heap.object? id).bind Object.inner) := by
  refine heap_reads.bind fun h hh => ?_
  subst hh
  exact .pure rfl

theorem number_reads : Reads (number w id) m fun _ => True := by
  refine (inner_reads id).bind fun value _ => ?_
  split
  · exact .pure trivial
  · exact mismatch_reads w id _

theorem string_reads : Reads (string w id) m fun _ => True := by
  refine (inner_reads id).bind fun value _ => ?_
  split
  · exact .pure trivial
  · exact mismatch_reads w id _

theorem list_reads :
    Reads (list w id) m fun elements =>
      (m.heap.object? id).bind Object.inner = some (.collection elements) := by
  refine (inner_reads id).bind fun value hv => ?_
  split
  · exact .pure hv.symm
  · exact mismatch_reads w id _

theorem boolean_reads : Reads (boolean w id) m fun _ => True := by
  unfold boolean
  split
  · exact .pure trivial
  · split
    · exact .pure trivial
    · exact mismatch_reads w id _

theorem display_reads : Reads (display w id) m fun _ => True :=
  heap_reads.bind fun _ _ => .pure trivial

end reading

end Action

-- ============================================================= touching

/-- The first `n` contexts are as they were; the heap has changed by
`Reaches`. -/
structure Machine.Grown (S : Prop) (n : Nat) (m m' : Machine) : Prop where
  contexts : ∀ c < n, m'.heap.context? c = m.heap.context? c
  size : m.heap.size ≤ m'.heap.size
  scopes : m.heap.contexts.size ≤ m'.heap.contexts.size
  reaches : S → m.heap.Reaches m'.heap

/-- Moreover, the frames are as they were. -/
structure Machine.Touched (S : Prop) (n : Nat) (m m' : Machine) : Prop
    extends m.Grown S n m' where
  frames : m'.frames = m.frames

namespace Machine

variable {S : Prop} {n : Nat} {m m' m'' : Machine}

/-- `Grown` does not look at frames. -/
theorem Grown.of_frames (S : Prop) (n : Nat) (m : Machine) (frames : List Frame) :
    m.Grown S n { m with frames } :=
  ⟨fun _ _ => rfl, le_rfl, le_rfl, fun _ => .refl⟩

theorem Grown.refl (S : Prop) (n : Nat) (m : Machine) : m.Grown S n m := .of_frames S n m m.frames

theorem Grown.trans (h : m.Grown S n m') (h' : m'.Grown S n m'') : m.Grown S n m'' :=
  ⟨fun c hc => (h'.contexts c hc).trans (h.contexts c hc), h.size.trans h'.size,
    h.scopes.trans h'.scopes, fun hs => (h.reaches hs).trans (h'.reaches hs)⟩

/-- `Grown` keeps what a name is bound to in one of the first contexts. -/
theorem Grown.local? (h : m.Grown S n m') {c : ContextId} (hc : c < n)
    (name : String) : m'.heap.local? c name = m.heap.local? c name := by
  rw [Heap.local?, Heap.local?, h.contexts c hc]

theorem Touched.refl (S : Prop) (n : Nat) (m : Machine) : m.Touched S n m :=
  ⟨.refl S n m, rfl⟩

theorem Touched.trans (h : m.Touched S n m') (h' : m'.Touched S n m'') : m.Touched S n m'' :=
  ⟨h.toGrown.trans h'.toGrown, h'.frames.trans h.frames⟩

theorem Grown.closed (h : m.Grown S n m') (hS : S → m.heap.Closed) (hs : S) : m'.heap.Closed :=
  (h.reaches hs).closed (hS hs)

end Machine

namespace Action

/-- An action that leaves frames and the first `n` contexts as they are; its
answer and the machine after it are in `Q`. -/
def Touches {α : Type} (S : Prop) (n : Nat) (a : Action α) (m : Machine)
    (Q : α → Machine → Prop) : Prop :=
  Ensures a m (fun value m' => m.Touched S n m' ∧ Q value m')
    fun fault m' => m.Touched S n m' ∧ fault.Lawful S m'.heap

/-- Moreover, it never faults. -/
def Manages {α : Type} (S : Prop) (n : Nat) (a : Action α) (m : Machine)
    (Q : α → Machine → Prop) : Prop :=
  Ensures a m (fun value m' => m.Touched S n m' ∧ Q value m') fun _ _ => False

section touching

variable {α β : Type} {S : Prop} {n : Nat} {m : Machine}

theorem Manages.touches {a : Action α} {Q : α → Machine → Prop} (h : Manages S n a m Q) :
    Touches S n a m Q :=
  Ensures.mono h (fun _ _ h => h) fun _ _ h => h.elim

theorem Manages.bind {a : Action α} {k : α → Action β} {P : α → Machine → Prop}
    {Q : β → Machine → Prop} (h : Manages S n a m P)
    (hk : ∀ value m', m.Touched S n m' → P value m' → Manages S n (k value) m' Q) :
    Manages S n (a >>= k) m Q := by
  refine Ensures.bind h fun value m' hm => ?_
  refine Ensures.mono (hk value m' hm.1 hm.2) ?_ fun _ _ h => h
  exact fun value' m'' h' => ⟨hm.1.trans h'.1, h'.2⟩

/-- `onHeap` with a change of objects alone. -/
theorem onHeap_manages {f : Heap → α × Heap} {Q : α → Machine → Prop}
    (hc : (f m.heap).2.contexts = m.heap.contexts) (hs : m.heap.size ≤ (f m.heap).2.size)
    (hr : S → m.heap.Reaches (f m.heap).2)
    (hq : Q (f m.heap).1 { m with heap := (f m.heap).2 }) : Manages S n (onHeap f) m Q := by
  refine ⟨⟨⟨fun c _ => ?_, hs, (congrArg Array.size hc).ge, hr⟩, rfl⟩, hq⟩
  exact congrArg (fun table => table[c]?) hc

theorem Reads.touches {a : Action α} {Q : α → Prop} (h : Reads a m Q) :
    Touches S n a m fun value m' => m' = m ∧ Q value := by
  refine Ensures.mono h ?_ ?_
  · rintro value m' ⟨rfl, hv⟩
    exact ⟨.refl S n m', rfl, hv⟩
  · rintro fault m' ⟨rfl, hf⟩
    exact ⟨.refl S n m', .of_plain hf⟩

theorem Touches.pure {value : α} {Q : α → Machine → Prop} (h : Q value m) :
    Touches S n (Pure.pure value : Action α) m Q :=
  Ensures.pure ⟨.refl S n m, h⟩

theorem Touches.bind {a : Action α} {k : α → Action β} {P : α → Machine → Prop}
    {Q : β → Machine → Prop} (h : Touches S n a m P)
    (hk : ∀ value m', m.Touched S n m' → P value m' → Touches S n (k value) m' Q) :
    Touches S n (a >>= k) m Q := by
  refine Ensures.bind h fun value m' hm => ?_
  refine Ensures.mono (hk value m' hm.1 hm.2) ?_ ?_
  · exact fun value' m'' h' => ⟨hm.1.trans h'.1, h'.2⟩
  · exact fun fault m'' h' => ⟨hm.1.trans h'.1, h'.2⟩

theorem object_touches {id : ObjectId} (hid : S → id < m.heap.size) :
    Touches S n (object id) m fun o m' => m' = m ∧ m.heap.object? id = some o := by
  refine heap_reads.touches.bind fun h m' _ hm => ?_
  obtain ⟨rfl, rfl⟩ := hm
  cases ho : m'.heap.object? id with
  | some o => exact Touches.pure ⟨rfl, rfl⟩
  | none =>
      refine Ensures.throw ⟨.refl S n m', fun hS => ?_, fun _ _ h => nomatch h⟩
      obtain ⟨o, hsome⟩ := Heap.object?_of_lt (hid hS)
      rw [ho] at hsome
      cases hsome

theorem field_touches (hS : S → m.heap.Closed) (w : World) {receiver : ObjectId} (name : String)
    (hid : S → receiver < m.heap.size) :
    Touches S n (field w receiver name) m fun value m' => m' = m ∧ (S → value < m.heap.size) := by
  refine (object_touches hid).bind fun o m' _ hm => ?_
  obtain ⟨rfl, ho⟩ := hm
  cases hv : o.fields.get? name with
  | some value =>
      refine Touches.pure ⟨rfl, fun hs => ?_⟩
      exact ((hS hs).object ho).1 value (List.mem_append_left _ (Bindings.mem_ids_of_get? hv))
  | none => exact Ensures.throw ⟨.refl S n m', .of_plain rfl⟩

theorem putField_manages (id : ObjectId) (name : String) {value : ObjectId}
    (hv : S → value < m.heap.size) :
    Manages S n (onHeap fun h => ((), h.putField id name value)) m fun _ _ => True :=
  onHeap_manages rfl (Heap.size_updateObject ..).ge
    (fun hs => (Heap.Edit.putField (hv hs)).reaches) trivial

theorem setField_touches (hS : S → m.heap.Closed) (w : World) {receiver : ObjectId}
    (name : String) {value : ObjectId} (hid : S → receiver < m.heap.size)
    (hv : S → value < m.heap.size) :
    Touches S n (setField w receiver name value) m fun _ _ => True := by
  refine (field_touches hS w name hid).bind fun _ m' _ hm => ?_
  obtain ⟨rfl, -⟩ := hm
  exact (putField_manages receiver name hv).touches

/-- `putField` on one object, several times. -/
theorem putFields_reaches (names : List String) {h : Heap} {id value : ObjectId}
    (hv : value < h.size) :
    h.Reaches (names.foldl (fun h name => h.putField id name value) h) := by
  induction names generalizing h with
  | nil => exact .refl
  | cons name rest ih =>
      have hedit : Heap.Edit h (h.putField id name value) := .putField hv
      exact hedit.reaches.trans (ih (hedit.reaches.lt hv))

theorem putFields_contexts (names : List String) (h : Heap) (id value : ObjectId) :
    (names.foldl (fun h name => h.putField id name value) h).contexts = h.contexts := by
  induction names generalizing h with
  | nil => rfl
  | cons name rest ih => exact ih _

theorem putFields_size (names : List String) (h : Heap) (id value : ObjectId) :
    (names.foldl (fun h name => h.putField id name value) h).size = h.size := by
  induction names generalizing h with
  | nil => rfl
  | cons name rest ih => exact (ih _).trans (Heap.size_updateObject ..)

theorem putFields_manages (hS : S → m.heap.Closed) (names : List String) (id : ObjectId) :
    Manages S n (onHeap fun h =>
      ((), names.foldl (fun h name => h.putField id name .null) h)) m fun _ _ => True := by
  refine onHeap_manages (putFields_contexts ..) (putFields_size ..).ge (fun hs => ?_) trivial
  exact putFields_reaches names (Nat.lt_trans (by decide) (hS hs).reserved)

theorem clearFields_touches (hS : S → m.heap.Closed) {receiver : ObjectId} (names : List String)
    (hid : S → receiver < m.heap.size) :
    Touches S n (clearFields receiver names) m fun _ _ => True := by
  refine (object_touches hid).bind fun _ m' _ hm => ?_
  obtain ⟨rfl, -⟩ := hm
  exact (putFields_manages hS names receiver).touches

/-- `clearFields` of an object that exists. -/
theorem clearFields_manages (hS : S → m.heap.Closed) {receiver : ObjectId} (names : List String)
    (hid : receiver < m.heap.size) :
    Manages S n (clearFields receiver names) m fun _ _ => True := by
  obtain ⟨o, ho⟩ := Heap.object?_of_lt hid
  have hobject : object receiver m = .ok o m := by
    simp only [object, heap, Bind.bind, EStateM.bind, ho, Pure.pure, EStateM.pure]
  have hread : Manages S n (object receiver) m fun _ m' => m' = m := by
    simp only [Manages, Ensures, hobject]
    exact ⟨.refl S n m, trivial⟩
  refine hread.bind fun _ m' _ hm => ?_
  subst hm
  exact putFields_manages hS names receiver

theorem newNumber_manages (hS : S → m.heap.Closed) (w : World) (value : Float) :
    Manages S n (newNumber w value) m fun id m' => S → id < m'.heap.size :=
  onHeap_manages (Heap.contexts_intern ..) (Heap.size_le_intern ..)
    (fun _ => (Heap.Edit.number value _).reaches) fun hs => (hS hs).intern_lt ..

theorem newString_manages (hS : S → m.heap.Closed) (w : World) (value : String) :
    Manages S n (newString w value) m fun id m' => S → id < m'.heap.size :=
  onHeap_manages (Heap.contexts_intern ..) (Heap.size_le_intern ..)
    (fun _ => (Heap.Edit.string value _).reaches) fun hs => (hS hs).intern_lt ..

/-- `allocate` of an object whose parts exist. -/
theorem allocate_manages (module : NodeId) (elements : Option (List ObjectId))
    (parent : ContextId) (answersSelf : Bool)
    (he : S → ∀ x ∈ elements.getD [], x < m.heap.size)
    (hp : S → parent < m.heap.contexts.size) :
    Manages S n
      (onHeap fun h => h.allocate
        { module, inner := elements.map .collection, parent, answersSelf }) m
      fun id m' => id < m'.heap.size :=
  onHeap_manages rfl (Nat.le_of_lt (Nat.lt_of_lt_of_eq (Nat.lt_succ_self _)
    (Heap.size_allocate ..).symm))
    (fun hs => (Heap.Edit.allocate (he hs) (hp hs)).reaches)
    (Nat.lt_of_lt_of_eq (Nat.lt_succ_self _) (Heap.size_allocate ..).symm)

theorem newList_manages (hS : S → m.heap.Closed) (w : World) {elements : List ObjectId}
    (he : S → ∀ x ∈ elements, x < m.heap.size) :
    Manages S n (newList w elements) m fun id m' => id < m'.heap.size :=
  allocate_manages w.core.list (some elements) rootContext true he fun hs => (hS hs).root

/-- `newWithMessage` can always make an object with a message. -/
theorem newWithMessage_manages (hS : S → m.heap.Closed) (w : World) (module : NodeId)
    (message : String) :
    Manages S n (newWithMessage w module message) m fun id m' => S → id < m'.heap.size := by
  have hnew := allocate_manages (S := S) (n := n) (m := m) module none rootContext true
    (fun _ x hx => nomatch hx) fun hs => (hS hs).root
  refine hnew.bind fun id m₁ t₁ hid => ?_
  have hS₁ := t₁.closed hS
  refine (newString_manages hS₁ w message).bind fun text m₂ t₂ htext => ?_
  have hS₂ := t₂.closed hS₁
  refine (clearFields_manages hS₂ _ (hid.trans_le t₂.size)).bind fun _ m₃ t₃ _ => ?_
  have hput := putField_manages (n := n) id "message" fun hs => (t₃.reaches hs).lt (htext hs)
  refine hput.bind fun _ m₄ t₄ _ => ?_
  exact Ensures.pure ⟨.refl S n m₄, fun _ => hid.trans_le (t₂.size.trans (t₃.size.trans t₄.size))⟩

theorem newException_touches (hS : S → m.heap.Closed) (w : World) (className message : String) :
    Touches S n (newException w className message) m fun id m' => S → id < m'.heap.size := by
  unfold newException
  split
  · exact (newWithMessage_manages hS w _ message).touches
  · exact Ensures.throw ⟨.refl S n m, .of_plain rfl⟩

theorem listAdd_touches (w : World) (receiver : ObjectId) {element : ObjectId}
    (he : S → element < m.heap.size) :
    Touches S n (listAdd w receiver element) m fun _ _ => True := by
  refine (list_reads w receiver).touches.bind fun elements m' _ hm => ?_
  obtain ⟨rfl, held⟩ := hm
  exact (onHeap_manages rfl (Heap.size_updateObject ..).ge
    (fun hs => (Heap.Edit.extend held (he hs)).reaches) trivial).touches

/-- `newContext` opens a context in which nothing is bound. -/
theorem newContext_manages {parent : Link} (hn : n ≤ m.heap.contexts.size)
    (hp : S → m.heap.Has parent) :
    Manages S n (newContext parent) m fun c m' =>
      c = m.heap.contexts.size ∧ m'.heap.contexts.size = m.heap.contexts.size + 1 := by
  have hsize : (m.heap.newContext parent).2.contexts.size = m.heap.contexts.size + 1 := by
    simp [Heap.newContext]
  refine ⟨⟨⟨fun c hc => ?_, le_rfl, ?_, fun hs => (Heap.Edit.newContext (hp hs)).reaches⟩, rfl⟩,
    rfl, hsize⟩
  · have hne : c ≠ m.heap.contexts.size := (hc.trans_le hn).ne
    exact (Heap.context?_newContext ..).trans (if_neg hne)
  · exact Nat.le_of_lt (Nat.lt_of_lt_of_eq (Nat.lt_succ_self _) hsize.symm)

/-- `declare` in a context that is not among the first ones. -/
theorem declare_manages {context : ContextId} (name : String) {value : ObjectId}
    (hn : n ≤ context) (hv : S → value < m.heap.size) :
    Manages S n (declare context name value) m fun _ _ => True := by
  refine ⟨⟨⟨fun c hc => ?_, le_rfl, (Heap.contexts_size_declare ..).ge, fun hs =>
    (Heap.Edit.declare (hv hs)).reaches⟩, rfl⟩, trivial⟩
  exact (Heap.context?_declare ..).trans (if_neg (hc.trans_le hn).ne')

theorem print_manages (line : String) : Manages S n (print line) m fun _ _ => True :=
  ⟨⟨⟨fun _ _ => rfl, le_rfl, le_rfl, fun _ => .refl⟩, rfl⟩, trivial⟩

end touching

end Action

end ObjectMachine
