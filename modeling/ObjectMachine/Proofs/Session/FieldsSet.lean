/-
Objects that have their fields.

An object without a name is made by an `instantiate` and constructed by the
`init` after it, which sets up the fields of its module. Where no constructor
fits it never gets any, and is left behind. But nobody has it then. Whatever
is held by an object, a context or a frame has its fields
(`Program.HasFields`, `Machine.FieldsSet`), with one exception: the object on
top of a frame that is about to construct it.

Nothing is asked of objects with a name. What the library makes, numbers
and lists, has no fields set up.
-/
import Mathlib
import ObjectMachine.Proofs.Heap.Walks
import ObjectMachine.Proofs.Machine.Turns
import ObjectMachine.Proofs.Session.LaidFrames

namespace ObjectMachine

-- ============================================================== objects

namespace Program

variable {p : Program} {h h' : Heap} {id : ObjectId}

/-- An object that exists and, unless its module has a name, has all
`fieldNames` of its module. -/
def HasFields (p : Program) (h : Heap) (id : ObjectId) : Prop :=
  ∃ o, h.object? id = some o ∧ (p.isKind Kind.isAnonymous o.module →
    ∀ name ∈ p.fieldNames o.module, (o.fields.get? name).isSome)

theorem HasFields.mono (grows : h.Grows h') (hid : p.HasFields h id) : p.HasFields h' id := by
  obtain ⟨o, ho, hfields⟩ := hid
  obtain ⟨o', ho', hgrows⟩ := grows.object ho
  refine ⟨o', ho', fun hanonymous name hname => hgrows.fields name ?_⟩
  rw [hgrows.module] at hanonymous hname
  exact hfields hanonymous name hname

theorem hasFields_of_named {o : Object} (ho : h.object? id = some o)
    (hmodule : ¬ p.isKind Kind.isAnonymous o.module) : p.HasFields h id :=
  ⟨o, ho, fun hanonymous => absurd hanonymous hmodule⟩

theorem hasFields_allocate {o : Object} (hmodule : ¬ p.isKind Kind.isAnonymous o.module) :
    p.HasFields (h.allocate o).2 h.size :=
  hasFields_of_named (o := { o with id := h.size })
    (by rw [Heap.object?_allocate, if_pos rfl]) hmodule

end Program

theorem Object.mem_ids_of_field {o : Object} {name : String} {value : ObjectId}
    (h : o.fields.get? name = some value) : value ∈ o.ids :=
  List.mem_append_left _ (Bindings.mem_ids_of_get? h)

theorem Object.mem_ids_of_element {o : Object} {elements : List ObjectId} {value : ObjectId}
    (h : o.inner = some (.collection elements)) (hvalue : value ∈ elements) : value ∈ o.ids := by
  refine List.mem_append_right _ ?_
  rw [h]
  exact hvalue

-- ================================================================ heaps

/-- A heap in which whatever objects, contexts and the table of shared objects
hold has its fields. -/
structure Heap.FieldsSet (p : Program) (h : Heap) : Prop where
  reserved : ∀ id ≤ ObjectId.void, p.HasFields h id
  object : ∀ {id o}, h.object? id = some o → ∀ x ∈ o.ids, p.HasFields h x
  locals : ∀ {id c}, h.context? id = some c → ∀ x ∈ c.locals.ids, p.HasFields h x
  parent : ∀ {id c x}, h.context? id = some c → c.parent = some (.object x) → p.HasFields h x
  interned : ∀ entry ∈ h.interned, p.HasFields h entry.2

namespace Heap.FieldsSet

variable {p : Program} {h : Heap} (hf : h.FieldsSet p)
include hf

/-- `allocate` of an object that holds what has its fields. Nobody holds the
object yet, so it may lack its own. -/
theorem allocate {o : Object} (ho : ∀ x ∈ o.ids, p.HasFields h x) :
    (h.allocate o).2.FieldsSet p := by
  have hmono {id : ObjectId} (hid : p.HasFields h id) : p.HasFields (h.allocate o).2 id :=
    hid.mono (allocate_grows h o)
  refine ⟨fun id hid => hmono (hf.reserved id hid), fun {id o'} ho' x hx => hmono ?_,
    fun hc x hx => hmono (hf.locals hc x hx), fun hc hparent => hmono (hf.parent hc hparent),
    fun entry hentry => hmono (hf.interned entry hentry)⟩
  rw [object?_allocate] at ho'
  split at ho'
  · cases ho'
    exact ho x hx
  · exact hf.object ho' x hx

/-- `intern` makes objects that hold nothing, and whose modules have names. -/
theorem intern (key : String) {module : NodeId} (hmodule : ¬ p.isKind Kind.isAnonymous module)
    {inner : Inner} (hinner : ∀ elements, inner ≠ .collection elements) :
    (h.intern key module inner).2.FieldsSet p
      ∧ p.HasFields (h.intern key module inner).2 (h.intern key module inner).1 := by
  unfold Heap.intern
  split
  · next id hfound =>
    obtain ⟨before, after, heq, -⟩ := List.lookup_eq_some_iff.1 hfound
    exact ⟨hf, hf.interned (key, id) (by rw [heq]; simp)⟩
  · have hids : ∀ x ∈ ({ module, inner := some inner } : Object).ids, p.HasFields h x := by
      intro x hx
      cases inner with
      | collection elements => exact absurd rfl (hinner elements)
      | _ => cases hx
    have hnew := hf.allocate hids
    have hown : p.HasFields (h.allocate { module, inner := some inner }).2 h.size :=
      Program.hasFields_allocate hmodule
    refine ⟨⟨hnew.reserved, hnew.object, hnew.locals, hnew.parent, fun entry hentry => ?_⟩, hown⟩
    rcases List.mem_cons.1 hentry with rfl | hentry
    · exact hown
    · exact hnew.interned entry hentry

theorem number {module : NodeId} (hmodule : ¬ p.isKind Kind.isAnonymous module) (value : Float) :
    (h.number value module).2.FieldsSet p
      ∧ p.HasFields (h.number value module).2 (h.number value module).1 :=
  hf.intern _ hmodule fun _ heq => nomatch heq

theorem string {module : NodeId} (hmodule : ¬ p.isKind Kind.isAnonymous module) (value : String) :
    (h.string value module).2.FieldsSet p
      ∧ p.HasFields (h.string value module).2 (h.string value module).1 :=
  hf.intern _ hmodule fun _ heq => nomatch heq

/-- An object that is changed to hold other things, which have their fields. -/
theorem updateObject {id : ObjectId} {f : Object → Object} (grows : h.Grows (h.updateObject id f))
    (hids : ∀ o, h.object? id = some o → ∀ x ∈ (f o).ids, p.HasFields h x) :
    (h.updateObject id f).FieldsSet p := by
  refine ⟨fun id hid => (hf.reserved id hid).mono grows, fun {id' o'} ho' x hx => ?_,
    fun hc x hx => (hf.locals hc x hx).mono grows,
    fun hc hparent => (hf.parent hc hparent).mono grows,
    fun entry hentry => (hf.interned entry hentry).mono grows⟩
  rw [object?_updateObject] at ho'
  split at ho'
  · next heq =>
    subst heq
    obtain ⟨o, ho, rfl⟩ := Option.map_eq_some_iff.1 ho'
    exact (hids o ho x hx).mono grows
  · exact (hf.object ho' x hx).mono grows

theorem putField (id : ObjectId) (name : String) {value : ObjectId} (hvalue : p.HasFields h value) :
    (h.putField id name value).FieldsSet p := by
  have hchange : h.Change (· <+: ·) (h.putField id name value) := .putField id name value
  refine hf.updateObject hchange.grows fun o ho x hx => ?_
  rcases List.mem_append.1 hx with hx | hx
  · rcases Bindings.mem_ids_insert hx with rfl | hx
    · exact hvalue
    · exact hf.object ho x (List.mem_append_left _ hx)
  · exact hf.object ho x (List.mem_append_right _ hx)

theorem putAll (id : ObjectId) (names : List String) {value : ObjectId}
    (hvalue : p.HasFields h value) : (h.putAll id names value).FieldsSet p := by
  unfold Heap.putAll
  induction names generalizing h with
  | nil => exact hf
  | cons name rest ih =>
      have hchange : h.Change (· <+: ·) (h.putField id name value) := .putField id name value
      exact ih (hf.putField id name hvalue) (hvalue.mono hchange.grows)

/-- One more element of a collection. -/
theorem extend {id element : ObjectId} {elements : List ObjectId}
    (held : (h.object? id).bind Object.inner = some (.collection elements))
    (helement : p.HasFields h element) :
    (h.updateObject id fun o =>
      { o with inner := some (.collection (elements ++ [element])) }).FieldsSet p := by
  refine hf.updateObject (Change.relist held (List.prefix_append ..)).grows fun o ho x hx => ?_
  rw [ho, Option.bind_some] at held
  rcases List.mem_append.1 hx with hx | hx
  · exact hf.object ho x (List.mem_append_left _ hx)
  · rcases List.mem_append.1 hx with hx | hx
    · exact hf.object ho x (Object.mem_ids_of_element held hx)
    · rw [List.mem_singleton.1 hx]
      exact helement

theorem declare (context : ContextId) (name : String) {value : ObjectId}
    (hvalue : p.HasFields h value) : (h.declare context name value).FieldsSet p := by
  have hmono {id : ObjectId} (hid : p.HasFields h id) :
      p.HasFields (h.declare context name value) id := hid.mono (declare_grows ..)
  refine ⟨fun id hid => hmono (hf.reserved id hid), fun ho x hx => hmono (hf.object ho x hx),
    fun {id c} hc x hx => hmono ?_, fun {id c x} hc hparent => hmono ?_,
    fun entry hentry => hmono (hf.interned entry hentry)⟩
  · rw [context?_declare] at hc
    split at hc
    · obtain ⟨c, hold, rfl⟩ := Option.map_eq_some_iff.1 hc
      rcases Bindings.mem_ids_insert hx with rfl | hx
      · exact hvalue
      · exact hf.locals hold x hx
    · exact hf.locals hc x hx
  · rw [context?_declare] at hc
    split at hc
    · obtain ⟨c, hold, rfl⟩ := Option.map_eq_some_iff.1 hc
      exact hf.parent hold hparent
    · exact hf.parent hc hparent

theorem newContext {parent : Link} (hparent : ∀ x, parent = .object x → p.HasFields h x) :
    (h.newContext parent).2.FieldsSet p := by
  have hmono {id : ObjectId} (hid : p.HasFields h id) :
      p.HasFields (h.newContext parent).2 id := hid.mono (newContext_grows ..)
  refine ⟨fun id hid => hmono (hf.reserved id hid), fun ho x hx => hmono (hf.object ho x hx),
    fun {id c} hc x hx => hmono ?_, fun {id c x} hc hlink => hmono ?_,
    fun entry hentry => hmono (hf.interned entry hentry)⟩
  · rw [context?_newContext] at hc
    split at hc
    · cases hc
      cases hx
    · exact hf.locals hc x hx
  · rw [context?_newContext] at hc
    split at hc
    · cases hc
      exact hparent x (Option.some.inj hlink)
    · exact hf.parent hc hlink

theorem assign (context : ContextId) (name : String) {value : ObjectId}
    (hvalue : p.HasFields h value) : (h.assign context name value).2.FieldsSet p := by
  unfold Heap.assign
  split
  · exact hf.declare _ name hvalue
  · exact hf.putField _ name hvalue
  · exact hf

theorem sheltered (f : Frame) (count : Nat) : (Engine.sheltered f count h).FieldsSet p := by
  induction count with
  | zero => exact hf
  | succ count ih =>
      rw [Engine.sheltered_succ]
      exact ih.newContext fun x heq => nomatch heq

/-- What `lookup` finds is held: by a context, by an object, or as the object
that a context hangs from. -/
theorem lookup {context : ContextId} {name : String} {value : ObjectId}
    (found : h.lookup context name = some value) : p.HasFields h value := by
  have hfrom {fuel : Nat} {link : Link} (hlink : ∀ x, link = .object x → p.HasFields h x)
      (found : h.lookupFrom name fuel link = some value) : p.HasFields h value := by
    induction fuel generalizing link with
    | zero => cases found
    | succ fuel ih =>
        rw [lookupFrom_succ] at found
        rcases Option.or_eq_some_iff.1 found with hanswer | ⟨-, hnext⟩
        · cases link with
          | context id =>
              obtain ⟨c, hc, hlocal⟩ := Option.bind_eq_some_iff.1 hanswer
              exact hf.locals hc value (Bindings.mem_ids_of_get? hlocal)
          | object id =>
              obtain ⟨o, ho, hanswer⟩ := Option.bind_eq_some_iff.1 hanswer
              split at hanswer
              · rw [← Option.some.inj hanswer]
                exact hlink id rfl
              · exact hf.object ho value (Object.mem_ids_of_field hanswer)
        · obtain ⟨next, hleads, hfound⟩ := Option.bind_eq_some_iff.1 hnext
          refine ih (fun x heq => ?_) hfound
          cases link with
          | context id =>
              obtain ⟨c, hc, hparent⟩ := Option.bind_eq_some_iff.1 hleads
              exact hf.parent hc (heq ▸ hparent)
          | object id =>
              obtain ⟨o, -, rfl⟩ := Option.map_eq_some_iff.1 hleads
              cases heq
  exact hfrom (fun _ heq => by cases heq) found

end Heap.FieldsSet

-- ======================================================= parts of heaps

/-- Fields that `putAll` sets are there. -/
theorem Heap.isSome_putAll {h : Heap} {id : ObjectId} {o : Object} (ho : h.object? id = some o)
    {names : List String} {name : String} (hname : name ∈ names) (value : ObjectId) :
    ∃ o', (h.putAll id names value).object? id = some o' ∧ (o'.fields.get? name).isSome := by
  unfold putAll
  induction names generalizing h o with
  | nil => cases hname
  | cons first rest ih =>
      have hput : (h.putField id first value).object? id
          = some { o with fields := o.fields.insert first value } := by
        rw [putField, object?_updateObject, if_pos rfl, ho]
        rfl
      rcases List.mem_cons.1 hname with rfl | hname
      · have hchanges : (h.putField id name value).Changes (· <+: ·)
            ((h.putField id name value).putAll id rest value) := putAll_changes ..
        obtain ⟨o', ho', hgrows⟩ := hchanges.grows.object hput
        refine ⟨o', ho', hgrows.fields name ?_⟩
        rw [Bindings.get?_insert, if_pos rfl]
        rfl
      · exact ih hput hname

namespace Engine

variable {e : Engine} {h : Heap}

/-- `prepared` sets up the fields of an object that is what is constructed. -/
theorem hasFields_prepared {receiver : ObjectId} {o : Object} (ho : h.object? receiver = some o)
    {start : NodeId} (hmodule : o.module = start) :
    e.program.HasFields (e.prepared receiver start true h) receiver := by
  obtain ⟨o', ho', hgrows⟩ := (e.prepared_changes receiver start true h).grows.object ho
  refine ⟨o', ho', fun hanonymous name hname => ?_⟩
  rw [hgrows.module, hmodule] at hanonymous hname
  rw [Program.fieldNames, ← Program.initializedFields_eq hanonymous] at hname
  have hprepared : e.prepared receiver start true h = h.putAll receiver
      ((e.program.initializedFields start).filterMap Tree.name?) .null := rfl
  obtain ⟨o'', ho'', hfield⟩ := Heap.isSome_putAll ho hname .null
  rw [← hprepared] at ho''
  cases ho'.symm.trans ho''
  exact hfield

section

variable (hf : h.FieldsSet e.program)
include hf

theorem prepared_fieldsSet (receiver : ObjectId) (start : NodeId) (initFields : Bool) :
    (e.prepared receiver start initFields h).FieldsSet e.program := by
  unfold prepared
  split
  · exact hf.putAll receiver _ (hf.reserved _ (Nat.zero_le _))
  · exact hf

variable (hw : e.toWorld.Within fun id => ¬ e.program.isKind Kind.isAnonymous id)
include hw

theorem bindAll_fieldsSet (context : ContextId) (parameters : List Tree) {args : List ObjectId}
    (hargs : ∀ x ∈ args, e.program.HasFields h x) :
    (e.toWorld.bindAll context parameters args h).FieldsSet e.program := by
  induction parameters generalizing args h with
  | nil => exact hf
  | cons parameter rest ih =>
      have htail {h' : Heap} (grows : h.Grows h') : ∀ x ∈ args.tail, e.program.HasFields h' x :=
        fun x hx => (hargs x (List.mem_of_mem_tail hx)).mono grows
      rw [World.bindAll]
      split
      · have hlist : ∀ x ∈ ({ module := e.core.list, inner := some (.collection args) } :
            Object).ids, e.program.HasFields h x := hargs
        have hnew := hf.allocate hlist
        refine ih (hnew.declare context _ (Program.hasFields_allocate hw.list))
          (htail ((Heap.allocate_grows ..).trans (Heap.declare_grows ..)))
      · refine ih (hf.declare context _ ?_) (htail (Heap.declare_grows ..))
        cases args with
        | nil => exact hf.reserved _ (Nat.zero_le _)
        | cons first _ => exact hargs first List.mem_cons_self
      · exact ih hf (htail (.refl h))

theorem withMessage_fieldsSet {module : NodeId}
    (hmodule : ¬ e.program.isKind Kind.isAnonymous module) (message : String) :
    (e.toWorld.withMessage module message h).FieldsSet e.program
      ∧ e.program.HasFields (e.toWorld.withMessage module message h) h.size := by
  have hnew : (h.allocate { module }).2.FieldsSet e.program := hf.allocate fun x hx => nomatch hx
  have hown : e.program.HasFields (h.allocate { module }).2 h.size :=
    Program.hasFields_allocate hmodule
  obtain ⟨htext, hmessage⟩ := hnew.string hw.string message
  have hall {h' : Heap} {names : List String} :
      h'.Changes (· <+: ·) (h'.putAll h.size names .null) :=
    Heap.putAll_changes ..
  have hput {h' : Heap} {value : ObjectId} :
      h'.Change (· <+: ·) (h'.putField h.size "message" value) := .putField ..
  refine ⟨(htext.putAll h.size _ (htext.reserved _ (Nat.zero_le _))).putField h.size "message"
    (hmessage.mono hall.grows), ?_⟩
  exact hown.mono (((Heap.intern_grows ..).trans hall.grows).trans hput.grows)

end

end Engine

-- =============================================================== frames

/-- A frame whose operands have their fields, and the constants of its code
too. -/
structure Frame.FieldsSet (p : Program) (h : Heap) (f : Frame) : Prop where
  operands : ∀ id ∈ f.operands, p.HasFields h id
  constants : ∀ id ∈ constantsOf f.code, p.HasFields h id

theorem Frame.FieldsSet.mono {p : Program} {h h' : Heap} {f : Frame} (grows : h.Grows h')
    (hf : f.FieldsSet p h) : f.FieldsSet p h' :=
  ⟨fun id hid => (hf.operands id hid).mono grows, fun id hid => (hf.constants id hid).mono grows⟩

/-- A heap and frames that hold nothing but what has its fields. -/
structure FramesFieldsSet (p : Program) (h : Heap) (frames : List Frame) : Prop where
  heap : h.FieldsSet p
  frames : ∀ f ∈ frames, f.FieldsSet p h

namespace FramesFieldsSet

variable {p : Program} {h h' : Heap} {f g : Frame} {frames : List Frame}

theorem idle (heap : h.FieldsSet p) : FramesFieldsSet p h [] := ⟨heap, List.forall_mem_nil _⟩

theorem cons (hh : FramesFieldsSet p h frames) (hf : f.FieldsSet p h) :
    FramesFieldsSet p h (f :: frames) :=
  ⟨hh.heap, List.forall_mem_cons.2 ⟨hf, hh.frames⟩⟩

theorem tail (hh : FramesFieldsSet p h (f :: frames)) : FramesFieldsSet p h frames :=
  ⟨hh.heap, (List.forall_mem_cons.1 hh.frames).2⟩

/-- `FramesFieldsSet` with the frame on top in another state. -/
theorem replace (hh : FramesFieldsSet p h (f :: frames)) (hcode : g.code = f.code)
    (hoperands : ∀ id ∈ g.operands, id ∈ f.operands ∨ p.HasFields h id) :
    FramesFieldsSet p h (g :: frames) := by
  obtain ⟨hf, -⟩ := List.forall_mem_cons.1 hh.frames
  refine hh.tail.cons ⟨fun id hid => (hoperands id hid).elim (hf.operands id) fun hid => hid, ?_⟩
  rw [hcode]
  exact hf.constants

/-- `FramesFieldsSet` on a heap that has grown. -/
theorem onHeap (hh : FramesFieldsSet p h frames) (heap : h'.FieldsSet p) (grows : h.Grows h') :
    FramesFieldsSet p h' frames :=
  ⟨heap, fun f hf => (hh.frames f hf).mono grows⟩

theorem unwind (hh : FramesFieldsSet p h frames) (kind : Interruption) :
    FramesFieldsSet p h (ObjectMachine.unwind kind frames) := by
  induction frames with
  | nil => exact hh
  | cons f rest ih =>
      rw [unwind_cons]
      split
      · refine hh.replace (f.accepting_continues kind).code fun id hid => .inl ?_
        unfold Frame.accepting at hid
        split at hid <;> exact hid
      · exact ih hh.tail

end FramesFieldsSet

/-- Whether an instruction sets up the fields of the object on top: an `init`
that was not passed on. -/
def Instruction.setsFields : Instruction → Bool
  | .init _ _ initFields => initFields
  | _ => false

/-- The next instruction of a frame sets up the fields of the object on
top. -/
def Frame.SetsFieldsNext (f : Frame) : Prop := ∃ i, f.code[f.pc]? = some i ∧ i.setsFields

/-- A machine that holds nothing but what has its fields, except that the
operand on top may lack them if `SetsFieldsNext`. -/
def Machine.FieldsSet (p : Program) (m : Machine) : Prop :=
  FramesFieldsSet p m.heap m.frames.tail ∧ ∀ f ∈ m.frames.head?,
    f.FieldsSet p m.heap ∨ f.SetsFieldsNext ∧ (f.dropping 1).FieldsSet p m.heap

theorem FramesFieldsSet.fieldsSet {p : Program} {m : Machine}
    (h : FramesFieldsSet p m.heap m.frames) :
    m.FieldsSet p := by
  refine ⟨⟨h.heap, fun f hf => h.frames f (List.mem_of_mem_tail hf)⟩, fun f hf => .inl ?_⟩
  exact h.frames f (List.mem_of_head? hf)

-- ========================================================= instructions

/-- The heap and the frames below the running one hold nothing but what has its
fields, and so has what is `given` to those frames. -/
def Machine.FieldsSetBelow (p : Program) (given : ObjectId → Prop) (m : Machine) : Prop :=
  FramesFieldsSet p m.heap m.frames.tail ∧ ∀ id, given id → p.HasFields m.heap id

/-- `Machine.FieldsSet` after a part of an instruction; after a fault, the
exception that is thrown has its fields. -/
def FieldsSetAfterPart (p : Program) : EStateM.Result Fault Machine Unit → Prop
  | .ok _ m => m.FieldsSet p
  | .error fault m => m.FieldsSetBelow p (fault = .thrown ·)

/-- The same after a whole instruction, which may also interrupt the running
frame with a value. -/
def FieldsSetAfter (p : Program) : EStateM.Result Fault Machine Flow → Prop
  | .ok .next m => m.FieldsSet p
  | .ok (.interrupt _ value) m => m.FieldsSetBelow p (· = value)
  | .error fault m => m.FieldsSetBelow p (fault = .thrown ·)

theorem Machine.fieldsSetBelow_of_unthrown {p : Program} {m : Machine} {fault : Fault}
    (unthrown : fault.Unthrown) (h : FramesFieldsSet p m.heap m.frames.tail) :
    m.FieldsSetBelow p (fault = .thrown ·) :=
  ⟨h, fun id hid => absurd hid (unthrown id)⟩

theorem World.Started.fieldsSetAfterPart {w : World} {p : Program} {code : Code}
    {context : ContextId} {heap : Heap} {g : Frame} {rest : List Frame} {m : Machine}
    {r : EStateM.Result Fault Machine Unit} (h : w.Started code context heap g rest m r)
    (hh : FramesFieldsSet p heap (g.resuming [.return] :: rest))
    (hcode : ∀ id ∈ constantsOf code, p.HasFields heap id) : FieldsSetAfterPart p r := by
  cases h with
  | runs => exact FramesFieldsSet.fieldsSet (hh.cons ⟨List.forall_mem_nil _, hcode⟩)
  | full => exact Machine.fieldsSetBelow_of_unthrown (fun _ heq => nomatch heq) hh.tail

namespace Program

variable {p : Program} {code : Code}

theorem methodCode_constants {method : NodeId} (h : p.methodCode method = .ok code) :
    ∀ id ∈ constantsOf code, id ≤ ObjectId.void := by
  have hlawful : (Palette.reserved fun _ => True).Lawful := ⟨trivial, fun _ hid => hid⟩
  exact (methodCode_returns hlawful (fun _ _ _ _ => trivial) h).constants

theorem initCode_constants {start : NodeId} {constructor : Option NodeId} {initFields : Bool}
    (h : p.initCode start constructor initFields = .ok code) :
    ∀ id ∈ constantsOf code, id ≤ ObjectId.void := by
  have hlawful : (Palette.reserved fun _ => True).Lawful := ⟨trivial, fun _ hid => hid⟩
  exact (initCode_returns hlawful (fun _ _ _ _ => trivial) h).constants

end Program

theorem Natives.CallsBack.constants {w : World} {block : ObjectId} {elements : List ObjectId}
    {code : Code} (h : CallsBack w block elements code) :
    ∀ id ∈ constantsOf code, id = block ∨ id ∈ elements ∨ id ≤ ObjectId.void := by
  have happly (element : ObjectId) : constantsOf (applyCode block element) = [block, element] := rfl
  have hall (after : Code) (hafter : constantsOf after = []) (elements : List ObjectId) :
      ∀ id ∈ constantsOf (elements.flatMap fun element => applyCode block element ++ after),
        id = block ∨ id ∈ elements := by
    induction elements with
    | nil => exact List.forall_mem_nil _
    | cons element rest ih =>
        intro id hid
        rw [List.flatMap_cons, constantsOf_append, constantsOf_append, happly, hafter] at hid
        rcases List.mem_append.1 hid with hid | hid
        · rcases List.mem_cons.1 hid with rfl | hid
          · exact .inl rfl
          · exact .inr (List.mem_cons.2 (.inl (List.mem_singleton.1 hid)))
        · exact (ih id hid).imp_right (List.mem_cons_of_mem _)
  intro id hid
  cases h with
  | each =>
      rw [constantsOf_append] at hid
      rcases List.mem_append.1 hid with hid | hid
      · exact (hall [.pop] rfl elements id hid).imp_right .inl
      · rw [List.mem_singleton.1 hid]
        exact .inr (.inr le_rfl)
  | collect =>
      rw [constantsOf_append] at hid
      rcases List.mem_append.1 hid with hid | hid
      · have hid' := hall [] rfl elements id
        simp only [List.append_nil] at hid'
        exact (hid' hid).imp_right .inl
      · cases hid

namespace Engine

variable {e : Engine} {f g : Frame} {rest : List Frame} {m : Machine}

section

variable (he : e.LinkedWithCore)
  (hh : FramesFieldsSet e.program m.heap (g.resuming [.return] :: rest))
include he hh

theorem Constructs.fieldsSetAfterPart {receiver : ObjectId} {start : NodeId} {args : List ObjectId}
    {initFields : Bool} {r : EStateM.Result Fault Machine Unit}
    (h : e.Constructs receiver start args initFields g rest m r) (htail : m.frames.tail = rest)
    (hargs : ∀ x ∈ args, e.program.HasFields m.heap x)
    (hreceiver : e.program.HasFields (e.prepared receiver start initFields m.heap) receiver) :
    FieldsSetAfterPart e.program r := by
  have hprepared := prepared_fieldsSet hh.heap receiver start initFields
  have hgrows : m.heap.Grows (e.prepared receiver start initFields m.heap) :=
    (e.prepared_changes receiver start initFields m.heap).grows
  cases h with
  | refused unthrown => exact Machine.fieldsSetBelow_of_unthrown unthrown (htail ▸ hh.tail)
  | uncompiled =>
      have hrest : FramesFieldsSet e.program (e.prepared receiver start initFields m.heap)
          m.frames.tail := htail ▸ hh.tail.onHeap hprepared hgrows
      exact Machine.fieldsSetBelow_of_unthrown (fun _ heq => nomatch heq) hrest
  | started compiles ends =>
      have hopened : ((e.prepared receiver start initFields m.heap).newContext
          (.object receiver)).2.FieldsSet e.program :=
        hprepared.newContext fun x heq => Link.object.inj heq ▸ hreceiver
      have hself := hopened.declare m.heap.contexts.size "self"
        (hreceiver.mono (Heap.newContext_grows ..))
      have hheap := bindAll_fieldsSet hself he.named m.heap.contexts.size
        (e.parametersOf (e.program.lookupConstructor? start args.length)) fun x hx =>
          (hargs x hx).mono ((hgrows.trans (Heap.newContext_grows ..)).trans
            (Heap.declare_grows ..))
      refine ends.fieldsSetAfterPart (hh.onHeap hheap (e.constructing_changes ..).grows)
        fun id hid => ?_
      exact hheap.reserved id (Program.initCode_constants compiles id hid)

theorem Performs.fieldsSetAfterPart {receiver : ObjectId} {args : List ObjectId}
    {r : EStateM.Result Fault Machine Unit}
    (h : Natives.Performs e.toWorld receiver args g rest m r) (htail : m.frames.tail = rest)
    (hargs : ∀ x ∈ args, e.program.HasFields m.heap x) : FieldsSetAfterPart e.program r := by
  -- the frame of the caller with an answer
  have hanswered {heap : Heap} (hheap : heap.FieldsSet e.program) (grows : m.heap.Grows heap)
      {value : ObjectId} (hvalue : e.program.HasFields heap value) :
      FramesFieldsSet e.program heap (g.push value :: rest) := by
    refine (hh.onHeap hheap grows).replace rfl fun id hid => ?_
    rcases List.mem_cons.1 hid with rfl | hid
    · exact .inr hvalue
    · exact .inl hid
  have helements {elements : List ObjectId} (held : Natives.Holds m.heap receiver elements) :
      ∀ x ∈ elements, e.program.HasFields m.heap x := by
    intro x hx
    obtain ⟨o, ho, hinner⟩ := Option.bind_eq_some_iff.1 held
    exact hh.heap.object ho x (Object.mem_ids_of_element hinner hx)
  cases h with
  | fault plain =>
      exact Machine.fieldsSetBelow_of_unthrown (Fault.unthrown_of_plain plain) (htail ▸ hh.tail)
  | reserved reserved =>
      exact FramesFieldsSet.fieldsSet (hanswered hh.heap (.refl _) (hh.heap.reserved _ reserved))
  | element held among =>
      exact FramesFieldsSet.fieldsSet (hanswered hh.heap (.refl _) (helements held _ among))
  | number value =>
      obtain ⟨hheap, hvalue⟩ := hh.heap.number he.named.number value
      exact FramesFieldsSet.fieldsSet (hanswered hheap (Heap.intern_grows ..) hvalue)
  | string value =>
      obtain ⟨hheap, hvalue⟩ := hh.heap.string he.named.string value
      exact FramesFieldsSet.fieldsSet (hanswered hheap (Heap.intern_grows ..) hvalue)
  | print line =>
      exact FramesFieldsSet.fieldsSet (hanswered hh.heap (.refl _) (hh.heap.reserved _ le_rfl))
  | @add element elements given held =>
      have hheap := hh.heap.extend held (hargs element given)
      exact FramesFieldsSet.fieldsSet (hanswered hheap
        (Heap.Change.relist held (List.prefix_append ..)).grows (hheap.reserved _ le_rfl))
  | callBack given held calls ends =>
      refine ends.fieldsSetAfterPart hh fun id hid => ?_
      rcases calls.constants id hid with rfl | hid | hid
      · exact hargs _ given
      · exact helements held id hid
      · exact hh.heap.reserved id hid
  | throw message found =>
      obtain ⟨hheap, hvalue⟩ := withMessage_fieldsSet hh.heap he.named (he.entity found) message
      have hrest := hh.tail.onHeap hheap (e.toWorld.withMessage_changes ..).grows
      refine ⟨htail ▸ hrest, fun id hid => ?_⟩
      cases hid
      exact hvalue

theorem Invokes.fieldsSetAfterPart {method : NodeId} {receiver : ObjectId} {args : List ObjectId}
    {r : EStateM.Result Fault Machine Unit} (h : e.Invokes method receiver args g rest m r)
    (hframes : m.frames = g :: rest) (hreceiver : e.program.HasFields m.heap receiver)
    (hargs : ∀ x ∈ args, e.program.HasFields m.heap x) : FieldsSetAfterPart e.program r := by
  have htail : m.frames.tail = rest := by rw [hframes]; rfl
  cases h with
  | refused plain =>
      exact Machine.fieldsSetBelow_of_unthrown (Fault.unthrown_of_plain plain) (htail ▸ hh.tail)
  | native found arity =>
      rw [he.natives] at found
      exact Performs.fieldsSetAfterPart he hh (Natives.core_performs found arity hframes)
        htail hargs
  | @started _ parameters _ _ _ _ isMethod compiles ends =>
      have hopened : (m.heap.newContext (.object receiver)).2.FieldsSet e.program :=
        hh.heap.newContext fun x heq => Link.object.inj heq ▸ hreceiver
      have hheap := bindAll_fieldsSet hopened he.named m.heap.contexts.size parameters
        fun x hx => (hargs x hx).mono (Heap.newContext_grows ..)
      refine ends.fieldsSetAfterPart (hh.onHeap hheap (e.invoking_changes ..).grows)
        fun id hid => ?_
      exact hheap.reserved id (Program.methodCode_constants compiles id hid)

theorem Dispatches.fieldsSetAfterPart {receiver : ObjectId} {message : String}
    {args : List ObjectId}
    {start : Option NodeId} {r : EStateM.Result Fault Machine Unit}
    (h : e.Dispatches receiver message args start g rest m r) (hframes : m.frames = g :: rest)
    (hreceiver : e.program.HasFields m.heap receiver)
    (hargs : ∀ x ∈ args, e.program.HasFields m.heap x) : FieldsSetAfterPart e.program r := by
  cases h with
  | refused unthrown =>
      refine Machine.fieldsSetBelow_of_unthrown unthrown ?_
      rw [hframes]
      exact hh.tail
  | answered _ _ ends => exact ends.fieldsSetAfterPart he hh hframes hreceiver hargs
  | fallback _ _ _ ends =>
      obtain ⟨htext, hselector⟩ := hh.heap.string he.named.string message
      have hgrows : m.heap.Grows (m.heap.string message e.core.string).2 := Heap.intern_grows ..
      have hlist : ∀ x ∈ ({ module := e.core.list, inner := some (.collection args) } :
          Object).ids, e.program.HasFields (m.heap.string message e.core.string).2 x :=
        fun x hx => (hargs x hx).mono hgrows
      have hnew := Heap.allocate_grows (m.heap.string message e.core.string).2
        { module := e.core.list, inner := some (.collection args) }
      refine ends.fieldsSetAfterPart he
        (m := { m with heap := e.misunderstood message args m.heap })
        (hh.onHeap (htext.allocate hlist) (hgrows.trans hnew)) hframes
        (hreceiver.mono (hgrows.trans hnew)) fun x hx => ?_
      rcases List.mem_cons.1 hx with rfl | hx
      · exact hselector.mono hnew
      · rw [List.mem_singleton.1 hx]
        exact Program.hasFields_allocate he.named.list

end

/-- The state before the instruction `i`, on top of frames that hold nothing but
what has its fields. What `i` makes without a name is constructed next. -/
structure FieldsSetBefore (e : Engine) (f : Frame) (rest : List Frame) (h : Heap)
    (i : Instruction) :
    Prop where
  below : FramesFieldsSet e.program h rest
  operands : (∀ id ∈ f.operands, e.program.HasFields h id)
    ∨ i.setsFields ∧ ∀ id ∈ f.operands.tail, e.program.HasFields h id
  constants : ∀ id ∈ constantsOf f.code, e.program.HasFields h id
  pushes : ∀ id ∈ i.constants, e.program.HasFields h id
  sound : ∀ id ∈ f.operands, id < h.size
  named : ∀ module value, i = .instantiate module (some value) →
    ¬ e.program.isKind Kind.isAnonymous module
  setsFields : ∀ module, i = .instantiate module none → f.SetsFieldsNext
  proper : ∀ arity start receiver others o, i = .init arity start true →
    f.operands = receiver :: others → h.object? receiver = some o → o.module = start

namespace FieldsSetBefore

variable {i : Instruction} {h h' : Heap}

/-- All operands have their fields, unless the instruction sets up those of the
one on top. -/
theorem all (hf : e.FieldsSetBefore f rest h i) (hi : i.setsFields = false) :
    ∀ id ∈ f.operands, e.program.HasFields h id := by
  refine hf.operands.resolve_right fun ⟨hbegins, _⟩ => ?_
  rw [hi] at hbegins
  cases hbegins

/-- The frame goes on with operands that have their fields. -/
theorem next (hf : e.FieldsSetBefore f rest h i) (hi : i.setsFields = false)
    (heap : h'.FieldsSet e.program) (grows : h.Grows h') (hcode : g.code = f.code)
    (hoperands : ∀ id ∈ g.operands, id ∈ f.operands ∨ e.program.HasFields h' id) :
    FramesFieldsSet e.program h' (g :: rest) := by
  refine (hf.below.onHeap heap grows).cons ⟨fun id hid => ?_, ?_⟩
  · exact (hoperands id hid).elim (fun hid => (hf.all hi id hid).mono grows) fun hid => hid
  · rw [hcode]
    exact fun id hid => (hf.constants id hid).mono grows

/-- A block that is part of the instruction pushes only what has its
fields. -/
theorem block (hf : e.FieldsSetBefore f rest h i) (grows : h.Grows h') {code : Code}
    (hcode : constantsOf code ⊆ i.constants) (context : ContextId) (resume : List Interruption) :
    Frame.FieldsSet e.program h' { code, context, resume } :=
  ⟨List.forall_mem_nil _, fun id hid => (hf.pushes id (hcode hid)).mono grows⟩

/-- So do the frames of a protected block, however many contexts there are for
them. -/
theorem protects {body handler always : Code}
    (hf : e.FieldsSetBefore f rest h (.tryCatchAlways body handler always)) (count : Nat) :
    FramesFieldsSet e.program (sheltered f count h)
      ({ code := body, context := h.contexts.size + 2 }
        :: { code := handler, context := h.contexts.size + 1, resume := [.exception] }
        :: { code := always, context := h.contexts.size, resume := Interruption.all }
        :: f.resuming [.result] :: rest) := by
  have hgrows : h.Grows (sheltered f count h) := (h.sheltered_changes f count).grows
  have hwaits : FramesFieldsSet e.program (sheltered f count h) (f.resuming [.result] :: rest) :=
    hf.next rfl (hf.below.heap.sheltered f count) hgrows rfl fun id hid => .inl hid
  refine ((hwaits.cons (hf.block hgrows ?_ _ _)).cons (hf.block hgrows ?_ _ _)).cons
    (hf.block hgrows ?_ _ [])
  · exact List.subset_append_right _ _
  · exact List.subset_append_of_subset_left _ (List.subset_append_right _ _)
  · exact List.subset_append_of_subset_left _ (List.subset_append_left _ _)

theorem constructs (he : e.LinkedWithCore) {arity : Nat} {start : NodeId} {initFields : Bool}
    (hf : e.FieldsSetBefore f rest m.heap (.init arity start initFields)) {receiver : ObjectId}
    {others : List ObjectId} (top : f.operands = receiver :: others)
    {r : EStateM.Result Fault Machine Unit}
    (ends : e.Constructs receiver start (others.take arity).reverse initFields
      (f.dropping (arity + 1)) rest { m with frames := f.dropping (arity + 1) :: rest } r) :
    FieldsSetAfterPart e.program r := by
  have hothers : ∀ id ∈ others, e.program.HasFields m.heap id := by
    have htail : f.operands.tail = others := by rw [top]; rfl
    rcases hf.operands with hall | ⟨-, hrest⟩
    · exact fun id hid => hall id (List.mem_of_mem_tail (htail ▸ hid))
    · exact htail ▸ hrest
  have hreceiver : e.program.HasFields (e.prepared receiver start initFields m.heap) receiver := by
    have hmem : receiver ∈ f.operands := top ▸ List.mem_cons_self
    cases hinit : initFields with
    | true =>
        obtain ⟨o, ho⟩ := Heap.object?_of_lt (hf.sound receiver hmem)
        exact hasFields_prepared ho (hf.proper arity start receiver others o (by rw [hinit]) top ho)
    | false => exact hf.all hinit receiver hmem
  have hwaits : ((f.dropping (arity + 1)).resuming [.return]).FieldsSet e.program m.heap := by
    refine ⟨fun id hid => hothers id ?_, hf.constants⟩
    have hdrop : id ∈ f.operands.drop (arity + 1) := hid
    rw [top, List.drop_succ_cons] at hdrop
    exact List.mem_of_mem_drop hdrop
  refine ends.fieldsSetAfterPart (m := { m with frames := f.dropping (arity + 1) :: rest }) he
    (hf.below.cons hwaits) rfl (fun x hx => ?_) hreceiver
  exact hothers x (List.mem_of_mem_take (List.mem_reverse.1 hx))

theorem dispatches (he : e.LinkedWithCore) {message : String} {arity : Nat} {start : Option NodeId}
    (hf : e.FieldsSetBefore f rest m.heap (.call message arity start)) {receiver : ObjectId}
    {others : List ObjectId} (top : f.operands.drop arity = receiver :: others)
    {r : EStateM.Result Fault Machine Unit}
    (ends : e.Dispatches receiver message (f.operands.take arity).reverse start
      (f.dropping (arity + 1)) rest { m with frames := f.dropping (arity + 1) :: rest } r) :
    FieldsSetAfterPart e.program r := by
  have hall := hf.all rfl
  have hwaits : FramesFieldsSet e.program m.heap
      ((f.dropping (arity + 1)).resuming [.return] :: rest) :=
    hf.next rfl hf.below.heap (.refl _) rfl fun id hid => .inl (List.mem_of_mem_drop hid)
  refine ends.fieldsSetAfterPart (m := { m with frames := f.dropping (arity + 1) :: rest })
    he hwaits rfl
    (hall receiver ?_) fun x hx => hall x (List.mem_of_mem_take (List.mem_reverse.1 hx))
  refine List.mem_of_mem_drop (i := arity) ?_
  rw [top]
  exact List.mem_cons_self

end FieldsSetBefore

/-- Every instruction keeps `Machine.FieldsSet`: one case for each way that
`Conduct` has for it to end. -/
theorem Conduct.fieldsSetAfter (he : e.LinkedWithCore) {i : Instruction}
    (hf : e.FieldsSetBefore f rest m.heap i)
    {r : EStateM.Result Fault Machine Flow}
    (h : e.Conduct f rest { m with frames := f :: rest } i r) : FieldsSetAfter e.program r := by
  -- the frame with operands some of which are new
  have hnow {heap : Heap} {operands : List ObjectId} (hi : i.setsFields = false)
      (hheap : heap.FieldsSet e.program) (grows : m.heap.Grows heap)
      (hoperands : ∀ id ∈ operands, id ∈ f.operands ∨ e.program.HasFields heap id) :
      FramesFieldsSet e.program heap ({ f with operands } :: rest) :=
    hf.next hi hheap grows rfl hoperands
  have hpush {heap : Heap} {value : ObjectId} {others : List ObjectId}
      (hothers : others ⊆ f.operands)
      (hvalue : e.program.HasFields heap value) :
      ∀ id ∈ value :: others, id ∈ f.operands ∨ e.program.HasFields heap id :=
    List.forall_mem_cons.2 ⟨.inr hvalue, fun id hid => .inl (hothers hid)⟩
  cases h with
  | fault unthrown heap tail =>
      refine Machine.fieldsSetBelow_of_unthrown unthrown ?_
      rw [heap, tail]
      exact hf.below
  | load found =>
      exact FramesFieldsSet.fieldsSet (hnow rfl hf.below.heap (.refl _)
        (hpush (List.Subset.refl _) (hf.below.heap.lookup found)))
  | @bind name value others top =>
      have hvalue := hf.all rfl value (top ▸ List.mem_cons_self)
      exact FramesFieldsSet.fieldsSet (hnow rfl (hf.below.heap.declare f.context name hvalue)
        (Heap.declare_grows ..) fun id hid => .inl (top ▸ List.mem_cons_of_mem _ hid))
  | @assign name value others heap top found =>
      have hvalue := hf.all rfl value (top ▸ List.mem_cons_self)
      have hheap := hf.below.heap.assign f.context name hvalue
      have hgrows : m.heap.Grows (m.heap.assign f.context name value).2 :=
        (m.heap.assign_changes f.context name value).grows
      have hfound : m.heap.assign f.context name value = (true, heap) := found
      rw [hfound] at hheap hgrows
      exact FramesFieldsSet.fieldsSet (hnow rfl hheap hgrows
        fun id hid => .inl (top ▸ List.mem_cons_of_mem _ hid))
  | @push id =>
      exact FramesFieldsSet.fieldsSet (hnow rfl hf.below.heap (.refl _)
        (hpush (List.Subset.refl _) (hf.pushes id List.mem_cons_self)))
  | @pop value others top =>
      exact FramesFieldsSet.fieldsSet (hnow rfl hf.below.heap (.refl _)
        fun id hid => .inl (top ▸ List.mem_cons_of_mem _ hid))
  | @dup value others top =>
      exact FramesFieldsSet.fieldsSet (hnow rfl hf.below.heap (.refl _)
        (hpush (List.Subset.refl _) (hf.all rfl value (top ▸ List.mem_cons_self))))
  | @swap first second others top =>
      refine FramesFieldsSet.fieldsSet (hnow rfl hf.below.heap (.refl _) fun id hid => .inl ?_)
      rw [top]
      exact (List.Perm.swap first second others).subset hid
  | @get name receiver value object others top known held =>
      exact FramesFieldsSet.fieldsSet (hnow rfl hf.below.heap (.refl _) (hpush
        (fun id hid => top ▸ List.mem_cons_of_mem _ hid)
        (hf.below.heap.object known _ (Object.mem_ids_of_field held))))
  | @set name receiver value old object others top known held =>
      have hvalue := hf.all rfl value (top ▸ List.mem_cons_self)
      have hchange : m.heap.Change (· <+: ·) (m.heap.putField receiver name value) := .putField ..
      exact FramesFieldsSet.fieldsSet (hnow rfl (hf.below.heap.putField receiver name hvalue)
        hchange.grows fun id hid =>
          .inl (top ▸ List.mem_cons_of_mem _ (List.mem_cons_of_mem _ hid)))
  | @number module value =>
      obtain ⟨hheap, hvalue⟩ := hf.below.heap.number (hf.named module _ rfl) value
      exact FramesFieldsSet.fieldsSet (hnow rfl hheap (Heap.intern_grows ..)
        (hpush (List.Subset.refl _) hvalue))
  | @string module value =>
      obtain ⟨hheap, hvalue⟩ := hf.below.heap.string (hf.named module _ rfl) value
      exact FramesFieldsSet.fieldsSet (hnow rfl hheap (Heap.intern_grows ..)
        (hpush (List.Subset.refl _) hvalue))
  | @collection module count enough =>
      have helements : ∀ x ∈ ({ module, inner := some (.collection
          (f.operands.take count).reverse) } : Object).ids, e.program.HasFields m.heap x :=
        fun x hx => hf.all rfl x (List.mem_of_mem_take (List.mem_reverse.1 hx))
      exact FramesFieldsSet.fieldsSet (hnow rfl (hf.below.heap.allocate helements)
        (Heap.allocate_grows ..) (hpush (List.drop_subset ..)
          (Program.hasFields_allocate (hf.named module _ rfl))))
  | @make module =>
      have hgrows := Heap.allocate_grows m.heap (e.instanceIn f.context module)
      have hbare : ∀ x ∈ (e.instanceIn f.context module).ids, e.program.HasFields m.heap x := by
        intro x hx
        unfold instanceIn at hx
        split at hx <;> cases hx
      have hheap := hf.below.heap.allocate hbare
      refine ⟨hf.below.onHeap hheap hgrows, fun g hg => .inr ?_⟩
      cases hg
      refine ⟨hf.setsFields module rfl, fun id hid => ?_,
        fun id hid => (hf.constants id hid).mono hgrows⟩
      exact (hf.all rfl id hid).mono hgrows
  | init top _ ends => exact hf.constructs he top ends
  | initFails top _ ends => exact hf.constructs he top ends
  | call _ top ends => exact hf.dispatches he top ends
  | callFails _ top ends => exact hf.dispatches he top ends
  | @inherits module value object others top known =>
      have hbool (value : Bool) : ObjectId.ofBool value ≤ ObjectId.void := by
        cases value <;> decide
      exact FramesFieldsSet.fieldsSet (hnow rfl hf.below.heap (.refl _) (hpush
        (fun id hid => top ▸ List.mem_cons_of_mem _ hid) (hf.below.heap.reserved _ (hbool _))))
  | @jump count condition others taken top =>
      exact FramesFieldsSet.fieldsSet (hf.next rfl hf.below.heap (.refl _) rfl
        fun id hid => .inl (top ▸ List.mem_cons_of_mem _ hid))
  | @branch thenBranch elseBranch condition others top =>
      have hgrows := Heap.newContext_grows m.heap (.context f.context)
      have hheap := hf.below.heap.sheltered f 1
      have hwaits : FramesFieldsSet e.program (m.heap.newContext (.context f.context)).2
          ((f.dropping 1).resuming [.result] :: rest) :=
        hf.next rfl hheap hgrows rfl fun id hid => .inl (List.mem_of_mem_drop hid)
      refine FramesFieldsSet.fieldsSet (hwaits.cons (hf.block hgrows ?_ _ []))
      cases condition with
      | true => exact List.subset_append_left _ _
      | false => exact List.subset_append_right _ _
  | branchFull =>
      exact Machine.fieldsSetBelow_of_unthrown (fun _ heq => nomatch heq)
        (hf.below.onHeap (hf.below.heap.sheltered f 1) (Heap.newContext_grows ..))
  | protect => exact FramesFieldsSet.fieldsSet (hf.protects 3)
  | @protectFull body handler always count few =>
      have halways := (hf.protects (count + 1)).tail.tail
      refine Machine.fieldsSetBelow_of_unthrown (fun _ heq => nomatch heq) ?_
      rcases count with _ | _ | _ | count
      · exact halways.tail.tail
      · exact halways.tail
      · exact halways
      · omega
  | @interrupt kind value others top =>
      refine ⟨hf.below, fun id hid => ?_⟩
      rw [hid]
      exact hf.all rfl value (top ▸ List.mem_cons_self)
  | @resume kind value others pending top =>
      refine ⟨hf.below, fun id hid => ?_⟩
      rw [hid]
      exact hf.all rfl value (top ▸ List.mem_cons_self)

-- ================================================================ steps

/-- `unwind` only drops frames, and the value it hands on has its fields. -/
theorem Unwinds.fieldsSet {kind : Interruption} {value : ObjectId}
    {r : EStateM.Result Failure Machine Unit} (h : Unwinds kind value m r)
    (hm : m.FieldsSetBelow e.program (· = value)) : (stateOf r).FieldsSet e.program := by
  obtain ⟨hh, hvalue⟩ := hm
  have hleft := hh.unwind kind
  cases h with
  | caught unwinds =>
      rw [unwinds] at hleft
      refine FramesFieldsSet.fieldsSet (hleft.replace rfl fun id hid => ?_)
      rcases List.mem_cons.1 hid with rfl | hid
      · exact .inr (hvalue _ rfl)
      · exact .inl hid
  | uncaught _ => exact FramesFieldsSet.fieldsSet (.idle hh.heap)

/-- A machine that is laid out and holds what has its fields is
`FieldsSetBefore` the next instruction of its frame on top. -/
theorem fieldsSetBefore {j : Journal} (hf : m.frames = f :: rest) (hm : m.FieldsSet e.program)
    (hlaidOut : m.LaidOut e.program j) (hsound : m.Sound) (hproper : m.Proper) {i : Instruction}
    (hi : f.code[f.pc]? = some i) : e.FieldsSetBefore f.next rest m.heap i := by
  obtain ⟨zones, hbefore⟩ := laidBefore hf hlaidOut hsound hproper hi
  obtain ⟨hbelow, htop⟩ := hm
  rw [hf] at hbelow htop
  have hconstants : ∀ id ∈ constantsOf f.code, e.program.HasFields m.heap id :=
    (htop f rfl).elim Frame.FieldsSet.constants fun hbegins => hbegins.2.constants
  refine ⟨hbelow, (htop f rfl).imp (fun hall => hall.operands) ?_, hconstants, fun id hid => ?_,
    hbefore.sound, fun module value heq => ?_, fun module heq => ?_, hbefore.proper⟩
  · rintro ⟨⟨i', hi', hbegins⟩, hothers⟩
    cases hi.symm.trans hi'
    exact ⟨hbegins, fun id hid => hothers.operands id (by rwa [← List.drop_one] at hid)⟩
  · exact hconstants id (mem_constantsOf (List.mem_of_getElem? hi) hid)
  · subst heq
    exact Program.not_anonymous_of_name? (hbefore.stands.straight rfl).2.2
  · subst heq
    obtain ⟨notes, hlaid, -⟩ := hbefore.stands.laid_of_ne fun _ _ _ heq => nomatch heq
    obtain ⟨arity, code, _, hcode, -⟩ := hlaid.makes_next
    refine ⟨.init arity module true, ?_, rfl⟩
    show f.code[f.pc + 1]? = _
    rw [← List.head?_drop, hcode]
    rfl

/-- Every step keeps `Machine.FieldsSet`. -/
theorem step_fieldsSet (he : e.LinkedWithCore) {j : Journal} (hm : m.FieldsSet e.program)
    (hlaidOut : m.LaidOut e.program j) (hsound : m.Sound) (hproper : m.Proper)
    (busy : m.frames ≠ []) : (stateOf (e.step m)).FieldsSet e.program := by
  obtain ⟨f, rest, hf⟩ := List.exists_cons_of_ne_nil busy
  have hsteps := step_steps (e := e) hf
  generalize e.step m = r at hsteps
  cases hsteps with
  | done _ =>
      obtain ⟨hbelow, -⟩ := hm
      rw [hf] at hbelow
      exact FramesFieldsSet.fieldsSet hbelow
  | next hi does => exact does.fieldsSetAfter he (fieldsSetBefore hf hm hlaidOut hsound hproper hi)
  | leaves hi does ends =>
      exact ends.fieldsSet (does.fieldsSetAfter he
        (fieldsSetBefore hf hm hlaidOut hsound hproper hi))
  | @raises i fault _ _ _ _ hi does raised ends =>
      obtain ⟨hleft, hthrown⟩ := does.fieldsSetAfter he
        (fieldsSetBefore hf hm hlaidOut hsound hproper hi)
      cases raised with
      | thrown => exact ends.fieldsSet ⟨hleft, fun id hid => hthrown id (by rw [hid])⟩
      | made _ =>
          obtain ⟨hheap, hvalue⟩ := withMessage_fieldsSet hleft.heap he.named
            he.named.evaluationError fault.message
          refine ends.fieldsSet ⟨hleft.onHeap hheap (e.toWorld.withMessage_changes ..).grows, ?_⟩
          exact fun id hid => hid ▸ hvalue

-- ========================================================== evaluations

/-- The object that a test, program or fixture `Sees` has its fields. -/
theorem Sees.hasFields {h : Heap} {t : Tree} {parent : Link} (sees : e.Sees True t h parent)
    (id : ObjectId) (heq : parent = .object id) : e.program.HasFields h id := by
  cases sees with
  | globals => cases heq
  | created isDescribe _ known own =>
      cases heq
      refine Program.hasFields_of_named known ?_
      rw [own trivial]
      refine Program.not_isKind_of_isKind (fun kind hkind => ?_) isDescribe
      cases kind <;> first | rfl | cases hkind

/-- The code of an `Entry` pushes what every heap has. -/
theorem fieldsSet_enter (he : e.Orderly fun _ => True) (heap : m.heap.FieldsSet e.program)
    {code : Code} (entry : e.Entry code) (context : ContextId) :
    Machine.FieldsSet e.program
      { m with frames := [entryFrame code context, holderFrame context] } := by
  have hholder : (holderFrame context).FieldsSet e.program m.heap :=
    ⟨List.forall_mem_nil _, List.forall_mem_nil _⟩
  refine FramesFieldsSet.fieldsSet (((FramesFieldsSet.idle heap).cons hholder).cons
    ⟨List.forall_mem_nil _, fun id hid => heap.reserved id ?_⟩)
  rw [entryFrame, constantsOf_append, List.mem_append] at hid
  rcases hid with hid | hid
  · exact (entry.emits he .block).constants id hid
  · cases hid

theorem fieldsSet_initial (he : e.LinkedWithCore) : e.initialHeap.FieldsSet e.program where
  reserved id hid := by
    rcases id with _ | _ | _ | _ | id
    · exact Program.hasFields_of_named rfl he.named.object
    · exact Program.hasFields_of_named rfl he.named.boolean
    · exact Program.hasFields_of_named rfl he.named.boolean
    · exact Program.hasFields_of_named rfl he.named.object
    · exact absurd hid (by simp [ObjectId.void])
  object := by
    intro id o ho x hx
    rcases id with _ | _ | _ | _ | id <;> cases ho <;> cases hx
  locals := by
    intro id c hc x hx
    rcases id with _ | id <;> cases hc
    cases hx
  parent := by
    intro id c x hc hparent
    rcases id with _ | id <;> cases hc
    cases hparent
  interned entry hentry := nomatch hentry

/-- In every state of an evaluation, what is held has its fields, by induction
over how the state was `Traced`. -/
theorem Traced.fieldsSet (he : e.LinkedWithCore) {j : Journal} (h : e.Traced True j m) :
    m.FieldsSet e.program := by
  have hlawful : e.natives.Lawful := he.natives ▸ Natives.core_lawful
  have horderly : e.Orderly fun _ => True := .of_natives hlawful
  have hsound {j : Journal} {m : Machine} (h : e.Traced True j m) : m.Sound :=
    ((h.reached hlawful).sound_and_shape horderly).1
  have hidle {m : Machine} (heap : m.heap.FieldsSet e.program) (idle : m.frames = []) :
      m.FieldsSet e.program := by
    refine FramesFieldsSet.fieldsSet ?_
    rw [idle]
    exact .idle heap
  induction h with
  | initial => exact hidle (fieldsSet_initial he) rfl
  | @declareObject j m m' id _ idle named does ih =>
      rw [declareObject_eq] at does
      cases does
      have hmodule : ¬ e.program.isKind Kind.isAnonymous id := by
        refine Program.not_isKind_of_isKind (fun kind hkind => ?_)
          (namedObjects_isNamedObject named)
        cases kind with
        | singleton name => cases name <;> first | rfl | cases hkind
        | _ => cases hkind
      have hnew := ih.1.heap.allocate (o := { module := id }) fun x hx => nomatch hx
      exact hidle (hnew.declare _ _ (Program.hasFields_allocate hmodule)) idle
  | globals _ _ compiles ih => exact fieldsSet_enter horderly ih.1.heap (.globals compiles) _
  | describe _ _ _ ih => exact fieldsSet_enter horderly ih.1.heap (.describe _) _
  | newContext _ idle _ sees does ih =>
      rw [newContext_eq] at does
      cases does
      obtain ⟨t, hsees⟩ := sees trivial
      exact hidle (ih.1.heap.newContext hsees.hasFields) idle
  | @block j m m' t body code parent context _ _ inside block compiles sees does ih =>
      rw [newContext_eq] at does
      cases does
      exact fieldsSet_enter (m := { m with heap := (m.heap.newContext parent).2 }) horderly
        (ih.1.heap.newContext sees.hasFields) (.block inside block compiles) _
  | step from_ busy proper does ih =>
      have hstep := step_fieldsSet he ih (from_.laidOut he) (hsound from_) (proper trivial)
        (List.ne_nil_of_length_pos (Nat.zero_lt_of_lt busy))
      rwa [does] at hstep
  | fail from_ busy proper does ih =>
      have hstep := step_fieldsSet he ih (from_.laidOut he) (hsound from_) (proper trivial)
        (List.ne_nil_of_length_pos (Nat.zero_lt_of_lt busy))
      rwa [does] at hstep
  | takeResult _ _ does ih =>
      obtain ⟨hh, -⟩ := ih
      obtain ⟨_, rest, _, hframes, -, rfl⟩ := takeResult_ok does
      rw [hframes] at hh
      exact FramesFieldsSet.fieldsSet hh

end Engine

end ObjectMachine
