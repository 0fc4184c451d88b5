/-
The names that a step adds.

Heap/Growth.lean says what a step leaves: everything. This is the other
side. In a context that was there before, only an instruction that declares
a name binds a new one, and only in the context of its own frame. An object
that was there before gets new fields only when its construction begins,
and those are the fields of its module (`step_adds`). New contexts and new
objects may have any names.
-/
import Mathlib
import ObjectMachine.Proofs.Machine.Changes

namespace ObjectMachine

namespace Heap

/-- A heap later on, in which what was there has got no names but those that
are listed. -/
structure Adds (locals : ContextId → String → Prop) (fields : ObjectId → String → Prop)
    (h h' : Heap) : Prop where
  sizes : h.size ≤ h'.size ∧ h.contexts.size ≤ h'.contexts.size
  locals : ∀ {id name}, id < h.contexts.size → (h'.local? id name).isSome →
    (h.local? id name).isSome ∨ locals id name
  fields : ∀ {id o' name}, id < h.size → h'.object? id = some o' →
    (o'.fields.get? name).isSome →
    (∃ o, h.object? id = some o ∧ (o.fields.get? name).isSome) ∨ fields id name

namespace Adds

variable {locals : ContextId → String → Prop} {fields : ObjectId → String → Prop}
  {h₀ h h' : Heap}

theorem refl (h : Heap) : Adds locals fields h h where
  sizes := ⟨le_rfl, le_rfl⟩
  locals _ hl := .inl hl
  fields _ ho hf := .inl ⟨_, ho, hf⟩

theorem of_eq (heq : h' = h) : Adds locals fields h h' := by
  rw [heq]
  exact .refl h

theorem trans (first : Adds locals fields h₀ h) (second : Adds locals fields h h') :
    Adds locals fields h₀ h' where
  sizes := ⟨first.sizes.1.trans second.sizes.1, first.sizes.2.trans second.sizes.2⟩
  locals hid hl := (second.locals (hid.trans_le first.sizes.2) hl).elim (first.locals hid) .inr
  fields hid ho hf := by
    rcases second.fields (hid.trans_le first.sizes.1) ho hf with ⟨o, ho, hf⟩ | hnew
    · exact first.fields hid ho hf
    · exact .inr hnew

-- ====================================================== one change more

theorem allocate (adds : Adds locals fields h₀ h) (o : Object) :
    Adds locals fields h₀ (h.allocate o).2 := by
  refine adds.trans ⟨⟨by rw [size_allocate]; exact Nat.le_succ _, le_rfl⟩, fun _ hl => .inl hl, ?_⟩
  intro id o' name hid ho hf
  rw [object?_allocate, if_neg (Nat.ne_of_lt hid)] at ho
  exact .inl ⟨o', ho, hf⟩

theorem intern (adds : Adds locals fields h₀ h) (key : String) (module : NodeId) (inner : Inner) :
    Adds locals fields h₀ (h.intern key module inner).2 := by
  unfold Heap.intern
  split
  · exact adds
  · have hnew := adds.allocate { module, inner := some inner }
    exact ⟨hnew.sizes, hnew.locals, hnew.fields⟩

/-- `Adds` where the fields of objects are left alone. -/
theorem updateObject (adds : Adds locals fields h₀ h) (target : ObjectId) {f : Object → Object}
    (hf : ∀ o, (f o).fields = o.fields) : Adds locals fields h₀ (h.updateObject target f) := by
  refine adds.trans ⟨⟨(size_updateObject ..).ge, le_rfl⟩, fun _ hl => .inl hl, ?_⟩
  intro id o' name hid ho hfield
  rw [object?_updateObject] at ho
  split at ho
  · obtain ⟨o, hold, rfl⟩ := Option.map_eq_some_iff.1 ho
    rw [hf] at hfield
    exact .inl ⟨o, hold, hfield⟩
  · exact .inl ⟨o', ho, hfield⟩

theorem putField (adds : Adds locals fields h₀ h) {target : ObjectId} {name : String}
    (listed : target < h₀.size → fields target name) (value : ObjectId) :
    Adds locals fields h₀ (h.putField target name value) where
  sizes := ⟨adds.sizes.1.trans (size_updateObject ..).ge, adds.sizes.2⟩
  locals := adds.locals
  fields := by
    intro id o' other hid ho hfield
    rw [Heap.putField, object?_updateObject] at ho
    split at ho
    · next heq =>
      subst heq
      obtain ⟨o, hold, rfl⟩ := Option.map_eq_some_iff.1 ho
      rw [Bindings.get?_insert] at hfield
      split at hfield
      · next hsame =>
        subst hsame
        exact .inr (listed hid)
      · exact adds.fields hid hold hfield
    · exact adds.fields hid ho hfield

theorem putAll (adds : Adds locals fields h₀ h) {target : ObjectId} {names : List String}
    (listed : target < h₀.size → ∀ name ∈ names, fields target name) (value : ObjectId) :
    Adds locals fields h₀ (h.putAll target names value) := by
  unfold Heap.putAll
  induction names generalizing h with
  | nil => exact adds
  | cons name rest ih =>
      exact ih (adds.putField (fun hid => listed hid name List.mem_cons_self) value)
        fun hid other hmem => listed hid other (List.mem_cons_of_mem _ hmem)

theorem newContext (adds : Adds locals fields h₀ h) (parent : Link) :
    Adds locals fields h₀ (h.newContext parent).2 := by
  refine adds.trans ⟨⟨le_rfl, by simp [Heap.newContext]⟩, ?_, fun _ ho hf => .inl ⟨_, ho, hf⟩⟩
  intro id name hid hl
  rw [Heap.local?, context?_newContext, if_neg (Nat.ne_of_lt hid)] at hl
  exact .inl hl

theorem declare (adds : Adds locals fields h₀ h) {target : ContextId} {name : String}
    (listed : target < h₀.contexts.size → locals target name) (value : ObjectId) :
    Adds locals fields h₀ (h.declare target name value) where
  sizes := ⟨adds.sizes.1, adds.sizes.2.trans (contexts_size_declare ..).ge⟩
  locals := by
    intro id other hid hl
    by_cases hsame : target = id ∧ other = name
    · obtain ⟨rfl, rfl⟩ := hsame
      exact .inr (listed hid)
    · rw [local?_declare_of_ne (not_and_or.1 hsame)] at hl
      exact adds.locals hid hl
  fields := adds.fields

end Adds

-- ============================================================== holders

/-- What holds a name binds it. -/
def Binds (h : Heap) (name : String) : Link → Prop
  | .context id => (h.local? id name).isSome
  | .object id => ∃ o, h.object? id = some o ∧ (o.fields.get? name).isSome

theorem binds_of_holderFrom {h : Heap} {name : String} {fuel : Nat} {link holder : Link}
    (hh : h.holderFrom name fuel link = some holder) : h.Binds name holder := by
  induction fuel generalizing link with
  | zero => cases hh
  | succ fuel ih =>
      cases link with
      | context id =>
          rw [holderFrom] at hh
          split at hh
          · cases hh
          · next c hc =>
            split at hh
            · next value hvalue =>
              cases hh
              show (h.local? id name).isSome
              rw [local?, hc, Option.bind_some, hvalue]
              rfl
            · obtain ⟨link, -, hlink⟩ := Option.bind_eq_some_iff.1 hh
              exact ih hlink
      | object id =>
          rw [holderFrom] at hh
          split at hh
          · cases hh
          · next o ho =>
            split at hh
            · next value hvalue =>
              cases hh
              exact ⟨o, ho, by rw [hvalue]; rfl⟩
            · exact ih hh

/-- `assign` adds no name. -/
theorem assign_adds {locals : ContextId → String → Prop} {fields : ObjectId → String → Prop}
    (h : Heap) (id : ContextId) (name : String) (value : ObjectId) :
    h.Adds locals fields (h.assign id name value).2 := by
  unfold assign
  split
  · next holder hholder =>
    have hbinds := binds_of_holderFrom hholder
    have hadds : h.Adds (fun id' name' => id' = holder ∧ name' = name) fields
        (h.declare holder name value) := (Adds.refl h).declare (fun _ => ⟨rfl, rfl⟩) value
    refine ⟨hadds.sizes, fun hid hl => ?_, hadds.fields⟩
    rcases hadds.locals hid hl with hold | ⟨rfl, rfl⟩
    · exact .inl hold
    · exact .inl hbinds
  · next holder hholder =>
    have hbinds := binds_of_holderFrom hholder
    have hadds : h.Adds locals (fun id' name' => id' = holder ∧ name' = name)
        (h.putField holder name value) := (Adds.refl h).putField (fun _ => ⟨rfl, rfl⟩) value
    refine ⟨hadds.sizes, hadds.locals, fun hid ho hf => ?_⟩
    rcases hadds.fields hid ho hf with hold | ⟨rfl, rfl⟩
    · exact .inl hold
    · exact .inl hbinds
  · exact .refl h

end Heap

-- ======================================================= parts of heaps

section

variable {locals : ContextId → String → Prop} {fields : ObjectId → String → Prop} {h₀ h : Heap}

theorem World.bindAll_adds (w : World) {context : ContextId} (hnew : h₀.contexts.size ≤ context)
    (parameters : List Tree) (args : List ObjectId) (adds : h₀.Adds locals fields h) :
    h₀.Adds locals fields (w.bindAll context parameters args h) := by
  have hlisted {name : String} (hold : context < h₀.contexts.size) : locals context name :=
    absurd hold (Nat.not_lt.2 hnew)
  induction parameters generalizing args h with
  | nil => exact adds
  | cons parameter rest ih =>
      rw [bindAll]
      refine ih _ ?_
      split
      · exact (adds.allocate _).declare hlisted _
      · exact adds.declare hlisted _
      · exact adds

theorem World.withMessage_adds (w : World) (module : NodeId) (message : String)
    (adds : h₀.Adds locals fields h) :
    h₀.Adds locals fields (w.withMessage module message h) := by
  have hnew {name : String} (hold : h.size < h₀.size) : fields h.size name :=
    absurd hold (Nat.not_lt.2 adds.sizes.1)
  have htext := (adds.allocate { module }).intern (Heap.stringKey message) w.core.string
    (.string message)
  exact (htext.putAll (fun hold _ _ => hnew hold) _).putField hnew _

end

namespace Engine

/-- The names that an instruction may declare: in the context of its frame, the
one of a `store` that does not look it up. -/
def Declares (f : Frame) (i : Instruction) (context : ContextId) (name : String) : Prop :=
  context = f.context ∧ i = .store name false

/-- The fields that an `init` may give to an object: those of the module as
which it is constructed. -/
def SetsUp (e : Engine) (f : Frame) (i : Instruction) (id : ObjectId) (name : String) : Prop :=
  ∃ arity start others, i = .init arity start true ∧ f.operands = id :: others
    ∧ name ∈ (e.program.initializedFields start).filterMap Tree.name?

variable {e : Engine} {f g : Frame} {rest : List Frame} {m : Machine}
  {locals : ContextId → String → Prop} {fields : ObjectId → String → Prop}

theorem prepared_adds {receiver : ObjectId} {start : NodeId} {initFields : Bool}
    (listed : initFields = true →
      ∀ name ∈ (e.program.initializedFields start).filterMap Tree.name?, fields receiver name)
    (h : Heap) : h.Adds locals fields (e.prepared receiver start initFields h) := by
  unfold prepared
  split
  · next hinit => exact (Heap.Adds.refl h).putAll (fun _ => listed hinit) _
  · exact .refl h

theorem Constructs.adds {receiver : ObjectId} {start : NodeId} {args : List ObjectId}
    {initFields : Bool} {r : EStateM.Result Fault Machine Unit}
    (h : e.Constructs receiver start args initFields g rest m r)
    (listed : initFields = true →
      ∀ name ∈ (e.program.initializedFields start).filterMap Tree.name?, fields receiver name) :
    m.heap.Adds locals fields (stateOf r).heap := by
  have hprepared : m.heap.Adds locals fields (e.prepared receiver start initFields m.heap) :=
    prepared_adds listed m.heap
  cases h with
  | refused _ => exact .refl _
  | uncompiled => exact hprepared
  | started _ ends =>
      have hself : m.heap.Adds locals fields
          (((e.prepared receiver start initFields m.heap).newContext (.object receiver)).2.declare
            m.heap.contexts.size "self" receiver) :=
        (hprepared.newContext _).declare (fun hold => absurd hold (Nat.lt_irrefl _)) _
      cases ends <;> exact e.toWorld.bindAll_adds le_rfl _ _ hself

theorem Performs.adds {w : World} {receiver : ObjectId} {args : List ObjectId}
    {r : EStateM.Result Fault Machine Unit} (h : Natives.Performs w receiver args g rest m r) :
    m.heap.Adds locals fields (stateOf r).heap := by
  cases h with
  | fault _ => exact .refl _
  | reserved _ => exact .refl _
  | element _ _ => exact .refl _
  | number value => exact (Heap.Adds.refl _).intern _ _ _
  | string value => exact (Heap.Adds.refl _).intern _ _ _
  | print line => exact .refl _
  | add _ _ => exact (Heap.Adds.refl _).updateObject _ fun _ => rfl
  | callBack _ _ _ ends => cases ends <;> exact .refl _
  | throw message _ => exact w.withMessage_adds _ _ (.refl _)

variable (hn : e.natives = Natives.core)
include hn

theorem Invokes.adds {method : NodeId} {receiver : ObjectId} {args : List ObjectId}
    {r : EStateM.Result Fault Machine Unit} (h : e.Invokes method receiver args g rest m r)
    (hframes : m.frames = g :: rest) : m.heap.Adds locals fields (stateOf r).heap := by
  cases h with
  | refused _ => exact .refl _
  | native found arity =>
      rw [hn] at found
      exact Performs.adds (Natives.core_performs found arity hframes)
  | started _ _ ends =>
      have hnew : m.heap.Adds locals fields (m.heap.newContext (.object receiver)).2 :=
        (Heap.Adds.refl _).newContext _
      cases ends <;> exact e.toWorld.bindAll_adds le_rfl _ _ hnew

theorem Dispatches.adds {receiver : ObjectId} {message : String} {args : List ObjectId}
    {start : Option NodeId} {r : EStateM.Result Fault Machine Unit}
    (h : e.Dispatches receiver message args start g rest m r) (hframes : m.frames = g :: rest) :
    m.heap.Adds locals fields (stateOf r).heap := by
  cases h with
  | refused _ => exact .refl _
  | answered _ _ ends => exact ends.adds hn hframes
  | fallback _ _ _ ends =>
      have hcall : m.heap.Adds locals fields (e.misunderstood message args m.heap) :=
        ((Heap.Adds.refl _).intern _ _ _).allocate _
      exact hcall.trans (ends.adds hn hframes)

theorem Conduct.adds {i : Instruction} {r : EStateM.Result Fault Machine Flow}
    (h : e.Conduct f rest m i r) :
    m.heap.Adds (Declares f i) (e.SetsUp f i) (stateOf r).heap := by
  have hinit {arity : Nat} {start : NodeId} {initFields : Bool} {receiver : ObjectId}
      {others : List ObjectId} (top : f.operands = receiver :: others) (hi : initFields = true) :
      ∀ name ∈ (e.program.initializedFields start).filterMap Tree.name?,
        e.SetsUp f (.init arity start initFields) receiver name :=
    fun name hname => ⟨arity, start, others, by rw [hi], top, hname⟩
  have hopened (count : Nat) :
      m.heap.Adds (Declares f i) (e.SetsUp f i) (sheltered f count m.heap) := by
    induction count with
    | zero => exact .refl _
    | succ count ih =>
        rw [sheltered_succ]
        exact ih.newContext _
  cases h with
  | fault _ heap _ => exact .of_eq heap
  | load _ => exact .refl _
  | bind _ => exact (Heap.Adds.refl _).declare (fun _ => ⟨rfl, rfl⟩) _
  | @assign name value _ _ _ found =>
      have hassigned : m.heap.Adds (Declares f (.store name true)) (e.SetsUp f (.store name true))
          (m.heap.assign f.context name value).2 := m.heap.assign_adds f.context name value
      rw [found] at hassigned
      exact hassigned
  | push => exact .refl _
  | pop _ => exact .refl _
  | dup _ => exact .refl _
  | swap _ => exact .refl _
  | get _ _ _ => exact .refl _
  | @set name receiver value old object others top known held =>
      refine ⟨⟨(Heap.size_updateObject ..).ge, le_rfl⟩, fun _ hl => .inl hl, ?_⟩
      intro id o' other hid ho hf
      have hadds : m.heap.Adds (Declares f (.set name))
          (fun id' name' => id' = receiver ∧ name' = name) (m.heap.putField receiver name value) :=
        (Heap.Adds.refl _).putField (fun _ => ⟨rfl, rfl⟩) value
      rcases hadds.fields hid ho hf with hold | ⟨rfl, rfl⟩
      · exact .inl hold
      · exact .inl ⟨object, known, by rw [held]; rfl⟩
  | number => exact (Heap.Adds.refl _).intern _ _ _
  | string => exact (Heap.Adds.refl _).intern _ _ _
  | collection _ => exact (Heap.Adds.refl _).allocate _
  | make => exact (Heap.Adds.refl _).allocate _
  | init top _ ends => exact ends.adds (m := { m with frames := _ }) (hinit top)
  | initFails top _ ends => exact ends.adds (m := { m with frames := _ }) (hinit top)
  | call _ _ ends => exact ends.adds hn rfl
  | callFails _ _ ends => exact ends.adds hn rfl
  | inherits _ _ => exact .refl _
  | jump _ _ => exact .refl _
  | branch _ => exact (Heap.Adds.refl _).newContext _
  | branchFull => exact (Heap.Adds.refl _).newContext _
  | protect => exact hopened 3
  | protectFull count _ => exact hopened (count + 1)
  | interrupt _ => exact .refl _
  | resume _ _ => exact .refl _

/-- A `step` adds the names that its instruction `Declares` or `SetsUp`. -/
theorem step_adds {i : Instruction} (hf : m.frames = f :: rest) (hi : f.code[f.pc]? = some i) :
    m.heap.Adds (Declares f i) (e.SetsUp f i) (stateOf (e.step m)).heap := by
  have hsteps := step_steps (e := e) hf
  generalize e.step m = r at hsteps
  cases hsteps with
  | done ended => cases ended.symm.trans hi
  | next instruction does =>
      cases instruction.symm.trans hi
      exact does.adds (m := { m with frames := _ }) hn
  | leaves instruction does ends =>
      cases instruction.symm.trans hi
      rw [ends.heap_eq]
      exact does.adds (m := { m with frames := _ }) hn
  | raises instruction does raised ends =>
      cases instruction.symm.trans hi
      rw [ends.heap_eq]
      have hdoes := does.adds (m := { m with frames := _ }) hn
      cases raised with
      | thrown => exact hdoes
      | made _ => exact e.toWorld.withMessage_adds _ _ hdoes

end Engine

end ObjectMachine
