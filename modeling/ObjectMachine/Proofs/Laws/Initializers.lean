/-
What initial values of fields see.

The code of a construction sets up the fields first and then runs the
constructor, all of it in one context, in which the parameters of the
constructor are bound from the start. So an initial value that refers to a
field gets the argument instead, if a parameter has the name of the field.
There is no other way: as long as fields are set up, the context binds
nothing but `self` and the parameters, as expressions declare nothing
(`fieldsCode_declaresNothing`), and the object has all its fields from the
start (`initializers_read_fields`).
-/
import Mathlib
import ObjectMachine.Proofs.Laws.Activations
import ObjectMachine.Proofs.Laws.Scopes
import ObjectMachine.Proofs.Machine.Additions
import ObjectMachine.Proofs.Machine.AlwaysRun
import ObjectMachine.Proofs.Machine.Turns

namespace ObjectMachine

-- ================================================= what code declares

/-- Code that declares no name in its own context: every `store` in it looks the
name up. What nested code declares is in the contexts of that code. -/
def Code.DeclaresNothing (code : Code) : Prop := ∀ name, Instruction.store name false ∉ code

theorem Code.DeclaresNothing.append {code more : Code} (first : code.DeclaresNothing)
    (second : more.DeclaresNothing) : Code.DeclaresNothing (code ++ more) :=
  fun name hmem => (List.mem_append.1 hmem).elim (first name) (second name)

/-- The placement in which nothing is declared in the `loose` zone. Blocks may
declare what they like, in the zones they start. -/
def Placement.undeclaring : Placement where
  Stands _ _ := True
  Opens _ := True
  Declares zone _ := zone ≠ .loose
  part _ _ _ := trivial
  detached _ _ := trivial
  opens _ := trivial
  sentence _ _ _ := trivial
  declares _ _ _ _ _ := nofun

/-- Nothing else declares a name than the declaration of a variable and the
choice of a handler, and neither is compiled in the `loose` zone. -/
theorem Compiled.declaresNothing {p : Program} {zone : Zone} {a b : Nat} {code : Code}
    {notes : List Note} (h : Compiled p .undeclaring zone a b code notes) (hzone : zone = .loose) :
    code.DeclaresNothing := by
  induction h with
  | append _ _ ih1 ih2 => exact (ih1 hzone).append (ih2 hzone)
  | lift _ k ih => exact ih hzone
  | plain effect plain =>
      intro name hmem
      rw [← List.mem_singleton.1 hmem] at plain
      cases plain
  | declare declares => exact absurd hzone declares
  | superSend stands kind method _ ih =>
      have hself : Code.DeclaresNothing [.load "self"] := by simp [Code.DeclaresNothing]
      exact (hself.append (ih hzone)).append (by simp [Code.DeclaresNothing])
  | handler => cases hzone
  | guarded _ ih =>
      intro name hmem
      rcases List.mem_cons.1 hmem with hjump | hmem
      · cases hjump
      · exact ih hzone name hmem
  | _ => simp [Code.DeclaresNothing]

namespace Program

variable {p : Program}

/-- Nothing is declared by `fieldsCode`, which is compiled in the `loose`
zone. -/
theorem fieldsCode_declaresNothing {fields : List Tree} {code : Code}
    (h : p.fieldsCode fields = .ok code) : code.DeclaresNothing := by
  have hcompiled : Compiled p .undeclaring .loose 0 0 code _ :=
    fieldsCode_compiled fields (fun _ _ _ _ => trivial) h
  exact hcompiled.declaresNothing rfl

/-- `initCode` begins with the `fieldsCode` of the `initializedFields`. -/
theorem initCode_fields {start : NodeId} {constructor : Option NodeId} {code : Code}
    (h : p.initCode start constructor true = .ok code) :
    ∃ fields, p.fieldsCode (p.initializedFields start) = .ok fields ∧ fields <+: code := by
  simp only [initCode, if_true, bind_ok_iff] at h
  obtain ⟨fields, hfields, h⟩ := h
  refine ⟨fields, hfields, ?_⟩
  cases constructor with
  | some constructor =>
      simp only [bind_ok_iff, pure_ok_iff] at h
      obtain ⟨constructorCode, -, rfl⟩ := h
      rw [List.append_assoc]
      exact List.prefix_append _ _
  | none =>
      simp only [bind_ok_iff, pure_ok_iff] at h
      obtain ⟨_, rfl, rfl⟩ := h
      rw [List.append_assoc]
      exact List.prefix_append _ _

end Program

-- ============================================================== lookups

namespace Heap

/-- A context inside another one, with only blocks in between that do not bind
the name. -/
inductive Nested (h : Heap) (name : String) (outer : ContextId) : ContextId → Prop
  | here : Nested h name outer outer
  | inner {id parent : ContextId} {c : Context} (known : h.context? id = some c)
      (unbound : c.locals.get? name = none) (hangs : c.parent = some (.context parent))
      (within : Nested h name outer parent) : Nested h name outer id

variable {h : Heap} {name : String}

theorem Nested.lookup_eq (hr : h.Ranked) {outer id : ContextId} (hn : h.Nested name outer id) :
    h.lookup id name = h.lookup outer name := by
  induction hn with
  | here => rfl
  | inner known unbound hangs _ ih => exact (hr.lookupFrom_context known unbound hangs).trans ih

/-- `lookup` passes from a context that does not bind a name to its object. -/
theorem lookup_of_field (hr : h.Ranked) {id : ContextId} {c : Context} {receiver : ObjectId}
    {o : Object} {value : ObjectId} (hc : h.context? id = some c)
    (hunbound : h.local? id name = none) (hparent : c.parent = some (.object receiver))
    (ho : h.object? receiver = some o) (hself : name ≠ "self")
    (hfield : o.fields.get? name = some value) : h.lookup id name = some value := by
  have hlocal : c.locals.get? name = none := by
    rw [local?, hc] at hunbound
    exact hunbound
  have hother : (o.answersSelf && name == "self") = false := by
    rw [beq_false_of_ne hself, Bool.and_false]
  rw [lookup, hr.lookupFrom_context hc hlocal hparent, chainBound, lookupFrom]
  simp only [ho, hother, hfield, Bool.false_eq_true, if_false]

/-- Fields that `putAll` sets are there. -/
theorem field_putAll {id : ObjectId} {o : Object} (ho : h.object? id = some o)
    {names : List String} (hname : name ∈ names) (value : ObjectId) :
    ∃ o', (h.putAll id names value).object? id = some o' ∧ (o'.fields.get? name).isSome := by
  unfold putAll
  induction names generalizing h o with
  | nil => cases hname
  | cons first rest ih =>
      have hput : (h.putField id first value).object? id
          = some { o with fields := o.fields.insert first value } := by
        rw [putField, object?_updateObject, if_pos rfl, ho]
        rfl
      rcases List.mem_cons.1 hname with rfl | hname
      · have hrest : (h.putField id name value).Changes (· <+: ·)
            ((h.putField id name value).putAll id rest value) := putAll_changes ..
        obtain ⟨o', ho', hgrows⟩ := hrest.grows.object hput
        refine ⟨o', ho', hgrows.fields name ?_⟩
        rw [Bindings.get?_insert, if_pos rfl]
        rfl
      · exact ih hput hname

end Heap

/-- `bindAll` binds the names of parameters only. -/
theorem World.local?_bindAll {w : World} {context : ContextId} {name : String}
    {parameters : List Tree} (hname : name ∉ parameters.filterMap Tree.name?)
    (args : List ObjectId) (h : Heap) :
    (w.bindAll context parameters args h).local? context name = h.local? context name := by
  induction parameters generalizing args h with
  | nil => rfl
  | cons parameter rest ih =>
      have hrest : name ∉ rest.filterMap Tree.name? := by
        rw [List.filterMap_cons] at hname
        split at hname
        · exact hname
        · exact fun hmem => hname (List.mem_cons_of_mem _ hmem)
      have hfirst {own : String} {varArg : Bool}
          (hkind : parameter.kind = .parameter own varArg) : name ≠ own := by
        rintro rfl
        refine hname (List.mem_filterMap.2 ⟨parameter, List.mem_cons_self, ?_⟩)
        rw [Tree.name?, hkind]
        rfl
      rw [bindAll, ih hrest]
      split
      · next hkind => exact Heap.local?_declare_of_ne (.inr (hfirst hkind)) _
      · next hkind => exact Heap.local?_declare_of_ne (.inr (hfirst hkind)) _
      · rfl

namespace Engine

variable {e : Engine} {m m' : Machine} {receiver : ObjectId} {start : NodeId} {arity : Nat}

-- ========================================================= constructions

/-- A step at an `init` that begins to construct `receiver` as an instance of
`start`, its fields included. -/
structure BeginsConstruction (e : Engine) (m m' : Machine) (receiver : ObjectId) (start : NodeId)
    (arity : Nat) : Prop where
  step : e.step m = .ok () m'
  instruction : ∃ f rest others, m.frames = f :: rest
    ∧ f.code[f.pc]? = some (.init arity start true) ∧ f.operands = receiver :: others
  begins : m.frames.length < m'.frames.length

/-- A construction begins with the frame that runs its `initCode`. -/
theorem BeginsConstruction.runs (h : e.BeginsConstruction m m' receiver start arity) :
    ∃ code below args, args.length = arity
      ∧ e.program.initCode start (e.program.lookupConstructor? start arity) true = .ok code
      ∧ m'.frames = { code, context := m.heap.contexts.size } :: below
      ∧ m'.heap = e.constructing receiver start args true m.heap := by
  obtain ⟨f, rest, others, hframes, hcode, hoperands⟩ := h.instruction
  have hsteps := step_steps (e := e) hframes
  rw [h.step] at hsteps
  cases hsteps with
  | done ended => cases ended.symm.trans hcode
  | next instruction does =>
      cases instruction.symm.trans hcode
      cases does with
      | init top enough ends =>
          cases hoperands.symm.trans top
          have hlength : (others.take arity).reverse.length = arity := by
            rw [List.length_reverse, List.length_take, Nat.min_eq_left enough]
          cases ends with
          | started compiles ends =>
              rw [hlength] at compiles
              cases ends
              exact ⟨_, _, _, hlength, compiles, rfl, rfl⟩
  | leaves instruction does _ =>
      cases instruction.symm.trans hcode
      cases does
  | raises instruction does raised ends =>
      -- An exception that is caught is handled in a frame that was there.
      cases instruction.symm.trans hcode
      exfalso
      have htail : ∀ {fault : Fault} {m₁ : Machine}, e.Conduct f.next rest
          { m with frames := f.next :: rest } (.init arity start true) (.error fault m₁) →
          m₁.frames.tail = rest := by
        intro fault m₁ does
        cases does with
        | fault _ _ tail => exact tail
        | initFails _ _ ends => exact ends.leaves rfl
      have hsame : ∀ {m₁ m₂ : Machine} {fault : Fault} {value : ObjectId},
          e.Raises m₁ fault value m₂ → m₂.frames = m₁.frames := by
        intro m₁ m₂ fault value h
        cases h <;> rfl
      have hbegins := h.begins
      cases ends with
      | caught unwinds =>
          rw [hsame raised, htail does] at unwinds
          have hle := unwind_length_le .exception rest
          rw [unwinds] at hle
          rw [hframes] at hbegins
          simp only [List.length_cons] at hle hbegins
          omega

/-- What is there before arguments are bound stays (`Grows`). -/
theorem grows_constructing (receiver : ObjectId) (start : NodeId) (args : List ObjectId)
    (initFields : Bool) (h : Heap) :
    ((e.prepared receiver start initFields h).newContext (.object receiver)).2.Grows
      (e.constructing receiver start args initFields h) := by
  have hbound : Heap.Changes (· <+: ·) _ (e.constructing receiver start args initFields h) :=
    e.toWorld.bindAll_changes ..
  exact (Heap.declare_grows ..).trans hbound.grows

/-- The context that `constructing` opens hangs from the object. -/
theorem constructing_context (receiver : ObjectId) (start : NodeId) (args : List ObjectId)
    (initFields : Bool) (h : Heap) :
    ∃ c, (e.constructing receiver start args initFields h).context? h.contexts.size = some c
      ∧ c.parent = some (.object receiver) := by
  have hnew : ((e.prepared receiver start initFields h).newContext (.object receiver)).2.context?
      h.contexts.size = some { parent := some (.object receiver) } := by
    rw [Heap.context?_newContext, contexts_prepared, if_pos rfl]
  obtain ⟨c, hc, hgrows⟩ := (grows_constructing receiver start args initFields h).context hnew
  exact ⟨c, hc, hgrows.parent⟩

/-- It binds `self` and the parameters of the constructor only. -/
theorem constructing_unbound {name : String} {args : List ObjectId} (hself : name ≠ "self")
    (hname : name ∉ (e.parametersOf (e.program.lookupConstructor? start args.length)).filterMap
      Tree.name?) (receiver : ObjectId) (initFields : Bool) (h : Heap) :
    (e.constructing receiver start args initFields h).local? h.contexts.size name = none := by
  rw [constructing, World.local?_bindAll hname, Heap.local?_declare_of_ne (.inr hself), Heap.local?,
    Heap.context?_newContext, contexts_prepared, if_pos rfl]
  rfl

/-- The object has all the `initializedFields`. -/
theorem constructing_fields {name : String} {h : Heap} {o : Object}
    (ho : h.object? receiver = some o)
    (hname : name ∈ (e.program.initializedFields start).filterMap Tree.name?)
    (args : List ObjectId) :
    ∃ o', (e.constructing receiver start args true h).object? receiver = some o'
      ∧ (o'.fields.get? name).isSome := by
  obtain ⟨o₁, ho₁, hfield⟩ := Heap.field_putAll ho hname ObjectId.null
  have hprepared : ((e.prepared receiver start true h).newContext (.object receiver)).2.object?
      receiver = some o₁ := by
    rw [Heap.object?_newContext, prepared, if_pos rfl]
    exact ho₁
  obtain ⟨o', ho', hgrows⟩ := (grows_constructing receiver start args true h).object hprepared
  exact ⟨o', ho', hgrows.fields name hfield⟩

-- ================================================================ the run

/-- A construction is going on: its frame is on top of `below`, no other
frame runs in its context, and while fields are set up the context does not
bind the name. -/
structure SetsUpFields (code : Code) (context : ContextId) (fields : Nat) (name : String)
    (below : List Frame) (m : Machine) : Prop where
  counterIn : CounterIn True code context
    (fun pc => pc ≤ fields → m.heap.local? context name = none)
    below m.frames
  known : context ≠ rootContext ∧ context < m.heap.contexts.size

/-- One step keeps `SetsUpFields`, be it of the construction or of what it has
started. -/
theorem SetsUpFields.step (hn : e.natives = Natives.core) {code fields : Code}
    {context : ContextId} {name : String} {below : List Frame} (hstarts : fields <+: code)
    (hfields : fields.DeclaresNothing)
    (h : SetsUpFields code context fields.length name below m) (hstep : e.step m = .ok () m')
    (hdeep : below.length < m'.frames.length) :
    SetsUpFields code context fields.length name below m' := by
  have htactful : e.natives.Tactful := hn ▸ Natives.core_tactful
  obtain ⟨⟨above, g, hframes, rfl, rfl, hunbound, habove⟩, hroot, hcontext⟩ := h
  have hgrows : m.heap.Grows m'.heap := by
    have hchanges := step_changes (hn ▸ Natives.core_careful) m
    rw [hstep] at hchanges
    exact hchanges.grows
  have hknown : g.context ≠ rootContext ∧ g.context < m'.heap.contexts.size :=
    ⟨hroot, hcontext.trans_le hgrows.contexts_size_le⟩
  -- Only the frame itself can bind the name, and only once fields are set up.
  have hkeeps {f : Frame} {rest : List Frame} (hf : m.frames = f :: rest)
      (hnone : m.heap.local? g.context name = none)
      (hother : f.context = g.context → f.code[f.pc]? ≠ some (.store name false)) :
      m'.heap.local? g.context name = none := by
    cases hi : f.code[f.pc]? with
    | none =>
        have hended : e.step m = .ok () { m with frames := rest } := by
          simp only [Engine.step, hf, hi]
        cases hended.symm.trans hstep
        exact hnone
    | some i =>
        have hadds := step_adds hn hf hi
        rw [hstep] at hadds
        rw [← Option.not_isSome_iff_eq_none]
        intro hsome
        rcases hadds.locals hcontext hsome with hold | ⟨hsame, rfl⟩
        · rw [hnone] at hold
          cases hold
        · exact hother hsame.symm hi
  refine ⟨?_, hknown⟩
  by_cases hne : above = []
  · subst hne
    refine ((counterIn_of_top htactful hframes (fun _ => ⟨hroot, hcontext⟩)
      (.inl hstep)).resolve_right
      (Nat.not_le.2 hdeep)).mono fun pc hnext hpc => ?_
    have hlt : g.pc < fields.length := hnext.lt.trans_le hpc
    refine hkeeps hframes (hunbound hlt.le) fun _ hstore => ?_
    obtain ⟨more, hmore⟩ := hstarts
    rw [← hmore, List.getElem?_append_left hlt] at hstore
    exact hfields name (List.mem_of_getElem? hstore)
  · obtain ⟨f, others, rfl⟩ := List.exists_cons_of_ne_nil hne
    refine ((counterIn_of_below htactful hframes hne (fun _ => ⟨hroot, hcontext⟩) habove
      (.inl hstep)).resolve_right (Nat.not_le.2 hdeep)).mono fun pc heq hpc => ?_
    subst heq
    exact hkeeps hframes (hunbound hpc) fun hsame =>
      absurd hsame (habove trivial f List.mem_cons_self)

theorem SetsUpFields.after (hn : e.natives = Natives.core) {code fields : Code}
    {context : ContextId} {name : String} {below : List Frame} (hstarts : fields <+: code)
    (hfields : fields.DeclaresNothing)
    (h : SetsUpFields code context fields.length name below m) {n : Nat}
    (hrun : e.after n m = some m')
    (hdeep : e.During (n + 1) m fun s => below.length < s.frames.length) :
    SetsUpFields code context fields.length name below m' := by
  induction n generalizing m' with
  | zero =>
      cases hrun
      exact h
  | succ n ih =>
      obtain ⟨m₁, h₁, hstep⟩ := Engine.after_succ.1 hrun
      exact (ih h₁ (hdeep.mono (Nat.le_succ _))).step hn hstarts hfields hstep
        (hdeep (n + 1) (Nat.lt_succ_self _) m' hrun)

theorem after_grows (hn : e.natives = Natives.core) {n : Nat} (hrun : e.after n m = some m') :
    m.heap.Grows m'.heap := by
  induction n generalizing m' with
  | zero =>
      cases hrun
      exact .refl _
  | succ n ih =>
      obtain ⟨m₁, h₁, hstep⟩ := Engine.after_succ.1 hrun
      have hchanges := step_changes (hn ▸ Natives.core_careful) m₁
      rw [hstep] at hchanges
      exact (ih h₁).trans hchanges.grows

theorem Visited.after (hm : e.Visited m) {n : Nat} (hrun : e.after n m = some m')
    (hbusy : e.During n m fun s => 1 < s.frames.length) : e.Visited m' := by
  induction n generalizing m' with
  | zero =>
      cases hrun
      exact hm
  | succ n ih =>
      obtain ⟨m₁, h₁, hstep⟩ := Engine.after_succ.1 hrun
      have hm₁ : e.Visited m₁ := ih h₁ (hbusy.mono (Nat.le_succ n))
      exact hm₁.step (hbusy n (Nat.lt_succ_self n) m₁ h₁) hstep

end Engine

open Engine in
/-- While the fields of an object are set up, a `load` of a field gets what the
object has in it, in the code of the construction itself and in the blocks
`Nested` inside it; unless a parameter of the constructor has the name of the
field. -/
theorem initializers_read_fields {e : Engine} (hn : e.natives = Natives.core) {m m₁ : Machine}
    (hm : e.Visited m) {receiver : ObjectId} {start : NodeId} {arity : Nat}
    (hbegins : e.BeginsConstruction m m₁ receiver start arity) {fields : Code}
    (hfields : e.program.fieldsCode (e.program.initializedFields start) = .ok fields)
    {name : String}
    (hname : name ∈ (e.program.initializedFields start).filterMap Tree.name?)
    (hself : name ≠ "self")
    (hparameter : name ∉
      (e.parametersOf (e.program.lookupConstructor? start arity)).filterMap Tree.name?)
    {n : Nat} {s : Machine} (hrun : e.after n m₁ = some s)
    (hduring : e.During (n + 1) m₁ fun s => m₁.frames.length ≤ s.frames.length)
    {above below : List Frame} {g : Frame} (hframes : s.frames = above ++ g :: below)
    (hlength : below.length + 1 = m₁.frames.length) (hpc : g.pc ≤ fields.length)
    {f : Frame} {rest : List Frame} (hf : s.frames = f :: rest)
    (hload : f.code[f.pc]? = some (.load name)) (hnested : s.heap.Nested name g.context f.context) :
    ∃ o value, s.heap.object? receiver = some o ∧ o.fields.get? name = some value
      ∧ e.step s = .ok () { s with frames := f.next.push value :: rest } := by
  have he : e.natives.Lawful := hn ▸ Natives.core_lawful
  obtain ⟨code, below₁, args, rfl, hcode, hframes₁, hheap₁⟩ := hbegins.runs
  have hlength₁ : m₁.frames.length = below₁.length + 1 := by rw [hframes₁, List.length_cons]
  -- The state in which the construction begins, and the one in which the field is loaded.
  obtain ⟨f₀, rest₀, others, hframes₀, hi₀, hoperands⟩ := hbegins.instruction
  obtain ⟨j, htraced⟩ := hm
  have hreached := htraced.reached he
  have hbusy := (hreached.starting (.of_natives he) hframes₀ hi₀ rfl).1
  have hsound := (hreached.sound_and_shape (.of_natives he)).1
  have hvisited : e.Visited s := by
    have hfirst : e.Visited m₁ := ⟨_, htraced.step hbusy False.elim hbegins.step⟩
    refine hfirst.after hrun fun k hk s' hs' => ?_
    exact (hbusy.trans hbegins.begins).trans_le (hduring k (Nat.lt_succ_of_lt hk) s' hs')
  have hranked : s.heap.Ranked :=
    hvisited.of_keeps he (.of_edit he fun hclosed hr edit => edit.ranked hclosed hr)
      (Heap.initial_ranked ..)
  have hgrows := after_grows hn hrun
  -- What the construction was given.
  obtain ⟨o₀, ho₀⟩ := Heap.object?_of_lt ((hsound.frames f₀
    (hframes₀ ▸ List.mem_cons_self)).operands
    receiver (hoperands ▸ List.mem_cons_self))
  obtain ⟨o₁, ho₁, hfield₁⟩ := constructing_fields ho₀ hname args
  obtain ⟨c₁, hc₁, hparent₁⟩ := constructing_context (e := e) receiver start args true m.heap
  have hunbound₁ := constructing_unbound hself hparameter receiver true m.heap
  rw [← hheap₁] at ho₁ hc₁ hunbound₁
  have hsets : SetsUpFields code m.heap.contexts.size fields.length name below₁ m₁ :=
    ⟨⟨[], _, hframes₁, rfl, rfl, fun _ => hunbound₁, fun _ => nofun⟩,
      Nat.ne_of_gt hsound.heap.root, (Array.getElem?_eq_some_iff.1 hc₁).1⟩
  -- What there is of it later on.
  obtain ⟨fields', hfields', hstarts⟩ := Program.initCode_fields hcode
  cases hfields.symm.trans hfields'
  obtain ⟨⟨above', g', hframes', hcode', hcontext', hunbound, -⟩, -⟩ :=
    hsets.after hn hstarts (Program.fieldsCode_declaresNothing hfields) hrun fun k hk s' hs' =>
      hlength₁.symm.trans_le (hduring k hk s' hs')
  obtain ⟨-, hsame⟩ := List.append_inj' (hframes.symm.trans hframes') (by
    rw [List.length_cons, List.length_cons, hlength, hlength₁])
  cases hsame
  obtain ⟨o, ho, hogrows⟩ := hgrows.object ho₁
  obtain ⟨c, hc, hcgrows⟩ := hgrows.context hc₁
  obtain ⟨value, hvalue⟩ := Option.isSome_iff_exists.1 (hogrows.fields name hfield₁)
  have hlookup : s.heap.lookup f.context name = some value := by
    rw [hnested.lookup_eq hranked, hcontext']
    exact Heap.lookup_of_field hranked hc (hunbound hpc) (hcgrows.parent.trans hparent₁) ho hself
      hvalue
  exact ⟨o, value, ho, hvalue, step_load hf hload hlookup⟩

namespace Masking

open Build

/-- A class with two fields, the second initialized from the first, and a
constructor with a parameter. -/
def forest (parameter : String) : List Tree :=
  [Sample.library [],
   classNamed "P" [field "x" (boolean true), field "y" (.of (.reference "x" (some 10))),
     constructor [parameter] []],
   program "main" [.of (.newInstance (.of (.reference "P" (some 9))) [null])]]

def engine (parameter : String) : Engine := Sample.engineOf (forest parameter)

/-- The code that sets up the fields. -/
def fields : Code :=
  [.load "self", .push .true, .set "x", .load "self", .load "x", .set "y"]

/-- The frame of the program. -/
def running (pc : Nat) (operands : List ObjectId) : Frame :=
  { code := [.push .null, .instantiate 9 none, .init 1 9 true, .interrupt .result]
    context := 1, pc, operands }

/-- The frame of the construction. -/
def constructing (pc : Nat) (operands : List ObjectId) : Frame :=
  { code := fields ++ [.push .void, .pop, .load "self", .interrupt .return]
    context := 2, pc, operands }

/-- The object is there. -/
def made (parameter : String) : Machine :=
  { heap := (((engine parameter).initialHeap.newContext (.context 0)).2.allocate
      { module := 9, parent := 0 }).2
    frames := [running 2 [4, .null], holderFrame 1] }

/-- Its construction has begun. -/
def begun (parameter : String) : Machine :=
  { heap := (engine parameter).constructing 4 9 [.null] true (made parameter).heap
    frames := [constructing 0 [], (running 3 []).resuming [.return], holderFrame 1] }

/-- The second field is about to be set up. -/
def loading (parameter : String) : Machine :=
  { heap := (begun parameter).heap.putField 4 "x" .true
    frames := [constructing 4 [4], (running 3 []).resuming [.return], holderFrame 1] }

end Masking

open Engine in
/-- A parameter with a name of its own leaves the field alone: the load gets
what the first field was set to. -/
theorem distinct_parameter_leaves_field :
    (Masking.engine "z").Visited (Masking.made "z")
      ∧ (Masking.engine "z").BeginsConstruction (Masking.made "z") (Masking.begun "z") 4 9 1
      ∧ (Masking.engine "z").after 4 (Masking.begun "z") = some (Masking.loading "z")
      ∧ ∃ o value, (Masking.loading "z").heap.object? 4 = some o ∧ o.fields.get? "x" = some value
        ∧ value = ObjectId.true
        ∧ (Masking.engine "z").step (Masking.loading "z") = .ok () { Masking.loading "z" with
            frames := (Masking.constructing 5 [4]).push value
              :: (Masking.loading "z").frames.tail } := by
  have hm : (Masking.engine "z").Visited (Masking.made "z") :=
    visited_of_runProgram Natives.core_lawful
      (show (Masking.engine "z").start 10 = .ok () { heap := (Masking.engine "z").initialHeap } from
        rfl)
      (show (Masking.engine "z").runProgram 2 "main" _ = .error .outOfSteps _ by cbv)
  have hbegins : (Masking.engine "z").BeginsConstruction (Masking.made "z") (Masking.begun "z")
      4 9 1 := ⟨rfl, ⟨_, _, _, rfl, rfl, rfl⟩, by decide⟩
  have hrun : (Masking.engine "z").after 4 (Masking.begun "z") = some (Masking.loading "z") := rfl
  have hduring : (Masking.engine "z").During 5 (Masking.begun "z")
      fun s => 3 ≤ s.frames.length := by
    intro k hk s hs
    interval_cases k <;> cases hs <;> decide
  have hfields : (Masking.engine "z").program.fieldsCode
      ((Masking.engine "z").program.initializedFields 9) = .ok Masking.fields := rfl
  have hname : "x" ∈ ((Masking.engine "z").program.initializedFields 9).filterMap Tree.name? := by
    decide +kernel
  have hframes : (Masking.loading "z").frames
      = [] ++ Masking.constructing 4 [4] :: (Masking.loading "z").frames.tail := rfl
  obtain ⟨o, value, ho, hvalue, hstep⟩ := initializers_read_fields rfl hm hbegins hfields hname
    (by decide) (by decide +kernel) hrun hduring hframes rfl (by decide) rfl rfl .here
  refine ⟨hm, hbegins, hrun, o, value, ho, hvalue, ?_, hstep⟩
  cases ho
  exact (Option.some.inj hvalue).symm

/-- A parameter with the name of the field hides it: the load gets the
argument, not what the object has in the field that the reference is to. -/
theorem same_parameter_hides_field :
    (Masking.engine "x").Visited (Masking.made "x")
      ∧ (Masking.engine "x").BeginsConstruction (Masking.made "x") (Masking.begun "x") 4 9 1
      ∧ (Masking.engine "x").after 4 (Masking.begun "x") = some (Masking.loading "x")
      ∧ (Masking.engine "x").program.kind? 13 = some (.reference "x" (some 10))
      ∧ (∃ t ∈ (Masking.engine "x").program.initializedFields 9, t.identity = 10)
      ∧ ∃ o, (Masking.loading "x").heap.object? 4 = some o
        ∧ o.fields.get? "x" = some ObjectId.true
        ∧ (Masking.engine "x").step (Masking.loading "x") = .ok () { Masking.loading "x" with
            frames := (Masking.constructing 5 [4]).push ObjectId.null
              :: (Masking.loading "x").frames.tail }
        ∧ ObjectId.null ≠ ObjectId.true :=
  ⟨Engine.visited_of_runProgram Natives.core_lawful
      (show (Masking.engine "x").start 10 = .ok () { heap := (Masking.engine "x").initialHeap } from
        rfl)
      (show (Masking.engine "x").runProgram 2 "main" _ = .error .outOfSteps _ by cbv),
    ⟨rfl, ⟨_, _, _, rfl, rfl, rfl⟩, by decide⟩, rfl, rfl,
    ⟨_, List.mem_cons_self, rfl⟩, _, rfl, rfl, rfl, by decide⟩

end ObjectMachine
