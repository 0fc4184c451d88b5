/-
Frames that work for one object.

A method runs for its receiver, a construction for the object under
construction, and so do the blocks they start; what they call does not. Such
frames are tracked (`Tracking`): they are next to each other on the stack, the
marks of `Tracks` say which of their operands are the object, and all of them
find it as `self` (`SelfIn`).

`Holds` says so of a stack, and it lasts until the stack comes down to what is
below these frames (`Holds.step`, `Holds.after`). If their code returns nothing
but the object (`Faithful`), the object is what the last of them is left with.
A return that comes from outside never gets there: it goes to the frame that has
made the call.
-/
import Mathlib
import ObjectMachine.Proofs.Code.Tracks
import ObjectMachine.Proofs.Laws.Initializers
import ObjectMachine.Proofs.Session.Reserved

namespace ObjectMachine

-- ================================================================= `self`

namespace Heap

/-- A context in which a lookup of `self` gives `id`: it binds `self` itself, or
hangs from the object and the object `answersSelf`, or hangs from such a
context. -/
inductive SelfIn (h : Heap) (id : ObjectId) : ContextId → Prop
  | bound {context : ContextId} (bound : h.local? context "self" = some id) : SelfIn h id context
  | receiver {context : ContextId} {c : Context} {o : Object} (known : h.context? context = some c)
      (unbound : h.local? context "self" = none) (hangs : c.parent = some (.object id))
      (object : h.object? id = some o) (answers : o.answersSelf = true) : SelfIn h id context
  | inner {context outer : ContextId} {c : Context} (known : h.context? context = some c)
      (unbound : h.local? context "self" = none) (hangs : c.parent = some (.context outer))
      (within : SelfIn h id outer) : SelfIn h id context

variable {h h' : Heap} {id : ObjectId} {context : ContextId}

theorem locals_of_local? {c : Context} {name : String} (hc : h.context? context = some c)
    (hlocal : h.local? context name = none) : c.locals.get? name = none := by
  rwa [local?, hc] at hlocal

/-- `lookup` walks outwards exactly as `SelfIn` does. -/
theorem SelfIn.lookup_eq (hr : h.Ranked) (hself : h.SelfIn id context) :
    h.lookup context "self" = some id := by
  induction hself with
  | bound bound => exact lookup_of_local? bound
  | receiver known unbound hangs object answers =>
      rw [lookup, hr.lookupFrom_context known (locals_of_local? known unbound) hangs, chainBound,
        lookupFrom]
      simp only [object, answers, beq_self_eq_true, Bool.and_self, if_true]
  | inner known unbound hangs _ ih =>
      exact (hr.lookupFrom_context known (locals_of_local? known unbound) hangs).trans ih

/-- `SelfIn` is kept by any growth of the heap that binds no `self` in the
contexts that are there. -/
theorem SelfIn.mono (grows : h.Grows h')
    (same : ∀ c < h.contexts.size, h'.local? c "self" = h.local? c "self")
    (hself : h.SelfIn id context) : h'.SelfIn id context := by
  have hsame {c : ContextId} {known : Context} (hc : h.context? c = some known) :
      h'.local? c "self" = h.local? c "self" := same c (Array.getElem?_eq_some_iff.1 hc).1
  induction hself with
  | @bound context bound =>
      obtain ⟨c, hc, -⟩ := Option.bind_eq_some_iff.1 bound
      exact .bound ((hsame hc).trans bound)
  | receiver known unbound hangs object answers =>
      obtain ⟨c', known', hgrows⟩ := grows.context known
      obtain ⟨o', object', hogrows⟩ := grows.object object
      exact .receiver known' ((hsame known).trans unbound) (hgrows.parent.trans hangs) object'
        (hogrows.answersSelf.trans answers)
  | inner known unbound hangs _ ih =>
      obtain ⟨c', known', hgrows⟩ := grows.context known
      exact .inner known' ((hsame known).trans unbound) (hgrows.parent.trans hangs) ih

theorem SelfIn.opened (hself : h.SelfIn id context) (link : Link) :
    (h.newContext link).2.SelfIn id context := by
  refine hself.mono (newContext_grows ..) fun c hc => ?_
  rw [local?, local?, context?_newContext, if_neg hc.ne]

/-- The context of a block hangs from that of the code around it, so `SelfIn`
passes on to it. -/
theorem SelfIn.newContext (hself : h.SelfIn id context) :
    (h.newContext (.context context)).2.SelfIn id h.contexts.size := by
  have hknown : (h.newContext (.context context)).2.context? h.contexts.size
      = some { parent := some (.context context) } := by
    rw [context?_newContext, if_pos rfl]
  refine .inner hknown ?_ rfl (hself.opened _)
  rw [local?, hknown]
  rfl

/-- So it does to the contexts of a protected block. -/
theorem SelfIn.sheltered {f : Frame} (hself : h.SelfIn id f.context) {count k : Nat}
    (hk : k < count) : (Engine.sheltered f count h).SelfIn id (h.contexts.size + k) := by
  have hsees (count : Nat) : (Engine.sheltered f count h).SelfIn id f.context := by
    induction count with
    | zero => exact hself
    | succ count ih =>
        rw [Engine.sheltered_succ]
        exact ih.opened _
  induction count with
  | zero => cases hk
  | succ count ih =>
      rw [Engine.sheltered_succ]
      rcases Nat.lt_succ_iff_lt_or_eq.1 hk with hk | rfl
      · exact (ih hk).opened _
      · rw [← Engine.contexts_size_sheltered f]
        exact (hsees k).newContext

end Heap

theorem Program.Avoids.not_mem_names {p : Program} {name : String} (h : p.Avoids name)
    {ts : List Tree} (hts : ∀ t ∈ ts, t ∈ p.root.preorder) : name ∉ ts.filterMap Tree.name? := by
  intro hmem
  obtain ⟨t, ht, hname⟩ := List.mem_filterMap.1 hmem
  exact h t (hts t ht) hname

theorem World.contexts_withMessage (w : World) (module : NodeId) (message : String) (h : Heap) :
    (w.withMessage module message h).contexts = h.contexts := by
  rw [withMessage, Heap.putField, Heap.contexts_updateObject, Heap.putAll,
    Action.putFields_contexts]
  exact (Heap.contexts_intern ..).trans (Heap.contexts_allocate ..)

-- =============================================================== operands

/-- Operands that agree with the marks of `Tracks`: where the mark is true, the
operand is the object. -/
def Marked (object : ObjectId) : List Bool → List ObjectId → Prop :=
  List.Forall₂ fun mark id => mark = true → id = object

section

variable {object : ObjectId} {marks : List Bool} {operands : List ObjectId}

theorem Marked.drop (h : Marked object marks operands) (count : Nat) :
    Marked object (marks.drop count) (operands.drop count) :=
  List.forall₂_drop count h

theorem Marked.push (h : Marked object marks operands) (value : ObjectId) :
    Marked object (false :: marks) (value :: operands) := .cons nofun h

theorem Marked.operand (h : Marked object marks operands) {index : Nat}
    (hmark : marks[index]? = some true) : operands[index]? = some object := by
  induction h generalizing index with
  | nil => cases hmark
  | cons hfirst _ ih =>
      cases index with
      | zero => exact congrArg some (hfirst (Option.some.inj hmark))
      | succ index => exact ih hmark

theorem marked_replicate (values : List ObjectId) :
    Marked object (List.replicate values.length false) values := by
  induction values with
  | nil => exact .nil
  | cons value values ih => exact ih.push value

theorem Marked.append {marks' : List Bool} {operands' : List ObjectId}
    (h : Marked object marks operands) (h' : Marked object marks' operands') :
    Marked object (marks ++ marks') (operands ++ operands') :=
  List.rel_append h h'

end

/-- The values that `load` and `dup` leave; of those of other instructions
nothing is said. -/
def Instruction.Gives (h : Heap) (f : Frame) (values : List ObjectId) : Instruction → Prop
  | .load name => ∃ value, h.lookup f.context name = some value ∧ values = [value]
  | .dup => ∃ value others, f.operands = value :: others ∧ values = [value, value]
  | _ => True

/-- An instruction with an `effect?` that does not wait for another frame
(`awaits?`) replaces the operands it takes by the values it `Gives`. -/
theorem Engine.Conduct.straight {e : Engine} {f : Frame} {rest : List Frame} {m m' : Machine}
    {i : Instruction} {takes leaves : Nat} (effect : i.effect? = some (takes, leaves))
    (calls : i.awaits? = none) (h : e.Conduct f rest m i (.ok .next m')) :
    ∃ values, values.length = leaves ∧ i.Gives m.heap f values
      ∧ m'.frames = { f with operands := values ++ f.operands.drop takes } :: rest := by
  cases h with
  | load found =>
      cases effect
      exact ⟨[_], rfl, ⟨_, found, rfl⟩, rfl⟩
  | dup top =>
      cases effect
      exact ⟨[_, _], rfl, ⟨_, _, top, rfl⟩, by rw [Frame.push, top]; rfl⟩
  | bind top | assign top _ | pop top | set top _ _ =>
      cases effect
      exact ⟨[], rfl, trivial, by rw [top]; rfl⟩
  | swap top =>
      cases effect
      exact ⟨[_, _], rfl, trivial, by rw [top]; rfl⟩
  | get top _ _ | inherits top _ =>
      cases effect
      exact ⟨[_], rfl, trivial, by rw [top]; rfl⟩
  | push | number | string | make | collection _ =>
      cases effect
      exact ⟨[_], rfl, trivial, rfl⟩
  | init _ _ _ | call _ _ _ => cases calls
  | jump _ _ | branch _ | protect => cases effect

/-- Inversion of a step: its instruction ends as `Conduct` says, or raises an
interruption that lands below, or throws. If it is a protected block for which
the stack has no room, the frame itself or its always block may be left to take
the exception. -/
theorem Engine.step_conduct {e : Engine} (he : e.natives.Tactful) {f : Frame} {rest : List Frame}
    {m m' : Machine} {i : Instruction} (hframes : m.frames = f :: rest)
    (hi : f.code[f.pc]? = some i) (hstep : e.step m = .ok () m') :
    e.Conduct f.next rest { m with frames := f.next :: rest } i (.ok .next m')
    ∨ (∃ kind value m₁, e.Conduct f.next rest { m with frames := f.next :: rest } i
          (.ok (.interrupt kind value) m₁)
        ∧ m'.frames = landing kind value rest)
    ∨ (∃ value, m'.frames = landing .exception value rest)
    ∨ ∃ body handler always value, i = .tryCatchAlways body handler always
        ∧ (m'.frames = landing .exception value (f.next.resuming [.result] :: rest)
          ∨ m'.frames = landing .exception value
              ({ code := always, context := m.heap.contexts.size, resume := Interruption.all }
                :: f.next.resuming [.result] :: rest)
            ∧ (sheltered f.next 3 m.heap).Grows m'.heap
            ∧ m'.heap.contexts = (sheltered f.next 3 m.heap).contexts) := by
  have hlands {kind : Interruption} {value : ObjectId} {m₁ : Machine}
      (h : Unwinds kind value m₁ (.ok () m')) :
      m'.frames = landing kind value m₁.frames.tail ∧ m'.heap = m₁.heap := by
    cases h with
    | caught unwinds =>
        rw [landing, unwinds]
        exact ⟨rfl, rfl⟩
  have hraises {fault : Fault} {value : ObjectId} {m₁ m₂ : Machine}
      (h : e.Raises m₁ fault value m₂) : m₂.frames = m₁.frames ∧ m₁.heap.Grows m₂.heap
        ∧ m₂.heap.contexts = m₁.heap.contexts := by
    cases h with
    | thrown => exact ⟨rfl, .refl _, rfl⟩
    | made _ =>
        have hmessage : m₁.heap.Changes (· <+: ·) _ :=
          e.toWorld.withMessage_changes e.core.evaluationError fault.message m₁.heap
        exact ⟨rfl, hmessage.grows, World.contexts_withMessage ..⟩
  have hsteps := step_steps (e := e) hframes
  rw [hstep] at hsteps
  cases hsteps with
  | done ended => cases ended.symm.trans hi
  | next instruction does =>
      cases instruction.symm.trans hi
      exact .inl does
  | leaves instruction does ends =>
      cases instruction.symm.trans hi
      refine .inr (.inl ⟨_, _, _, does, ?_⟩)
      rw [(hlands ends).1, does.tail_of_interrupt]
  | @raises _ fault value m₁ m₂ _ instruction does raised ends =>
      cases instruction.symm.trans hi
      obtain ⟨hframes', hheap'⟩ := hlands ends
      obtain ⟨hsame, hgrows, hcontexts⟩ := hraises raised
      rw [← hheap'] at hgrows hcontexts
      rw [hsame] at hframes'
      have hplain (htail : m₁.frames.tail = rest) : m'.frames = landing .exception value rest :=
        htail ▸ hframes'
      refine .inr (.inr ?_)
      cases does with
      | fault _ _ tail => exact .inl ⟨value, hplain tail⟩
      | initFails _ _ ends => exact .inl ⟨value, hplain (ends.leaves rfl)⟩
      | callFails _ _ ends => exact .inl ⟨value, hplain (ends.leaves he rfl)⟩
      | branchFull => exact .inl ⟨value, hplain rfl⟩
      | protectFull count few =>
          obtain rfl | rfl | rfl : count = 0 ∨ count = 1 ∨ count = 2 := by omega
          · exact .inl ⟨value, hplain rfl⟩
          · exact .inr ⟨_, _, _, value, rfl, .inl hframes'⟩
          · exact .inr ⟨_, _, _, value, rfl, .inr ⟨hframes', hgrows, hcontexts⟩⟩

-- ========================================================= tracked frames

/-- What is known of a frame that works for `object`. The instructions of its
code meet `demands`; `bySelf` says whether `self` is the object there, and
`block` whether the frame is nested code; `final` are the marks at the end of
its code, if it may come to it. The operands of `floor` and the code of `after`
are not part of this. -/
structure Tracking where
  demands : Demands
  object : ObjectId
  bySelf : Bool := true
  block : Bool := false
  final : Option (List Bool) := none
  floor : List ObjectId := []
  after : Code := []

namespace Tracking

/-- The `Tracking` of the blocks that the frame starts. -/
def inside (E : Tracking) : Tracking :=
  { E with block := true, final := none, floor := [], after := [] }

/-- The `demands` let only the frame itself return, and only the object. -/
def Faithful (E : Tracking) : Prop :=
  ∀ block mark marks, E.demands.returns block (mark :: marks) → block = false ∧ mark = true

/-- A frame that can take a step: what is left of its code is tracked (`Tracks`)
from marks that agree with its operands (`Marked`), and `self` is the object in
its context. -/
structure Runs (E : Tracking) (h : Heap) (f : Frame) : Prop where
  resume : f.resume = []
  self : E.bySelf = true → h.SelfIn E.object f.context
  pending : E.block = true → E.Faithful → f.pending ≠ some .return
  left : ∃ todo marks own, f.code.drop f.pc = todo ++ E.after ∧ f.operands = own ++ E.floor
    ∧ Marked E.object marks own ∧ Tracks E.demands E.bySelf E.block E.final marks todo

/-- A frame that `Runs` as soon as it accepts one of the interruptions in its
`resume` list. A frame that accepts `return` along with others is a handler or
an always block; if the tracking is `Faithful`, no return comes its way, and
nothing is asked for it. -/
def Waits (E : Tracking) (h : Heap) (f : Frame) : Prop :=
  ∀ kind ∈ f.resume, (kind = .return → E.Faithful → f.resume = [.return]) →
    ∀ value, E.Runs h ((f.accepting kind).push value)

/-- The frames under a frame that is tracked by the last argument but one, down
to `below`: each of them `Waits` for the block above it. -/
inductive Under (E : Tracking) (below : List Frame) (h : Heap) : Tracking → List Frame → Prop
  | root : Under E below h E below
  | block {E' : Tracking} {f : Frame} {rest : List Frame} (waits : E'.Waits h f)
      (under : Under E below h E' rest) : Under E below h E.inside (f :: rest)

/-- The stack while the tracking lasts: the frame on top `Runs`, or it has made
a call, `Waits` for what is returned, and other frames are above it. -/
inductive Holds (E : Tracking) (below : List Frame) (h : Heap) : List Frame → Prop
  | runs {E' : Tracking} {f : Frame} {rest : List Frame} (runs : E'.Runs h f)
      (under : E.Under below h E' rest) : Holds E below h (f :: rest)
  | calls {E' : Tracking} {above : List Frame} {f : Frame} {rest : List Frame} (deep : above ≠ [])
      (waits : E'.Waits h f) (called : f.resume = [.return]) (under : E.Under below h E' rest) :
      Holds E below h (above ++ f :: rest)

/-- The tracking ends when an interruption lands in `below`. If it is `Faithful`
and the interruption a return, the value is the object. -/
def Ends (E : Tracking) (below frames : List Frame) : Prop :=
  ∃ kind value, frames = landing kind value below
    ∧ (E.Faithful → kind = .return → value = E.object)

variable {E E' : Tracking} {below rest : List Frame} {h h' : Heap} {f : Frame}

/-- All frames of `Under` are tracked for the same object. -/
theorem Under.object_eq (hunder : E.Under below h E' rest) : E'.object = E.object := by
  cases hunder <;> rfl

theorem Under.demands_eq (hunder : E.Under below h E' rest) : E'.demands = E.demands := by
  cases hunder <;> rfl

theorem Under.inside_eq (hunder : E.Under below h E' rest) : E'.inside = E.inside := by
  cases hunder <;> rfl

theorem Under.suffix (hunder : E.Under below h E' rest) : below <:+ rest := by
  induction hunder with
  | root => exact List.suffix_rfl
  | block _ _ ih => exact ih.trans (List.suffix_cons ..)

theorem Under.length_le (hunder : E.Under below h E' rest) : below.length ≤ rest.length :=
  hunder.suffix.length_le

theorem Holds.length_lt (hholds : E.Holds below h rest) : below.length < rest.length := by
  cases hholds with
  | runs _ under => exact Nat.lt_succ_of_le under.length_le
  | calls _ _ _ under =>
      rw [List.length_append, List.length_cons]
      exact (Nat.lt_succ_of_le under.length_le).trans_le (Nat.le_add_left _ _)

/-- At the end of its code a frame that is tracked has operands that agree with
the marks of `final`. -/
theorem Holds.at_end {frames : List Frame} (hholds : E.Holds below h frames)
    (hframes : frames = f :: below) (hend : f.code.drop f.pc = E.after) :
    ∃ marks own, E.final = some marks ∧ f.operands = own ++ E.floor
      ∧ Marked E.object marks own := by
  cases hholds with
  | runs runs under =>
      cases hframes
      cases under with
      | root =>
          obtain ⟨todo, marks, own, hdrop, hops, hmarked, htracks⟩ := runs.left
          obtain rfl : todo = [] := by simpa using hdrop.symm.trans hend
          generalize E.block = block at htracks
          generalize E.final = final at htracks ⊢
          cases htracks
          exact ⟨marks, own, rfl, hops, hmarked⟩
      | block _ under => exact absurd under.length_le (Nat.not_succ_le_self _)
  | @calls E' above g rest deep _ _ under =>
      have hlength := congrArg List.length hframes
      rw [List.length_append, List.length_cons, List.length_cons] at hlength
      have habove := List.length_pos_of_ne_nil deep
      have hrest := under.length_le
      omega

theorem Ends.length_le {frames : List Frame} (hends : E.Ends below frames) :
    frames.length ≤ below.length := by
  obtain ⟨kind, value, rfl, -⟩ := hends
  exact landing_length_le kind value below

section

variable (hself : ∀ c, h.SelfIn E.object c → h'.SelfIn E.object c)
include hself

theorem Runs.mono (runs : E.Runs h f) : E.Runs h' f :=
  ⟨runs.resume, fun hby => hself _ (runs.self hby), runs.pending, runs.left⟩

theorem Waits.mono (waits : E.Waits h f) : E.Waits h' f :=
  fun kind hmem hreturn value => (waits kind hmem hreturn value).mono hself

theorem Under.mono (hunder : E.Under below h E' rest) : E.Under below h' E' rest := by
  induction hunder with
  | root => exact .root
  | @block E' f rest waits under ih =>
      refine .block (waits.mono ?_) ih
      rw [under.object_eq]
      exact hself

end

/-- An interruption that is no return of a `Faithful` tracking is accepted by
one of the frames that are `Under`, or lands in `below`. -/
theorem Under.landing (hunder : E.Under below h E' rest) {kind : Interruption}
    (hreturn : E.Faithful → kind ≠ .return) (value : ObjectId) :
    E.Holds below h (landing kind value rest) ∨ E.Ends below (landing kind value rest) := by
  induction hunder with
  | root => exact .inr ⟨kind, value, rfl, fun hfaithful hkind => absurd hkind (hreturn hfaithful)⟩
  | @block E' f rest waits under ih =>
      rw [landing_cons]
      split
      · next hmem =>
        refine .inl (.runs (waits kind hmem (fun hkind hfaithful => ?_) value) under)
        refine absurd hkind (hreturn ?_)
        unfold Faithful at hfaithful
        rwa [under.demands_eq] at hfaithful
      · exact ih

theorem Under.raises (hunder : E.Under below h E' rest) (value : ObjectId) :
    E.Holds below h (ObjectMachine.landing .exception value rest)
      ∨ E.Ends below (ObjectMachine.landing .exception value rest) := by
  refine hunder.landing (fun _ hkind => ?_) value
  cases hkind

/-- A frame with others `Under` it is left by an interruption. A return of a
`Faithful` tracking carries the object, and comes from the lowest frame. -/
theorem Under.leaves (hunder : E.Under below h E' rest) {kind : Interruption} {value : ObjectId}
    (hreturn : E'.Faithful → kind = .return → E'.block = false ∧ value = E'.object) :
    E.Holds below h (ObjectMachine.landing kind value rest)
      ∨ E.Ends below (ObjectMachine.landing kind value rest) := by
  cases hunder with
  | root => exact .inr ⟨kind, value, rfl, fun hfaithful hkind => (hreturn hfaithful hkind).2⟩
  | block waits under =>
      refine (Under.block waits under).landing (fun hfaithful hkind => ?_) value
      exact absurd (hreturn hfaithful hkind).1 Bool.noConfusion

/-- A return from a call is accepted by the frame that has made it, as its
`resume` list is `[.return]`; anything else goes on to the frames under it. -/
theorem landing_called (waits : E'.Waits h f) (called : f.resume = [.return])
    (under : E.Under below h E' rest) (kind : Interruption) (value : ObjectId) :
    E.Holds below h (landing kind value (f :: rest))
      ∨ E.Ends below (landing kind value (f :: rest)) := by
  by_cases hkind : kind = .return
  · subst hkind
    have hmem : Interruption.return ∈ f.resume := called ▸ List.mem_cons_self
    rw [landing_cons, if_pos hmem]
    exact .inl (.runs (waits .return hmem (fun _ _ => called) value) under)
  · exact (Under.block waits under).landing (fun _ => hkind) value

-- ================================================================= frames

/-- A frame that differs from one that `Runs` in its counter and its operands,
with `Tracks` and `Marked` for what is left. -/
theorem Runs.goOn (own : List ObjectId) (runs : E.Runs h f) {f' : Frame} {todo : Code}
    {marks : List Bool} (hcontext : f'.context = f.context) (hpending : f'.pending = f.pending)
    (hresume : f'.resume = []) (hdrop : f'.code.drop f'.pc = todo ++ E.after)
    (hops : f'.operands = own ++ E.floor) (hmarked : Marked E.object marks own)
    (htracks : Tracks E.demands E.bySelf E.block E.final marks todo) : E.Runs h f' where
  resume := hresume
  self hby := hcontext ▸ runs.self hby
  pending hblock := hpending ▸ runs.pending hblock
  left := ⟨todo, marks, own, hdrop, hops, hmarked, htracks⟩

/-- A frame that `Runs` and has pushed another one `Waits` for an interruption
of the kind that its instruction `awaits?`. -/
theorem Runs.waits (runs : E.Runs h f) (kind : Interruption) (count : Nat) {todo : Code}
    {marks : List Bool} {own : List ObjectId} (hdrop : f.code.drop (f.pc + 1) = todo ++ E.after)
    (hops : f.operands = own ++ E.floor) (hmarked : Marked E.object marks own)
    (hcount : count ≤ marks.length)
    (htracks : Tracks E.demands E.bySelf E.block E.final (false :: marks.drop count) todo) :
    E.Waits h ((f.next.dropping count).resuming [kind])
      ∧ ((f.next.dropping count).resuming [kind]).resume = [kind] := by
  have hresume : ((f.next.dropping count).resuming [kind]).resume = [kind] := by
    show f.resume ++ [kind] = [kind]
    rw [runs.resume]
    rfl
  refine ⟨fun other hmem _ value => ?_, hresume⟩
  rw [hresume] at hmem
  obtain rfl := List.mem_singleton.1 hmem
  have hpc : ((f.next.dropping count).resuming [other]).pc ≠ 0 := Nat.succ_ne_zero _
  rw [Frame.accepting, if_neg hpc]
  refine runs.goOn (value :: own.drop count) rfl rfl ?_ hdrop ?_ ((hmarked.drop count).push value)
    htracks
  · show List.erase _ other = []
    rw [hresume]
    exact List.erase_cons_head ..
  · show value :: f.operands.drop count = _
    rw [hops, List.drop_append_of_le_length (hmarked.length_eq ▸ hcount)]
    rfl

/-- A block `Runs` from its start, with the operands that it is entered with. -/
theorem inside_runs {code : Code} {marks : List Bool} {operands : List ObjectId}
    {context : ContextId} {pending : Option Interruption}
    (htracks : Tracks E.demands E.bySelf true none marks code)
    (hmarked : Marked E.object marks operands)
    (hself : E.bySelf = true → h.SelfIn E.object context)
    (hpending : E.Faithful → pending ≠ some .return) :
    E.inside.Runs h { code, context, operands, pending } where
  resume := rfl
  self := hself
  pending _ := hpending
  left :=
    ⟨code, marks, operands, (List.append_nil _).symm, (List.append_nil _).symm, hmarked, htracks⟩

/-- A handler or an always block `Waits` from its start: it is entered by an
interruption, with one operand. -/
theorem inside_waits {code : Code} {context : ContextId} {resume : List Interruption}
    (htracks : Tracks E.demands E.bySelf true none [false] code)
    (hself : E.bySelf = true → h.SelfIn E.object context) (hresume : resume ≠ [.return]) :
    E.inside.Waits h { code, context, resume } := by
  intro kind _ hreturn value
  rw [Frame.accepting, if_pos rfl]
  refine inside_runs htracks (Marked.push .nil value) hself fun hfaithful hkind => ?_
  cases hkind
  exact hresume (hreturn rfl hfaithful)

-- =========================================================== instructions

variable {e : Engine} {m m' : Machine} {i : Instruction} {todo : Code} {marks : List Bool}
  {own : List ObjectId} {left : List Bool}

/-- The values that an instruction `Gives` agree with the marks that `remark`
leaves. -/
theorem Marked.remark {takes leaves : Nat} {values : List ObjectId} {object : ObjectId}
    {bySelf : Bool} (hself : bySelf = true → h.lookup f.context "self" = some object)
    (effect : i.effect? = some (takes, leaves)) (count : values.length = leaves)
    (gives : i.Gives h f values) {floor : List ObjectId} (hops : f.operands = own ++ floor)
    (enough : takes ≤ marks.length) (hmarked : Marked object marks own) :
    Marked object (i.remark bySelf marks) (values ++ own.drop takes) := by
  by_cases hblind : i.isBlind = true
  · rw [Instruction.remark_of_isBlind effect hblind, ← count]
    exact (marked_replicate values).append (hmarked.drop takes)
  · cases i with
    | load name =>
        cases effect
        obtain ⟨value, hlookup, rfl⟩ := gives
        refine .cons (fun hmark => ?_) hmarked
        rw [Bool.and_eq_true, beq_iff_eq] at hmark
        rw [hmark.2, hself hmark.1] at hlookup
        exact (Option.some.inj hlookup).symm
    | dup =>
        cases effect
        obtain ⟨value, others, htop, rfl⟩ := gives
        cases hmarked with
        | nil => cases enough
        | @cons mark first marks own hmark hmarked =>
            obtain rfl : first = value := by
              rw [hops] at htop
              exact (List.cons.inj htop).1
            exact .cons hmark (.cons hmark hmarked)
    | _ => exact absurd rfl hblind

section

variable (hn : e.natives = Natives.core)
  (hself : ∀ c, m.heap.SelfIn E'.object c → m'.heap.SelfIn E'.object c)
  (runs : E'.Runs m.heap f) (under : E.Under below m'.heap E' rest)
  (hframes : m.frames = f :: rest) (hi : f.code[f.pc]? = some i)
  (hdrop : f.code.drop (f.pc + 1) = todo ++ E'.after) (hops : f.operands = own ++ E'.floor)
  (hmarked : Marked E'.object marks own) (hstep : e.step m = .ok () m')
include hn hself runs under hframes hi hdrop hops hmarked hstep

/-- One step of a frame that `Runs`, at an instruction that replaces
operands. -/
theorem Runs.straight (hranked : m.heap.Ranked) {takes leaves : Nat}
    (effect : i.effect? = some (takes, leaves)) (enough : takes ≤ marks.length)
    (calls : i.awaits? = none)
    (tail : Tracks E'.demands E'.bySelf E'.block E'.final (i.remark E'.bySelf marks) todo) :
    E.Holds below m'.heap m'.frames ∨ E.Ends below m'.frames := by
  rcases Engine.step_conduct (hn ▸ Natives.core_tactful) hframes hi hstep with
    does | ⟨_, _, _, does, -⟩ | ⟨value, hlands⟩ | ⟨_, _, _, _, rfl, -⟩
  · obtain ⟨values, hcount, hgives, hframes'⟩ := does.straight effect calls
    have hfound (hby : E'.bySelf = true) : m.heap.lookup f.next.context "self" = some E'.object :=
      (runs.self hby).lookup_eq hranked
    have hmarks := Marked.remark hfound effect hcount hgives hops enough hmarked
    rw [hframes']
    refine .inl (.runs ((runs.mono hself).goOn (values ++ own.drop takes) rfl rfl runs.resume hdrop
      ?_ hmarks tail) under)
    show values ++ f.operands.drop takes = _
    rw [hops, List.drop_append_of_le_length (hmarked.length_eq ▸ enough), List.append_assoc]
  · cases does <;> cases effect
  · exact hlands ▸ under.raises value
  · cases effect

/-- One step at a call or a construction: the frame `Waits`, with what is called
above it. -/
theorem Runs.calls {takes leaves : Nat} (effect : i.effect? = some (takes, leaves))
    (enough : takes ≤ marks.length) {kind : Interruption} (calls : i.awaits? = some kind)
    (tail : Tracks E'.demands E'.bySelf E'.block E'.final (i.remark E'.bySelf marks) todo) :
    E.Holds below m'.heap m'.frames ∨ E.Ends below m'.frames := by
  have hlawful : e.natives.Lawful := hn ▸ Natives.core_lawful
  have htakes := Instruction.takes_of_effect effect
  have hown : i.takes ≤ own.length := by rwa [htakes, ← hmarked.length_eq]
  have hoperands : i.takes ≤ f.operands.length := by
    rw [hops, List.length_append]
    exact hown.trans (Nat.le_add_right _ _)
  have hleft : f.operands.drop i.takes = own.drop i.takes ++ E'.floor := by
    rw [hops, List.drop_append_of_le_length hown]
  obtain ⟨rfl, rfl, hblind⟩ : kind = .return ∧ leaves = 1 ∧ i.isBlind = true := by
    cases i <;> cases calls <;> cases effect <;> exact ⟨rfl, rfl, rfl⟩
  rw [Instruction.remark_of_isBlind effect hblind, ← htakes] at tail
  rcases Engine.start_step (.of_natives hlawful) hframes (fun h : False => h.elim) hi hoperands
    runs.resume calls (.inl hstep) with ⟨value, hframes'⟩ | ⟨value, hlands⟩ | ⟨g, above, hframes'⟩
  · rw [hframes']
    refine .inl (.runs ((runs.mono hself).goOn (value :: own.drop i.takes) rfl rfl runs.resume hdrop
      ?_ ((hmarked.drop i.takes).push value) tail) under)
    exact congrArg (value :: ·) hleft
  · exact hlands.frames ▸ under.raises value
  · obtain ⟨hwaits, hcalled⟩ := (runs.mono hself).waits .return i.takes hdrop hops hmarked
      (htakes ▸ enough) tail
    rw [hframes']
    exact .inl (.calls (List.cons_ne_nil _ _) hwaits hcalled under)

theorem Runs.jump {mark : Bool} {count : Nat} (hcount : i = .conditionalJump count)
    (hmarks : marks = mark :: left) (inside : count ≤ todo.length)
    (stay : Tracks E'.demands E'.bySelf E'.block E'.final left todo)
    (taken : Tracks E'.demands E'.bySelf E'.block E'.final left (todo.drop count)) :
    E.Holds below m'.heap m'.frames ∨ E.Ends below m'.frames := by
  subst hcount hmarks
  obtain ⟨value, own, -, hleft, rfl⟩ := List.forall₂_cons_left_iff.1 hmarked
  rcases Engine.step_conduct (hn ▸ Natives.core_tactful) hframes hi hstep with
    does | ⟨_, _, _, does, -⟩ | ⟨value, hlands⟩ | ⟨_, _, _, _, hother, -⟩
  · obtain ⟨condition, others, took, htop, hframes'⟩ : ∃ condition others,
        ∃ took : Bool, f.operands = condition :: others
          ∧ m'.frames = { f.next with
            operands := others, pc := if took then f.pc + 1 + count else f.pc + 1 } :: rest := by
      cases does with
      | jump took top => exact ⟨_, _, took, top, rfl⟩
    have hothers : others = own ++ E'.floor := by
      rw [hops] at htop
      exact (List.cons.inj htop).2.symm
    rw [hframes']
    refine .inl (.runs ?_ under)
    cases took with
    | false => exact (runs.mono hself).goOn own rfl rfl runs.resume hdrop hothers hleft stay
    | true =>
        refine (runs.mono hself).goOn own rfl rfl runs.resume ?_ hothers hleft taken
        show f.code.drop (f.pc + 1 + count) = _
        rw [← List.drop_drop, hdrop, List.drop_append_of_le_length inside]
  · cases does
  · exact hlands ▸ under.raises value
  · cases hother

theorem Runs.branch {mark : Bool} {thenBranch elseBranch : Code}
    (hbranch : i = .ifThenElse thenBranch elseBranch) (hmarks : marks = mark :: left)
    (yes : Tracks E'.demands E'.bySelf true none [] thenBranch)
    (no : Tracks E'.demands E'.bySelf true none [] elseBranch)
    (tail : Tracks E'.demands E'.bySelf E'.block E'.final (false :: left) todo) :
    E.Holds below m'.heap m'.frames ∨ E.Ends below m'.frames := by
  subst hbranch hmarks
  obtain ⟨hwaits, -⟩ := (runs.mono hself).waits .result 1 hdrop hops hmarked
    (Nat.succ_le_succ (Nat.zero_le _)) tail
  rcases Engine.step_conduct (hn ▸ Natives.core_tactful) hframes hi hstep with
    does | ⟨_, _, _, does, -⟩ | ⟨value, hlands⟩ | ⟨_, _, _, _, hother, -⟩
  · obtain ⟨condition, hframes', hheap'⟩ : ∃ condition : Bool,
        m'.frames = { code := if condition then thenBranch else elseBranch
                      context := m.heap.contexts.size }
          :: (f.next.dropping 1).resuming [.result] :: rest
        ∧ m'.heap = (m.heap.newContext (.context f.context)).2 := by
      cases does with
      | branch top => exact ⟨_, rfl, rfl⟩
    have hcode : Tracks E'.demands E'.bySelf true none []
        (if condition then thenBranch else elseBranch) := by
      cases condition with
      | true => exact yes
      | false => exact no
    have hblock : E'.inside.Runs m'.heap { code := if condition then thenBranch else elseBranch
                                           context := m.heap.contexts.size } := by
      refine inside_runs hcode .nil (fun hby => ?_) nofun
      rw [hheap']
      exact (runs.self hby).newContext
    rw [hframes']
    exact .inl (.runs hblock (under.inside_eq ▸ .block hwaits under))
  · cases does
  · exact hlands ▸ under.raises value
  · cases hother

theorem Runs.protect {body handler always : Code} (hblock : i = .tryCatchAlways body handler always)
    (inner : Tracks E'.demands E'.bySelf true none [] body)
    (caught : Tracks E'.demands E'.bySelf true none [false] handler)
    (last : Tracks E'.demands E'.bySelf true none [false] always)
    (tail : Tracks E'.demands E'.bySelf E'.block E'.final (false :: marks) todo) :
    E.Holds below m'.heap m'.frames ∨ E.Ends below m'.frames := by
  subst hblock
  obtain ⟨hwaits, -⟩ := (runs.mono hself).waits .result 0 hdrop hops hmarked (Nat.zero_le _) tail
  have hwaiting : E.Under below m'.heap E'.inside (f.next.resuming [.result] :: rest) :=
    under.inside_eq ▸ .block hwaits under
  have halways (hsees : E'.bySelf = true → m'.heap.SelfIn E'.object (m.heap.contexts.size + 0)) :
      E.Under below m'.heap E'.inside ({ code := always, context := m.heap.contexts.size
                                         resume := Interruption.all : Frame }
        :: f.next.resuming [.result] :: rest) :=
    under.inside_eq ▸ .block (inside_waits last hsees nofun) hwaiting
  rcases Engine.step_conduct (hn ▸ Natives.core_tactful) hframes hi hstep with
    does | ⟨_, _, _, does, -⟩ | ⟨value, hlands⟩
      | ⟨_, _, _, value, hsame, hlands | ⟨hlands, hgrows, hcontexts⟩⟩
  · obtain ⟨hframes', hheap'⟩ : m'.frames = { code := body, context := m.heap.contexts.size + 2 }
          :: { code := handler, context := m.heap.contexts.size + 1, resume := [.exception] }
          :: { code := always, context := m.heap.contexts.size, resume := Interruption.all }
          :: f.next.resuming [.result] :: rest
        ∧ m'.heap = Engine.sheltered f.next 3 m.heap := by
      cases does with
      | protect => exact ⟨rfl, rfl⟩
    have hsees (k : Nat) (hk : k < 3) (hby : E'.bySelf = true) :
        m'.heap.SelfIn E'.object (m.heap.contexts.size + k) :=
      hheap' ▸ (runs.self hby).sheltered hk
    have hbody : E'.inside.Runs m'.heap { code := body, context := m.heap.contexts.size + 2 } :=
      inside_runs inner .nil (hsees 2 (by decide)) nofun
    have hhandler : E'.inside.Waits m'.heap { code := handler, context := m.heap.contexts.size + 1
                                              resume := [.exception] } :=
      inside_waits caught (hsees 1 (by decide)) nofun
    rw [hframes']
    exact .inl (.runs hbody (under.inside_eq ▸ .block hhandler (halways (hsees 0 (by decide)))))
  · cases does
  · exact hlands ▸ under.raises value
  · exact hlands ▸ hwaiting.raises value
  · cases hsame
    refine hlands ▸ (halways fun hby => ?_).raises value
    have hopened : (Engine.sheltered f.next 3 m.heap).SelfIn E'.object (m.heap.contexts.size + 0) :=
      (runs.self hby).sheltered (Nat.succ_pos 2)
    refine hopened.mono hgrows fun c _ => ?_
    rw [Heap.local?, Heap.context?, hcontexts]
    rfl

omit hself runs hdrop in
/-- One step at an `interrupt`. -/
theorem Runs.leaves {mark : Bool} {kind : Interruption} (hkind : i = .interrupt kind)
    (hmarks : marks = mark :: left)
    (met : E'.demands.Met E'.block (mark :: left) (.interrupt kind)) :
    E.Holds below m'.heap m'.frames ∨ E.Ends below m'.frames := by
  subst hkind hmarks
  obtain ⟨value, own, hvalue, -, rfl⟩ := List.forall₂_cons_left_iff.1 hmarked
  rcases Engine.step_conduct (hn ▸ Natives.core_tactful) hframes hi hstep with
    does | ⟨other, top, m₁, does, hlands⟩ | ⟨value, hlands⟩ | ⟨_, _, _, _, hother, -⟩
  · cases does
  · obtain ⟨rfl, rfl⟩ : other = kind ∧ top = value := by
      cases does with
      | @interrupt _ _ others htop =>
          have hoperands : f.operands = top :: others := htop
          rw [hops] at hoperands
          exact ⟨rfl, (List.cons.inj hoperands).1.symm⟩
    rw [hlands]
    refine under.leaves fun hfaithful hreturn => ?_
    subst hreturn
    obtain ⟨hroot, hmark⟩ := hfaithful _ _ _ met
    exact ⟨hroot, hvalue hmark⟩
  · exact hlands ▸ under.raises value
  · cases hother

omit hself hdrop hops hmarked in
/-- One step at the `resumeInterruption` that ends an always block. -/
theorem Runs.resumes (hresume : i = .resumeInterruption) (hblock : E'.block = true) :
    E.Holds below m'.heap m'.frames ∨ E.Ends below m'.frames := by
  subst hresume
  rcases Engine.step_conduct (hn ▸ Natives.core_tactful) hframes hi hstep with
    does | ⟨kind, value, m₁, does, hlands⟩ | ⟨value, hlands⟩ | ⟨_, _, _, _, hother, -⟩
  · cases does
  · have hpending : f.pending = some kind := by
      cases does with
      | resume pending _ => exact pending
    rw [hlands]
    refine under.leaves fun hfaithful hreturn => ?_
    subst hreturn
    exact absurd hpending (runs.pending hblock hfaithful)
  · exact hlands ▸ under.raises value
  · cases hother

end

-- ================================================================== steps

/-- The lowest frame that is tracked has come to the end of its code. -/
def Done (E : Tracking) (below frames : List Frame) : Prop :=
  E.final ≠ none ∧ ∃ f, frames = f :: below ∧ f.code.drop f.pc = E.after

/-- One step of a frame that `Runs`: one of the lemmas above for each rule of
`Tracks`. -/
theorem Runs.step (hn : e.natives = Natives.core) (hranked : m.heap.Ranked)
    (hself : ∀ c, m.heap.SelfIn E.object c → m'.heap.SelfIn E.object c)
    (runs : E'.Runs m.heap f) (under : E.Under below m.heap E' rest)
    (hframes : m.frames = f :: rest) (hlive : ¬ E.Done below m.frames)
    (hstep : e.step m = .ok () m') :
    E.Holds below m'.heap m'.frames ∨ E.Ends below m'.frames := by
  have hself' : ∀ c, m.heap.SelfIn E'.object c → m'.heap.SelfIn E'.object c := by
    rwa [under.object_eq]
  have hunder := under.mono hself
  obtain ⟨todo, marks, own, hdrop, hops, hmarked, htracks⟩ := runs.left
  generalize hblock : E'.block = block at htracks
  generalize hfinal : E'.final = final at htracks
  cases todo with
  | nil =>
      cases htracks
      refine absurd ?_ hlive
      cases under with
      | root => exact ⟨hfinal ▸ Option.some_ne_none _, f, hframes, hdrop⟩
      | block _ _ => cases hfinal
  | cons i todo =>
      obtain ⟨hi, hnext⟩ := drop_succ_of_drop hdrop
      cases htracks with
      | next effect enough met tail =>
          subst hblock hfinal
          cases hcalls : i.awaits? with
          | none =>
              exact runs.straight hn hself' hunder hframes hi hnext hops hmarked hstep hranked
                effect enough hcalls tail
          | some kind =>
              exact runs.calls hn hself' hunder hframes hi hnext hops hmarked hstep effect enough
                hcalls tail
      | jump inside stay taken =>
          subst hblock hfinal
          exact runs.jump hn hself' hunder hframes hi hnext hops hmarked hstep rfl rfl inside stay
            taken
      | ifThenElse yes no tail =>
          subst hblock hfinal
          exact runs.branch hn hself' hunder hframes hi hnext hops hmarked hstep rfl rfl yes no tail
      | tryCatchAlways inner caught last tail =>
          subst hblock hfinal
          exact runs.protect hn hself' hunder hframes hi hnext hops hmarked hstep rfl inner caught
            last tail
      | interrupt met =>
          subst hblock hfinal
          exact Runs.leaves hn hunder hframes hi hops hmarked hstep rfl rfl met
      | resume => exact runs.resumes hn hunder hframes hi hstep rfl hblock

/-- A step keeps `Holds`, or `Ends` the tracking. A frame that was called may do
anything, and what it raises comes to the frame that `Waits`. -/
theorem Holds.step (hn : e.natives = Natives.core) (hranked : m.heap.Ranked)
    (hself : ∀ c, m.heap.SelfIn E.object c → m'.heap.SelfIn E.object c)
    (hholds : E.Holds below m.heap m.frames) (hlive : ¬ E.Done below m.frames)
    (hstep : e.step m = .ok () m')
    (htop : ∀ g rest, m'.frames = g :: rest → below.length ≤ rest.length → g.resume = []) :
    E.Holds below m'.heap m'.frames ∨ E.Ends below m'.frames := by
  generalize hframes : m.frames = frames at hholds
  cases hholds with
  | runs runs under => exact runs.step hn hranked hself under hframes hlive hstep
  | @calls E' above f rest deep waits called under =>
      have hself' : ∀ c, m.heap.SelfIn E'.object c → m'.heap.SelfIn E'.object c := by
        rwa [under.object_eq]
      rcases step_above (hn ▸ Natives.core_tactful) hframes deep (.inl hstep) with
        ⟨above', hframes', -⟩ | ⟨kind, value, hlands⟩
      · rw [hframes']
        refine .inl (.calls (fun hnil => ?_) (waits.mono hself') called (under.mono hself))
        rw [hnil] at hframes'
        cases (htop f rest hframes' under.length_le).symm.trans called
      · rw [hlands.frames]
        exact landing_called (waits.mono hself') called (under.mono hself) kind value

end Tracking

-- ============================================================ evaluations

namespace Engine

variable {e : Engine} {m m' : Machine}

/-- In a `Visited` state a frame with code left is not the last one, so the
machine is not at its end. -/
theorem Visited.busy (he : e.natives.Lawful) (hm : e.Visited m) {f : Frame} {rest : List Frame}
    (hframes : m.frames = f :: rest) {i : Instruction} (hi : f.code[f.pc]? = some i) :
    1 < m.frames.length := by
  obtain ⟨j, htraced⟩ := hm
  obtain ⟨-, hshape⟩ := (htraced.reached he).sound_and_shape (.of_natives he)
  rw [hframes] at hshape ⊢
  cases hshape with
  | done _ hempty => simp [hempty] at hi
  | running region => exact region.length

/-- In a `Visited` state the frame on top has an empty `resume` list. -/
theorem Visited.resume_nil (he : e.natives.Lawful) (hm : e.Visited m)
    (hbusy : 1 < m.frames.length) {f : Frame} {rest : List Frame} (hframes : m.frames = f :: rest) :
    f.resume = [] := by
  obtain ⟨j, htraced⟩ := hm
  obtain ⟨-, hshape⟩ := (htraced.reached he).sound_and_shape (.of_natives he)
  obtain ⟨context, hregion⟩ := hshape.region_of_length hbusy
  rw [hframes] at hregion
  cases hregion with
  | running runs _ => exact runs.resume
  | entered _ _ _ => rfl

/-- In a `Visited` state of a program that `Avoids` the name, the next
instruction `Spares` the local `self` of every context. -/
theorem Visited.spares_self (he : e.natives.Lawful) (hnames : e.program.Avoids "self")
    (hm : e.Visited m) (hbusy : 1 < m.frames.length) {f : Frame} {rest : List Frame}
    (hframes : m.frames = f :: rest) :
    ∃ i, f.code[f.pc]? = some i ∧ i.takes ≤ f.operands.length
      ∧ (i = .resumeInterruption → f.pending ≠ none) ∧ ∀ c, i.Spares f.next c "self" := by
  obtain ⟨j, htraced⟩ := hm
  have horderly : e.Orderly (· ≠ "self") :=
    orderly_of_reserved he hnames (by decide) (by decide) (by decide)
  obtain ⟨-, hshape⟩ := (htraced.reached he).sound_and_shape horderly
  obtain ⟨context, hregion⟩ := hshape.region_of_length hbusy
  rw [hframes] at hregion
  have hready {i : Instruction} := hregion.ready (fun hdone => hdone.1 rfl) (i := i)
  cases hregion with
  | running runs under =>
      obtain ⟨i, todo, own, hi, -, -, hruns⟩ := runs.live under fun hdone => hdone.1 rfl
      exact ⟨i, hi, (hready hi).1, (hready hi).2, fun c => hruns.spares f.next c "self" (by simp)⟩
  | entered _ _ _ =>
      refine ⟨_, rfl, (hready rfl).1, nofun, fun c lookup hstore => ?_⟩
      exact absurd (Instruction.store.inj hstore).1 (by decide)

/-- So a step changes no binding of `self`. -/
theorem Visited.self_step (he : e.natives.Lawful) (hnames : e.program.Avoids "self")
    (hm : e.Visited m) (hbusy : 1 < m.frames.length) (hstep : e.step m = .ok () m') :
    ∀ c < m.heap.contexts.size, m'.heap.local? c "self" = m.heap.local? c "self" := by
  obtain ⟨f, rest, hframes⟩ := List.exists_cons_of_ne_nil
    (List.ne_nil_of_length_pos (Nat.zero_lt_of_lt hbusy))
  obtain ⟨i, hi, htakes, hpending, hspares⟩ := hm.spares_self he hnames hbusy hframes
  rcases step_cases (.of_natives he) hframes (fun h : False => h.elim) hi htakes hpending with
    ⟨m₁, hstep₁, hexec⟩ | ⟨kind, value, m₁, hraises, hraised⟩
  · cases hstep.symm.trans hstep₁
    exact fun c hc => hexec.advanced.locals c hc "self" (hspares c)
  · have hheap : m'.heap = m₁.heap := by
      rw [step_of_raised? hraises] at hstep
      dsimp only [interrupt] at hstep
      split at hstep <;> cases hstep
      rfl
    intro c hc
    rw [hheap]
    exact hraised.advanced.locals c hc "self" (hspares c)

/-- The states of a run are `Visited` as long as a frame stays on the stack. -/
theorem Visited.along (he : e.natives.Lawful) (hm : e.Visited m) {f : Frame} {rest : List Frame}
    (hframes : m.frames = f :: rest) {i : Instruction} (hi : f.code[f.pc]? = some i) {n : Nat}
    (hrun : e.after n m = some m')
    (hstays : e.During n m fun s => rest.length < s.frames.length) : e.Visited m' := by
  have hbusy := hm.busy he hframes hi
  rw [hframes] at hbusy
  exact hm.after hrun fun k hk s hs => (Nat.le_of_lt_succ hbusy).trans_lt (hstays k hk s hs)

theorem Visited.ranked (he : e.natives.Lawful) (hm : e.Visited m) : m.heap.Ranked :=
  hm.of_keeps he (.of_edit he fun hclosed hr edit => edit.ranked hclosed hr)
    (Heap.initial_ranked ..)

end Engine

namespace Tracking

section

variable {E : Tracking} {e : Engine} (hn : e.natives = Natives.core)
  (hnames : e.program.Avoids "self") {m m' : Machine} (hm : e.Visited m) {below : List Frame}
  (hbelow : below ≠ [])
include hn hnames hm hbelow

/-- `Holds.step` in a `Visited` state, where its hypotheses on the heap are
met. -/
theorem Holds.moves (hholds : E.Holds below m.heap m.frames) (hlive : ¬ E.Done below m.frames)
    (hstep : e.step m = .ok () m') :
    E.Holds below m'.heap m'.frames ∨ E.Ends below m'.frames := by
  have he : e.natives.Lawful := hn ▸ Natives.core_lawful
  have hlength : 1 ≤ below.length := List.length_pos_of_ne_nil hbelow
  have hbusy : 1 < m.frames.length := hlength.trans_lt hholds.length_lt
  have hgrows : m.heap.Grows m'.heap :=
    Engine.after_grows hn (n := 1) (Engine.after_succ.2 ⟨m, rfl, hstep⟩)
  have hvisited : e.Visited m' := hm.step hbusy hstep
  refine hholds.step hn (hm.ranked he) ?_ hlive hstep fun g rest hframes' hrest => ?_
  · exact fun c hsees => hsees.mono hgrows (hm.self_step he hnames hbusy hstep)
  · refine hvisited.resume_nil he ?_ hframes'
    rw [hframes', List.length_cons]
    exact Nat.lt_succ_of_le (hlength.trans hrest)

/-- `Holds` is kept along a run, as long as the stack stays above `below` and
the lowest frame is not `Done`. -/
theorem Holds.after (hholds : E.Holds below m.heap m.frames) {n : Nat}
    (hrun : e.after n m = some m')
    (hdeep : e.During (n + 1) m fun s => below.length < s.frames.length)
    (hlive : e.During n m fun s => ¬ E.Done below s.frames) :
    E.Holds below m'.heap m'.frames := by
  induction n generalizing m' with
  | zero =>
      cases hrun
      exact hholds
  | succ n ih =>
      obtain ⟨m₁, h₁, hstep⟩ := Engine.after_succ.1 hrun
      have hholds₁ := ih h₁ (hdeep.mono (Nat.le_succ _)) (hlive.mono (Nat.le_succ _))
      have hvisited : e.Visited m₁ := hm.after h₁ fun k hk s hs =>
        (Nat.succ_le_of_lt (List.length_pos_of_ne_nil hbelow)).trans_lt
          (hdeep k (hk.trans (Nat.lt_add_of_pos_right Nat.two_pos)) s hs)
      refine (hholds₁.moves hn hnames hvisited hbelow (hlive n (Nat.lt_succ_self n) m₁ h₁)
        hstep).resolve_right fun hends => ?_
      exact absurd (hdeep (n + 1) (Nat.lt_succ_self _) m' hrun) (Nat.not_lt.2 hends.length_le)

/-- When the stack has come down to `below`, there was a step on the way at
which the tracking `Ends`. -/
theorem Holds.ends (hholds : E.Holds below m.heap m.frames) (hfinal : E.final = none) {n : Nat}
    (hrun : e.after n m = some m') (hlow : m'.frames.length ≤ below.length) :
    ∃ k s, k < n ∧ e.after (k + 1) m = some s ∧ E.Ends below s.frames := by
  induction n generalizing m with
  | zero =>
      cases hrun
      exact absurd hholds.length_lt (Nat.not_lt.2 hlow)
  | succ n ih =>
      obtain ⟨m₁, hstep, hrest⟩ := Engine.after_first hrun
      rcases hholds.moves hn hnames hm hbelow (fun hdone => hdone.1 hfinal) hstep with
        hholds₁ | hends
      · have hbusy : 1 < m.frames.length :=
          (Nat.succ_le_of_lt (List.length_pos_of_ne_nil hbelow)).trans_lt hholds.length_lt
        obtain ⟨k, s, hk, hs, hends⟩ := ih (hm.step hbusy hstep) hholds₁ hrest
        exact ⟨k + 1, s, Nat.succ_lt_succ hk, (Engine.after_step hstep _).trans hs, hends⟩
      · exact ⟨0, m₁, Nat.succ_pos n, Engine.after_step hstep 0, hends⟩

end

end Tracking

end ObjectMachine
