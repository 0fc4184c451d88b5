/-
Frames whose code runs where the program says.

In every state of an evaluation the contexts of the heap can be given zones
(Session/Zoned.lean) such that the code left to each frame is `Laid` in the
zone of the frame's context, with the notes that the journal has for it
(`FramesLaid`). There is one moment that `Laid` does not describe, between
`instantiate` and the `init` that constructs the object, or between the load
of `self` and the `init` that passes a construction on; then the frame on
top is `Frame.BeforeInit`.

An instruction keeps `Machine.LaidOut`, with a zone for each context that it
opens (`Conduct.laidAfter`), and so does every step (`step_laidOut`).
-/
import Mathlib
import ObjectMachine.Proofs.Session.Zoned

namespace ObjectMachine

-- ============================================================= journals

/-- `notes` are what the journal has for a context from `pc` on, if it has
anything for it. -/
def Journal.Reads (j : Journal) (context : ContextId) (pc : Nat) (notes : List Note) : Prop :=
  j context = [] ∨ notes = (j context).drop pc

namespace Journal.Reads

variable {j j' : Journal} {context : ContextId} {pc : Nat} {note : Note} {notes : List Note}

theorem drop (h : j.Reads context pc notes) (count : Nat) :
    j.Reads context (pc + count) (notes.drop count) :=
  h.imp_right fun heq => by rw [heq, List.drop_drop]

theorem tail (h : j.Reads context pc (note :: notes)) : j.Reads context (pc + 1) notes :=
  h.drop 1

theorem head (h : j.Reads context pc (note :: notes)) :
    j context = [] ∨ (j context)[pc]? = some note := by
  refine h.imp_right fun heq => ?_
  rw [← List.head?_drop, ← heq]
  rfl

theorem congr (h : j.Reads context pc notes) (heq : j' context = j context) :
    j'.Reads context pc notes := by
  rwa [Reads, heq]

end Journal.Reads

theorem Journal.extend_of_lt {j : Journal} {size : Nat} {context : ContextId} (h : context < size)
    (opened : List (List Note)) : j.extend size opened context = j context := if_pos h

theorem Journal.extend_add (j : Journal) (size k : Nat) (opened : List (List Note)) :
    j.extend size opened (size + k) = opened.getD k [] := by
  rw [extend, if_neg (Nat.not_lt.2 (Nat.le_add_right size k)), Nat.add_sub_cancel_left]

-- =============================================================== frames

namespace Frame

/-- Frames do not share a context, unless it is that of the globals or the
lower one has no code. -/
def Apart (f g : Frame) : Prop := f.context = g.context → f.context = rootContext ∨ g.code = []

/-- The code of a frame from its `pc` on is `Laid` in the zone of its context,
with the notes of the journal. A frame without code only waits. -/
def LaidOut (p : Program) (zones : Zoning) (j : Journal) (f : Frame) : Prop :=
  f.code = [] ∨ ∃ notes, Laid p (zones f.context) (f.code.drop f.pc) notes
    ∧ j.Reads f.context f.pc notes

/-- A frame at an `init`, with code after it that is `Laid`. If the construction
is one that was passed on (`initFields` is false), the object on top of the
operands inherits from `start`. -/
def BeforeInit (p : Program) (zones : Zoning) (j : Journal) (h : Heap) (f : Frame) : Prop :=
  ∃ arity start initFields code notes, f.code.drop f.pc = .init arity start initFields :: code
    ∧ Laid p (zones f.context) code notes ∧ j.Reads f.context f.pc (.plain :: notes)
    ∧ (initFields = false → ∃ id others o, f.operands = id :: others ∧ h.object? id = some o
      ∧ p.inherits o.module start)

variable {p : Program} {zones zones' : Zoning} {j j' : Journal} {f g : Frame}

theorem LaidOut.congr (h : f.LaidOut p zones j) (hcode : g.code = f.code)
    (hcontext : g.context = f.context) (hpc : g.pc = f.pc) : g.LaidOut p zones j := by
  rwa [LaidOut, hcode, hcontext, hpc]

theorem LaidOut.mono (h : f.LaidOut p zones j)
    (hzones : f.code = [] ∨ zones' f.context = zones f.context)
    (hjournal : j' f.context = j f.context) : f.LaidOut p zones' j' := by
  rcases h with hcode | ⟨notes, hlaid, hreads⟩
  · exact .inl hcode
  · rcases hzones with hcode | hzone
    · exact .inl hcode
    · exact .inr ⟨notes, by rwa [hzone], hreads.congr hjournal⟩

end Frame

/-- A heap with zones for its contexts, and frames that are `Frame.LaidOut` in
them. -/
structure FramesLaid (p : Program) (zones : Zoning) (j : Journal) (h : Heap) (frames : List Frame) :
    Prop where
  heap : h.Zoned p zones
  silent : j rootContext = []
  known : ∀ g ∈ frames, g.context < h.contexts.size
  apart : frames.Pairwise Frame.Apart
  laid : ∀ g ∈ frames, g.LaidOut p zones j

namespace FramesLaid

variable {p : Program} {zones zones' : Zoning} {j j' : Journal} {h h' : Heap} {f g : Frame}
  {frames : List Frame}

/-- Without frames `FramesLaid` is about the heap only. -/
theorem idle (heap : h.Zoned p zones) (silent : j rootContext = []) : FramesLaid p zones j h [] :=
  ⟨heap, silent, List.forall_mem_nil _, List.Pairwise.nil, List.forall_mem_nil _⟩

theorem tail (hh : FramesLaid p zones j h (f :: frames)) : FramesLaid p zones j h frames where
  heap := hh.heap
  silent := hh.silent
  known g hg := hh.known g (List.mem_cons_of_mem _ hg)
  apart := (List.pairwise_cons.1 hh.apart).2
  laid g hg := hh.laid g (List.mem_cons_of_mem _ hg)

theorem cons (hh : FramesLaid p zones j h frames) (known : f.context < h.contexts.size)
    (apart : ∀ g ∈ frames, f.Apart g) (laid : f.LaidOut p zones j) :
    FramesLaid p zones j h (f :: frames) where
  heap := hh.heap
  silent := hh.silent
  known := List.forall_mem_cons.2 ⟨known, hh.known⟩
  apart := List.pairwise_cons.2 ⟨apart, hh.apart⟩
  laid := List.forall_mem_cons.2 ⟨laid, hh.laid⟩

/-- The frame on top in another state. -/
theorem replace (hh : FramesLaid p zones j h (f :: frames)) (hcontext : g.context = f.context)
    (laid : g.LaidOut p zones j) : FramesLaid p zones j h (g :: frames) := by
  refine hh.tail.cons ?_ (fun k hk => ?_) laid
  · rw [hcontext]
    exact hh.known f List.mem_cons_self
  · have hapart := (List.pairwise_cons.1 hh.apart).1 k hk
    rwa [Frame.Apart, hcontext]

theorem mono (hh : FramesLaid p zones j h frames) (heap : h'.Zoned p zones')
    (size : h.contexts.size ≤ h'.contexts.size)
    (hzones : ∀ g ∈ frames, g.code = [] ∨ zones' g.context = zones g.context)
    (hjournal : ∀ id < h.contexts.size, j' id = j id) : FramesLaid p zones' j' h' frames where
  heap := heap
  silent := (hjournal _ hh.heap.root_lt).trans hh.silent
  known g hg := (hh.known g hg).trans_le size
  apart := hh.apart
  laid g hg := (hh.laid g hg).mono (hzones g hg) (hjournal _ (hh.known g hg))

/-- Another heap with the same zones. -/
theorem onHeap (hh : FramesLaid p zones j h frames) (heap : h'.Zoned p zones)
    (size : h.contexts.size ≤ h'.contexts.size) : FramesLaid p zones j h' frames :=
  hh.mono heap size (fun _ _ => .inr rfl) fun _ _ => rfl

/-- Contexts that are opened are not those of frames, so `FramesLaid` does not
depend on their zones. -/
theorem opened (hh : FramesLaid p zones j h frames) {zone : Zone}
    (heap : h'.Zoned p (Function.update zones h.contexts.size zone))
    (size : h.contexts.size ≤ h'.contexts.size) :
    FramesLaid p (Function.update zones h.contexts.size zone) j h' frames :=
  hh.mono heap size (fun g hg => .inr (Function.update_of_ne (Nat.ne_of_lt (hh.known g hg)) ..))
    fun _ _ => rfl

/-- A frame whose context is new is laid out in the zone that the context is
given. -/
theorem enter (hh : FramesLaid p zones j h frames) {zone : Zone}
    (heap : h'.Zoned p (Function.update zones h.contexts.size zone))
    (size : h.contexts.size < h'.contexts.size) (hcontext : f.context = h.contexts.size)
    (hpc : f.pc = 0) {notes : List Note} (hlaid : Laid p zone f.code notes)
    (hreads : j.Reads h.contexts.size 0 notes) :
    FramesLaid p (Function.update zones h.contexts.size zone) j h' (f :: frames) := by
  refine (hh.opened heap size.le).cons (by rwa [hcontext]) (fun g hg heq => ?_)
    (.inr ⟨notes, ?_, ?_⟩)
  · rw [hcontext] at heq
    exact absurd heq (Nat.ne_of_gt (hh.known g hg))
  · rwa [hcontext, Function.update_self, hpc, List.drop_zero]
  · rwa [hcontext, hpc]

/-- `unwind` leaves the frames below where they are. -/
theorem unwind (hh : FramesLaid p zones j h frames) (kind : Interruption) :
    FramesLaid p zones j h (ObjectMachine.unwind kind frames) := by
  induction frames with
  | nil => exact hh
  | cons f rest ih =>
      rw [ObjectMachine.unwind]
      split
      · next g hreceive =>
        obtain ⟨g', htake, rfl⟩ := Option.map_eq_some_iff.1 hreceive
        unfold Frame.takeResume? at htake
        split at htake <;> cases htake
        have hlaidOut := hh.laid f List.mem_cons_self
        split
        · exact hh.replace rfl (hlaidOut.congr rfl rfl rfl)
        · exact hh.replace rfl (hlaidOut.congr rfl rfl rfl)
      · exact ih hh.tail

end FramesLaid

/-- There are zones in which all frames are laid out, except that the one on
top may be `BeforeInit`. -/
def Machine.LaidOut (p : Program) (j : Journal) (m : Machine) : Prop :=
  ∃ zones, FramesLaid p zones j m.heap m.frames.tail ∧ ∀ f ∈ m.frames.head?,
    f.context < m.heap.contexts.size ∧ (∀ g ∈ m.frames.tail, f.Apart g)
      ∧ (f.LaidOut p zones j ∨ f.BeforeInit p zones j m.heap)

theorem FramesLaid.laidOut {p : Program} {zones : Zoning} {j : Journal} {m : Machine}
    (h : FramesLaid p zones j m.heap m.frames) : m.LaidOut p j := by
  cases hframes : m.frames with
  | nil =>
      rw [hframes] at h
      refine ⟨zones, ?_, ?_⟩ <;> rw [hframes]
      · exact h
      · exact fun f hf => nomatch hf
  | cons f rest =>
      rw [hframes] at h
      refine ⟨zones, ?_, ?_⟩ <;> rw [hframes]
      · exact h.tail
      · intro g hg
        cases hg
        exact ⟨h.known f List.mem_cons_self, (List.pairwise_cons.1 h.apart).1,
          .inl (h.laid f List.mem_cons_self)⟩

-- ========================================================= instructions

/-- The frames below the running one are laid out. -/
def Machine.LaidBelow (p : Program) (j : Journal) (m : Machine) : Prop :=
  ∃ zones, FramesLaid p zones j m.heap m.frames.tail

/-- `Machine.LaidOut` after a part of an instruction; after a fault, which ends
the running frame, only the frames below it count. -/
def LaidAfterPart (p : Program) (j : Journal) : EStateM.Result Fault Machine Unit → Prop
  | .ok _ m => m.LaidOut p j
  | .error _ m => m.LaidBelow p j

/-- The same after a whole instruction, which may also interrupt the running
frame. -/
def LaidAfter (p : Program) (j : Journal) : EStateM.Result Fault Machine Flow → Prop
  | .ok .next m => m.LaidOut p j
  | .ok (.interrupt _ _) m => m.LaidBelow p j
  | .error _ m => m.LaidBelow p j

namespace Frame

/-- A frame whose next instruction is `i`: either the code from `i` on is `Laid`,
or `i` is the `init` of a frame that is `BeforeInit`. -/
inductive LaidAt (p : Program) (zones : Zoning) (j : Journal) (h : Heap) (f : Frame)
    (i : Instruction) : Prop
  | laid {notes : List Note}
      (laid : Laid p (zones f.context) (i :: f.code.drop (f.pc + 1)) notes)
      (reads : j.Reads f.context f.pc notes) : LaidAt p zones j h f i
  | beforeInit {arity : Nat} {start : NodeId} {initFields : Bool} {notes : List Note}
      (init : i = .init arity start initFields)
      (laid : Laid p (zones f.context) (f.code.drop (f.pc + 1)) notes)
      (reads : j.Reads f.context (f.pc + 1) notes)
      (passed : initFields = false → ∃ id others o, f.operands = id :: others
        ∧ h.object? id = some o ∧ p.inherits o.module start) : LaidAt p zones j h f i

/-- The code after the next instruction is `Laid`. -/
def LaidRest (p : Program) (zones : Zoning) (j : Journal) (f : Frame) : Prop :=
  ∃ notes, Laid p (zones f.context) (f.code.drop (f.pc + 1)) notes
    ∧ j.Reads f.context (f.pc + 1) notes

variable {p : Program} {zones : Zoning} {j : Journal} {h : Heap} {f g : Frame} {i : Instruction}

theorem LaidRest.laidOut (hleft : f.LaidRest p zones j) (hcode : g.code = f.code)
    (hcontext : g.context = f.context) (hpc : g.pc = f.pc + 1) : g.LaidOut p zones j := by
  rw [LaidOut, hcode, hcontext, hpc]
  exact .inr hleft

/-- Every frame of a machine that is laid out is `LaidAt` its next
instruction. -/
theorem laidAt_of_laidOut (hi : f.code[f.pc]? = some i)
    (hf : f.LaidOut p zones j ∨ f.BeforeInit p zones j h) : f.LaidAt p zones j h i := by
  have hdrop : f.code.drop f.pc = i :: f.code.drop (f.pc + 1) := by
    obtain ⟨hlt, rfl⟩ := List.getElem?_eq_some_iff.1 hi
    exact List.drop_eq_getElem_cons hlt
  rcases hf with (hcode | ⟨notes, hlaid, hreads⟩)
    | ⟨_, _, _, _, notes, hcode, hlaid, hreads, hpassed⟩
  · rw [hcode] at hi
    cases hi
  · exact .laid (hdrop ▸ hlaid) hreads
  · rw [hdrop] at hcode
    obtain ⟨rfl, rfl⟩ := List.cons.inj hcode
    exact .beforeInit rfl hlaid hreads.tail hpassed

end Frame

/-- Instructions that are laid out in one way only. -/
def Instruction.isStraight : Instruction → Bool
  | .push _ | .pop | .dup | .swap | .get _ | .set _ => true
  | .call _ _ _ | .inherits _ | .instantiate _ (some _) => true
  | _ => false

theorem Laid.straight {p : Program} {zone : Zone} {i : Instruction} {code : Code}
    {notes : List Note} (h : Laid p zone (i :: code) notes) (hi : i.isStraight) :
    ∃ rest, notes = .plain :: rest ∧ Laid p zone code rest ∧ i.Simple p := by
  cases h with
  | plain simple rest => exact ⟨_, rfl, rest, simple⟩
  | _ => cases hi

/-- An `init` that is laid out on its own is a construction as what is named. -/
theorem Laid.init {p : Program} {zone : Zone} {arity : Nat} {start : NodeId} {initFields : Bool}
    {code : Code} {notes : List Note}
    (h : Laid p zone (.init arity start initFields :: code) notes) :
    ∃ rest, notes = .plain :: rest ∧ Laid p zone code rest ∧ initFields = true := by
  cases h with
  | plain simple rest => exact ⟨_, rfl, rest, simple.1⟩

section

variable {p : Program} {zone : Zone} {code : Code} {notes : List Note}

/-- A `load` is followed by other code, or it passes `self` on to another
constructor. -/
theorem Laid.load {name : String} (h : Laid p zone (.load name :: code) notes) :
    ∃ note rest, notes = note :: rest ∧ (Laid p zone code rest
      ∨ ∃ body start arity after afterNotes, zone = .block body ∧ name = "self"
        ∧ p.Delegates body start ∧ code = .init arity start false :: after
        ∧ rest = .plain :: afterNotes ∧ Laid p zone after afterNotes) := by
  cases h with
  | plain _ rest => exact ⟨_, _, rfl, .inl rest⟩
  | reference _ _ rest => exact ⟨_, _, rfl, .inl rest⟩
  | delegate delegates rest =>
      exact ⟨_, _, rfl, .inr ⟨_, _, _, _, _, rfl, rfl, delegates, rfl, rfl, rest⟩⟩

/-- A `store` binds a name that belongs to the zone, or chooses a handler. -/
theorem Laid.bind_or_handle {name : String} (h : Laid p zone (.store name false :: code) notes) :
    ∃ rest, notes = .plain :: rest ∧ (p.Binds name zone ∧ Laid p zone code rest
      ∨ ∃ protection body, zone = .handlers protection ∧ p.Handles protection body name
        ∧ Laid p (.block body) code rest) := by
  cases h with
  | plain simple _ => exact simple.elim
  | bind binds rest => exact ⟨_, rfl, .inl ⟨binds, rest⟩⟩
  | handle handles rest => exact ⟨_, rfl, .inr ⟨_, _, rfl, handles, rest⟩⟩

theorem Laid.assigns {name : String} (h : Laid p zone (.store name true :: code) notes) :
    ∃ rest, notes = .plain :: rest ∧ p.Assigns name ∧ Laid p zone code rest := by
  cases h with
  | plain simple _ => exact simple.elim
  | assign assigns rest => exact ⟨_, rfl, assigns, rest⟩

/-- What `instantiate` makes is constructed next. -/
theorem Laid.makes_next {module : NodeId}
    (h : Laid p zone (.instantiate module none :: code) notes) :
    ∃ arity after rest, code = .init arity module true :: after ∧ notes = .plain :: .plain :: rest
      ∧ (p.isKind Kind.isAnonymous module → p.Sited zone module) ∧ Laid p zone after rest := by
  cases h with
  | plain simple _ => exact simple.elim
  | make _ sited rest => exact ⟨_, _, _, rfl, rfl, sited, rest⟩

theorem Laid.jumps {count : Nat} (h : Laid p zone (.conditionalJump count :: code) notes) :
    ∃ rest, notes = .plain :: rest ∧ Laid p zone code rest
      ∧ Laid p zone (code.drop count) (rest.drop count) := by
  cases h with
  | plain simple _ => exact simple.elim
  | jump stays skips => exact ⟨_, rfl, stays, skips⟩

/-- Each branch of an `ifThenElse` is laid out in a zone inside. -/
theorem Laid.branches {thenCode elseCode : Code}
    (h : Laid p zone (.ifThenElse thenCode elseCode :: code) notes) :
    ∃ thenNotes elseNotes rest, notes = .branches thenNotes elseNotes :: rest
      ∧ Laid p zone code rest ∧ ∀ condition : Bool, ∃ inner, p.Inside zone inner
        ∧ Laid p inner (if condition then thenCode else elseCode)
          (if condition then thenNotes else elseNotes) := by
  cases h with
  | plain simple _ => exact simple.elim
  | branch thenInside thenLaid elseInside elseLaid rest =>
      refine ⟨_, _, _, rfl, rest, fun condition => ?_⟩
      cases condition with
      | true => exact ⟨_, thenInside, thenLaid⟩
      | false => exact ⟨_, elseInside, elseLaid⟩

theorem Laid.protects {body handler always : Code}
    (h : Laid p zone (.tryCatchAlways body handler always :: code) notes) :
    ∃ bodyNotes handlerNotes alwaysNotes rest,
      notes = .protection bodyNotes handlerNotes alwaysNotes :: rest ∧ Laid p zone code rest
      ∧ (∃ inner, p.Inside zone inner ∧ Laid p inner body bodyNotes)
      ∧ (∃ inner, p.Inside zone inner ∧ Laid p inner handler handlerNotes)
      ∧ ∃ inner, p.Inside zone inner ∧ Laid p inner always alwaysNotes := by
  cases h with
  | plain simple _ => exact simple.elim
  | protect bodyInside bodyLaid handlerInside handlerLaid alwaysInside alwaysLaid rest =>
      exact ⟨_, _, _, _, rfl, rest, ⟨_, bodyInside, bodyLaid⟩, ⟨_, handlerInside, handlerLaid⟩,
        ⟨_, alwaysInside, alwaysLaid⟩⟩

end

namespace Program

variable {p : Program} (hp : p.root.Numbered) (hself : p.Avoids "self")
include hp hself

/-- Only in the `loose` zone may a variable be called `self`. -/
theorem Binds.loose_of_self {zone : Zone} (h : p.Binds "self" zone) : zone = .loose := by
  have hnames {node : NodeId} : "self" ∉ p.introducedNames node := by
    intro hmem
    obtain ⟨entry, hentry, hname⟩ := List.mem_map.1 hmem
    obtain ⟨kind, hkind, hsome⟩ := Option.bind_eq_some_iff.1 (name?_of_contribution hp hentry)
    exact hself.kind? hkind (hname ▸ hsome)
  cases zone with
  | globals => exact absurd (show '.' ∈ "self".toList from h) (by decide)
  | loose => rfl
  | handlers protection => exact absurd (show "self" = exceptionLocal from h) (by decide)
  | block body =>
      rcases h with hmem | ⟨above, -, hmem⟩ | hmem
      · exact absurd hmem hnames
      · exact absurd hmem hnames
      · exact absurd hmem (by decide)

omit hp in
theorem Assigns.ne_self {name : String} (h : p.Assigns name) : name ≠ "self" := by
  obtain ⟨t, ht, place, value, hkind, hplace⟩ := h
  refine hself.boundNames (by decide) (by decide) ht ?_
  rw [boundNames, hkind]
  show name ∈ (p.placeName place).toOption.toList
  rw [hplace]
  exact List.mem_cons_self

end Program

/-- A constructor that passes on to another one finds its own object as
`self`. -/
theorem Heap.Zoned.delegated {p : Program} (hp : p.root.Numbered) {zones : Zoning} {h : Heap}
    (hz : h.Zoned p zones) {context : ContextId} (hknown : context < h.contexts.size)
    {body start : NodeId} (hzone : zones context = .block body)
    (hdelegates : p.Delegates body start)
    {value : ObjectId} (hvalue : h.lookup context "self" = some value) :
    ∃ o, h.object? value = some o ∧ p.inherits o.module start := by
  obtain ⟨constructor, owner, hbody, hparent, hstart⟩ := hdelegates
  have hcontext : h.context? context = some h.contexts[context] := Array.getElem?_eq_getElem hknown
  obtain ⟨hanchored, hown⟩ := hzone ▸ (hz.context hcontext).hangs
  cases hlink : h.contexts[context].parent with
  | none => rw [hlink] at hanchored; cases hanchored
  | some link =>
      rw [hlink] at hanchored
      cases hanchored with
      | nested sited => exact absurd sited (hbody.not_sited hp)
      | outermost parent routine plain =>
          cases parent.symm.trans (hbody.parent hp)
          obtain ⟨_, _, _, hkind, -⟩ := hbody
          rw [Program.isKind, hkind] at plain
          exact absurd rfl plain
      | @owned unit owner' id o parent routine above holder known inherits =>
          cases parent.symm.trans (hbody.parent hp)
          cases above.symm.trans hparent
          have hlocal : h.local? context "self" = some id := by
            rw [local?, hcontext]
            exact hown constructor id hbody hlink
          cases hvalue.symm.trans (lookup_of_local? hlocal)
          refine ⟨o, known, Program.inherits_trans inherits ?_⟩
          rcases hstart with rfl | hsuper
          · exact p.inherits_self _
          · exact Program.inherits_iff_follows.2
              (.single (List.mem_append_right _ (Option.mem_toList.2 hsuper)))

namespace Frame

variable {p : Program} {zones : Zoning} {j : Journal} {h : Heap} {f : Frame} {i : Instruction}

theorem LaidAt.laid_of_ne (hlaidAt : f.LaidAt p zones j h i)
    (hi : ∀ arity start initFields, i ≠ .init arity start initFields) :
    ∃ notes, Laid p (zones f.context) (i :: f.code.drop (f.pc + 1)) notes
      ∧ j.Reads f.context f.pc notes := by
  cases hlaidAt with
  | laid laid reads => exact ⟨_, laid, reads⟩
  | beforeInit init => exact absurd init (hi _ _ _)

theorem LaidAt.straight (hlaidAt : f.LaidAt p zones j h i) (hi : i.isStraight) :
    f.LaidRest p zones j ∧ i.Simple p := by
  cases hlaidAt with
  | beforeInit init => rw [init] at hi; cases hi
  | laid laid reads =>
      obtain ⟨rest, rfl, hrest, hsimple⟩ := laid.straight hi
      exact ⟨⟨rest, hrest, reads.tail⟩, hsimple⟩

/-- How the code goes on after an `init`. -/
theorem LaidAt.init {arity : Nat} {start : NodeId} {initFields : Bool}
    (hlaidAt : f.LaidAt p zones j h (.init arity start initFields)) :
    f.LaidRest p zones j ∧ (initFields = false → ∃ id others o, f.operands = id :: others
      ∧ h.object? id = some o ∧ p.inherits o.module start) := by
  cases hlaidAt with
  | beforeInit init laid reads passed =>
      cases init
      exact ⟨⟨_, laid, reads⟩, passed⟩
  | laid laid reads =>
      obtain ⟨rest, rfl, hrest, rfl⟩ := laid.init
      exact ⟨⟨rest, hrest, reads.tail⟩, fun hinit => nomatch hinit⟩

end Frame

-- ================================================================ calls

/-- Code that `CallsBack` is laid out among the globals. -/
theorem Natives.CallsBack.laid {w : World} {p : Program}
    (hlist : w.core.list < p.size ∧ (p.name? w.core.list).isSome) {block : ObjectId}
    {elements : List ObjectId} {code : Code} (h : CallsBack w block elements code) :
    ∃ notes, Laid p .globals code notes := by
  have happly (element : ObjectId) : p.Lays .globals (applyCode block element)
      [.plain, .plain, .plain] :=
    fun _ _ hrest => .plain trivial (.plain trivial (.plain trivial hrest))
  have hall {after : Code} {notes : List Note} (hafter : p.Lays .globals after notes)
      (elements : List ObjectId) : ∃ notes, p.Lays .globals
        (elements.flatMap fun element => applyCode block element ++ after) notes := by
    induction elements with
    | nil => exact ⟨[], .nil⟩
    | cons element rest ih =>
        obtain ⟨restNotes, hrest⟩ := ih
        exact ⟨_, ((happly element).append hafter).append hrest⟩
  cases h with
  | each =>
      obtain ⟨notes, hlays⟩ := hall (.plain (i := .pop) trivial) elements
      exact ⟨_, hlays _ _ (.plain trivial (.leave .globals .nil))⟩
  | collect =>
      obtain ⟨notes, hlays⟩ := hall .nil elements
      simp only [List.append_nil] at hlays
      exact ⟨_, hlays _ _ (.plain hlist (.leave .globals .nil))⟩

/-- If the frame that `World.Started` pushes is laid out, so is the machine it
leaves, and if the stack was full the frames below are. -/
theorem World.Started.laidAfterPart {w : World} {p : Program} {zones : Zoning} {j : Journal}
    {code : Code} {context : ContextId} {heap : Heap} {g : Frame} {rest : List Frame} {m : Machine}
    {r : EStateM.Result Fault Machine Unit} (h : w.Started code context heap g rest m r)
    (hh : FramesLaid p zones j heap ({ code, context } :: g.resuming [.return] :: rest)) :
    LaidAfterPart p j r := by
  cases h with
  | runs => exact FramesLaid.laidOut hh
  | full => exact ⟨zones, hh.tail.tail⟩

namespace Engine

/-- A linked program with the native methods of the library, whose core modules
are nodes with names and which declares no variable `self`. -/
structure LinkedWithCore (e : Engine) : Prop where
  linked : e.program.Linked
  natives : e.natives = Natives.core
  core : e.toWorld.Within fun id => id < e.program.size ∧ (e.program.name? id).isSome
  self : e.program.Avoids "self"

variable {e : Engine} {zones : Zoning} {j : Journal} {g : Frame} {rest : List Frame} {m : Machine}

theorem LinkedWithCore.named (he : e.LinkedWithCore) :
    e.toWorld.Within fun id => ¬ e.program.isKind Kind.isAnonymous id where
  object := Program.not_anonymous_of_name? he.core.object.2
  boolean := Program.not_anonymous_of_name? he.core.boolean.2
  number := Program.not_anonymous_of_name? he.core.number.2
  string := Program.not_anonymous_of_name? he.core.string.2
  list := Program.not_anonymous_of_name? he.core.list.2
  evaluationError := Program.not_anonymous_of_name? he.core.evaluationError.2

theorem LinkedWithCore.entity (he : e.LinkedWithCore) {name : String} {id : NodeId}
    (h : e.program.entity? name = some id) : ¬ e.program.isKind Kind.isAnonymous id :=
  Program.not_anonymous_of_name? (Program.entity?_named he.linked.complete.numbered h).2

theorem contexts_size_lt_invoking (receiver : ObjectId) (parameters : List Tree)
    (args : List ObjectId) (h : Heap) :
    h.contexts.size < (e.invoking receiver parameters args h).contexts.size := by
  have hgrows := (e.toWorld.bindAll_changes h.contexts.size parameters args
    (h.newContext (.object receiver)).2).grows.contexts_size_le
  rw [Heap.newContext, Array.size_push] at hgrows
  exact hgrows

theorem contexts_size_lt_constructing (receiver : ObjectId) (start : NodeId) (args : List ObjectId)
    (initFields : Bool) (h : Heap) :
    h.contexts.size < (e.constructing receiver start args initFields h).contexts.size := by
  have hsize : (((e.prepared receiver start initFields h).newContext (.object receiver)).2.declare
      h.contexts.size "self" receiver).contexts.size = h.contexts.size + 1 := by
    rw [Heap.contexts_size_declare, Heap.newContext, Array.size_push, contexts_prepared]
  have hgrows := (e.toWorld.bindAll_changes h.contexts.size
    (e.parametersOf (e.program.lookupConstructor? start args.length)) args
    (((e.prepared receiver start initFields h).newContext (.object receiver)).2.declare
      h.contexts.size "self" receiver)).grows.contexts_size_le
  rw [hsize] at hgrows
  exact hgrows

section

variable (he : e.LinkedWithCore)
  (hh : FramesLaid e.program zones j m.heap (g.resuming [.return] :: rest))
include he hh

theorem Constructs.laidAfterPart {receiver : ObjectId} {start : NodeId} {args : List ObjectId}
    {initFields : Bool} {r : EStateM.Result Fault Machine Unit}
    (h : e.Constructs receiver start args initFields g rest m r) (htail : m.frames.tail = rest)
    {o : Object} (known : m.heap.object? receiver = some o)
    (hproper : initFields = true → o.module = start) (hinherits : e.program.inherits o.module start)
    (hnotes : j m.heap.contexts.size
      = e.program.initNotes start (e.program.lookupConstructor? start args.length) initFields) :
    LaidAfterPart e.program j r := by
  cases h with
  | refused _ => exact ⟨zones, htail ▸ hh.tail⟩
  | uncompiled =>
      have hprepared : (e.prepared receiver start initFields m.heap).Zoned e.program zones :=
        hh.heap.prepared fun hinit o' ho' => by
          cases known.symm.trans ho'
          exact hproper hinit
      have hrest := hh.tail.onHeap hprepared (by rw [contexts_prepared])
      exact ⟨zones, htail ▸ hrest⟩
  | started compiles ends =>
      have hheap := hh.heap.constructing he.named he.linked.complete.numbered he.self known hproper
        hinherits args
      have hlaid := Program.initCode_laid he.linked compiles
      have hreads : j.Reads m.heap.contexts.size 0 _ := .inr hnotes.symm
      exact ends.laidAfterPart
        (hh.enter hheap (contexts_size_lt_constructing ..) rfl rfl hlaid hreads)

theorem Performs.laidAfterPart {receiver : ObjectId} {args : List ObjectId}
    {r : EStateM.Result Fault Machine Unit}
    (h : Natives.Performs e.toWorld receiver args g rest m r) (htail : m.frames.tail = rest) :
    LaidAfterPart e.program j r := by
  -- the frame of the caller with an answer
  have hanswered {heap : Heap} (hheap : heap.Zoned e.program zones)
      (hsize : heap.contexts = m.heap.contexts) (value : ObjectId) :
      FramesLaid e.program zones j heap (g.push value :: rest) := by
    have hlaidOut := (hh.laid _ List.mem_cons_self).congr (g := g.push value) rfl rfl rfl
    exact (hh.replace (g := g.push value) rfl hlaidOut).onHeap hheap (by rw [hsize])
  cases h with
  | fault _ => exact ⟨zones, htail ▸ hh.tail⟩
  | reserved _ => exact FramesLaid.laidOut (hanswered hh.heap rfl _)
  | element _ _ => exact FramesLaid.laidOut (hanswered hh.heap rfl _)
  | number value =>
      exact FramesLaid.laidOut
        (hanswered (hh.heap.number he.named value) (Heap.contexts_intern ..) _)
  | string value =>
      exact FramesLaid.laidOut
        (hanswered (hh.heap.string he.named value) (Heap.contexts_intern ..) _)
  | print line => exact FramesLaid.laidOut (hanswered hh.heap rfl _)
  | @add element elements _ held =>
      have hgrows := (Heap.Change.relist held (List.prefix_append elements [element])).grows
      exact FramesLaid.laidOut (hanswered (hh.heap.updateObject hgrows (fun _ => rfl) (fun _ => rfl)
        fun _ => rfl) rfl _)
  | callBack _ _ calls ends =>
      obtain ⟨notes, hlaid⟩ := calls.laid he.core.list
      refine ends.laidAfterPart (hh.cons hh.heap.root_lt (fun _ _ _ => .inl rfl)
        (.inr ⟨notes, ?_, ?_⟩))
      · show Laid e.program (zones rootContext) _ notes
        rw [hh.heap.root]
        exact hlaid
      · exact .inl hh.silent
  | @throw _ module message found =>
      have hheap := hh.heap.withMessage he.named (he.entity found) message
      have hsize := (e.toWorld.withMessage_changes module message m.heap).grows.contexts_size_le
      exact ⟨zones, htail ▸ hh.tail.onHeap hheap hsize⟩

theorem Invokes.laidAfterPart {method : NodeId} {receiver : ObjectId} {args : List ObjectId}
    {r : EStateM.Result Fault Machine Unit} (h : e.Invokes method receiver args g rest m r)
    (hframes : m.frames = g :: rest) {o : Object} (known : m.heap.object? receiver = some o)
    (howner : ∃ owner, e.program.parent? method = some owner ∧ e.program.isKind Kind.isHolder owner
      ∧ e.program.inherits o.module owner)
    (hnotes : j m.heap.contexts.size = e.program.methodNotes method) :
    LaidAfterPart e.program j r := by
  have htail : m.frames.tail = rest := by rw [hframes]; rfl
  cases h with
  | refused _ => exact ⟨zones, htail ▸ hh.tail⟩
  | native found arity =>
      rw [he.natives] at found
      exact Performs.laidAfterPart he hh (Natives.core_performs found arity hframes) htail
  | started isMethod compiles ends =>
      obtain ⟨_, _, body, _, hmethod, hlaid⟩ := Program.methodCode_laid he.linked compiles
      cases isMethod.symm.trans hmethod
      obtain ⟨owner, hparent, hholder, hinherits⟩ := howner
      have hheap := hh.heap.invoking he.named he.linked.complete.numbered he.self known hmethod
        hparent hholder hinherits args
      exact ends.laidAfterPart (hh.enter hheap (contexts_size_lt_invoking ..) rfl rfl hlaid
        (.inr hnotes.symm))

/-- A message that `Dispatches` is answered by a method that is noted for it. -/
theorem Dispatches.laidAfterPart {receiver : ObjectId} {message : String} {args : List ObjectId}
    {start : Option NodeId} {r : EStateM.Result Fault Machine Unit}
    (h : e.Dispatches receiver message args start g rest m r) (hframes : m.frames = g :: rest)
    (hanswer : ∀ o method, m.heap.object? receiver = some o →
      e.methodFor o.module message args.length start = some method →
      j m.heap.contexts.size = e.program.methodNotes method)
    (hfallback : ∀ o method, m.heap.object? receiver = some o →
      e.methodFor o.module message args.length start = none →
      e.program.lookupMethod? o.module fallbackSelector 2 = some method →
      j m.heap.contexts.size = e.program.methodNotes method) : LaidAfterPart e.program j r := by
  cases h with
  | refused _ =>
      refine ⟨zones, ?_⟩
      rw [hframes]
      exact hh.tail
  | answered known found ends =>
      exact ends.laidAfterPart he hh hframes known
        (owner_of_methodFor he.linked.complete.numbered found) (hanswer _ _ known found)
  | @fallback object method _ known missing found ends =>
      have hheap := hh.heap.misunderstood he.named message args
      have hsize : (e.misunderstood message args m.heap).contexts = m.heap.contexts :=
        Heap.contexts_intern ..
      have hfound : e.methodFor object.module fallbackSelector 2 none = some method := found
      obtain ⟨o', known', hgrows⟩ :=
        ((Heap.intern_grows ..).trans (Heap.allocate_grows ..)).object known
      have howner := owner_of_methodFor he.linked.complete.numbered hfound
      rw [← hgrows.module] at howner
      refine ends.laidAfterPart he (m := { m with heap := e.misunderstood message args m.heap })
        (hh.onHeap hheap (by rw [hsize])) hframes known' howner ?_
      rw [← hfallback object method known missing found]
      show j (e.misunderstood message args m.heap).contexts.size = _
      rw [hsize]

end

-- ====================================================== one instruction

section

variable {f : Frame}

/-- One more context for a protected block (`sheltered`), with the frame that
runs there. -/
theorem framesLaid_sheltered {h : Heap} {frames : List Frame} {count : Nat}
    (hh : FramesLaid e.program zones j (sheltered f count h) frames)
    (known : f.context < h.contexts.size) {zone : Zone}
    (hinside : e.program.Inside (zones f.context) zone)
    (hcontext : g.context = h.contexts.size + count) (hpc : g.pc = 0) {notes : List Note}
    (hlaid : Laid e.program zone g.code notes)
    (hreads : j.Reads (h.contexts.size + count) 0 notes) :
    ∃ zones', zones' f.context = zones f.context
      ∧ FramesLaid e.program zones' j (sheltered f (count + 1) h) (g :: frames) := by
  have hsize := contexts_size_sheltered f count h
  have hheap := hh.heap.newContext hinside.fitsZone
  rw [← sheltered_succ] at hheap
  refine ⟨_, ?_, hh.enter hheap ?_ ?_ hpc hlaid ?_⟩
  · rw [hsize]
    exact Function.update_of_ne (Nat.ne_of_lt (known.trans_le (Nat.le_add_right _ _))) ..
  · rw [hsize, contexts_size_sheltered]
    exact Nat.lt_succ_self _
  · rw [hcontext, hsize]
  · rwa [hsize]

/-- One more context, in which nothing runs. -/
theorem framesLaid_sheltered_none {h : Heap} {frames : List Frame} {count : Nat}
    (hh : FramesLaid e.program zones j (sheltered f count h) frames) :
    ∃ zones', FramesLaid e.program zones' j (sheltered f (count + 1) h) frames := by
  have hloose : e.program.Inside (zones f.context) .loose := trivial
  have hheap := hh.heap.newContext hloose.fitsZone
  rw [← sheltered_succ] at hheap
  refine ⟨_, hh.opened hheap ?_⟩
  rw [contexts_size_sheltered, contexts_size_sheltered]
  exact Nat.le_succ _

/-- What `instanceIn` makes hangs from the context it is made in, if its module
says so. -/
theorem hangsByModule_instanceIn {context : ContextId} {module : NodeId}
    (hsited : e.program.isKind Kind.isAnonymous module → e.program.Sited (zones context) module) :
    e.program.HangsByModule zones (e.instanceIn context module) := by
  by_cases hanonymous : e.program.isKind Kind.isAnonymous module
  · obtain ⟨kind, hkind, htest⟩ := (Option.any_eq_true _ _).1 hanonymous
    unfold instanceIn
    rw [hkind]
    cases kind with
    | singleton name =>
        cases name with
        | none =>
            exact ⟨fun h => absurd hanonymous h, hsited, fun _ _ hbound => nomatch hbound⟩
        | some name => cases htest
    | _ => cases htest
  · have hinstance : e.instanceIn context module = { module } := by
      unfold instanceIn
      split
      · next hkind =>
        rw [Program.isKind, hkind] at hanonymous
        exact absurd rfl hanonymous
      · rfl
    rw [hinstance]
    exact Program.hangsByModule_of_named hanonymous rfl

/-- The state before an instruction: the frame is `LaidAt` it, the frames below
are laid out, and the journal has the notes for the contexts that the
instruction will open (`Engine.opened`). -/
structure LaidBefore (e : Engine) (zones : Zoning) (j : Journal) (f : Frame) (rest : List Frame)
    (h : Heap) (i : Instruction) : Prop where
  below : FramesLaid e.program zones j h rest
  known : f.context < h.contexts.size
  apart : ∀ g ∈ rest, f.Apart g
  stands : f.LaidAt e.program zones j h i
  sound : ∀ id ∈ f.operands, id < h.size
  proper : ∀ arity start receiver others o, i = .init arity start true →
    f.operands = receiver :: others → h.object? receiver = some o → o.module = start
  opened : ∀ k, j (h.contexts.size + k) = (e.opened f ((j f.context)[f.pc]?) h i).getD k []

namespace LaidBefore

variable {i : Instruction}

/-- The frame goes on after the instruction. -/
theorem next (hf : e.LaidBefore zones j f rest m.heap i) (hleft : f.LaidRest e.program zones j)
    (hcode : g.code = f.code) (hcontext : g.context = f.context) (hpc : g.pc = f.pc + 1) :
    FramesLaid e.program zones j m.heap (g :: rest) := by
  refine hf.below.cons ?_ (fun k hk => ?_) (hleft.laidOut hcode hcontext hpc)
  · rw [hcontext]
    exact hf.known
  · rw [Frame.Apart, hcontext]
    exact hf.apart k hk

/-- What `Constructs` leaves is laid out. -/
theorem constructs (he : e.LinkedWithCore) {arity : Nat} {start : NodeId} {initFields : Bool}
    (hf : e.LaidBefore zones j f rest m.heap (.init arity start initFields)) {receiver : ObjectId}
    {others : List ObjectId} (top : f.operands = receiver :: others)
    (enough : arity ≤ others.length)
    {r : EStateM.Result Fault Machine Unit}
    (ends : e.Constructs receiver start (others.take arity).reverse initFields
      (f.next.dropping (arity + 1)) rest
      { m with frames := f.next.dropping (arity + 1) :: rest } r) :
    LaidAfterPart e.program j r := by
  obtain ⟨hleft, hpassed⟩ := hf.stands.init
  obtain ⟨o, ho⟩ := Heap.object?_of_lt (hf.sound receiver (top ▸ List.mem_cons_self))
  have hmodule (hinit : initFields = true) : o.module = start :=
    hf.proper arity start receiver others o (by rw [hinit]) top ho
  have hinherits : e.program.inherits o.module start := by
    cases hinit : initFields with
    | true =>
        rw [hmodule hinit]
        exact e.program.inherits_self start
    | false =>
        obtain ⟨_, _, o', top', ho', hinherits⟩ := hpassed hinit
        cases top.symm.trans top'
        cases ho.symm.trans ho'
        exact hinherits
  have hwaits : FramesLaid e.program zones j m.heap
      ((f.next.dropping (arity + 1)).resuming [.return] :: rest) := hf.next hleft rfl rfl rfl
  refine ends.laidAfterPart (m := { m with frames := f.next.dropping (arity + 1) :: rest })
    he hwaits rfl
    ho hmodule hinherits ?_
  rw [List.length_reverse, List.length_take, Nat.min_eq_left enough]
  exact hf.opened 0

/-- So is what `Dispatches` leaves. -/
theorem dispatches (he : e.LinkedWithCore) {message : String} {arity : Nat} {start : Option NodeId}
    (hf : e.LaidBefore zones j f rest m.heap (.call message arity start)) {receiver : ObjectId}
    {others : List ObjectId} (enough : arity ≤ f.operands.length)
    (top : f.operands.drop arity = receiver :: others) {r : EStateM.Result Fault Machine Unit}
    (ends : e.Dispatches receiver message (f.operands.take arity).reverse start
      (f.next.dropping (arity + 1)) rest
      { m with frames := f.next.dropping (arity + 1) :: rest } r) :
    LaidAfterPart e.program j r := by
  have hlength : (f.operands.take arity).reverse.length = arity := by
    rw [List.length_reverse, List.length_take, Nat.min_eq_left enough]
  have hreceiver : f.operands[arity]? = some receiver := by
    rw [← List.head?_drop, top]
    rfl
  have hnew := hf.opened 0
  rw [Engine.opened, hreceiver, Option.bind_some] at hnew
  have hwaits : FramesLaid e.program zones j m.heap
      ((f.next.dropping (arity + 1)).resuming [.return] :: rest) :=
    hf.next (hf.stands.straight rfl).1 rfl rfl rfl
  refine ends.laidAfterPart (m := { m with frames := f.next.dropping (arity + 1) :: rest })
    he hwaits rfl
    (fun o method ho hfound => ?_) fun o method ho hmissing hfound => ?_
  · have ho : m.heap.object? receiver = some o := ho
    rw [hlength] at hfound
    simp only [ho, hfound] at hnew
    exact hnew
  · have ho : m.heap.object? receiver = some o := ho
    rw [hlength] at hmissing
    simp only [ho, hmissing, hfound] at hnew
    exact hnew

/-- A name that `store` binds belongs to the zone, which may become that of a
handler. -/
theorem binds (he : e.LinkedWithCore) {name : String}
    (hf : e.LaidBefore zones j f rest m.heap (.store name false)) (hcontext : g.context = f.context)
    (hcode : g.code = f.code) (hpc : g.pc = f.pc + 1) (value : ObjectId) :
    ∃ zones', FramesLaid e.program zones' j (m.heap.declare f.context name value) (g :: rest) := by
  have hnumbered := he.linked.complete.numbered
  have hsize : m.heap.contexts.size ≤ (m.heap.declare f.context name value).contexts.size :=
    (Heap.contexts_size_declare ..).ge
  obtain ⟨notes, hlaid, hreads⟩ := hf.stands.laid_of_ne fun _ _ _ heq => nomatch heq
  obtain ⟨after, rfl, ⟨hbinds, hafter⟩ | ⟨protection, body, hzone, hhandles, hafter⟩⟩ :=
    hlaid.bind_or_handle
  · have hheap := hf.below.heap.declare hbinds
      (fun heq => Program.Binds.loose_of_self hnumbered he.self (heq ▸ hbinds)) value
    exact ⟨zones, (hf.next ⟨_, hafter, hreads.tail⟩ hcode hcontext hpc).onHeap hheap hsize⟩
  · have hbinds : e.program.Binds name (.block body) := hhandles.1
    have hname : name ≠ "self" := fun heq => by
      cases Program.Binds.loose_of_self hnumbered he.self (heq ▸ hbinds)
    have hown : Function.update zones f.context (.block body) f.context = .block body :=
      Function.update_self ..
    have hheap := (hf.below.heap.handle hzone hhandles).declare (by rwa [hown])
      (fun heq => absurd heq hname) value
    -- a frame below that shares the context has no code
    have hbelow : ∀ k ∈ rest, k.code = []
        ∨ Function.update zones f.context (.block body) k.context = zones k.context := by
      intro k hk
      by_cases heq : k.context = f.context
      · refine .inl ((hf.apart k hk heq.symm).resolve_left fun hroot => ?_)
        rw [hroot, hf.below.heap.root] at hzone
        cases hzone
      · exact .inr (Function.update_of_ne heq ..)
    refine ⟨_, (hf.below.mono hheap hsize hbelow fun _ _ => rfl).cons ?_ (fun k hk => ?_)
      (.inr ⟨after, ?_, ?_⟩)⟩
    · rw [hcontext]
      exact hf.known.trans_le hsize
    · rw [Frame.Apart, hcontext]
      exact hf.apart k hk
    · rwa [hcontext, hown, hcode, hpc]
    · rw [hcontext, hpc]
      exact hreads.tail

/-- The frames of a protected block are laid out, with one, two or all three of
its contexts opened. -/
theorem protects {body handler always : Code}
    (hf : e.LaidBefore zones j f rest m.heap (.tryCatchAlways body handler always)) :
    FramesLaid e.program zones j m.heap (f.next.resuming [.result] :: rest)
    ∧ ∃ zones₁, FramesLaid e.program zones₁ j (sheltered f.next 1 m.heap)
      ({ code := always, context := m.heap.contexts.size, resume := Interruption.all }
        :: f.next.resuming [.result] :: rest)
    ∧ ∃ zones₃, FramesLaid e.program zones₃ j (sheltered f.next 3 m.heap)
      ({ code := body, context := m.heap.contexts.size + 2 }
        :: { code := handler, context := m.heap.contexts.size + 1, resume := [.exception] }
        :: { code := always, context := m.heap.contexts.size, resume := Interruption.all }
        :: f.next.resuming [.result] :: rest) := by
  obtain ⟨notes, hlaid, hreads⟩ := hf.stands.laid_of_ne fun _ _ _ heq => nomatch heq
  obtain ⟨bodyNotes, handlerNotes, alwaysNotes, after, rfl, hafter, ⟨_, hbodyInside, hbody⟩,
    ⟨_, hhandlerInside, hhandler⟩, ⟨_, halwaysInside, halways⟩⟩ := hlaid.protects
  have hnotes (k : Nat) : j.Reads (m.heap.contexts.size + k) 0
      ([alwaysNotes, handlerNotes, bodyNotes].getD k []) := by
    have hnew := hf.opened k
    rcases hreads.head with hnone | hnote
    · rw [hnone] at hnew
      exact .inl hnew
    · rw [hnote] at hnew
      exact .inr hnew.symm
  have hwaits : FramesLaid e.program zones j m.heap (f.next.resuming [.result] :: rest) :=
    hf.next ⟨_, hafter, hreads.tail⟩ rfl rfl rfl
  obtain ⟨zones₁, hzone₁, h₁⟩ := framesLaid_sheltered (f := f.next)
    (g := { code := always, context := m.heap.contexts.size, resume := Interruption.all })
    (show FramesLaid e.program zones j (sheltered f.next 0 m.heap) _ from hwaits) hf.known
    halwaysInside rfl rfl halways (hnotes 0)
  obtain ⟨zones₂, hzone₂, h₂⟩ := framesLaid_sheltered
    (g := { code := handler, context := m.heap.contexts.size + 1, resume := [.exception] })
    h₁ hf.known (hzone₁ ▸ hhandlerInside) rfl rfl hhandler (hnotes 1)
  obtain ⟨zones₃, hzone₃, h₃⟩ := framesLaid_sheltered
    (g := { code := body, context := m.heap.contexts.size + 2 })
    h₂ hf.known (hzone₂ ▸ hzone₁ ▸ hbodyInside) rfl rfl hbody (hnotes 2)
  exact ⟨hwaits, zones₁, h₁, zones₃, h₃⟩

end LaidBefore

/-- Every instruction keeps the frames laid out: one case for each way that
`Conduct` has for it to end. -/
theorem Conduct.laidAfter (he : e.LinkedWithCore) {i : Instruction}
    (hf : e.LaidBefore zones j f rest m.heap i)
    {r : EStateM.Result Fault Machine Flow}
    (h : e.Conduct f.next rest { m with frames := f.next :: rest } i r) :
    LaidAfter e.program j r := by
  have hstraight {g : Frame} {heap : Heap} (hi : i.isStraight) (hcode : g.code = f.code)
      (hcontext : g.context = f.context) (hpc : g.pc = f.pc + 1)
      (hheap : heap.Zoned e.program zones) (hsize : m.heap.contexts.size ≤ heap.contexts.size) :
      FramesLaid e.program zones j heap (g :: rest) :=
    (hf.next (hf.stands.straight hi).1 hcode hcontext hpc).onHeap hheap hsize
  have hsame {g : Frame} (hi : i.isStraight) (hcode : g.code = f.code)
      (hcontext : g.context = f.context) (hpc : g.pc = f.pc + 1) :
      FramesLaid e.program zones j m.heap (g :: rest) :=
    hstraight hi hcode hcontext hpc hf.below.heap le_rfl
  cases h with
  | fault _ heap tail =>
      refine ⟨zones, ?_⟩
      rw [heap, tail]
      exact hf.below
  | load found =>
      obtain ⟨notes, hlaid, hreads⟩ := hf.stands.laid_of_ne fun _ _ _ heq => nomatch heq
      obtain ⟨note, after, rfl, hafter | ⟨body, start, arity, code, codeNotes, hzone, rfl,
        hdelegates, hcode, rfl, hpassed⟩⟩ := hlaid.load
      · exact FramesLaid.laidOut (hf.next ⟨_, hafter, hreads.tail⟩ rfl rfl rfl)
      · refine ⟨zones, hf.below, fun g hg => ?_⟩
        cases hg
        obtain ⟨o, ho, hinherits⟩ := hf.below.heap.delegated he.linked.complete.numbered hf.known
          hzone hdelegates found
        exact ⟨hf.known, hf.apart, .inr ⟨arity, start, false, code, codeNotes, hcode, hpassed,
          hreads.tail, fun _ => ⟨_, _, o, rfl, ho, hinherits⟩⟩⟩
  | @bind name value others top =>
      obtain ⟨zones', hlaid⟩ := hf.binds (g := { f.next with operands := others }) he rfl rfl rfl
        value
      exact FramesLaid.laidOut hlaid
  | @assign name value others heap top found =>
      obtain ⟨notes, hlaid, hreads⟩ := hf.stands.laid_of_ne fun _ _ _ heq => nomatch heq
      obtain ⟨after, rfl, hassigns, hafter⟩ := hlaid.assigns
      have hheap := hf.below.heap.assign (hassigns.ne_self he.self) f.context value
      have hgrows : m.heap.Grows (m.heap.assign f.context name value).2 :=
        (m.heap.assign_changes f.context name value).grows
      have hfound : m.heap.assign f.context name value = (true, heap) := found
      rw [hfound] at hheap hgrows
      have hlaid : FramesLaid e.program zones j heap ({ f.next with operands := others } :: rest) :=
        (hf.next (g := { f.next with operands := others }) ⟨_, hafter, hreads.tail⟩ rfl rfl
          rfl).onHeap hheap hgrows.contexts_size_le
      exact FramesLaid.laidOut hlaid
  | push => exact FramesLaid.laidOut (hsame rfl rfl rfl rfl)
  | pop _ => exact FramesLaid.laidOut (hsame rfl rfl rfl rfl)
  | dup _ => exact FramesLaid.laidOut (hsame rfl rfl rfl rfl)
  | swap _ => exact FramesLaid.laidOut (hsame rfl rfl rfl rfl)
  | get _ _ _ => exact FramesLaid.laidOut (hsame rfl rfl rfl rfl)
  | @set name receiver value old object others top isObject held =>
      have hheap : (m.heap.putField receiver name value).Zoned e.program zones := by
        refine hf.below.heap.putField (fun o ho _ => .inl ?_) value
        cases isObject.symm.trans ho
        rw [held]
        rfl
      exact FramesLaid.laidOut (hstraight rfl rfl rfl rfl hheap le_rfl)
  | number =>
      have hnamed := (hf.stands.straight rfl).2.2
      exact FramesLaid.laidOut (hstraight rfl rfl rfl rfl (hf.below.heap.intern _
        (Program.not_anonymous_of_name? hnamed) _) (Heap.intern_grows ..).contexts_size_le)
  | string =>
      have hnamed := (hf.stands.straight rfl).2.2
      exact FramesLaid.laidOut (hstraight rfl rfl rfl rfl (hf.below.heap.intern _
        (Program.not_anonymous_of_name? hnamed) _) (Heap.intern_grows ..).contexts_size_le)
  | collection _ =>
      have hnamed := (hf.stands.straight rfl).2.2
      exact FramesLaid.laidOut (hstraight rfl rfl rfl rfl (hf.below.heap.allocate
        (Program.hangsByModule_of_named (Program.not_anonymous_of_name? hnamed) rfl)) le_rfl)
  | @make module =>
      obtain ⟨notes, hlaid, hreads⟩ := hf.stands.laid_of_ne fun _ _ _ heq => nomatch heq
      obtain ⟨arity, code, after, hcode, rfl, hsited, hafter⟩ := hlaid.makes_next
      have hheap := hf.below.heap.allocate (hangsByModule_instanceIn hsited)
      refine ⟨zones, hf.below.onHeap hheap le_rfl, fun g hg => ?_⟩
      cases hg
      exact ⟨hf.known, hf.apart, .inr ⟨arity, module, true, code, after, hcode, hafter, hreads.tail,
        fun hinit => nomatch hinit⟩⟩
  | init top enough ends => exact hf.constructs he top enough ends
  | initFails top enough ends => exact hf.constructs he top enough ends
  | call enough top ends => exact hf.dispatches he enough top ends
  | callFails enough top ends => exact hf.dispatches he enough top ends
  | inherits _ _ => exact FramesLaid.laidOut (hsame rfl rfl rfl rfl)
  | @jump count condition others taken top =>
      obtain ⟨notes, hlaid, hreads⟩ := hf.stands.laid_of_ne fun _ _ _ heq => nomatch heq
      obtain ⟨after, rfl, hstays, hskips⟩ := hlaid.jumps
      cases taken with
      | false => exact FramesLaid.laidOut (hf.next ⟨_, hstays, hreads.tail⟩ rfl rfl rfl)
      | true =>
          rw [List.drop_drop] at hskips
          exact FramesLaid.laidOut (hf.below.cons hf.known hf.apart
            (.inr ⟨_, hskips, hreads.tail.drop count⟩))
  | @branch thenBranch elseBranch condition others top =>
      obtain ⟨notes, hlaid, hreads⟩ := hf.stands.laid_of_ne fun _ _ _ heq => nomatch heq
      obtain ⟨thenNotes, elseNotes, after, rfl, hafter, hbranches⟩ := hlaid.branches
      obtain ⟨inner, hinside, hlaid⟩ := hbranches condition
      have hwaits : FramesLaid e.program zones j m.heap
          ((f.next.dropping 1).resuming [.result] :: rest) :=
        hf.next ⟨_, hafter, hreads.tail⟩ rfl rfl rfl
      refine FramesLaid.laidOut
        (hwaits.enter (hwaits.heap.newContext hinside.fitsZone) ?_ rfl rfl hlaid ?_)
      · rw [Heap.newContext, Array.size_push]
        exact Nat.lt_succ_self _
      · have hnew := hf.opened 0
        have hhead : f.operands.head? = some (.ofBool condition) := congrArg List.head? top
        rcases hreads.head with hnone | hnote
        · rw [hnone] at hnew
          exact .inl hnew
        · rw [hnote, Engine.opened, hhead] at hnew
          refine .inr (Eq.trans ?_ hnew.symm)
          cases condition <;> rfl
  | branchFull =>
      have hwaits : FramesLaid e.program zones j (sheltered f.next 0 m.heap) rest := hf.below
      exact framesLaid_sheltered_none hwaits
  | protect =>
      obtain ⟨-, -, -, zones', hlaid⟩ := hf.protects
      exact FramesLaid.laidOut hlaid
  | @protectFull body handler always count few =>
      obtain ⟨hwaits, zones₁, halways, -⟩ := hf.protects
      rcases count with _ | _ | _ | count
      · have hrest : FramesLaid e.program zones j (sheltered f.next 0 m.heap) rest := hf.below
        exact framesLaid_sheltered_none hrest
      · have hnone : FramesLaid e.program zones j (sheltered f.next 0 m.heap)
          (f.next.resuming [.result] :: rest) := hwaits
        obtain ⟨_, hone⟩ := framesLaid_sheltered_none hnone
        exact framesLaid_sheltered_none hone
      · obtain ⟨_, htwo⟩ := framesLaid_sheltered_none halways
        exact framesLaid_sheltered_none htwo
      · omega
  | interrupt _ => exact ⟨zones, hf.below⟩
  | resume _ _ => exact ⟨zones, hf.below⟩

end

-- ================================================================ steps

/-- `unwind` only drops frames, so what is left of them is laid out. -/
theorem Unwinds.laidOut {kind : Interruption} {value : ObjectId}
    {r : EStateM.Result Failure Machine Unit} (h : Unwinds kind value m r)
    (hm : m.LaidBelow e.program j) : (stateOf r).LaidOut e.program j := by
  obtain ⟨zones, hh⟩ := hm
  have hleft := hh.unwind kind
  cases h with
  | caught unwinds =>
      rw [unwinds] at hleft
      have hlaidOut := hleft.laid _ List.mem_cons_self
      exact FramesLaid.laidOut (hleft.replace rfl (hlaidOut.congr rfl rfl rfl))
  | uncaught unwinds =>
      rw [unwinds] at hleft
      exact FramesLaid.laidOut hleft

/-- A machine that is laid out is `LaidBefore` the next instruction of its
frame on top. -/
theorem laidBefore {f : Frame} (hf : m.frames = f :: rest) (hm : m.LaidOut e.program j)
    (hsound : m.Sound) (hproper : m.Proper) {i : Instruction} (hi : f.code[f.pc]? = some i) :
    ∃ zones, e.LaidBefore zones (e.noted j m) f rest m.heap i := by
  obtain ⟨zones, hrest, htop⟩ := hm
  rw [hf] at hrest htop
  obtain ⟨known, apart, hstands⟩ := htop f rfl
  have hnoted : e.noted j m
      = j.extend m.heap.contexts.size (e.opened f ((j f.context)[f.pc]?) m.heap i) := by
    rw [noted, hf]
    simp only [hi]
  have hjournal : ∀ id < m.heap.contexts.size, e.noted j m id = j id := fun id hid => by
    rw [hnoted, Journal.extend_of_lt hid]
  refine ⟨zones, hrest.mono hrest.heap le_rfl (fun _ _ => .inr rfl) hjournal, known, apart,
    Frame.laidAt_of_laidOut hi (hstands.imp (fun h => h.mono (.inr rfl) (hjournal _ known)) ?_),
    (hsound.frames f (hf ▸ List.mem_cons_self)).operands,
    fun arity start receiver others o heq top ho => ?_, fun k => ?_⟩
  · rintro ⟨arity, start, initFields, code, notes, hcode, hlaid, hreads, hpassed⟩
    exact ⟨arity, start, initFields, code, notes, hcode, hlaid, hreads.congr (hjournal _ known),
      hpassed⟩
  · exact hproper f rest arity start receiver others o hf (heq ▸ hi) top ho
  · rw [hjournal _ known, hnoted, Journal.extend_add]

/-- Every step keeps `Machine.LaidOut`. -/
theorem step_laidOut (he : e.LinkedWithCore) (hm : m.LaidOut e.program j) (hsound : m.Sound)
    (hproper : m.Proper) (busy : m.frames ≠ []) :
    (stateOf (e.step m)).LaidOut e.program (e.noted j m) := by
  obtain ⟨f, rest, hf⟩ := List.exists_cons_of_ne_nil busy
  have hsteps := step_steps (e := e) hf
  generalize e.step m = r at hsteps
  cases hsteps with
  | done ended =>
      have hnoted : e.noted j m = j := by
        rw [noted, hf]
        simp only [ended]
      obtain ⟨zones, hrest, -⟩ := hm
      rw [hf] at hrest
      rw [hnoted]
      exact FramesLaid.laidOut hrest
  | next hi does =>
      obtain ⟨zones, hbefore⟩ := laidBefore hf hm hsound hproper hi
      exact does.laidAfter he hbefore
  | leaves hi does ends =>
      obtain ⟨zones, hbefore⟩ := laidBefore hf hm hsound hproper hi
      exact ends.laidOut (does.laidAfter he hbefore)
  | @raises i fault _ _ _ _ hi does raised ends =>
      obtain ⟨zones, hbefore⟩ := laidBefore hf hm hsound hproper hi
      obtain ⟨zones', hleft⟩ := does.laidAfter he hbefore
      cases raised with
      | thrown => exact ends.laidOut ⟨zones', hleft⟩
      | made _ =>
          have hheap := hleft.heap.withMessage he.named he.named.evaluationError fault.message
          exact ends.laidOut ⟨zones', hleft.onHeap hheap
            (e.toWorld.withMessage_changes ..).grows.contexts_size_le⟩

-- ========================================================== evaluations

/-- An engine that `create` makes of a linked program is `LinkedWithCore`. -/
theorem linkedWithCore_of_create {p : Program} (hp : p.Linked) (hself : p.Avoids "self")
    {maxFrames : Nat}
    (h : create p Natives.core maxFrames = .ok e) : e.program = p ∧ e.LinkedWithCore := by
  obtain ⟨core, hcore, rfl⟩ := create_eq_ok.1 h
  exact ⟨rfl, hp, rfl,
    core_within (fun hid => Program.entity?_named hp.complete.numbered hid) hcore, hself⟩

/-- The `entryFrame` of code that is laid out, above the `holderFrame`. -/
theorem laidOut_enter {h : Heap} (hh : FramesLaid e.program zones j h []) {context : ContextId}
    (known : context < h.contexts.size) {code : Code} {notes : List Note}
    (hlaid : Laid e.program (zones context) (code ++ [.interrupt .result]) notes)
    (hreads : j.Reads context 0 notes) (hm : m.heap = h)
    (hframes : m.frames = [entryFrame code context, holderFrame context]) :
    m.LaidOut e.program j := by
  have hholder : FramesLaid e.program zones j h [holderFrame context] :=
    hh.cons known (fun _ hg => nomatch hg) (.inl rfl)
  have hentry : FramesLaid e.program zones j h [entryFrame code context, holderFrame context] := by
    refine hholder.cons known (fun g hg => ?_) (.inr ⟨notes, hlaid, hreads⟩)
    rw [List.mem_singleton.1 hg]
    exact fun _ => .inr rfl
  rw [← hm, ← hframes] at hentry
  exact hentry.laidOut

/-- What a block of a test, program or fixture `Sees` is where it hangs from. -/
theorem Sees.fitsZone (hp : e.program.root.Numbered) {t body : Tree}
    (inside : t ∈ e.program.root.preorder) (block : t.body? = some body) {h : Heap} {parent : Link}
    (sees : e.Sees True t h parent) :
    e.program.FitsZone zones h { parent := some parent } (.block body.identity) := by
  have hparent := Program.parent?_of_child hp inside (Tree.body?_mem_children block)
  have hkinds : t.kind.isRoutine = true ∧ t.kind.isConstructor = false := by
    unfold Tree.body? at block
    split at block
    · next hkind => rw [hkind]; exact ⟨rfl, rfl⟩
    · next hkind => rw [hkind]; exact ⟨rfl, rfl⟩
    · next hkind => rw [hkind]; exact ⟨rfl, rfl⟩
    · cases block
  have hroutine : e.program.isKind Kind.isRoutine t.identity := by
    rw [Program.isKind_of_mem hp inside]
    exact hkinds.1
  have hplain : ¬ e.program.isKind Kind.isConstructor t.identity := by
    rw [Program.isKind_of_mem hp inside, hkinds.2]
    exact Bool.false_ne_true
  refine ⟨fun _ hbound => absurd hbound Bool.false_ne_true, ?_, fun constructor id hbody => ?_⟩
  · cases sees with
    | globals => exact .outermost hparent hroutine hplain
    | @created describe id o isDescribe member known own =>
        have habove : e.program.parent? t.identity = some describe := by
          rcases member with hmember | ⟨node, htree, hup⟩
          · exact Program.parent?_of_member hp hmember
          · rwa [((Program.tree?_eq_some_iff hp).1 htree).2]
        refine .owned hparent hroutine habove ?_ known ?_
        · refine Program.isKind_mono (fun kind hkind => ?_) isDescribe
          cases kind <;> first | rfl | cases hkind
        · rw [own trivial]
          exact e.program.inherits_self describe
  · cases hparent.symm.trans (hbody.parent hp)
    obtain ⟨_, _, _, hkind, -⟩ := hbody
    rw [Program.isKind, hkind] at hplain
    exact absurd rfl hplain

theorem laidOut_initial (he : e.LinkedWithCore) :
    Machine.LaidOut e.program (fun _ => []) { heap := e.initialHeap } := by
  have hheap : e.initialHeap.Zoned e.program
      (Function.update (fun _ => .loose) rootContext .globals) := by
    refine ⟨Function.update_self .., fun id hid => ?_, fun {id c} hc => ?_, fun {id o} ho => ?_⟩
    · exact Function.update_of_ne (Nat.ne_of_gt hid) ..
    · rcases id with _ | id
      · cases hc
        exact ⟨fun _ hbound => absurd hbound Bool.false_ne_true, rfl⟩
      · cases hc
    · rcases id with _ | _ | _ | _ | id
      · cases ho
        exact Program.hangsByModule_of_named he.named.object rfl
      · cases ho
        exact Program.hangsByModule_of_named he.named.boolean rfl
      · cases ho
        exact Program.hangsByModule_of_named he.named.boolean rfl
      · cases ho
        exact Program.hangsByModule_of_named he.named.object rfl
      · cases ho
  exact FramesLaid.laidOut (.idle hheap rfl)

/-- `declareObject` binds named objects among the globals, with dots in their
names. -/
theorem declaring_zoned {h : Heap} (hz : h.Zoned e.program zones)
    {id : NodeId} (named : id ∈ e.namedObjects) :
    (e.declaring id h).Zoned e.program zones := by
  obtain ⟨kind, hkind, htest⟩ := (Option.any_eq_true _ _).1 (namedObjects_isNamedObject named)
  obtain ⟨name, hname⟩ : ∃ name, kind.name? = some name := by
    cases kind with
    | singleton name =>
        cases name with
        | none => cases htest
        | some name => exact ⟨name, rfl⟩
    | _ => cases htest
  have hdotted : '.' ∈ (e.program.qualifiedName id).toList :=
    Program.dot_mem_qualifiedName hkind hname (mem_packageMembers (List.mem_filter.1 named).1)
  have hmodule : ¬ e.program.isKind Kind.isAnonymous id := by
    refine Program.not_anonymous_of_name? ?_
    rw [Program.name?, hkind, Option.bind_some, hname]
    rfl
  have hbinds : e.program.Binds (e.program.qualifiedName id) (zones rootContext) := by
    rw [hz.root]
    exact hdotted
  have hnew := hz.allocate (Program.hangsByModule_of_named (o := { module := id }) hmodule rfl)
  refine hnew.declare hbinds (fun heq => ?_) h.size
  rw [heq] at hdotted
  exact absurd hdotted (by decide)

theorem laidOut_idle (heap : m.heap.Zoned e.program zones) (silent : j rootContext = [])
    (idle : m.frames = []) : m.LaidOut e.program j := by
  have hh : FramesLaid e.program zones j m.heap [] := .idle heap silent
  rw [← idle] at hh
  exact hh.laidOut

/-- Every state of an evaluation is laid out, by induction over how it was
`Traced`. -/
theorem Traced.laidOut (he : e.LinkedWithCore) (h : e.Traced True j m) : m.LaidOut e.program j := by
  have hlawful : e.natives.Lawful := he.natives ▸ Natives.core_lawful
  have hnumbered := he.linked.complete.numbered
  have hsound {j : Journal} {m : Machine} (h : e.Traced True j m) : m.Sound :=
    ((h.reached hlawful).sound_and_shape (.of_natives hlawful)).1
  have hidle {j : Journal} {m : Machine} (hm : m.LaidOut e.program j) (idle : m.frames = []) :
      ∃ zones, FramesLaid e.program zones j m.heap [] := by
    obtain ⟨zones, hh, -⟩ := hm
    rw [idle] at hh
    exact ⟨zones, hh⟩
  induction h with
  | initial => exact laidOut_initial he
  | @declareObject j m m' id _ idle named does ih =>
      obtain ⟨zones, hh⟩ := hidle ih idle
      rw [declareObject_eq] at does
      cases does
      exact laidOut_idle (declaring_zoned hh.heap named) hh.silent idle
  | globals _ idle compiles ih =>
      obtain ⟨zones, hh⟩ := hidle ih idle
      obtain ⟨notes, hlays⟩ := globals_lays he.linked compiles
      have hlaid := hlays.leave .result
      rw [← hh.heap.root] at hlaid
      exact laidOut_enter hh hh.heap.root_lt hlaid (.inl hh.silent) rfl rfl
  | @describe j m describe _ idle isDescribe ih =>
      obtain ⟨zones, hh⟩ := hidle ih idle
      have hmodule : ¬ e.program.isKind Kind.isAnonymous describe := by
        refine Program.not_isKind_of_isKind (fun kind hkind => ?_) isDescribe
        cases kind <;> first | rfl | cases hkind
      have hlaid : Laid e.program (zones rootContext) ([.instantiate describe none,
          .init 0 describe true] ++ [.interrupt .result]) [.plain, .plain, .plain] :=
        .make (lt_size_of_isKind he.linked isDescribe) (fun h => absurd h hmodule)
          (.leave .globals .nil)
      exact laidOut_enter hh hh.heap.root_lt hlaid (.inl hh.silent) rfl rfl
  | @newContext j m m' parent context _ idle known _ does ih =>
      obtain ⟨zones, hh⟩ := hidle ih idle
      rw [newContext_eq] at does
      cases does
      have hloose : e.program.FitsZone zones m.heap { parent := some parent } .loose :=
        ⟨fun _ hbound => absurd hbound Bool.false_ne_true, trivial⟩
      refine laidOut_idle (hh.heap.newContext hloose) ?_ idle
      rw [Journal.extend_of_lt hh.heap.root_lt]
      exact hh.silent
  | @block j m m' t body code parent context _ idle inside block compiles sees does ih =>
      obtain ⟨zones, hh⟩ := hidle ih idle
      rw [newContext_eq] at does
      cases does
      have hbody : body ∈ e.program.root.preorder :=
        Program.mem_of_child inside (Tree.body?_mem_children block)
      have hlaid := (Program.blockCode_lays he.linked body hbody compiles).leave .result
      have hheap := hh.heap.newContext (sees.fitsZone hnumbered inside block)
      have hjournal : ∀ id < m.heap.contexts.size,
          j.extend m.heap.contexts.size [body.blockNotes ++ [.plain]] id = j id :=
        fun id hid => Journal.extend_of_lt hid _
      have hnew : FramesLaid e.program _
          (j.extend m.heap.contexts.size [body.blockNotes ++ [.plain]])
          (m.heap.newContext parent).2 [] :=
        hh.mono hheap (Array.size_push .. ▸ Nat.le_succ _) (List.forall_mem_nil _) hjournal
      have hreads : (j.extend m.heap.contexts.size [body.blockNotes ++ [.plain]]).Reads
          m.heap.contexts.size 0 (body.blockNotes ++ [.plain]) := by
        have hentry := j.extend_add m.heap.contexts.size 0 [body.blockNotes ++ [.plain]]
        rw [Nat.add_zero] at hentry
        refine .inr ?_
        rw [hentry]
        rfl
      refine laidOut_enter hnew ?_ ?_ hreads rfl rfl
      · exact Array.size_push .. ▸ Nat.lt_succ_self _
      · rw [Function.update_self]
        exact hlaid
  | @step j m m' from_ busy proper does ih =>
      have hstep := step_laidOut he ih (hsound from_) (proper trivial)
        (List.ne_nil_of_length_pos (Nat.zero_lt_of_lt busy))
      rwa [does] at hstep
  | @fail j m m' failure from_ busy proper does ih =>
      have hstep := step_laidOut he ih (hsound from_) (proper trivial)
        (List.ne_nil_of_length_pos (Nat.zero_lt_of_lt busy))
      rwa [does] at hstep
  | @takeResult j m m' value _ _ does ih =>
      obtain ⟨zones, hh, -⟩ := ih
      obtain ⟨_, rest, _, hframes, -, rfl⟩ := takeResult_ok does
      rw [hframes] at hh
      exact FramesLaid.laidOut hh

end Engine

end ObjectMachine
