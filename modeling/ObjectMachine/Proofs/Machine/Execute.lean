/-
Every instruction does what Machine/Effects.lean says.

Each instruction is taken apart once, in the order of its actions. The
result is `execute_ensures`, and, for whole steps, `step_cases`: a step
either puts other frames in the place of the running one, or raises an
interruption on top of what is left. No later proof looks at an instruction
again.
-/
import Mathlib
import ObjectMachine.Proofs.Machine.Effects

namespace ObjectMachine

-- ======================================================= instructions

namespace Engine

open ObjectMachine.Action

variable {e : Engine} {S : Prop} {binds : String → Prop} {f : Frame} {rest : List Frame}
  {m : Machine}

/-- In a `Sound` machine an operand exists. -/
theorem operand_lt (hf : m.frames = f :: rest) (hS : S → m.Sound) (hs : S) {id : ObjectId}
    (hid : id ∈ f.operands) : id < m.heap.size :=
  ((hS hs).frames f (hf ▸ List.mem_cons_self)).operands id hid

theorem execute_load (hf : m.frames = f :: rest) (hS : S → m.Sound) (name : String) :
    Ensures (e.execute (.load name)) m (Executed S binds (.load name) f rest m)
      (Failed S (.load name) f rest m) := by
  refine Ensures.bind (frame_ensures hf) fun g m₁ h₁ => ?_
  obtain ⟨rfl, rfl⟩ := h₁
  refine Ensures.bind heap_ensures fun h m₂ h₂ => ?_
  obtain ⟨rfl, rfl⟩ := h₂
  split
  · next value hvalue =>
    refine Ensures.bind (push_ensures hf value) fun _ m₃ h₃ => ?_
    subst h₃
    refine Ensures.pure (.of_straight [value] hf hS ((Machine.Grown.of_frames ..).advanced _ _) rfl
      rfl rfl fun hs id hid => ?_)
    rw [List.mem_singleton.1 hid]
    exact (hS hs).heap.lookupFrom_lt hvalue
  · exact Ensures.throw (.of_same hf hS ((Machine.Grown.refl ..).advanced _ _) (by rw [hf]; rfl)
      (.of_plain rfl))

theorem execute_store (hf : m.frames = f :: rest) (hS : S → m.Sound) (name : String)
    (lookup : Bool) (hops : 1 ≤ f.operands.length) :
    Ensures (e.execute (.store name lookup)) m (Executed S binds (.store name lookup) f rest m)
      (Failed S (.store name lookup) f rest m) := by
  refine Ensures.bind (pop_ensures hf hops) fun value m₁ h₁ => ?_
  obtain ⟨hvalue, rfl⟩ := h₁
  refine Ensures.bind (frame_ensures rfl) fun g m₂ h₂ => ?_
  obtain ⟨rfl, rfl⟩ := h₂
  have hlt : S → value < m.heap.size := fun hs =>
    operand_lt hf hS hs (List.mem_of_mem_head? hvalue)
  have hspares : ∀ {c : ContextId} {other : String},
      (Instruction.store name lookup).Spares f c other →
        other ≠ name ∨ lookup = false ∧ c ≠ f.context := by
    intro c other h
    by_cases hname : other = name
    · exact .inr (h lookup (hname ▸ rfl))
    · exact .inl hname
  split
  · next hlookup =>
    refine Ensures.bind (onHeap_ensures _) fun bound m₃ h₃ => ?_
    obtain ⟨-, rfl⟩ := h₃
    have adv : m.Advanced S (.store name lookup) f { m with
        heap := (m.heap.assign f.context name value).2, frames := f.dropping 1 :: rest } := by
      refine ⟨(Heap.contexts_size_assign ..).ge, fun hs => Heap.assign_reaches (hlt hs), ?_⟩
      intro c _ other hother
      rcases hspares hother with hne | ⟨hfalse, -⟩
      · exact Heap.local?_assign_of_ne hne value
      · rw [hlookup] at hfalse
        cases hfalse
    split
    · exact Ensures.throw (.of_same hf hS adv rfl (.of_plain rfl))
    · exact Ensures.pure (.of_straight [] hf hS adv rfl rfl rfl
        fun _ _ h => absurd h List.not_mem_nil)
  · next hlookup =>
    refine Ensures.bind (onHeap_ensures _) fun _ m₃ h₃ => ?_
    obtain ⟨-, rfl⟩ := h₃
    refine Ensures.pure (.of_straight [] hf hS ?_ rfl rfl rfl
      fun _ _ h => absurd h List.not_mem_nil)
    refine ⟨(Heap.contexts_size_declare ..).ge, fun hs => (Heap.Edit.declare (hlt hs)).reaches, ?_⟩
    intro c _ other hother
    refine Heap.local?_declare_of_ne ?_ value
    exact (hspares hother).symm.imp (fun h => h.2.symm) fun h => h

theorem execute_push (hf : m.frames = f :: rest) (hS : S → m.Sound) {id : ObjectId}
    (hid : S → id < m.heap.size) :
    Ensures (e.execute (.push id)) m (Executed S binds (.push id) f rest m)
      (Failed S (.push id) f rest m) := by
  refine Ensures.bind (push_ensures hf id) fun _ m₁ h₁ => ?_
  subst h₁
  exact Ensures.pure (.of_straight [id] hf hS ((Machine.Grown.of_frames ..).advanced _ _) rfl
    rfl rfl fun hs x hx => List.mem_singleton.1 hx ▸ hid hs)

theorem execute_pop (hf : m.frames = f :: rest) (hS : S → m.Sound)
    (hops : 1 ≤ f.operands.length) :
    Ensures (e.execute .pop) m (Executed S binds .pop f rest m) (Failed S .pop f rest m) := by
  refine Ensures.bind (pop_ensures hf hops) fun value m₁ h₁ => ?_
  obtain ⟨-, rfl⟩ := h₁
  exact Ensures.pure (.of_straight [] hf hS ((Machine.Grown.of_frames ..).advanced _ _) rfl
    rfl rfl fun _ _ h => absurd h List.not_mem_nil)

theorem execute_dup (hf : m.frames = f :: rest) (hS : S → m.Sound)
    (hops : 1 ≤ f.operands.length) :
    Ensures (e.execute .dup) m (Executed S binds .dup f rest m) (Failed S .dup f rest m) := by
  refine Ensures.bind (peek_ensures hf hops) fun value m₁ h₁ => ?_
  obtain ⟨hvalue, rfl⟩ := h₁
  refine Ensures.bind (push_ensures hf value) fun _ m₂ h₂ => ?_
  subst h₂
  obtain ⟨others, hothers⟩ := List.head?_eq_some_iff.1 hvalue
  refine Ensures.pure (.of_straight [value, value] hf hS
    ((Machine.Grown.of_frames ..).advanced _ _) rfl rfl ?_ fun hs x hx => ?_)
  · simp [Frame.push, hothers]
  · have hx : x = value := by simpa using hx
    rw [hx]
    exact operand_lt hf hS hs (List.mem_of_mem_head? hvalue)

theorem execute_swap (hf : m.frames = f :: rest) (hS : S → m.Sound)
    (hops : 2 ≤ f.operands.length) :
    Ensures (e.execute .swap) m (Executed S binds .swap f rest m) (Failed S .swap f rest m) := by
  obtain ⟨first, second, others, hothers⟩ : ∃ x y zs, f.operands = x :: y :: zs := by
    match hx : f.operands, hops with
    | x :: y :: zs, _ => exact ⟨x, y, zs, rfl⟩
  refine Ensures.bind (pop_ensures hf (by omega)) fun value m₁ h₁ => ?_
  obtain ⟨hvalue, rfl⟩ := h₁
  refine Ensures.bind (pop_ensures rfl (by simp [Frame.dropping, hothers])) fun other m₂ h₂ => ?_
  obtain ⟨hother, rfl⟩ := h₂
  refine Ensures.bind (push_ensures rfl value) fun _ m₃ h₃ => ?_
  subst h₃
  refine Ensures.bind (push_ensures rfl other) fun _ m₄ h₄ => ?_
  subst h₄
  have hvalue : first = value := by simpa [hothers] using hvalue
  have hother : second = other := by simpa [hothers, Frame.dropping] using hother
  subst hvalue hother
  refine Ensures.pure (.of_straight [second, first] hf hS
    ((Machine.Grown.of_frames ..).advanced _ _) rfl rfl ?_ fun hs x hx => ?_)
  · simp [Frame.push, Frame.dropping, hothers]
  · refine operand_lt hf hS hs ?_
    rw [hothers]
    simp only [List.mem_cons, List.not_mem_nil, or_false] at hx ⊢
    exact hx.elim (fun h => .inr (.inl h)) .inl

theorem execute_get (hf : m.frames = f :: rest) (hS : S → m.Sound) (name : String)
    (hops : 1 ≤ f.operands.length) :
    Ensures (e.execute (.get name)) m (Executed S binds (.get name) f rest m)
      (Failed S (.get name) f rest m) := by
  refine Ensures.bind (pop_ensures hf hops) fun receiver m₁ h₁ => ?_
  obtain ⟨hreceiver, rfl⟩ := h₁
  have hlt : S → receiver < m.heap.size := fun hs =>
    operand_lt hf hS hs (List.mem_of_mem_head? hreceiver)
  have hfield := field_touches (n := m.heap.contexts.size)
    (m := { m with frames := f.dropping 1 :: rest }) (fun hs => (hS hs).heap) e.toWorld name hlt
  refine hfield.executed hf hS rfl fun value m₂ hg hframes hvalue => ?_
  obtain ⟨rfl, hvalue⟩ := hvalue
  refine Ensures.bind (push_ensures hframes value) fun _ m₃ h₃ => ?_
  subst h₃
  exact Ensures.pure (.of_straight [value] hf hS ((Machine.Grown.of_frames ..).advanced _ _) rfl
    rfl rfl fun hs x hx => List.mem_singleton.1 hx ▸ hvalue hs)

theorem execute_set (hf : m.frames = f :: rest) (hS : S → m.Sound) (name : String)
    (hops : 2 ≤ f.operands.length) :
    Ensures (e.execute (.set name)) m (Executed S binds (.set name) f rest m)
      (Failed S (.set name) f rest m) := by
  refine Ensures.bind (pop_ensures hf (by omega)) fun value m₁ h₁ => ?_
  obtain ⟨hvalue, rfl⟩ := h₁
  refine Ensures.bind (pop_ensures rfl ?_) fun receiver m₂ h₂ => ?_
  · simp only [Frame.dropping, List.length_drop]
    omega
  obtain ⟨hreceiver, rfl⟩ := h₂
  have hset := setField_touches (n := m.heap.contexts.size)
    (m := { m with frames := (f.dropping 1).dropping 1 :: rest }) (fun hs => (hS hs).heap)
    e.toWorld name
    (fun hs => operand_lt hf hS hs (List.mem_of_mem_drop (List.mem_of_mem_head? hreceiver)))
    (fun hs => operand_lt hf hS hs (List.mem_of_mem_head? hvalue))
  refine hset.executed hf hS rfl fun _ m₃ hg hframes _ => ?_
  refine Ensures.pure (.of_straight [] hf hS (hg.advanced _ _) rfl rfl ?_
    fun _ _ h => absurd h List.not_mem_nil)
  rw [hframes]
  simp [Frame.dropping]

theorem execute_inherits (hf : m.frames = f :: rest) (hS : S → m.Sound) (module : NodeId)
    (hops : 1 ≤ f.operands.length) :
    Ensures (e.execute (.inherits module)) m (Executed S binds (.inherits module) f rest m)
      (Failed S (.inherits module) f rest m) := by
  refine Ensures.bind (pop_ensures hf hops) fun value m₁ h₁ => ?_
  obtain ⟨hvalue, rfl⟩ := h₁
  have hobject := object_touches (n := m.heap.contexts.size)
    (m := { m with frames := f.dropping 1 :: rest })
    fun hs => operand_lt hf hS hs (List.mem_of_mem_head? hvalue)
  refine hobject.executed hf hS rfl fun object m₂ hg hframes hm => ?_
  obtain ⟨rfl, -⟩ := hm
  refine Ensures.bind (push_ensures hframes _) fun _ m₃ h₃ => ?_
  subst h₃
  refine Ensures.pure (.of_straight [_] hf hS ((Machine.Grown.of_frames ..).advanced _ _) rfl
    rfl rfl fun hs x hx => ?_)
  rw [List.mem_singleton.1 hx]
  refine Nat.lt_of_le_of_lt ?_ (hS hs).heap.reserved
  unfold ObjectId.ofBool
  split <;> decide

theorem execute_call (he : e.Disciplined binds) (hf : m.frames = f :: rest) (hS : S → m.Sound)
    (message : String) {arity : Nat} (start : Option NodeId)
    (hops : arity + 1 ≤ f.operands.length) :
    Ensures (e.execute (.call message arity start)) m
      (Executed S binds (.call message arity start) f rest m)
      (Failed S (.call message arity start) f rest m) := by
  refine Ensures.bind (popMany_ensures hf (by omega)) fun args m₁ h₁ => ?_
  obtain ⟨hargs, rfl⟩ := h₁
  refine Ensures.bind (pop_ensures rfl ?_) fun receiver m₂ h₂ => ?_
  · simp only [Frame.dropping, List.length_drop]
    omega
  obtain ⟨hreceiver, rfl⟩ := h₂
  have hdrop : (f.dropping arity).dropping 1 = f.dropping (arity + 1) := by
    simp [Frame.dropping, List.drop_drop]
  refine Answers.executed hf hS rfl (by rw [hdrop])
    (dispatch_answers he (le_refl m.heap.contexts.size) fun hs => ⟨(hS hs).heap, ?_⟩)
  intro id hid
  refine operand_lt hf hS hs ?_
  rcases List.mem_cons.1 hid with rfl | hid
  · exact List.mem_of_mem_drop (List.mem_of_mem_head? hreceiver)
  · rw [hargs, List.mem_reverse] at hid
    exact List.mem_of_mem_take hid

theorem execute_init (he : e.Disciplined binds) (hf : m.frames = f :: rest) (hS : S → m.Sound)
    {arity : Nat} (start : NodeId) (initFields : Bool) (hops : arity + 1 ≤ f.operands.length) :
    Ensures (e.execute (.init arity start initFields)) m
      (Executed S binds (.init arity start initFields) f rest m)
      (Failed S (.init arity start initFields) f rest m) := by
  refine Ensures.bind (pop_ensures hf (by omega)) fun receiver m₁ h₁ => ?_
  obtain ⟨hreceiver, rfl⟩ := h₁
  refine Ensures.bind (popMany_ensures rfl ?_) fun args m₂ h₂ => ?_
  · simp only [Frame.dropping, List.length_drop]
    omega
  obtain ⟨hargs, rfl⟩ := h₂
  have hdrop : (f.dropping 1).dropping arity = f.dropping (arity + 1) := by
    simp [Frame.dropping]
  refine Answers.executed hf hS rfl (by rw [hdrop])
    (construct_answers he (le_refl m.heap.contexts.size) fun hs => ⟨(hS hs).heap, ?_⟩)
  intro id hid
  refine operand_lt hf hS hs ?_
  rcases List.mem_cons.1 hid with rfl | hid
  · exact List.mem_of_mem_head? hreceiver
  · rw [hargs, List.mem_reverse] at hid
    exact List.mem_of_mem_drop (List.mem_of_mem_take hid)

/-- `Engine.instantiate` takes the elements of a collection and nothing else. -/
theorem instantiate_ensures {n : Nat} {bad : Fault → Machine → Prop}
    (hf : m.frames = f :: rest) (hS : S → m.Sound) {module : NodeId}
    {value : Option Primitive} {takes leaves : Nat}
    (effect : (Instruction.instantiate module value).effect? = some (takes, leaves))
    (hops : takes ≤ f.operands.length) :
    Ensures (e.instantiate module value) m
      (fun id m' => m.Grown S n m' ∧ m'.frames = f.dropping takes :: rest
        ∧ (S → id < m'.heap.size))
      bad := by
  have hclosed : S → m.heap.Closed := fun hs => (hS hs).heap
  -- Where nothing is taken, the frames stay as they are.
  have hsame : ∀ {a : Action ObjectId}, takes = 0 →
      Manages S n a m (fun id m' => S → id < m'.heap.size) →
      Ensures a m (fun id m' => m.Grown S n m' ∧ m'.frames = f.dropping takes :: rest
        ∧ (S → id < m'.heap.size)) bad := by
    intro a htakes ha
    refine Ensures.mono ha (fun id m' h => ⟨h.1.toGrown, ?_, h.2⟩) fun _ _ h => h.elim
    rw [h.1.frames, hf, htakes]
    rfl
  match value with
  | some (.number value) =>
      cases effect
      have hnew : Manages S n (onHeap fun h => h.number value module) m
          fun id m' => S → id < m'.heap.size :=
        onHeap_manages (Heap.contexts_intern ..) (Heap.size_le_intern ..)
          (fun _ => (Heap.Edit.number value module).reaches) fun hs => (hclosed hs).intern_lt ..
      exact hsame rfl hnew
  | some (.string value) =>
      cases effect
      have hnew : Manages S n (onHeap fun h => h.string value module) m
          fun id m' => S → id < m'.heap.size :=
        onHeap_manages (Heap.contexts_intern ..) (Heap.size_le_intern ..)
          (fun _ => (Heap.Edit.string value module).reaches) fun hs => (hclosed hs).intern_lt ..
      exact hsame rfl hnew
  | some (.collection count) =>
      cases effect
      refine Ensures.bind (popMany_ensures hf hops) fun elements m₁ h₁ => ?_
      obtain ⟨helements, rfl⟩ := h₁
      have hnew := allocate_manages (S := S) (n := n)
        (m := { m with frames := f.dropping takes :: rest }) module (some elements) rootContext
        true (fun hs x hx => ?_) fun hs => (hclosed hs).root
      · refine Ensures.mono hnew (fun id m' h => ⟨?_, h.1.frames, fun _ => h.2⟩)
          fun _ _ h => h.elim
        exact (Machine.Grown.of_frames S n m _).trans h.1.toGrown
      · refine operand_lt hf hS hs ?_
        rw [Option.getD_some, helements, List.mem_reverse] at hx
        exact List.mem_of_mem_take hx
  | none =>
      cases effect
      unfold Engine.instantiate
      dsimp only
      split
      · refine Ensures.bind (frame_ensures hf) fun g m₁ h₁ => ?_
        obtain ⟨rfl, rfl⟩ := h₁
        refine hsame rfl (Ensures.mono (allocate_manages module none _ _ (fun _ x hx => nomatch hx)
          fun hs => ?_) (fun _ _ h => ⟨h.1, fun _ => h.2⟩) fun _ _ h => h)
        exact ((hS hs).frames _ (hf ▸ List.mem_cons_self)).context
      · exact hsame rfl (Ensures.mono (allocate_manages module none _ _ (fun _ x hx => nomatch hx)
          fun hs => (hclosed hs).root) (fun _ _ h => ⟨h.1, fun _ => h.2⟩) fun _ _ h => h)

theorem execute_instantiate (hf : m.frames = f :: rest) (hS : S → m.Sound) {module : NodeId}
    {value : Option Primitive} {takes leaves : Nat}
    (effect : (Instruction.instantiate module value).effect? = some (takes, leaves))
    (hops : takes ≤ f.operands.length) :
    Ensures (e.execute (.instantiate module value)) m
      (Executed S binds (.instantiate module value) f rest m)
      (Failed S (.instantiate module value) f rest m) := by
  have hleaves : leaves = 1 := by
    match value with
    | some (.number _) => cases effect; rfl
    | some (.string _) => cases effect; rfl
    | some (.collection _) => cases effect; rfl
    | none => cases effect; rfl
  refine Ensures.bind (instantiate_ensures (n := m.heap.contexts.size) hf hS effect hops)
    fun id m₁ h₁ => ?_
  obtain ⟨hg, hframes, hid⟩ := h₁
  refine Ensures.bind (push_ensures hframes id) fun _ m₂ h₂ => ?_
  subst h₂
  have hadv := (hg.trans (.of_frames S _ m₁ ((f.dropping takes).push id :: rest))).advanced
    (.instantiate module value) f
  exact Ensures.pure (.of_straight [id] hf hS hadv effect hleaves.symm rfl
    fun hs x hx => List.mem_singleton.1 hx ▸ hid hs)

theorem execute_conditionalJump (hf : m.frames = f :: rest) (hS : S → m.Sound) (count : Nat)
    (hops : 1 ≤ f.operands.length) :
    Ensures (e.execute (.conditionalJump count)) m
      (Executed S binds (.conditionalJump count) f rest m)
      (Failed S (.conditionalJump count) f rest m) := by
  refine Ensures.bind (pop_ensures hf hops) fun condition m₁ h₁ => ?_
  obtain ⟨-, rfl⟩ := h₁
  refine (boolean_reads e.toWorld condition).touches.executed hf hS rfl
    fun value m₂ hg hframes hm => ?_
  obtain ⟨rfl, -⟩ := hm
  have hdone : ∀ (taken : Bool),
      Executed S binds (.conditionalJump count) f rest m .next { m with frames :=
        { f.dropping 1 with pc := if taken then f.pc + count else f.pc } :: rest } := by
    intro taken
    refine ⟨(Machine.Grown.of_frames ..).advanced _ _, ⟨_, .jump taken, rfl⟩, fun hs => ?_,
      fun _ _ _ h => nomatch h⟩
    refine (hS hs).replaceTop hf .refl [_] rfl fun g hg => ?_
    rw [List.mem_singleton.1 hg]
    exact ((hS hs).frames f (hf ▸ List.mem_cons_self)).of_operands rfl rfl
      fun _ hid => .inl (List.mem_of_mem_drop hid)
  split
  · refine Ensures.bind (skip_ensures rfl count) fun _ m₃ h₃ => ?_
    subst h₃
    exact Ensures.pure (hdone true)
  · exact Ensures.pure (hdone false)

-- ========================================================= nested code

/-- `pushBlock` gives nested code a new context and a frame on top, or it does
not fit. -/
theorem pushBlock_ensures {n : Nat} (hn : n ≤ m.heap.contexts.size) {parent : ContextId}
    (hp : S → parent < m.heap.contexts.size) (code : Code) (resume : List Interruption) :
    Ensures (e.pushBlock parent code resume) m
      (fun _ m' => m.Grown S n m' ∧ m'.heap.contexts.size = m.heap.contexts.size + 1
        ∧ m'.frames = { code, context := m.heap.contexts.size, resume } :: m.frames)
      fun fault m' => m.Grown S n m' ∧ m'.frames = m.frames ∧ fault.plain = true := by
  have hparent : S → m.heap.Has (.context parent) := hp
  refine Ensures.bind (Ensures.mono (newContext_manages hn hparent) (fun _ _ h => h)
    fun _ _ h => h.elim) fun context m₁ h₁ => ?_
  obtain ⟨ht, rfl, hsize⟩ := h₁
  refine Ensures.mono (pushFrame_ensures e.toWorld _) ?_ ?_
  · rintro _ m₂ rfl
    exact ⟨ht.toGrown.trans (.of_frames ..), hsize, by rw [ht.frames]⟩
  · rintro fault m₂ ⟨rfl, hplain⟩
    exact ⟨ht.toGrown, ht.frames, hplain⟩

/-- A frame that has not started yet holds nothing but its code. -/
theorem fresh_sound {h : Heap} {code : Code} {context : ContextId} {resume : List Interruption}
    (hcontext : context < h.contexts.size) (hcode : ∀ id ∈ constantsOf code, id < h.size) :
    Frame.Sound h { code, context, resume } :=
  ⟨fun _ hid => (nomatch hid), hcontext, hcode⟩

theorem execute_ifThenElse (hf : m.frames = f :: rest) (hS : S → m.Sound)
    {thenBranch elseBranch : Code}
    (hi : S → ∀ id ∈ (Instruction.ifThenElse thenBranch elseBranch).constants, id < m.heap.size)
    (hops : 1 ≤ f.operands.length) :
    Ensures (e.execute (.ifThenElse thenBranch elseBranch)) m
      (Executed S binds (.ifThenElse thenBranch elseBranch) f rest m)
      (Failed S (.ifThenElse thenBranch elseBranch) f rest m) := by
  refine Ensures.bind (pop_ensures hf hops) fun condition m₁ h₁ => ?_
  obtain ⟨-, rfl⟩ := h₁
  refine (boolean_reads e.toWorld condition).touches.executed hf hS rfl
    fun value m₂ _ hframes hm => ?_
  obtain ⟨rfl, -⟩ := hm
  refine Ensures.bind (frame_ensures rfl) fun g m₃ h₃ => ?_
  obtain ⟨rfl, rfl⟩ := h₃
  refine Ensures.bind (await_ensures rfl .result) fun _ m₄ h₄ => ?_
  subst h₄
  have hfs : S → f.Sound m.heap := fun hs => (hS hs).frames f (hf ▸ List.mem_cons_self)
  have hgrown := Machine.Grown.of_frames S m.heap.contexts.size m
    ((f.dropping 1).resuming [.result] :: rest)
  have hblock := pushBlock_ensures (e := e) (S := S)
    (m := { m with frames := (f.dropping 1).resuming [.result] :: rest })
    (le_refl m.heap.contexts.size) (fun hs => (hfs hs).context)
    (if value then thenBranch else elseBranch) []
  refine Ensures.bind (Ensures.mono hblock (fun _ _ h => h) fun fault m' h =>
    .of_same hf hS ((hgrown.trans h.1).advanced _ _) (by rw [h.2.1]; rfl) (.of_plain h.2.2))
    fun _ m₅ h₅ => ?_
  obtain ⟨hg, hsize, hframes'⟩ := h₅
  have hedits : S → m.heap.Reaches m₅.heap := (hgrown.trans hg).reaches
  refine Ensures.pure ⟨(hgrown.trans hg).advanced _ _, ⟨_, .branch value, hframes'⟩, fun hs => ?_,
    fun _ _ _ h => nomatch h⟩
  refine (hS hs).replaceTop hf (hedits hs) [_, _] hframes' fun g hg => ?_
  simp only [List.mem_cons, List.not_mem_nil, or_false] at hg
  rcases hg with rfl | rfl
  · refine fresh_sound (hsize ▸ Nat.lt_succ_self _) fun id hid => (hedits hs).lt (hi hs id ?_)
    cases value with
    | true => exact List.mem_append_left _ hid
    | false => exact List.mem_append_right _ hid
  · exact ((hfs hs).mono (hedits hs)).dropping 1 _

/-- A frame that is about to be left has given up one operand. -/
theorem Executed.of_leave {i : Instruction} {kind : Interruption} {value : ObjectId}
    (hf : m.frames = f :: rest) (hS : S → m.Sound) (hvalue : f.operands.head? = some value)
    (effect : Effect binds f m.heap.contexts.size i (.interrupt kind value) [f.dropping 1]) :
    Executed S binds i f rest m (.interrupt kind value)
      { m with frames := f.dropping 1 :: rest } := by
  refine ⟨(Machine.Grown.of_frames ..).advanced _ _, ⟨_, effect, rfl⟩, fun hs => ?_,
    fun hs _ _ h => ?_⟩
  · refine (hS hs).replaceTop hf .refl [_] rfl fun g hg => ?_
    rw [List.mem_singleton.1 hg]
    exact ((hS hs).frames f (hf ▸ List.mem_cons_self)).of_operands rfl rfl
      fun _ hid => .inl (List.mem_of_mem_drop hid)
  · cases h
    exact operand_lt hf hS hs (List.mem_of_mem_head? hvalue)

theorem execute_interrupt (hf : m.frames = f :: rest) (hS : S → m.Sound) (kind : Interruption)
    (hops : 1 ≤ f.operands.length) :
    Ensures (e.execute (.interrupt kind)) m (Executed S binds (.interrupt kind) f rest m)
      (Failed S (.interrupt kind) f rest m) := by
  refine Ensures.bind (pop_ensures hf hops) fun value m₁ h₁ => ?_
  obtain ⟨hvalue, rfl⟩ := h₁
  exact Ensures.pure (Executed.of_leave hf hS hvalue (.interrupt hvalue))

theorem execute_resumeInterruption (hf : m.frames = f :: rest) (hS : S → m.Sound)
    (hops : 1 ≤ f.operands.length) (hpending : f.pending ≠ none) :
    Ensures (e.execute .resumeInterruption) m (Executed S binds .resumeInterruption f rest m)
      (Failed S .resumeInterruption f rest m) := by
  obtain ⟨kind, hkind⟩ := Option.ne_none_iff_exists'.1 hpending
  refine Ensures.bind (frame_ensures hf) fun g m₁ h₁ => ?_
  obtain ⟨rfl, rfl⟩ := h₁
  rw [hkind]
  refine Ensures.bind (pop_ensures hf hops) fun value m₂ h₂ => ?_
  obtain ⟨hvalue, rfl⟩ := h₂
  exact Ensures.pure (Executed.of_leave hf hS hvalue (.resume hkind hvalue))

theorem execute_tryCatchAlways (hf : m.frames = f :: rest) (hS : S → m.Sound)
    {body handler always : Code}
    (hi : S → ∀ id ∈ (Instruction.tryCatchAlways body handler always).constants,
      id < m.heap.size) :
    Ensures (e.execute (.tryCatchAlways body handler always)) m
      (Executed S binds (.tryCatchAlways body handler always) f rest m)
      (Failed S (.tryCatchAlways body handler always) f rest m) := by
  -- What is known of the frames on the way, whatever the heap has become.
  have hparent : S → f.context < m.heap.contexts.size := fun hs =>
    ((hS hs).frames f (hf ▸ List.mem_cons_self)).context
  have hunder : S → ∀ {h' : Heap}, m.heap.Reaches h' →
      ∀ x ∈ f.resuming [.result] :: rest, x.Sound h' := by
    intro hs h' hr x hx
    rcases List.mem_cons.1 hx with rfl | hx
    · exact ((hS hs).frames f (hf ▸ List.mem_cons_self)).mono hr |>.of_operands rfl rfl
        fun _ => .inl
    · exact ((hS hs).frames x (hf ▸ List.mem_cons_of_mem _ hx)).mono hr
  have hfresh : S → ∀ {h' : Heap} {code : Code} {context : ContextId} {resume}, m.heap.Reaches h' →
      context < h'.contexts.size → constantsOf code ⊆
        (Instruction.tryCatchAlways body handler always).constants →
      Frame.Sound h' { code, context, resume } := fun hs _ _ _ _ hr hc hsub =>
    fresh_sound hc fun id hid => hr.lt (hi hs id (hsub hid))
  have halways : constantsOf always ⊆
      (Instruction.tryCatchAlways body handler always).constants := List.subset_append_right _ _
  have hhandler : constantsOf handler ⊆
      (Instruction.tryCatchAlways body handler always).constants := fun x hx =>
    List.mem_append_left _ (List.mem_append_right _ hx)
  have hbody : constantsOf body ⊆
      (Instruction.tryCatchAlways body handler always).constants := fun x hx =>
    List.mem_append_left _ (List.mem_append_left _ hx)
  refine Ensures.bind (frame_ensures hf) fun g m₁ h₁ => ?_
  obtain ⟨rfl, rfl⟩ := h₁
  refine Ensures.bind (await_ensures hf .result) fun _ m₂ h₂ => ?_
  have hg₂ : m₁.Grown S m₁.heap.contexts.size m₂ := h₂ ▸ .of_frames ..
  have hframes₂ : m₂.frames = g.resuming [.result] :: rest := h₂ ▸ rfl
  have hsize₂ : m₂.heap.contexts.size = m₁.heap.contexts.size := h₂ ▸ rfl
  clear h₂
  refine Ensures.bind (Ensures.mono (pushBlock_ensures hg₂.scopes
    (fun hs => (hparent hs).trans_le hg₂.scopes) always Interruption.all) (fun _ _ h => h)
    fun fault m' h => ?_) fun _ m₃ h₃ => ?_
  · exact .of_same hf hS ((hg₂.trans h.1).advanced _ _) (by rw [h.2.1, hframes₂]; rfl)
      (.of_plain h.2.2)
  have hg₃ := hg₂.trans h₃.1
  have hsize₃ : m₃.heap.contexts.size = m₁.heap.contexts.size + 1 := by rw [h₃.2.1, hsize₂]
  have hframes₃ := h₃.2.2
  rw [hframes₂, hsize₂] at hframes₃
  refine Ensures.bind (Ensures.mono (pushBlock_ensures hg₃.scopes
    (fun hs => (hparent hs).trans_le hg₃.scopes) handler [.exception]) (fun _ _ h => h)
    fun fault m' h => ?_) fun _ m₄ h₄ => ?_
  · have htail : m'.frames.tail = g.resuming [.result] :: rest := by
      rw [h.2.1, hframes₃]
      rfl
    refine ⟨(hg₃.trans h.1).advanced _ _, htail ▸ .waiting, fun hs x hx => ?_, .of_plain h.2.2⟩
    exact hunder hs ((hg₃.trans h.1).reaches hs) x (htail ▸ hx)
  have hg₄ := hg₃.trans h₄.1
  have hsize₄ : m₄.heap.contexts.size = m₁.heap.contexts.size + 2 := by rw [h₄.2.1, hsize₃]
  have hframes₄ := h₄.2.2
  rw [hframes₃, hsize₃] at hframes₄
  refine Ensures.bind (Ensures.mono (pushBlock_ensures hg₄.scopes
    (fun hs => (hparent hs).trans_le hg₄.scopes) body []) (fun _ _ h => h)
    fun fault m' h => ?_) fun _ m₅ h₅ => ?_
  · have htail : m'.frames.tail =
        { code := always, context := m₁.heap.contexts.size, resume := Interruption.all }
          :: g.resuming [.result] :: rest := by
      rw [h.2.1, hframes₄]
      rfl
    have hedits := (hg₄.trans h.1).reaches
    refine ⟨(hg₄.trans h.1).advanced _ _, htail ▸ .shielded, fun hs x hx => ?_, .of_plain h.2.2⟩
    rw [htail] at hx
    rcases List.mem_cons.1 hx with rfl | hx
    · exact hfresh hs (hedits hs) (Nat.lt_of_lt_of_le (by omega) h.1.scopes) halways
    · exact hunder hs (hedits hs) x hx
  have hg₅ := hg₄.trans h₅.1
  have hsize₅ : m₅.heap.contexts.size = m₁.heap.contexts.size + 3 := by rw [h₅.2.1, hsize₄]
  have hframes₅ := h₅.2.2
  rw [hframes₄, hsize₄] at hframes₅
  refine Ensures.pure ⟨hg₅.advanced _ _, ⟨_, .protect, hframes₅⟩, fun hs => ?_,
    fun _ _ _ h => nomatch h⟩
  refine ⟨(hg₅.reaches hs).closed (hS hs).heap, fun x hx => ?_⟩
  rw [hframes₅] at hx
  have hcontexts : ∀ k < 3, m₁.heap.contexts.size + k < m₅.heap.contexts.size := by omega
  rcases List.mem_cons.1 hx with rfl | hx
  · exact hfresh hs (hg₅.reaches hs) (hcontexts 2 (by decide)) hbody
  rcases List.mem_cons.1 hx with rfl | hx
  · exact hfresh hs (hg₅.reaches hs) (hcontexts 1 (by decide)) hhandler
  rcases List.mem_cons.1 hx with rfl | hx
  · exact hfresh hs (hg₅.reaches hs) (hcontexts 0 (by decide)) halways
  · exact hunder hs (hg₅.reaches hs) x hx

/-- `execute` ends `Executed` or `Failed`, given the operands that the
instruction takes: one case for each instruction. -/
theorem execute_ensures (he : e.Disciplined binds) (hf : m.frames = f :: rest)
    (hS : S → m.Sound) {i : Instruction} (hi : S → ∀ id ∈ i.constants, id < m.heap.size)
    (hops : i.takes ≤ f.operands.length)
    (hpending : i = .resumeInterruption → f.pending ≠ none) :
    Ensures (e.execute i) m (Executed S binds i f rest m) (Failed S i f rest m) := by
  cases i with
  | load name => exact execute_load hf hS name
  | store name lookup => exact execute_store hf hS name lookup hops
  | push id => exact execute_push hf hS fun hs => hi hs id List.mem_cons_self
  | pop => exact execute_pop hf hS hops
  | dup => exact execute_dup hf hS hops
  | swap => exact execute_swap hf hS hops
  | get field => exact execute_get hf hS field hops
  | set field => exact execute_set hf hS field hops
  | instantiate module value =>
      match value with
      | some (.number _) => exact execute_instantiate hf hS rfl hops
      | some (.string _) => exact execute_instantiate hf hS rfl hops
      | some (.collection _) => exact execute_instantiate hf hS rfl hops
      | none => exact execute_instantiate hf hS rfl hops
  | init arity start initFields => exact execute_init he hf hS start initFields hops
  | call message arity start => exact execute_call he hf hS message start hops
  | inherits module => exact execute_inherits hf hS module hops
  | conditionalJump count => exact execute_conditionalJump hf hS count hops
  | ifThenElse thenBranch elseBranch => exact execute_ifThenElse hf hS hi hops
  | tryCatchAlways body handler always => exact execute_tryCatchAlways hf hS hi
  | interrupt kind => exact execute_interrupt hf hS kind hops
  | resumeInterruption => exact execute_resumeInterruption hf hS hops (hpending rfl)

-- ============================================================== steps

/-- The exception that a fault becomes. -/
def exceptionOf (e : Engine) : Fault → Action ObjectId
  | .thrown exception => pure exception
  | fault => newWithMessage e.toWorld e.core.evaluationError fault.message

theorem raise_eq (e : Engine) (fault : Fault) (m : Machine) :
    e.raise fault m = match e.exceptionOf fault m with
      | .ok exception m => e.interrupt .exception exception m
      | .error fault m => .error (.fault fault) m := by
  cases fault <;> rfl

/-- `exceptionOf` makes an exception that exists. -/
theorem exceptionOf_cases {n : Nat} {fault : Fault} (hS : S → m.heap.Closed)
    (hfault : fault.Lawful S m.heap) :
    ∃ value m', e.exceptionOf fault m = .ok value m' ∧ m.Touched S n m'
      ∧ (S → value < m'.heap.size) := by
  unfold exceptionOf
  split
  · next id => exact ⟨id, m, rfl, .refl S n m, fun hs => hfault.thrown hs id rfl⟩
  · have hnew := newWithMessage_manages (n := n) hS e.toWorld e.core.evaluationError fault.message
    cases hrun : newWithMessage e.toWorld e.core.evaluationError fault.message m with
    | ok value m' => exact ⟨value, m', rfl, hnew.of_ok hrun⟩
    | error fault' m' => exact (hnew.of_error hrun).elim

end Engine

/-- The frame with its counter on the next instruction. -/
def Frame.next (f : Frame) : Frame := { f with pc := f.pc + 1 }

/-- The interruption that the next step raises, if it raises one, and the
machine in which it is raised. -/
def Engine.raised? (e : Engine) (m : Machine) : Option (Interruption × ObjectId × Machine) :=
  match m.frames with
  | [] => none
  | f :: rest =>
    match f.code[f.pc]? with
    | none => none
    | some i =>
      match e.execute i { m with frames := f.next :: rest } with
      | .ok .next _ => none
      | .ok (.interrupt kind value) m => some (kind, value, m)
      | .error fault m =>
        match e.exceptionOf fault m with
        | .ok exception m => some (.exception, exception, m)
        | .error _ _ => none

/-- A `step` by what `execute` comes to for the next instruction. -/
theorem Engine.step_eq {e : Engine} {m : Machine} {f : Frame} {rest : List Frame}
    {i : Instruction} (hf : m.frames = f :: rest) (hi : f.code[f.pc]? = some i) :
    e.step m = match e.execute i { m with frames := f.next :: rest } with
      | .ok .next m => .ok () m
      | .ok (.interrupt kind value) m => e.interrupt kind value m
      | .error fault m => e.raise fault m := by
  simp only [step, hf, hi]
  rfl

theorem Engine.raised?_eq {e : Engine} {m : Machine} {f : Frame} {rest : List Frame}
    {i : Instruction} (hf : m.frames = f :: rest) (hi : f.code[f.pc]? = some i) :
    e.raised? m = match e.execute i { m with frames := f.next :: rest } with
      | .ok .next _ => none
      | .ok (.interrupt kind value) m => some (kind, value, m)
      | .error fault m =>
        match e.exceptionOf fault m with
        | .ok exception m => some (.exception, exception, m)
        | .error _ _ => none := by
  simp only [raised?, hf, hi]

/-- A step of which something is `raised?` is `interrupt` with it. -/
theorem Engine.step_of_raised? {e : Engine} {m m' : Machine} {kind : Interruption}
    {value : ObjectId} (h : e.raised? m = some (kind, value, m')) :
    e.step m = e.interrupt kind value m' := by
  obtain ⟨f, rest, i, hf, hi⟩ : ∃ f rest i, m.frames = f :: rest ∧ f.code[f.pc]? = some i := by
    unfold raised? at h
    split at h
    · cases h
    · split at h
      · cases h
      · next f rest hf _ i hi => exact ⟨f, rest, i, hf, hi⟩
  rw [raised?_eq hf hi] at h
  rw [step_eq hf hi]
  split at h
  · cases h
  · cases h
    rfl
  · rw [raise_eq]
    split at h
    · cases h
      rfl
    · cases h

/-- An interruption raised by an instruction of `f`: of its own accord, or
because it faulted. -/
structure Raised (S : Prop) (binds : String → Prop) (i : Instruction) (f : Frame)
    (rest : List Frame) (m : Machine) (kind : Interruption) (value : ObjectId) (m' : Machine) :
    Prop where
  advanced : m.Advanced S i f m'
  cause : (m'.frames.tail = rest
      ∧ ∃ top, Effect binds f m.heap.contexts.size i (.interrupt kind value) top)
    ∨ (kind = .exception ∧ Remains f m.heap.contexts.size rest i m'.frames.tail)
  heap : S → m'.heap.Closed
  frames : S → ∀ g ∈ m'.frames.tail, g.Sound m'.heap
  value : S → value < m'.heap.size

theorem mem_constantsOf {code : Code} {i : Instruction} (hi : i ∈ code) :
    i.constants ⊆ constantsOf code := by
  induction code with
  | nil => cases hi
  | cons first rest ih =>
      rcases List.mem_cons.1 hi with rfl | hi
      · exact List.subset_append_left _ _
      · exact List.Subset.trans (ih hi) (List.subset_append_right _ _)

namespace Engine

open ObjectMachine.Action

variable {e : Engine} {S : Prop} {binds : String → Prop} {f : Frame} {rest : List Frame}
  {m : Machine}

/-- `execute` of the next instruction of the running frame. -/
theorem execute_next (he : e.Disciplined binds) (hf : m.frames = f :: rest) (hS : S → m.Sound)
    {i : Instruction} (hi : f.code[f.pc]? = some i) (hops : i.takes ≤ f.operands.length)
    (hpending : i = .resumeInterruption → f.pending ≠ none) :
    Ensures (e.execute i) { m with frames := f.next :: rest }
      (Executed S binds i f.next rest { m with frames := f.next :: rest })
      (Failed S i f.next rest { m with frames := f.next :: rest }) := by
  have hsound : S → Machine.Sound { m with frames := f.next :: rest } := by
    intro hs
    refine (hS hs).replaceTop hf .refl [_] rfl fun g hg => ?_
    rw [List.mem_singleton.1 hg]
    exact ((hS hs).frames f (hf ▸ List.mem_cons_self)).of_operands rfl rfl fun _ => .inl
  have hconst : S → ∀ id ∈ i.constants, id < m.heap.size := fun hs id hid =>
    ((hS hs).frames f (hf ▸ List.mem_cons_self)).constants id
      (mem_constantsOf (List.mem_of_getElem? hi) hid)
  exact execute_ensures he rfl hsound hconst hops hpending

/-- A `step` executes the next instruction of the running frame, or an
interruption is `Raised`. -/
theorem step_cases (he : e.Disciplined binds) (hf : m.frames = f :: rest) (hS : S → m.Sound)
    {i : Instruction} (hi : f.code[f.pc]? = some i) (hops : i.takes ≤ f.operands.length)
    (hpending : i = .resumeInterruption → f.pending ≠ none) :
    (∃ m', e.step m = .ok () m' ∧ Executed S binds i f.next rest m .next m')
    ∨ ∃ kind value m', e.raised? m = some (kind, value, m')
        ∧ Raised S binds i f.next rest m kind value m' := by
  have hexec := execute_next he hf hS hi hops hpending
  cases hrun : e.execute i { m with frames := f.next :: rest } with
  | ok flow m' =>
      have hok := hexec.of_ok hrun
      have hadv : m.Advanced S i f.next m' :=
        ⟨hok.advanced.scopes, hok.advanced.reaches, hok.advanced.locals⟩
      cases flow with
      | next =>
          refine .inl ⟨m', ?_, hadv, hok.effect, hok.sound, hok.value⟩
          rw [step_eq hf hi, hrun]
      | interrupt kind value =>
          obtain ⟨top, heffect, hframes⟩ := hok.effect
          have htop : top = [f.next.dropping 1] := by cases heffect <;> rfl
          have htail : m'.frames.tail = rest := by
            rw [hframes, htop]
            rfl
          refine .inr ⟨kind, value, m', ?_, hadv, .inl ⟨htail, top, heffect⟩,
            fun hs => (hok.sound hs).heap, fun hs g hg => ?_, fun hs => hok.value hs kind value rfl⟩
          · rw [raised?_eq hf hi, hrun]
          · exact (hok.sound hs).frames g (List.mem_of_mem_tail hg)
  | error fault m' =>
      have hbad := hexec.of_error hrun
      have hclosed : S → m'.heap.Closed := fun hs =>
        (hbad.advanced.reaches hs).closed (hS hs).heap
      obtain ⟨value, m'', hexception, ht, hvalue⟩ :=
        exceptionOf_cases (e := e) (n := m.heap.contexts.size) hclosed hbad.lawful
      have htail : m''.frames.tail = m'.frames.tail := by rw [ht.frames]
      refine .inr ⟨.exception, value, m'', ?_, ?_, .inr ⟨rfl, ?_⟩,
        fun hs => ht.closed hclosed hs, fun hs g hg => ?_, hvalue⟩
      · simp only [raised?_eq hf hi, hrun, hexception]
      · refine ⟨hbad.advanced.scopes.trans ht.scopes,
          fun hs => (hbad.advanced.reaches hs).trans (ht.reaches hs), fun c hc name hname => ?_⟩
        exact (ht.local? hc name).trans (hbad.advanced.locals c hc name hname)
      · rw [htail]
        exact hbad.remains
      · exact (hbad.sound hs g (htail ▸ hg)).mono (ht.reaches hs)

end Engine

end ObjectMachine
