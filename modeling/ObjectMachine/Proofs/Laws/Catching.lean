/-
Handlers are tried in order.

The code of a `catch` list is one piece after another, one for each clause:
a test, if the clause has a type, a jump over the rest of the piece, and
the body. Nothing is known of the bodies but that they jump nowhere else
(`Emitted.bounded`). So a frame that has received an exception goes from
test to test until one succeeds, and from then on it stays in the body
behind that test (`handlers_are_tried_in_order`).
-/
import Mathlib
import ObjectMachine.Proofs.Code.Operands
import ObjectMachine.Proofs.Laws.AlwaysBlocks
import ObjectMachine.Proofs.Machine.Turns

namespace ObjectMachine

-- ============================================================ jumps

/-- Code whose jumps stay within it, or go to its end. -/
def Code.Bounded (code : Code) : Prop :=
  ∀ pc count, code[pc]? = some (.conditionalJump count) → pc + 1 + count ≤ code.length

theorem Code.Bounded.single {i : Instruction} (h : ∀ count, i ≠ .conditionalJump count) :
    Code.Bounded [i] := by
  intro pc count hi
  cases pc with
  | zero => exact absurd (Option.some.inj hi) (h count)
  | succ pc => cases hi

theorem Code.Bounded.append {code more : Code} (first : code.Bounded) (second : more.Bounded) :
    Code.Bounded (code ++ more) := by
  intro pc count hi
  rw [List.length_append]
  by_cases hpc : pc < code.length
  · rw [List.getElem?_append_left hpc] at hi
    exact (first pc count hi).trans (Nat.le_add_right _ _)
  · rw [List.getElem?_append_right (Nat.le_of_not_lt hpc)] at hi
    have := second _ count hi
    omega

/-- `Emitted` code jumps to places of its own: only `guarded` code has a jump,
and that is over what it guards. -/
theorem Emitted.bounded {pal : Palette} {role : Role} {a b : Nat} {code : Code}
    (h : Emitted pal role a b code) : code.Bounded := by
  induction h with
  | nil k =>
      intro pc count hi
      cases hi
  | append _ _ ih1 ih2 => exact ih1.append ih2
  | lift _ k ih => exact ih
  | plain effect _ _ =>
      refine .single ?_
      rintro count rfl
      cases effect
  | guarded _ ih =>
      intro pc count hi
      cases pc with
      | zero =>
          cases hi
          rw [Code.guarded, List.length_cons]
          omega
      | succ pc =>
          have := ih pc count hi
          rw [Code.guarded, List.length_cons]
          omega
  | _ =>
      refine .single fun count hi => ?_
      cases hi

theorem Program.blockCode_bounded {p : Program} {block : Tree} {body : Code}
    (h : p.blockCode block = .ok body) : body.Bounded := by
  let all : Palette := ⟨fun _ => True, fun _ => True⟩
  have hemits : Emitted all .block _ _ body :=
    blockCode_emits ⟨trivial, fun _ _ => trivial⟩ block (fun _ _ _ _ => trivial) h .block
  exact hemits.bounded

/-- `Bounded` code that ends in an `interrupt` is not left in another way, so it
`Confines` a counter. -/
theorem Code.Bounded.confines {code body : Code} (h : body.Bounded) {kind : Interruption}
    {offset : Nat} (hplace : body ++ [.interrupt kind] <+: code.drop offset) :
    code.Confines fun pc => offset ≤ pc ∧ pc < offset + (body.length + 1) := by
  rintro pc pc' ⟨hlow, hhigh⟩ ⟨i, hi, hplain, hnext⟩
  obtain ⟨k, rfl⟩ := Nat.exists_eq_add_of_le hlow
  obtain ⟨right, hright⟩ := hplace
  rw [← List.getElem?_drop, ← hright, List.getElem?_append_left (by simp; omega)] at hi
  have hk : k < body.length := by
    by_contra hk
    obtain rfl : k = body.length := by omega
    rw [List.getElem?_concat_length] at hi
    exact hplain kind (Option.some.inj hi).symm
  rw [List.getElem?_append_left hk] at hi
  rcases hnext with rfl | ⟨count, rfl, rfl⟩
  · omega
  · have := h k count hi
    omega

-- ========================================================== the clauses

/-- The code of a handler: it tries the clauses of `handlersCode`, and throws
the exception again. -/
def dispatchCode (handlers : Code) : Code :=
  [.store exceptionLocal false] ++ handlers ++ [.load exceptionLocal, .interrupt .exception]

/-- What a clause does with the exception: it binds it, and runs its body. -/
def chosenCode (param : String) (body : Code) : Code :=
  [.load exceptionLocal, .store param false] ++ (body ++ [.interrupt .result])

namespace Program

variable {p : Program}

/-- Whether a clause handles exceptions of a module: it has no type, or the
module `inherits` from the one that its type refers to. -/
def handles (p : Program) (module : NodeId) (clause : Tree) : Bool :=
  match clause.kind with
  | .catchClause _ none _ => true
  | .catchClause _ (some type) _ => type.kind.target?.any fun target => p.inherits module target
  | _ => false

/-- How many instructions of a `ClauseCode` come before its body: those that
test the exception, if there is a type, and those that bind it. -/
def testLength (type : Option Tree) : Nat := if type.isSome then 5 else 2

/-- The code of one clause, `guarded` by a test if it has a type. -/
inductive ClauseCode (p : Program) : Tree → Code → Prop
  | untyped {id : Option NodeId} {span : Option Span} {param block : Tree} {body : Code}
      (compiles : p.blockCode block = .ok body) :
      ClauseCode p (.node id span (.catchClause param none block))
        (chosenCode (param.name?.getD "") body)
  | typed {id : Option NodeId} {span : Option Span} {param type block : Tree} {body : Code}
      {module : NodeId} (linked : type.kind.target? = some module)
      (compiles : p.blockCode block = .ok body) :
      ClauseCode p (.node id span (.catchClause param (some type) block))
        ([.load exceptionLocal, .inherits module]
          ++ Code.guarded (chosenCode (param.name?.getD "") body))
  | other {t : Tree} (plain : ∀ param type block, t.kind ≠ .catchClause param type block) :
      ClauseCode p t []

theorem ClauseCode.unique {clause : Tree} {code code' : Code} (h : p.ClauseCode clause code)
    (h' : p.ClauseCode clause code') : code = code' := by
  cases h with
  | untyped compiles =>
      cases h' with
      | untyped compiles' => cases compiles.symm.trans compiles'; rfl
      | other plain => exact absurd rfl (plain _ _ _)
  | typed linked compiles =>
      cases h' with
      | typed linked' compiles' =>
          cases compiles.symm.trans compiles'
          cases linked.symm.trans linked'
          rfl
      | other plain => exact absurd rfl (plain _ _ _)
  | other plain =>
      cases h' with
      | untyped _ => exact absurd rfl (plain _ _ _)
      | typed _ _ => exact absurd rfl (plain _ _ _)
      | other _ => rfl

theorem ClauseCode.length_eq {id : Option NodeId} {span : Option Span} {param block : Tree}
    {type : Option Tree} {own : Code}
    (h : p.ClauseCode (.node id span (.catchClause param type block)) own) :
    ∃ body, p.blockCode block = .ok body ∧ own.length = testLength type + (body.length + 1) := by
  cases h with
  | untyped compiles =>
      refine ⟨_, compiles, ?_⟩
      simp only [chosenCode, testLength, List.length_append, List.length_cons, List.length_nil]
      rfl
  | typed linked compiles =>
      refine ⟨_, compiles, ?_⟩
      simp only [chosenCode, Code.guarded, testLength, List.length_append, List.length_cons,
        List.length_nil, Option.isSome_some, if_true]
      omega
  | other plain => exact absurd rfl (plain _ _ _)

theorem handlersCode_cons {clause : Tree} {rest : List Tree} {code : Code}
    (h : p.handlersCode (clause :: rest) = .ok code) :
    ∃ own more, p.ClauseCode clause own ∧ p.handlersCode rest = .ok more ∧ code = own ++ more := by
  obtain ⟨id, span, kind⟩ := clause
  cases kind with
  | catchClause param type block =>
      cases type with
      | none =>
          simp only [handlersCode, bind_ok_iff, pure_ok_iff] at h
          obtain ⟨body, hbody, more, hmore, rfl⟩ := h
          exact ⟨_, more, .untyped hbody, hmore, by simp [chosenCode]⟩
      | some type =>
          simp only [handlersCode, bind_ok_iff, pure_ok_iff] at h
          obtain ⟨module, hmodule, body, hbody, more, hmore, rfl⟩ := h
          have hlinked : type.kind.target? = some module := by
            unfold linkedTarget at hmodule
            split at hmodule
            · next target htarget =>
              cases hmodule
              exact htarget
            · cases hmodule
          exact ⟨_, more, .typed hlinked hbody, hmore, by simp [chosenCode]⟩
  | _ =>
      simp only [handlersCode] at h
      refine ⟨[], code, .other fun param type block hkind => ?_, h, rfl⟩
      cases hkind

theorem ClauseCode.cons {clause : Tree} {rest : List Tree} {own more : Code}
    (h : p.ClauseCode clause own) (hmore : p.handlersCode rest = .ok more) :
    p.handlersCode (clause :: rest) = .ok (own ++ more) := by
  cases h with
  | untyped compiles =>
      simp only [handlersCode, bind_ok_iff, pure_ok_iff]
      exact ⟨_, compiles, more, hmore, by simp [chosenCode]⟩
  | @typed _ _ _ type _ _ module linked compiles =>
      simp only [handlersCode, bind_ok_iff, pure_ok_iff]
      have hlinked : linkedTarget type = .ok module := by rw [linkedTarget, linked]
      exact ⟨module, hlinked, _, compiles, more, hmore, by simp [chosenCode]⟩
  | other plain =>
      obtain ⟨id, span, kind⟩ := clause
      cases kind with
      | catchClause param type block => exact absurd rfl (plain _ _ _)
      | _ =>
          simp only [handlersCode]
          exact hmore

/-- The handler of a `tryCatch` is the `dispatchCode` of its clauses. -/
theorem expressionCode_tryCatch {id : Option NodeId} {span : Option Span} {body : Tree}
    {catches : List Tree} {always : Option Tree} {code handlers : Code}
    (h : p.expressionCode (.node id span (.tryCatch body catches always)) = .ok code)
    (hcode : p.handlersCode catches = .ok handlers) :
    ∃ body always, code = [.tryCatchAlways body (dispatchCode handlers) always] := by
  simp only [expressionCode, bind_ok_iff, pure_ok_iff] at h
  obtain ⟨bodyCode, -, handlers', hhandlers, alwaysCode, -, rfl⟩ := h
  cases hcode.symm.trans hhandlers
  exact ⟨_, _, rfl⟩

/-- The clause at an index, with the code of the clauses before it and that
of its body. -/
structure HandlerAt (p : Program) (catches : List Tree) (k : Nat) (param : Tree)
    (type : Option Tree) (earlier body : Code) : Prop where
  clause : ∃ id span block, catches[k]? = some (.node id span (.catchClause param type block))
    ∧ p.blockCode block = .ok body
  earlier : p.handlersCode (catches.take k) = .ok earlier

/-- The counter is in the body of the clause `HandlerAt` an index, if the code
of the clauses starts at `offset`. -/
def InBody (p : Program) (catches : List Tree) (offset k pc : Nat) : Prop :=
  ∃ param type earlier body, p.HandlerAt catches k param type earlier body
    ∧ offset + earlier.length + testLength type ≤ pc
    ∧ pc < offset + earlier.length + testLength type + (body.length + 1)

variable {catches rest : List Tree} {clause : Tree} {own : Code} {offset k pc : Nat}

theorem InBody.later (hown : p.ClauseCode clause own)
    (h : p.InBody (clause :: rest) offset (k + 1) pc) :
    p.InBody rest (offset + own.length) k pc := by
  obtain ⟨param, type, earlier, body, ⟨hclause, hearlier⟩, hlow, hhigh⟩ := h
  rw [List.take_succ_cons] at hearlier
  obtain ⟨own', more, hown', hmore, rfl⟩ := handlersCode_cons hearlier
  obtain rfl := hown'.unique hown
  rw [List.length_append] at hlow hhigh
  exact ⟨param, type, more, body, ⟨hclause, hmore⟩, by omega, by omega⟩

theorem InBody.offset_le (h : p.InBody catches offset k pc) : offset ≤ pc := by
  obtain ⟨param, type, earlier, body, -, hlow, -⟩ := h
  omega

/-- The first `testLength` instructions of a clause are in no body. -/
theorem not_inBody_of_lt {id : Option NodeId} {span : Option Span} {param block : Tree}
    {type : Option Tree} (hown : p.ClauseCode (.node id span (.catchClause param type block)) own)
    (hpc : pc < offset + testLength type) :
    ¬ p.InBody (.node id span (.catchClause param type block) :: rest) offset k pc := by
  intro h
  cases k with
  | zero =>
      obtain ⟨_, _, _, _, ⟨⟨_, _, _, hclause, -⟩, -⟩, hlow, -⟩ := h
      cases hclause
      omega
  | succ k =>
      have hlow := (h.later hown).offset_le
      obtain ⟨body, -, hlength⟩ := hown.length_eq
      omega

/-- Nor is anything behind a clause in its own body. -/
theorem not_inBody_first (hown : p.ClauseCode clause own) (hpc : offset + own.length ≤ pc) :
    ¬ p.InBody (clause :: rest) offset 0 pc := by
  rintro ⟨param, type, earlier, body, ⟨⟨id, span, block, hclause, hbody⟩, hearlier⟩, -, hhigh⟩
  cases hclause
  cases hearlier
  obtain ⟨body', hbody', hlength⟩ := hown.length_eq
  cases hbody.symm.trans hbody'
  rw [List.length_nil] at hhigh
  omega

/-- Bodies are within `handlersCode`. -/
theorem InBody.lt (h : p.InBody catches offset k pc) {code : Code}
    (hcode : p.handlersCode catches = .ok code) : pc < offset + code.length := by
  induction catches generalizing offset k code with
  | nil =>
      obtain ⟨_, _, _, _, ⟨⟨_, _, _, hclause, -⟩, -⟩, -⟩ := h
      cases hclause
  | cons clause catches ih =>
      obtain ⟨own, more, hown, hmore, rfl⟩ := handlersCode_cons hcode
      rw [List.length_append, ← Nat.add_assoc]
      cases k with
      | zero =>
          have hfirst := Nat.lt_of_not_le fun hle => not_inBody_first hown hle h
          exact Nat.lt_add_right _ hfirst
      | succ k => exact ih (h.later hown) hmore

/-- No instruction is in two bodies. -/
theorem InBody.unique {k' : Nat} (h : p.InBody catches offset k pc)
    (h' : p.InBody catches offset k' pc) {code : Code}
    (hcode : p.handlersCode catches = .ok code) : k = k' := by
  induction catches generalizing offset k k' code with
  | nil =>
      obtain ⟨_, _, _, _, ⟨⟨_, _, _, hclause, -⟩, -⟩, -⟩ := h
      cases hclause
  | cons clause catches ih =>
      obtain ⟨own, more, hown, hmore, rfl⟩ := handlersCode_cons hcode
      cases k with
      | zero =>
          cases k' with
          | zero => rfl
          | succ k' => exact absurd h (not_inBody_first hown (h'.later hown).offset_le)
      | succ k =>
          cases k' with
          | zero => exact absurd h' (not_inBody_first hown (h.later hown).offset_le)
          | succ k' => exact congrArg Nat.succ (ih (h.later hown) (h'.later hown) hmore)

end Program

-- ============================================================ the search

/-- A piece of code at a place of other code. -/
theorem getElem?_of_prefix_drop {code piece : Code} {offset : Nat} (h : piece <+: code.drop offset)
    {k : Nat} {i : Instruction} (hi : piece[k]? = some i) : code[offset + k]? = some i := by
  obtain ⟨post, hpost⟩ := h
  rw [← List.getElem?_drop, ← hpost]
  exact (List.getElem?_append_left (List.getElem?_eq_some_iff.1 hi).1).trans hi

theorem prefix_drop_append {code first second : Code} {offset : Nat}
    (h : first ++ second <+: code.drop offset) : second <+: code.drop (offset + first.length) := by
  obtain ⟨post, hpost⟩ := h
  refine ⟨post, ?_⟩
  rw [← List.drop_drop, ← hpost, List.append_assoc, List.drop_left]

namespace Engine

open ObjectMachine.Action

variable {e : Engine} {f : Frame} {rest : List Frame} {m : Machine}

theorem step_inherits {module : NodeId} {value : ObjectId} {object : Object}
    {others : List ObjectId} (hf : m.frames = f :: rest)
    (hi : f.code[f.pc]? = some (.inherits module)) (htop : f.operands = value :: others)
    (hobject : m.heap.object? value = some object) :
    e.step m = .ok () { m with frames := { f.next with
      operands := .ofBool (e.program.inherits object.module module) :: others } :: rest } := by
  rw [step_eq hf hi]
  simp only [execute, bind, EStateM.bind, Action.object, heap, pop, push, onFrame, Frame.pop?,
    Frame.next, htop, pure, EStateM.pure, hobject, Frame.push]

theorem step_jump {count : Nat} {condition : Bool} {others : List ObjectId}
    (hf : m.frames = f :: rest) (hi : f.code[f.pc]? = some (.conditionalJump count))
    (htop : f.operands = .ofBool condition :: others) :
    e.step m = .ok () { m with frames := { f.next with
      operands := others
      pc := if condition then f.pc + 1 else f.pc + 1 + count } :: rest } := by
  rw [step_eq hf hi]
  cases condition <;>
    simp [execute, bind, EStateM.bind, boolean, skip, pop, onFrame, Frame.pop?, Frame.next, htop,
      pure, EStateM.pure, ObjectId.ofBool, ObjectId.true, ObjectId.false]

theorem raised?_interrupt {kind : Interruption} {value : ObjectId} {others : List ObjectId}
    (hf : m.frames = f :: rest) (hi : f.code[f.pc]? = some (.interrupt kind))
    (htop : f.operands = value :: others) :
    e.raised? m
      = some (kind, value, { m with frames := { f.next with operands := others } :: rest }) := by
  rw [raised?_eq hf hi]
  simp only [execute, bind, EStateM.bind, pop_next htop]
  rfl

/-- Steps of the frame on top of `rest`, at none of which its counter is
`inside`. -/
inductive Seeks (e : Engine) (rest : List Frame) (inside : Nat → Prop) :
    Nat → Machine → Machine → Prop
  | refl (m : Machine) : Seeks e rest inside 0 m m
  | step {f : Frame} {m m₁ m₂ : Machine} {n : Nat} (top : m.frames = f :: rest)
      (outside : ¬ inside f.pc) (does : e.step m = .ok () m₁) (more : Seeks e rest inside n m₁ m₂) :
      Seeks e rest inside (n + 1) m m₂

namespace Seeks

variable {inside inside' : Nat → Prop} {n k : Nat} {m' m'' : Machine}

theorem after (h : e.Seeks rest inside n m m') : e.after n m = some m' := by
  induction h with
  | refl m => rfl
  | step top outside does more ih => rw [after_step does, ih]

theorem trans (h : e.Seeks rest inside n m m') (h' : e.Seeks rest inside k m' m'') :
    e.Seeks rest inside (k + n) m m'' := by
  induction h with
  | refl m => exact h'
  | step top outside does more ih => exact .step top outside does (ih h')

theorem stay (hf : m.frames = f :: rest) :
    e.Seeks rest inside 0 m { m with frames := { f with pc := f.pc + 0 } :: rest } := by
  have hsame : m = { m with frames := { f with pc := f.pc + 0 } :: rest } := by
    rw [Nat.add_zero, ← hf]
  exact hsame ▸ .refl m

theorem mono (h : e.Seeks rest inside n m m') (hle : ∀ pc, inside' pc → inside pc) :
    e.Seeks rest inside' n m m' := by
  induction h with
  | refl m => exact .refl m
  | step top outside does more ih => exact .step top (fun h => outside (hle _ h)) does ih

theorem outside (h : e.Seeks rest inside n m m') {j : Nat} (hj : j < n) {s : Machine}
    (hs : e.after j m = some s) : ∃ f, s.frames = f :: rest ∧ ¬ inside f.pc := by
  induction h generalizing j with
  | refl m => exact absurd hj (Nat.not_lt_zero j)
  | step top outside does more ih =>
      cases j with
      | zero =>
          cases hs
          exact ⟨_, top, outside⟩
      | succ j =>
          rw [after_step does] at hs
          exact ih (Nat.lt_of_succ_lt_succ hj) hs

/-- A frame that goes on from the last state of `Seeks` within `P` was never
inside before it got there. -/
theorem counter (he : e.natives.Tactful) (h : e.Seeks rest inside n m m') {code : Code}
    {context : ContextId} {P : Nat → Prop} (hP : code.Confines P)
    (hcounter : CounterIn False code context P rest m'.frames) {s : Machine}
    (hs : e.after k m = some s)
    (hdeep : e.During (k + 1) m fun s => rest.length < s.frames.length) {below : List Frame}
    (hf : s.frames = f :: below) (hlength : below.length = rest.length) :
    ¬ inside f.pc ∨ P f.pc := by
  by_cases hk : k < n
  · obtain ⟨g, hg, hout⟩ := h.outside hk hs
    cases hf.symm.trans hg
    exact .inl hout
  · obtain ⟨j, rfl⟩ := Nat.exists_eq_add_of_le (Nat.le_of_not_lt hk)
    rw [after_add _ _ h.after] at hs
    refine .inr ((hcounter.after he hP hs fun i hi s' hs' => ?_).top hf hlength)
    exact hdeep (n + i) (by omega) s' ((after_add _ _ h.after).trans hs')

end Seeks

/-- Where the counter is not, while clauses are tried that start at `offset`:
before them, or in a body. -/
def Barred (p : Program) (catches : List Tree) (offset pc : Nat) : Prop :=
  pc < offset ∨ ∃ k, p.InBody catches offset k pc

theorem Barred.later {p : Program} {clause : Tree} {more : List Tree} {own : Code} {offset pc : Nat}
    (hown : p.ClauseCode clause own) (h : Barred p (clause :: more) offset pc) :
    Barred p more (offset + own.length) pc := by
  rcases h with hlow | ⟨k, hbody⟩
  · exact .inl (hlow.trans_le (Nat.le_add_right _ _))
  · cases k with
    | zero => exact .inl (Nat.lt_of_not_le fun hle => Program.not_inBody_first hown hle hbody)
    | succ k => exact .inr ⟨k, hbody.later hown⟩

theorem not_barred_test {p : Program} {id : Option NodeId} {span : Option Span}
    {param block : Tree} {type : Option Tree} {own : Code} {more : List Tree} {offset k : Nat}
    (hown : p.ClauseCode (.node id span (.catchClause param type block)) own)
    (hk : k < Program.testLength type) :
    ¬ Barred p (.node id span (.catchClause param type block) :: more) offset (offset + k) := by
  rintro (hlow | ⟨_, hbody⟩)
  · omega
  · exact Program.not_inBody_of_lt hown (Nat.add_lt_add_left hk offset) hbody

section

variable {inside : Nat → Prop} {exception : ObjectId} (hf : m.frames = f :: rest)
  (hoperands : f.operands = [])
  (hlocal : m.heap.local? f.context exceptionLocal = some exception)
include hf hoperands hlocal

/-- `chosenCode` binds the exception in two steps. -/
theorem seek_body {param : String} {body : Code}
    (hplace : chosenCode param body <+: f.code.drop f.pc) (h₀ : ¬ inside f.pc)
    (h₁ : ¬ inside (f.pc + 1)) :
    e.Seeks rest inside 2 m { m with
      heap := m.heap.declare f.context param exception
      frames := { f with pc := f.pc + 2 } :: rest } := by
  obtain ⟨code, context, pc, operands, resume, pending⟩ := f
  obtain rfl : operands = [] := hoperands
  have hload := step_load (e := e) hf (getElem?_of_prefix_drop hplace (k := 0) rfl)
    (Heap.lookup_of_local? hlocal)
  have hstore := getElem?_of_prefix_drop hplace (k := 1) rfl
  exact .step hf h₀ hload (.step rfl h₁ (step_store rfl hstore rfl) (.refl _))

/-- The test of a clause, and what it leads to: three steps, and a jump if the
exception is no instance. -/
theorem seek_test {module : NodeId} {own : Code} {object : Object}
    (hplace : [Instruction.load exceptionLocal, .inherits module] ++ Code.guarded own
      <+: f.code.drop f.pc)
    (hobject : m.heap.object? exception = some object)
    (houtside : ∀ k < 3, ¬ inside (f.pc + k)) :
    e.Seeks rest inside 3 m { m with frames := { f with
      pc := if e.program.inherits object.module module then f.pc + 3
        else f.pc + 3 + own.length } :: rest } := by
  obtain ⟨code, context, pc, operands, resume, pending⟩ := f
  obtain rfl : operands = [] := hoperands
  have hload := step_load (e := e) hf (getElem?_of_prefix_drop hplace (k := 0) rfl)
    (Heap.lookup_of_local? hlocal)
  have hinherits := getElem?_of_prefix_drop hplace (k := 1) rfl
  have hjump := getElem?_of_prefix_drop hplace (k := 2) rfl
  exact .step hf (houtside 0 (by decide)) hload
    (.step rfl (houtside 1 (by decide)) (step_inherits rfl hinherits rfl hobject)
      (.step rfl (houtside 2 (by decide)) (step_jump rfl hjump rfl) (.refl _)))

end

/-- A frame that has chosen the clause `HandlerAt` an index, and is about to run
its body. -/
structure Chosen (e : Engine) (m : Machine) (catches : List Tree) (offset : Nat) (f : Frame)
    (rest : List Frame) (exception : ObjectId) (k : Nat) : Prop where
  reaches : ∃ param type earlier body n, e.program.HandlerAt catches k param type earlier body
    ∧ body ++ [.interrupt .result]
      <+: f.code.drop (offset + earlier.length + Program.testLength type)
    ∧ e.Seeks rest (Barred e.program catches offset) n m { m with
        heap := m.heap.declare f.context (param.name?.getD "") exception
        frames := { f with pc := offset + earlier.length + Program.testLength type } :: rest }

/-- What comes of trying clauses, with an exception of some module, in a frame
with its counter at the first of them: the first one that `handles` the module
is `Chosen`, or the frame gets behind all of them. -/
structure Searched (e : Engine) (m : Machine) (catches : List Tree) (code : Code) (f : Frame)
    (rest : List Frame) (exception : ObjectId) (module : NodeId) : Prop where
  found : ∀ k, catches.findIdx? (e.program.handles module) = some k →
    e.Chosen m catches f.pc f rest exception k
  missed : catches.findIdx? (e.program.handles module) = none →
    ∃ n, e.Seeks rest (Barred e.program catches f.pc) n m
      { m with frames := { f with pc := f.pc + code.length } :: rest }

/-- Where `handles` is false, the clause is passed over. -/
theorem Searched.later {clause : Tree} {catches : List Tree} {own more : Code} {n : Nat}
    {exception : ObjectId} {module : NodeId} (hown : e.program.ClauseCode clause own)
    (hno : e.program.handles module clause = false)
    (hseeks : e.Seeks rest (Barred e.program (clause :: catches) f.pc) n m
      { m with frames := { f with pc := f.pc + own.length } :: rest })
    (h : e.Searched { m with frames := { f with pc := f.pc + own.length } :: rest } catches more
      { f with pc := f.pc + own.length } rest exception module) :
    e.Searched m (clause :: catches) (own ++ more) f rest exception module where
  found k hk := by
    rw [List.findIdx?_cons, hno, if_neg Bool.false_ne_true] at hk
    obtain ⟨k', hk', rfl⟩ := Option.map_eq_some_iff.1 hk
    obtain ⟨param, type, earlier, body, n', ⟨hclause, hearlier⟩, hplace, hreaches⟩ :=
      (h.found k' hk').reaches
    have hoffset : f.pc + own.length + earlier.length = f.pc + (own ++ earlier).length := by
      rw [List.length_append, Nat.add_assoc]
    dsimp only at hplace hreaches
    rw [hoffset] at hplace hreaches
    exact ⟨param, type, own ++ earlier, body, n' + n, ⟨hclause, hown.cons hearlier⟩, hplace,
      hseeks.trans (hreaches.mono fun pc h => h.later hown)⟩
  missed hk := by
    rw [List.findIdx?_cons, hno, if_neg Bool.false_ne_true] at hk
    obtain ⟨n', hreaches⟩ := h.missed (Option.map_eq_none_iff.1 hk)
    rw [List.length_append, ← Nat.add_assoc]
    exact ⟨n' + n, hseeks.trans (hreaches.mono fun pc h => h.later hown)⟩

/-- Where `handles` is true, the clause is `Chosen`. -/
theorem Searched.chosen {id : Option NodeId} {span : Option Span} {param block : Tree}
    {type : Option Tree} {catches : List Tree} {code body : Code} {n : Nat} {exception : ObjectId}
    {module : NodeId} (hbody : e.program.blockCode block = .ok body)
    (hyes : e.program.handles module (.node id span (.catchClause param type block)) = true)
    (hplace : body ++ [.interrupt .result] <+: f.code.drop (f.pc + Program.testLength type))
    (hseeks : e.Seeks rest
      (Barred e.program (.node id span (.catchClause param type block) :: catches) f.pc) n m
      { m with
        heap := m.heap.declare f.context (param.name?.getD "") exception
        frames := { f with pc := f.pc + Program.testLength type } :: rest }) :
    e.Searched m (.node id span (.catchClause param type block) :: catches) code f rest exception
      module where
  found k hk := by
    rw [List.findIdx?_cons, hyes, if_pos rfl] at hk
    cases hk
    exact ⟨param, type, [], body, n, ⟨⟨id, span, block, rfl, hbody⟩, rfl⟩, hplace, hseeks⟩
  missed hk := by
    rw [List.findIdx?_cons, hyes, if_pos rfl] at hk
    cases hk

/-- By induction over the clauses: they are tried until one `handles` the module
of the exception, or to the end. -/
theorem search_handlers {catches : List Tree} {code : Code} {exception : ObjectId}
    {object : Object} (hcode : e.program.handlersCode catches = .ok code)
    (hplace : code <+: f.code.drop f.pc) (hoperands : f.operands = []) (hf : m.frames = f :: rest)
    (hlocal : m.heap.local? f.context exceptionLocal = some exception)
    (hobject : m.heap.object? exception = some object) :
    e.Searched m catches code f rest exception object.module := by
  induction catches generalizing code f m with
  | nil =>
      cases hcode
      exact ⟨fun k hk => (nomatch hk), fun _ => ⟨0, .stay hf⟩⟩
  | cons clause catches ih =>
      obtain ⟨own, more, hown, hmore, rfl⟩ := Program.handlersCode_cons hcode
      have hfirst : own <+: f.code.drop f.pc := (List.prefix_append own more).trans hplace
      have hrest : e.Searched { m with frames := { f with pc := f.pc + own.length } :: rest }
          catches more { f with pc := f.pc + own.length } rest exception object.module :=
        ih hmore (prefix_drop_append hplace) hoperands rfl hlocal hobject
      cases hown with
      | @untyped id span param block body compiles =>
          have hown : e.program.ClauseCode (.node id span (.catchClause param none block)) _ :=
            .untyped compiles
          exact .chosen compiles rfl (prefix_drop_append hfirst)
            (seek_body hf hoperands hlocal hfirst (not_barred_test (k := 0) hown (by decide))
              (not_barred_test hown (by decide)))
      | @typed id span param type block body module linked compiles =>
          have hown :
              e.program.ClauseCode (.node id span (.catchClause param (some type) block)) _ :=
            .typed linked compiles
          have hhandles : e.program.handles object.module
              (.node id span (.catchClause param (some type) block))
              = e.program.inherits object.module module := by
            show type.kind.target?.any _ = _
            rw [linked, Option.any_some]
          have houtside (k : Nat) (hk : k < 5) : ¬ Barred e.program
              (.node id span (.catchClause param (some type) block) :: catches) f.pc (f.pc + k) :=
            not_barred_test hown hk
          have htest := seek_test (e := e) hf hoperands hlocal hfirst hobject fun k hk =>
            houtside k (by omega)
          cases hinherits : e.program.inherits object.module module with
          | false =>
              rw [hinherits, if_neg Bool.false_ne_true] at htest
              have hlength : f.pc + ([Instruction.load exceptionLocal, .inherits module]
                  ++ Code.guarded (chosenCode (param.name?.getD "") body)).length
                  = f.pc + 3 + (chosenCode (param.name?.getD "") body).length := by
                simp only [Code.guarded, List.length_append, List.length_cons, List.length_nil]
                omega
              rw [← hlength] at htest
              exact .later hown (hhandles.trans hinherits) htest hrest
          | true =>
              rw [hinherits, if_pos rfl] at htest
              have htested : [.load exceptionLocal, .inherits module,
                  .conditionalJump (chosenCode (param.name?.getD "") body).length]
                  ++ chosenCode (param.name?.getD "") body <+: f.code.drop f.pc := hfirst
              have hchosen := prefix_drop_append htested
              let g : Frame := { f with pc := f.pc + 3 }
              let m' : Machine := { m with frames := g :: rest }
              have hg : m'.frames = g :: rest := rfl
              exact .chosen compiles (hhandles.trans hinherits) (prefix_drop_append hchosen)
                (htest.trans (seek_body hg hoperands hlocal hchosen (houtside 3 (by decide))
                  (houtside 4 (by decide))))
      | other plain =>
          refine .later (.other plain) ?_ (.stay hf) hrest
          unfold Program.handles
          split
          · next hkind => exact absurd hkind (plain _ _ _)
          · next hkind => exact absurd hkind (plain _ _ _)
          · rfl

end Engine

/-- The handler of a `try` has just received an exception (`caughtFrame`). It
gets to the body of the first clause that `handles` the exception, which is
bound to the parameter of the clause, and throws it again if there is no such
clause. As long as the frame is there, it executes nothing of another body. -/
theorem handlers_are_tried_in_order {e : Engine} (he : e.natives.Tactful) {catches : List Tree}
    {handlers : Code} (hcode : e.program.handlersCode catches = .ok handlers) {m : Machine}
    {context : ContextId} {exception : ObjectId} {object : Object} {rest : List Frame}
    (hframes : m.frames = caughtFrame (dispatchCode handlers) context exception :: rest)
    (hcontext : context < m.heap.contexts.size)
    (hobject : m.heap.object? exception = some object) :
    (∀ id span body always code,
      e.program.expressionCode (.node id span (.tryCatch body catches always)) = .ok code →
      ∃ body always, code = [.tryCatchAlways body (dispatchCode handlers) always])
    ∧ (∀ k, catches.findIdx? (e.program.handles object.module) = some k →
      ∃ param type earlier body n s f, e.program.HandlerAt catches k param type earlier body
        ∧ e.after n m = some s ∧ s.frames = f :: rest ∧ f.code = dispatchCode handlers
        ∧ f.context = context ∧ f.pc = 1 + earlier.length + Program.testLength type
        ∧ body ++ [.interrupt .result] <+: f.code.drop f.pc
        ∧ s.heap.local? context (param.name?.getD "") = some exception)
    ∧ (catches.findIdx? (e.program.handles object.module) = none →
      ∃ n s m', e.after n m = some s ∧ e.raised? s = some (.exception, exception, m')
        ∧ m'.frames.tail = rest)
    ∧ ∀ n s f below k, e.after n m = some s →
      e.During (n + 1) m (fun s => rest.length < s.frames.length) → s.frames = f :: below →
      below.length = rest.length → e.program.InBody catches 1 k f.pc →
      catches.findIdx? (e.program.handles object.module) = some k := by
  let f : Frame := { caughtFrame (dispatchCode handlers) context exception with
    pc := 1, operands := [] }
  let m₁ : Machine := { m with
    heap := m.heap.declare context exceptionLocal exception, frames := f :: rest }
  have hstart : e.step m = .ok () m₁ := Engine.step_store hframes rfl rfl
  have hlocal : m₁.heap.local? context exceptionLocal = some exception :=
    Heap.local?_declare_self hcontext exceptionLocal exception
  have hplace : handlers <+: (dispatchCode handlers).drop 1 := List.prefix_append _ _
  have hsearch : e.Searched m₁ catches handlers f rest exception object.module :=
    Engine.search_handlers hcode hplace rfl rfl hlocal hobject
  refine ⟨fun id span body always code h => Program.expressionCode_tryCatch h hcode,
    fun k hk => ?_, fun hk => ?_, fun n s g below k hs hdeep hg hlength hbody => ?_⟩
  · obtain ⟨param, type, earlier, body, n, hat, hinside, hseeks⟩ := (hsearch.found k hk).reaches
    refine ⟨param, type, earlier, body, n + 1, _, _, hat, (Engine.after_step hstart n).trans
      hseeks.after, rfl, rfl, rfl, rfl, hinside, ?_⟩
    exact Heap.local?_declare_self (by rw [Heap.contexts_size_declare]; exact hcontext) _ exception
  · obtain ⟨n, hseeks⟩ := hsearch.missed hk
    have hparts : handlers ++ [.load exceptionLocal, .interrupt .exception]
        <+: (dispatchCode handlers).drop 1 := List.prefix_rfl
    have hend := prefix_drop_append hparts
    let g : Frame := { f with pc := 1 + handlers.length }
    let s : Machine := { m₁ with frames := g.next.push exception :: rest }
    have hload : e.step { m₁ with frames := g :: rest } = .ok () s :=
      Engine.step_load rfl (getElem?_of_prefix_drop hend (k := 0) rfl)
        (Heap.lookup_of_local? hlocal)
    have hthrow : (g.next.push exception).code[(g.next.push exception).pc]?
        = some (.interrupt .exception) := getElem?_of_prefix_drop hend (k := 1) rfl
    refine ⟨n + 1 + 1, s, _, ?_, Engine.raised?_interrupt (m := s) rfl hthrow rfl, rfl⟩
    rw [Engine.after_step hstart, Engine.after_add _ _ hseeks.after]
    exact Engine.after_step hload 0
  · cases n with
    | zero =>
        cases hs
        cases hframes.symm.trans hg
        exact absurd hbody.offset_le (Nat.not_succ_le_zero 0)
    | succ n =>
        rw [Engine.after_step hstart] at hs
        have hdeep₁ : e.During (n + 1) m₁ fun s => rest.length < s.frames.length :=
          fun i hi s' hs' => hdeep (i + 1) (by omega) s' ((Engine.after_step hstart i).trans hs')
        cases hfind : catches.findIdx? (e.program.handles object.module) with
        | none =>
            obtain ⟨n', hseeks⟩ := hsearch.missed hfind
            let P (pc : Nat) : Prop := 1 + handlers.length ≤ pc
            have hP : (dispatchCode handlers).Confines P := fun pc pc' hpc hnext =>
              hpc.trans hnext.lt.le
            rcases hseeks.counter he hP ⟨[], _, rfl, rfl, rfl, le_refl _, fun _ => nofun⟩ hs hdeep₁
              hg hlength with hout | hpassed
            · exact absurd (.inr ⟨k, hbody⟩) hout
            · exact absurd hpassed (Nat.not_le.2 (hbody.lt hcode))
        | some k₀ =>
            obtain ⟨param, type, earlier, body, n', hat, hinside, hseeks⟩ :=
              (hsearch.found k₀ hfind).reaches
            obtain ⟨id, span, block, hclause, hblock⟩ := hat.clause
            have hP := (Program.blockCode_bounded hblock).confines hinside
            rcases hseeks.counter he hP
              ⟨[], _, rfl, rfl, rfl, ⟨le_refl _, Nat.lt_add_of_pos_right (Nat.succ_pos _)⟩,
                fun _ => nofun⟩ hs hdeep₁ hg hlength with hout | ⟨hlow, hhigh⟩
            · exact absurd (.inr ⟨k, hbody⟩) hout
            · have hown : e.program.InBody catches 1 k₀ g.pc :=
                ⟨param, type, earlier, body, hat, hlow, hhigh⟩
              rw [hown.unique hbody hcode]

namespace Sample

/-- A clause for exceptions of a module. -/
def clause (param : String) (module : NodeId) (value : Tree) : Tree :=
  .of (.catchClause (Build.param param) (some (.of (.reference "" (some module))))
    (Build.block [value]))

/-- Clauses for evaluation errors, for booleans and for everything. -/
def clauses : List Tree :=
  [clause "e" 8 Build.null, clause "b" 4 (Build.boolean true), Build.catchAny "any" [Build.null]]

/-- The code of the clauses. -/
def clausesCode : Code :=
  [.load exceptionLocal, .inherits 8, .conditionalJump 4,
      .load exceptionLocal, .store "e" false, .push ObjectId.null, .interrupt .result,
    .load exceptionLocal, .inherits 4, .conditionalJump 4,
      .load exceptionLocal, .store "b" false, .push ObjectId.true, .interrupt .result,
    .load exceptionLocal, .store "any" false, .push ObjectId.null, .interrupt .result]

/-- A handler has just received the object for true. -/
def caughtMachine : Machine where
  heap := engine.initialHeap
  frames := [caughtFrame (dispatchCode clausesCode) rootContext ObjectId.true,
    holderFrame rootContext]

end Sample

/-- The object for true is handled by the second clause. -/
theorem sample_second_handler_is_chosen :
    Sample.engine.natives.Tactful
    ∧ Sample.program.handlersCode Sample.clauses = .ok Sample.clausesCode
      ∧ (∃ object, Sample.caughtMachine.heap.object? ObjectId.true = some object
        ∧ Sample.clauses.findIdx? (Sample.program.handles object.module) = some 1)
      ∧ ∃ n s f body, Sample.engine.after n Sample.caughtMachine = some s
        ∧ s.frames = f :: [holderFrame rootContext] ∧ f.pc = 13
        ∧ body ++ [.interrupt .result] <+: f.code.drop f.pc
        ∧ s.heap.local? rootContext "b" = some ObjectId.true := by
  have hcode : Sample.program.handlersCode Sample.clauses = .ok Sample.clausesCode := rfl
  obtain ⟨object, hobject, hsecond⟩ : ∃ object,
      Sample.caughtMachine.heap.object? ObjectId.true = some object
        ∧ Sample.clauses.findIdx? (Sample.program.handles object.module) = some 1 := ⟨_, rfl, rfl⟩
  have hrun := handlers_are_tried_in_order (e := Sample.engine) Natives.core_tactful hcode rfl
    (by decide) hobject
  obtain ⟨param, type, earlier, body, n, s, f, hat, hs, hf, -, -, hpc, hbody, hbound⟩ :=
    hrun.2.1 1 hsecond
  obtain ⟨⟨_, _, _, hclause, -⟩, hearlier⟩ := hat
  cases hclause
  cases hearlier
  exact ⟨Natives.core_tactful, hcode, ⟨object, hobject, hsecond⟩, n, s, f, body, hs, hf, hpc, hbody,
    hbound⟩

end ObjectMachine
