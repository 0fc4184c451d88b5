/-
The depth of the operand stack, read off the code.

`Runs binds role final code n` says of a piece of code that it can be
executed from `n` operands of its own on: it never takes more than it has,
whichever way its jumps go; where it can come to its end, it has `final`
operands there; and if `final` is `none` it never comes to its end, so it
leaves its frame by an interruption. What follows an interruption is dead
and unconstrained, which is what lets a sentence that returns count as one
that leaves a value.

The role says how a frame that runs the code may be left. Only blocks hand
back a `result`, and only always blocks resume what they were entered with.

`binds` restricts the names that code binds, with one exception: an always
block starts by putting away the value it is entered with, and that first
instruction is not among those the judgement is about.

The judgement follows the execution: each rule says what is left to run
after one instruction. How code is composed is the subject of
Code/Emitted.lean.
-/
import Mathlib
import ObjectMachine.Code.Compile

namespace ObjectMachine

-- ================================================ effects on the stack

/-- How many operands a straight instruction takes and how many it leaves. The
others jump, start nested code, or leave the frame. -/
def Instruction.effect? : Instruction → Option (Nat × Nat)
  | .load _ => some (0, 1)
  | .store _ _ => some (1, 0)
  | .push _ => some (0, 1)
  | .pop => some (1, 0)
  | .dup => some (1, 2)
  | .swap => some (2, 2)
  | .get _ => some (1, 1)
  | .set _ => some (2, 0)
  | .instantiate _ (some (.collection count)) => some (count, 1)
  | .instantiate _ _ => some (0, 1)
  | .init arity _ _ => some (arity + 1, 1)
  | .call _ arity _ => some (arity + 1, 1)
  | .inherits _ => some (1, 1)
  | _ => none

/-- What a frame is for: a method or constructor, a nested block, or an
always block. -/
inductive Role where
  | method
  | block
  | always
deriving Repr, DecidableEq

/-- The interruptions that code of a role raises of itself. -/
def Role.Raises (role : Role) (kind : Interruption) : Prop :=
  kind = .result → role = .block

/-- The interruptions by which a frame of a role is left. An always block
passes on whatever it was entered with. -/
def Role.LeftBy (role : Role) (kind : Interruption) : Prop :=
  kind = .result → role ≠ .method

theorem Role.Raises.leftBy {role : Role} {kind : Interruption}
    (h : role.Raises kind) : role.LeftBy kind := by
  intro hk hm
  rw [h hk] at hm
  cases hm

/-- Any frame can be left by an exception. -/
theorem Role.leftBy_exception (role : Role) : role.LeftBy .exception := by
  intro h
  cases h

-- ======================================================= the judgement

/-- How an always block ends: with its value dropped, it resumes what it has put
away in `previousLocal`. -/
def resumption : Code := [.pop, .load previousLocal, .resumeInterruption]

/-- The whole code of an always block: it puts away what it is entered with,
runs, and ends by `resumption`. -/
def alwaysCode (code : Code) : Code := .store previousLocal false :: (code ++ resumption)

/-- Code that can be executed from `n` operands on, ending with `final` if
it can end. -/
inductive Runs (binds : String → Prop) : Role → Option Nat → Code → Nat → Prop
  /-- The end, where it is allowed. -/
  | done {role : Role} {n : Nat} : Runs binds role (some n) [] n
  /-- A straight instruction, on to the next one. -/
  | next {role : Role} {final : Option Nat} {i : Instruction} {rest : Code}
      {n takes leaves : Nat} (effect : i.effect? = some (takes, leaves))
      (names : ∀ name lookup, i = .store name lookup → binds name)
      (enough : takes ≤ n) (tail : Runs binds role final rest (n - takes + leaves)) :
      Runs binds role final (i :: rest) n
  /-- A jump, which may be taken or not. -/
  | jump {role : Role} {final : Option Nat} {count : Nat} {rest : Code} {n : Nat}
      (inside : count ≤ rest.length) (stay : Runs binds role final rest n)
      (taken : Runs binds role final (rest.drop count) n) :
      Runs binds role final (.conditionalJump count :: rest) (n + 1)
  /-- Two branches, each of which ends with a result. -/
  | ifThenElse {role : Role} {final : Option Nat} {thenBranch elseBranch rest : Code} {n : Nat}
      (yes : Runs binds .block none thenBranch 0) (no : Runs binds .block none elseBranch 0)
      (tail : Runs binds role final rest (n + 1)) :
      Runs binds role final (.ifThenElse thenBranch elseBranch :: rest) (n + 1)
  /-- A protected block. The always code puts away what it is entered with
  and ends by resuming it; its sentences are left like those of a method. -/
  | tryCatchAlways {role : Role} {final : Option Nat} {body handler code rest : Code} {n : Nat}
      (inner : Runs binds .block none body 0) (caught : Runs binds .block none handler 1)
      (last : Runs binds .method (some 1) code 0)
      (tail : Runs binds role final rest (n + 1)) :
      Runs binds role final (.tryCatchAlways body handler (alwaysCode code) :: rest) n
  /-- The frame is left: nothing after this is executed. -/
  | interrupt {role : Role} {final : Option Nat} {kind : Interruption} {rest : Code} {n : Nat}
      (raises : role.Raises kind) : Runs binds role final (.interrupt kind :: rest) (n + 1)
  | resume {final : Option Nat} {rest : Code} {n : Nat} :
      Runs binds .always final (.resumeInterruption :: rest) (n + 1)

variable {binds : String → Prop}

-- ========================================================= composition

/-- By induction over `Runs`: code that is followed by more, which has to run
from where the first piece ends, if it ends. -/
theorem Runs.follow {role : Role} {final final' : Option Nat} {n : Nat} {code more : Code}
    (hc : Runs binds role final code n)
    (hm : ∀ k, final = some k → Runs binds role final' more k) :
    Runs binds role final' (code ++ more) n := by
  induction hc with
  | done => exact hm _ rfl
  | next effect names enough _ ih => exact .next effect names enough (ih hm)
  | jump inside _ _ ihs iht =>
      rw [List.cons_append]
      refine .jump ?_ (ihs hm) ?_
      · rw [List.length_append]
        omega
      · rw [List.drop_append_of_le_length inside]
        exact iht hm
  | ifThenElse yes no _ _ _ ih => exact .ifThenElse yes no (ih hm)
  | tryCatchAlways inner caught last _ _ _ _ ih =>
      exact .tryCatchAlways inner caught last (ih hm)
  | interrupt raises => exact .interrupt raises
  | resume => exact .resume

/-- Code after code that ends where the second one starts. -/
theorem Runs.append {role : Role} {final : Option Nat} {k n : Nat} {code more : Code}
    (hc : Runs binds role (some k) code n) (hm : Runs binds role final more k) :
    Runs binds role final (code ++ more) n := by
  refine hc.follow fun k' hk => ?_
  cases hk
  exact hm

/-- What a method may do, an always block may do. -/
theorem Runs.inAlways {final : Option Nat} {n : Nat} {code : Code}
    (hc : Runs binds .method final code n) : Runs binds .always final code n := by
  generalize hrole : Role.method = role at hc
  induction hc with
  | done => exact .done
  | next effect names enough _ ih => exact .next effect names enough (ih hrole)
  | jump inside _ _ ihs iht => exact .jump inside (ihs hrole) (iht hrole)
  | ifThenElse yes no _ _ _ ih => exact .ifThenElse yes no (ih hrole)
  | tryCatchAlways inner caught last _ _ _ _ ih =>
      exact .tryCatchAlways inner caught last (ih hrole)
  | interrupt raises =>
      subst hrole
      exact .interrupt fun hk => nomatch raises hk
  | resume => cases hrole

/-- An always block that has put away what it was entered with, up to its
`resumption`. -/
theorem Runs.resumed {code : Code} (hc : Runs binds .method (some 1) code 0) :
    Runs binds .always none (code ++ resumption) 0 := by
  have hload : Runs binds .always none [.load previousLocal, .resumeInterruption] 0 :=
    .next (show _ = some (0, 1) from rfl) (fun _ _ h => nomatch h) le_rfl .resume
  have hpop : Runs binds .always none resumption 1 :=
    .next (show _ = some (1, 0) from rfl) (fun _ _ h => nomatch h) le_rfl hload
  exact hc.inAlways.append hpop

/-- `Code.guarded` skips code unless the boolean on top is true. Both ways lead
to the same depth. -/
theorem Runs.guarded {role : Role} {final : Option Nat} {code rest : Code} {k n : Nat}
    (hc : Runs binds role (some k) code n) (hr : Runs binds role final rest n) (hk : k = n) :
    Runs binds role final (Code.guarded code ++ rest) (n + 1) := by
  subst hk
  rw [Code.guarded, List.cons_append]
  refine .jump ?_ (hc.append hr) ?_
  · rw [List.length_append]
    omega
  · rw [List.drop_left]
    exact hr

end ObjectMachine
