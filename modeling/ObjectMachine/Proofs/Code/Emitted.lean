/-
The code that compilation emits, as a grammar.

`Emitted pal role a b code` builds code from pieces, each of which turns `a`
operands into `b` on top of anything. A piece may raise only what its role
raises; the palette `pal` gives the names it may bind and the identities it
may push. The grammar knows nothing of trees: Code/Operands.lean shows that
every compiled tree is in it, and here stands what holds of everything in
it, namely that it runs at the depth it claims (`Emitted.runs`) and pushes
no other identity than the palette's (`Emitted.constants`).
-/
import Mathlib
import ObjectMachine.Proofs.Code.Depth

namespace ObjectMachine

/-- The names that code may bind and the identities it may push. -/
structure Palette where
  binds : String → Prop
  pushes : ObjectId → Prop

/-- A palette that compilation can work with: `exceptionLocal` may be bound, and
the objects that every heap starts with may be pushed. -/
structure Palette.Lawful (pal : Palette) : Prop where
  exception : pal.binds exceptionLocal
  reserved : ∀ id ≤ ObjectId.void, pal.pushes id

/-- Code that turns `a` operands into `b`, put together as compilation does
it. -/
inductive Emitted (pal : Palette) : Role → Nat → Nat → Code → Prop
  | nil {role : Role} (k : Nat) : Emitted pal role k k []
  | append {role : Role} {a b c : Nat} {code more : Code} (first : Emitted pal role a b code)
      (second : Emitted pal role b c more) : Emitted pal role a c (code ++ more)
  /-- What code does is the same on top of more operands. -/
  | lift {role : Role} {a b : Nat} {code : Code} (below : Emitted pal role a b code) (k : Nat) :
      Emitted pal role (a + k) (b + k) code
  | plain {role : Role} {i : Instruction} {takes leaves : Nat}
      (effect : i.effect? = some (takes, leaves)) (names : ∀ name lookup, i ≠ .store name lookup)
      (constants : ∀ id, i ≠ .push id) : Emitted pal role takes leaves [i]
  | store {role : Role} {name : String} (bound : pal.binds name) (lookup : Bool) :
      Emitted pal role 1 0 [.store name lookup]
  | push {role : Role} {id : ObjectId} (known : pal.pushes id) : Emitted pal role 0 1 [.push id]
  /-- After an interruption the depth is whatever it should be. -/
  | leave {role : Role} {kind : Interruption} (raises : role.Raises kind) (k : Nat) :
      Emitted pal role 1 k [.interrupt kind]
  | guarded {role : Role} {n : Nat} {code : Code} (inner : Emitted pal role n n code) :
      Emitted pal role (n + 1) n (Code.guarded code)
  | ifThenElse {role : Role} {thenBranch elseBranch : Code}
      (yes : Emitted pal .block 0 1 thenBranch) (no : Emitted pal .block 0 1 elseBranch) :
      Emitted pal role 1 1
        [.ifThenElse (thenBranch ++ [.interrupt .result]) (elseBranch ++ [.interrupt .result])]
  | tryCatchAlways {role : Role} {body handlers always : Code}
      (inner : Emitted pal .block 0 1 body) (caught : Emitted pal .block 0 0 handlers)
      (last : Emitted pal .method 0 1 always) (bound : pal.binds exceptionLocal) :
      Emitted pal role 0 1
        [.tryCatchAlways (body ++ [.interrupt .result])
          ([Instruction.store exceptionLocal false] ++ handlers
            ++ [Instruction.load exceptionLocal, .interrupt .exception])
          ([Instruction.store previousLocal false] ++ always
            ++ [Instruction.pop, .load previousLocal, .resumeInterruption])]

variable {pal : Palette}

-- =============================================================== depth

/-- A straight instruction (`effect?`) with what follows it. -/
theorem Runs.straight {binds : String → Prop} {role : Role} {final : Option Nat}
    {i : Instruction} {rest : Code} {n takes leaves : Nat}
    (effect : i.effect? = some (takes, leaves))
    (names : ∀ name lookup, i = .store name lookup → binds name)
    (tail : Runs binds role final rest (n + leaves)) :
    Runs binds role final (i :: rest) (n + takes) := by
  refine .next effect names (Nat.le_add_left takes n) ?_
  rw [Nat.add_sub_cancel]
  exact tail

/-- `Emitted` code runs at the depth it claims, on top of anything. -/
theorem Emitted.runs {role : Role} {a b : Nat} {code : Code} (h : Emitted pal role a b code)
    (n : Nat) : Runs pal.binds role (some (n + b)) code (n + a) := by
  induction h generalizing n with
  | nil k => exact .done
  | append _ _ ih1 ih2 => exact (ih1 n).append (ih2 n)
  | lift _ k ih =>
      have hk := ih (n + k)
      rwa [Nat.add_right_comm n k, Nat.add_right_comm n k, Nat.add_assoc n, Nat.add_assoc n]
        at hk
  | plain effect names _ =>
      exact .straight effect (fun name lookup hi => absurd hi (names name lookup)) .done
  | store bound lookup =>
      refine .straight rfl (fun name lookup' hi => ?_) .done
      cases hi
      exact bound
  | push _ => exact .straight rfl (fun name lookup hi => nomatch hi) .done
  | leave raises k => exact .interrupt raises
  | @guarded role k code _ ih =>
      have hg := Runs.guarded (ih n) (.done : Runs pal.binds role _ [] (n + k)) rfl
      rwa [List.append_nil] at hg
  | ifThenElse _ _ ih1 ih2 =>
      exact .ifThenElse ((ih1 0).append (.interrupt fun _ => rfl))
        ((ih2 0).append (.interrupt fun _ => rfl)) .done
  | tryCatchAlways _ _ _ bound ih1 ih2 ih3 =>
      have hstore : Runs pal.binds .block (some 0) [.store exceptionLocal false] 1 := by
        refine .next (show _ = some (1, 0) from rfl) (fun name lookup hi => ?_) le_rfl .done
        cases hi
        exact bound
      have hrethrow : Runs pal.binds .block none
          [.load exceptionLocal, .interrupt .exception] 0 := by
        refine .next (show _ = some (0, 1) from rfl) (fun name lookup hi => ?_) le_rfl ?_
        · cases hi
        · exact .interrupt fun hk => nomatch hk
      exact .tryCatchAlways ((ih1 0).append (.interrupt fun _ => rfl))
        ((hstore.append (ih2 0)).append hrethrow) (ih3 0) .done

-- =========================================================== constants

mutual

/-- The identities that an instruction pushes, nested code included. -/
def Instruction.constants : Instruction → List ObjectId
  | .push id => [id]
  | .ifThenElse thenBranch elseBranch => constantsOf thenBranch ++ constantsOf elseBranch
  | .tryCatchAlways body handler always =>
    constantsOf body ++ constantsOf handler ++ constantsOf always
  | _ => []

/-- The identities that code pushes, nested code included. -/
def constantsOf : List Instruction → List ObjectId
  | [] => []
  | i :: rest => i.constants ++ constantsOf rest

end

theorem constantsOf_append (code more : Code) :
    constantsOf (code ++ more) = constantsOf code ++ constantsOf more := by
  induction code with
  | nil => rfl
  | cons i rest ih => rw [List.cons_append, constantsOf, constantsOf, ih, List.append_assoc]

/-- A straight instruction that is no `push` has no constants. -/
theorem Instruction.constants_of_effect {i : Instruction} {e : Nat × Nat}
    (effect : i.effect? = some e) (hp : ∀ id, i ≠ .push id) : i.constants = [] := by
  cases i with
  | push id => exact absurd rfl (hp id)
  | _ => first | rfl | cases effect

/-- `Emitted` code pushes only identities of the palette. -/
theorem Emitted.constants {role : Role} {a b : Nat} {code : Code}
    (h : Emitted pal role a b code) : ∀ id ∈ constantsOf code, pal.pushes id := by
  induction h with
  | nil k => simp [constantsOf]
  | append _ _ ih1 ih2 =>
      intro id hid
      rw [constantsOf_append] at hid
      exact (List.mem_append.1 hid).elim (ih1 id) (ih2 id)
  | lift _ k ih => exact ih
  | plain effect _ hp => simp [constantsOf, Instruction.constants_of_effect effect hp]
  | store bound lookup => simp [constantsOf, Instruction.constants]
  | push known => simpa [constantsOf, Instruction.constants] using known
  | leave raises k => simp [constantsOf, Instruction.constants]
  | guarded _ ih => simpa [Code.guarded, constantsOf, Instruction.constants] using ih
  | ifThenElse _ _ ih1 ih2 =>
      intro id hid
      simp only [constantsOf, Instruction.constants, constantsOf_append, List.append_nil,
        List.mem_append] at hid
      exact hid.elim (ih1 id) (ih2 id)
  | tryCatchAlways _ _ _ _ ih1 ih2 ih3 =>
      intro id hid
      simp only [constantsOf, Instruction.constants, constantsOf_append, List.append_nil,
        List.nil_append, List.mem_append] at hid
      exact (hid.elim (·.elim (ih1 id) (ih2 id)) (ih3 id))

-- ======================================================= in every role

/-- Code that is `Emitted` in every role, so that any frame may run it. -/
def Emits (pal : Palette) (a b : Nat) (code : Code) : Prop := ∀ role, Emitted pal role a b code

namespace Emits

theorem nil (k : Nat) : Emits pal k k [] := fun _ => .nil k

theorem append {a b c : Nat} {code more : Code} (first : Emits pal a b code)
    (second : Emits pal b c more) : Emits pal a c (code ++ more) :=
  fun role => .append (first role) (second role)

theorem lift {a b : Nat} {code : Code} (below : Emits pal a b code) (k : Nat) :
    Emits pal (a + k) (b + k) code :=
  fun role => .lift (below role) k

theorem plain {i : Instruction} {takes leaves : Nat} (effect : i.effect? = some (takes, leaves))
    (names : ∀ name lookup, i ≠ .store name lookup) (constants : ∀ id, i ≠ .push id) :
    Emits pal takes leaves [i] :=
  fun _ => .plain effect names constants

theorem store {name : String} (bound : pal.binds name) (lookup : Bool) :
    Emits pal 1 0 [.store name lookup] :=
  fun _ => .store bound lookup

theorem push {id : ObjectId} (known : pal.pushes id) : Emits pal 0 1 [.push id] :=
  fun _ => .push known

/-- A return or a throw is allowed in every role. -/
theorem leave {kind : Interruption} (hk : kind ≠ .result) (k : Nat) :
    Emits pal 1 k [.interrupt kind] :=
  fun _ => .leave (fun h => absurd h hk) k

end Emits

-- ====================================================== whole methods

/-- Code of a method or constructor: whatever else it does, it ends by
returning a value. -/
def Returns (pal : Palette) (code : Code) : Prop :=
  ∃ (n : Nat) (inner : Code), Emits pal 0 (n + 1) inner ∧ code = inner ++ [.interrupt .return]

/-- By `Returns`, a method never comes to the end of its code. -/
theorem Returns.runs {code : Code} (h : Returns pal code) :
    Runs pal.binds .method none code 0 := by
  obtain ⟨n, inner, hinner, rfl⟩ := h
  have hruns := (hinner .method).runs 0
  rw [Nat.zero_add, Nat.zero_add] at hruns
  exact hruns.append (.interrupt fun hk => nomatch hk)

theorem Returns.constants {code : Code} (h : Returns pal code) :
    ∀ id ∈ constantsOf code, pal.pushes id := by
  obtain ⟨n, inner, hinner, rfl⟩ := h
  intro id hid
  rw [constantsOf_append, List.mem_append] at hid
  rcases hid with hid | hid
  · exact (hinner .method).constants id hid
  · simp [constantsOf, Instruction.constants] at hid

end ObjectMachine
