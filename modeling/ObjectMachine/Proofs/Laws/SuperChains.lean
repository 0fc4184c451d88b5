/-
Chains of overridden methods.

A method that passes a message on looks for the next one after the module
it was declared in. `SuperChain` follows such a message from the first
method found to where there is none left. Each module stands once in a
hierarchy, and the parent of a method is the module that declares it, so
looking after that module goes on exactly where the last search stopped
(`lookupMethodAfter?_eq`). The chain therefore goes through the rest of the
hierarchy as one search would that does not stop (`superChain_of_split`).
-/
import Mathlib
import ObjectMachine.Proofs.Laws.Inheritance
import ObjectMachine.Proofs.Program.Linked
import ObjectMachine.Proofs.Session.Zoned

namespace ObjectMachine

namespace Program

variable {p : Program} {module : NodeId} {name : String} {arity : Nat}

-- ============================================================ the chain

/-- The methods a message meets: the one it has come to, if any, then those
found after the module that declares it, and so on until there is none. -/
inductive SuperChain (p : Program) (module : NodeId) (name : String) (arity : Nat) :
    Option NodeId → List NodeId → Prop
  | done : SuperChain p module name arity none []
  | next {method owner : NodeId} {rest : List NodeId} (declared : p.parent? method = some owner)
      (onward : SuperChain p module name arity (p.lookupMethodAfter? module name arity owner)
        rest) : SuperChain p module name arity (some method) (method :: rest)

/-- The `SuperChain` is unique: a message meets the same methods whenever it is
sent. -/
theorem SuperChain.unique {found : Option NodeId} {methods methods' : List NodeId}
    (h : p.SuperChain module name arity found methods)
    (h' : p.SuperChain module name arity found methods') : methods' = methods := by
  induction h generalizing methods' with
  | done =>
      cases h'
      rfl
  | next declared _ ih =>
      cases h' with
      | next declared' onward' =>
          cases declared.symm.trans declared'
          rw [ih onward']

/-- A module that declares a method for a message. -/
def declares (p : Program) (name : String) (arity : Nat) (module : NodeId) : Bool :=
  (p.membersOf module).any (answers name arity)

/-- The first of the methods that a module declares for a message. -/
def DeclaresFirst (p : Program) (name : String) (arity : Nat) (module method : NodeId) : Prop :=
  ∃ before member after, p.membersOf module = before ++ member :: after
    ∧ answers name arity member ∧ (∀ other ∈ before, ¬ answers name arity other)
    ∧ member.identity = method

-- =================================================== one module at a time

theorem declares_iff :
    p.declares name arity module ↔ p.declaredMethod? module name arity ≠ none := by
  rw [Ne, declaredMethod?_eq_none_iff, declares, List.any_eq_true]
  simp

theorem declaresFirst_of_declaredMethod? {method : NodeId}
    (h : p.declaredMethod? module name arity = some method) :
    p.DeclaresFirst name arity module method := by
  obtain ⟨member, hfound, hidentity⟩ := Option.map_eq_some_iff.1 h
  obtain ⟨hanswers, before, after, hsplit, hbefore⟩ := List.find?_eq_some_iff_append.1 hfound
  refine ⟨before, member, after, hsplit, hanswers, fun other hother => ?_, hidentity⟩
  simpa using hbefore other hother

/-- The modules that declare a method (`declares`), each with that of
`declaredMethod?`. -/
theorem forall₂_declaresFirst (modules : List NodeId) :
    List.Forall₂ (p.DeclaresFirst name arity) (modules.filter (p.declares name arity))
      (modules.filterMap fun ancestor => p.declaredMethod? ancestor name arity) := by
  induction modules with
  | nil => exact .nil
  | cons first rest ih =>
      cases hfirst : p.declaredMethod? first name arity with
      | none =>
          have hno : ¬ p.declares name arity first := fun h => declares_iff.1 h hfirst
          rw [List.filter_cons_of_neg hno, List.filterMap_cons, hfirst]
          exact ih
      | some method =>
          have hyes : p.declares name arity first := declares_iff.2 (by simp [hfirst])
          rw [List.filter_cons_of_pos hyes, List.filterMap_cons, hfirst]
          exact .cons (declaresFirst_of_declaredMethod? hfirst) ih

-- ========================================================= the whole chain

theorem hierarchy_nodup (p : Program) (module : NodeId) : (p.hierarchy module).Nodup :=
  (p.hierarchy_expands module).nodup List.nodup_nil

/-- `lookupMethodAfter?` is the search through what comes after the module in
the `hierarchy`. -/
theorem lookupMethodAfter?_eq {before after : List NodeId} {owner : NodeId}
    (hsplit : p.hierarchy module = before ++ owner :: after) :
    p.lookupMethodAfter? module name arity owner
      = after.findSome? fun ancestor => p.declaredMethod? ancestor name arity := by
  have hnodup := p.hierarchy_nodup module
  rw [hsplit] at hnodup
  have hbefore : ∀ id ∈ before, (id != owner) = true := fun id hid =>
    bne_iff_ne.2 ((List.nodup_append.1 hnodup).2.2 id hid owner List.mem_cons_self)
  rw [lookupMethodAfter?, hsplit, List.dropWhile_append_of_pos hbefore,
    List.dropWhile_cons_of_neg (by simp), List.tail_cons]

/-- By induction over the modules that are left: a message that has passed the
first modules of a `hierarchy` meets what the others declare. -/
theorem superChain_of_split (hp : p.root.Numbered) {before after : List NodeId}
    (hsplit : p.hierarchy module = before ++ after) :
    p.SuperChain module name arity
      (after.findSome? fun ancestor => p.declaredMethod? ancestor name arity)
      (after.filterMap fun ancestor => p.declaredMethod? ancestor name arity) := by
  induction after generalizing before with
  | nil => exact .done
  | cons first rest ih =>
      have hnext : p.hierarchy module = (before ++ [first]) ++ rest := by
        rw [hsplit, List.append_assoc]
        rfl
      have hrest := ih hnext
      cases hfirst : p.declaredMethod? first name arity with
      | none =>
          rw [List.findSome?_cons, List.filterMap_cons, hfirst]
          exact hrest
      | some method =>
          rw [List.findSome?_cons, List.filterMap_cons, hfirst]
          refine .next (owner_of_declaredMethod? hp hfirst).1 ?_
          rw [lookupMethodAfter?_eq hsplit]
          exact hrest

/-- Different modules declare different methods, as a method has one
`parent?`. -/
theorem nodup_declaredMethods (hp : p.root.Numbered) {modules : List NodeId}
    (h : modules.Nodup) :
    (modules.filterMap fun ancestor => p.declaredMethod? ancestor name arity).Nodup := by
  refine h.filterMap fun a b method ha hb => ?_
  have howner := (owner_of_declaredMethod? hp ha).1
  exact Option.some.inj (howner.symm.trans (owner_of_declaredMethod? hp hb).1)

/-- In a linked program, a message that is passed on again and again
(`SuperChain`) meets the first method of every module in the `hierarchy` that
declares one, in the order of the hierarchy and each once, and then there is
none. -/
theorem super_chain_enumerates {base : Option Program} {forest : List Tree}
    (hlink : link base forest = .ok p) (module : NodeId) (name : String) (arity : Nat) :
    ∃ methods, p.SuperChain module name arity (p.lookupMethod? module name arity) methods
      ∧ (∀ methods', p.SuperChain module name arity (p.lookupMethod? module name arity) methods' →
          methods' = methods)
      ∧ methods.Nodup
      ∧ List.Forall₂ (p.DeclaresFirst name arity)
          ((p.hierarchy module).filter (p.declares name arity)) methods := by
  obtain ⟨root, targets, hlinks⟩ := links_of_link hlink
  have hp := hlinks.numbered_outcome
  have hchain : p.SuperChain module name arity (p.lookupMethod? module name arity) _ :=
    superChain_of_split hp (List.nil_append (p.hierarchy module)).symm
  exact ⟨_, hchain, fun _ h => hchain.unique h,
    nodup_declaredMethods hp (p.hierarchy_nodup module), forall₂_declaresFirst _⟩

end Program

namespace Sample

open Build

/-- Two classes that inherit from each other. Both declare a method for one
argument, the second one for any number of them; what comes before the
first one's is abstract, and so is all the mixin has. -/
def henhouse : List Tree :=
  [package "zoo"
    [((classNamed "Hen" [abstractMethod "call" ["a"], method "call" ["a"] [],
        method "call" ["a"] []]).inherits "Egg").mixedWith ["Loud"],
     (classNamed "Egg"
       [.of (.method "call" [.of (.parameter "all" true)] (some (block [])) false)]).inherits "Hen",
     mixin "Loud" [abstractMethod "call" ["a"]]]]

end Sample

/-- A message to the first class meets the second of its three methods, then
the one of the other class, and then there is none: the circle ends where it
began. -/
theorem henhouse_super_chain :
    ∃ p, Program.link none Sample.henhouse = .ok p ∧ p.hierarchy 2 = [2, 18, 13]
      ∧ p.SuperChain 2 "call" 1 (some 7) [7, 15]
      ∧ List.Forall₂ (p.DeclaresFirst "call" 1) [2, 13] [7, 15] := by
  obtain ⟨p, hlink, hhierarchy, hfound, hdeclares, hfirst, hsecond, hafter, hnone⟩ : ∃ p,
      Program.link none Sample.henhouse = .ok p ∧ p.hierarchy 2 = [2, 18, 13]
        ∧ p.lookupMethod? 2 "call" 1 = some 7
        ∧ (p.hierarchy 2).filter (p.declares "call" 1) = [2, 13]
        ∧ p.parent? 7 = some 2 ∧ p.parent? 15 = some 13
        ∧ p.lookupMethodAfter? 2 "call" 1 2 = some 15
        ∧ p.lookupMethodAfter? 2 "call" 1 13 = none :=
    ⟨_, rfl, rfl, rfl, rfl, rfl, rfl, rfl, rfl⟩
  have hchain : p.SuperChain 2 "call" 1 (some 7) [7, 15] := by
    refine .next hfirst ?_
    rw [hafter]
    refine .next hsecond ?_
    rw [hnone]
    exact .done
  obtain ⟨methods, -, hunique, -, hall⟩ := Program.super_chain_enumerates hlink 2 "call" 1
  rw [hfound] at hunique
  rw [hdeclares, ← hunique _ hchain] at hall
  exact ⟨p, hlink, hhierarchy, hchain, hall⟩

end ObjectMachine
