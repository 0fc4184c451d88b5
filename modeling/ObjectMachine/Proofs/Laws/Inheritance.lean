/-
Inheritance and method lookup.

The hierarchy of a module is what can be reached from it by declared
mixins and superclasses, also where they run in a circle. Where they do
not, a module that inherits from another one answers messages with the
same methods, unless something in its hierarchy comes before and declares
one.
-/
import Mathlib
import ObjectMachine.Program.Link
import ObjectMachine.Proofs.Program.Expansion
import ObjectMachine.Tree.Build

namespace ObjectMachine

open Relation

namespace Program

variable {p : Program}

-- ======================================================== the hierarchy

theorem hierarchy_head? (p : Program) (module : NodeId) :
    (p.hierarchy module).head? = some module := by
  cases p.hierarchy_expands module with
  | again hold => cases hold
  | fresh _ hbelow hrest =>
      obtain ⟨added, hadded⟩ := hbelow.listed_prefix.trans hrest.listed_prefix
      rw [← hadded]
      rfl

theorem inherits_iff {module ancestor : NodeId} (hmodule : p.isModule module) :
    p.inherits module ancestor = true ↔ ReflTransGen p.DeclaresSupertype module ancestor := by
  rw [inherits, decide_eq_true_iff, mem_hierarchy_iff, reaches_iff hmodule]

/-- The `hierarchy` of a module is listed to its end (`Expands`); it starts with
the module, lists nothing twice, and holds exactly the modules reached by
`DeclaresSupertype`. So `inherits` is the reflexive and transitive closure of
declaring. -/
theorem hierarchy_is_reachability {module : NodeId} (hmodule : p.isModule module) :
    p.Expands [] [module] (p.hierarchy module)
      ∧ (p.hierarchy module).head? = some module
      ∧ (p.hierarchy module).Nodup
      ∧ (∀ id, id ∈ p.hierarchy module ↔
          p.isModule id ∧ ReflTransGen p.DeclaresSupertype module id)
      ∧ (∀ ancestor, p.inherits module ancestor = true ↔
          ReflTransGen p.DeclaresSupertype module ancestor)
      ∧ ∀ b c, p.inherits module b → p.inherits b c → p.inherits module c := by
  have hrun := p.hierarchy_expands module
  have hreached : ∀ id, ReflTransGen p.DeclaresSupertype module id → p.isModule id := by
    intro id hpath
    rcases ReflTransGen.cases_tail hpath with rfl | ⟨_, _, hlast⟩
    · exact hmodule
    · exact hlast.1
  refine ⟨hrun, p.hierarchy_head? module, hrun.nodup List.nodup_nil, fun id => ?_,
    fun _ => inherits_iff hmodule, fun b c hb hc => ?_⟩
  · rw [mem_hierarchy_iff, reaches_iff hmodule]
    exact ⟨fun h => ⟨hreached id h, h⟩, And.right⟩
  · rw [inherits_iff hmodule] at hb ⊢
    exact hb.trans ((inherits_iff (hreached b hb)).1 hc)

end Program

namespace Sample

open Build

/-- Two classes that inherit from each other. -/
def circle : List Tree :=
  [package "zoo" [(classNamed "Hen" []).inherits "Egg", (classNamed "Egg" []).inherits "Hen"]]

end Sample

/-- Each of the two classes inherits from the other one, and so from
itself. -/
theorem circle_hierarchy_is_reachability :
    ∃ p, Program.link none Sample.circle = .ok p ∧ p.isModule 2
      ∧ p.hierarchy 2 = [2, 4] ∧ p.hierarchy 4 = [4, 2]
      ∧ ReflTransGen p.DeclaresSupertype 2 4 ∧ p.inherits 2 2 := by
  obtain ⟨p, hlink, hmodule, hfirst, hsecond⟩ : ∃ p, Program.link none Sample.circle = .ok p
      ∧ p.isModule 2 ∧ p.hierarchy 2 = [2, 4] ∧ p.hierarchy 4 = [4, 2] :=
    ⟨_, rfl, rfl, rfl, rfl⟩
  obtain ⟨-, -, -, hreached, -, htrans⟩ := Program.hierarchy_is_reachability hmodule
  refine ⟨p, hlink, hmodule, hfirst, hsecond, ((hreached 4).1 (by simp [hfirst])).2,
    htrans 4 2 (by simp [Program.inherits, hfirst]) (by simp [Program.inherits, hsecond])⟩

-- ============================================================= lookup

/-- What a filter leaves out does not change a search that finds nothing
in it. -/
theorem findSome?_filter_of_none {α β : Type} {keep : α → Bool} {f : α → Option β} {l : List α}
    (h : ∀ x ∈ l, keep x = false → f x = none) : (l.filter keep).findSome? f = l.findSome? f := by
  induction l with
  | nil => rfl
  | cons x rest ih =>
      have hrest := ih fun y hy => h y (List.mem_cons_of_mem _ hy)
      cases hkeep : keep x with
      | true => rw [List.filter_cons_of_pos hkeep, List.findSome?_cons, List.findSome?_cons, hrest]
      | false =>
          rw [List.filter_cons_of_neg (by simp [hkeep]), hrest, List.findSome?_cons,
            h x List.mem_cons_self hkeep]

namespace Program

variable {p : Program}

theorem declaredMethod?_eq_none_iff {module : NodeId} {name : String} {arity : Nat} :
    p.declaredMethod? module name arity = none ↔
      ∀ member ∈ p.membersOf module, ¬ answers name arity member := by
  rw [declaredMethod?, Option.map_eq_none_iff, List.find?_eq_none]

/-- Where supertypes do not run in a circle (`Acyclic`), a module answers a
message with the method that a module it `inherits` from answers it with, unless
one that comes before in its `hierarchy` declares a method for the message. -/
theorem lookup_is_inherited (hacyclic : p.Acyclic) {module descendant method : NodeId}
    {name : String} {arity : Nat} (hinherits : p.inherits descendant module)
    (hfound : p.lookupMethod? module name arity = some method)
    (hbefore : ∀ ancestor ∈ (p.hierarchy descendant).takeWhile (· != module),
      ∀ member ∈ p.membersOf ancestor, ¬ answers name arity member) :
    p.lookupMethod? descendant name arity = some method := by
  obtain ⟨before, rest, hnew, heq⟩ := hacyclic.hierarchy_eq (of_decide_eq_true hinherits)
  have hnone : ∀ ancestor ∈ before, p.declaredMethod? ancestor name arity = none := by
    intro ancestor hancestor
    refine declaredMethod?_eq_none_iff.2 (hbefore ancestor ?_)
    rw [heq, List.append_assoc, List.takeWhile_append_of_pos]
    · exact List.mem_append_left _ hancestor
    · intro x hx
      exact bne_iff_ne.2 fun h => hnew (h ▸ hx)
  have hown : ((p.hierarchy module).filter (· ∉ before)).findSome?
      (fun ancestor => p.declaredMethod? ancestor name arity) = some method := by
    rw [findSome?_filter_of_none]
    · exact hfound
    · intro ancestor _ hskipped
      exact hnone ancestor (by simpa using hskipped)
  rw [lookupMethod?, heq, List.findSome?_append, List.findSome?_append, hown,
    List.findSome?_eq_none_iff.2 hnone]
  rfl

/-- Modules that only name modules declared before them are `Acyclic`. -/
theorem acyclic_of_declared_before
    (h : ∀ module < p.size, ∀ supertype ∈ p.supertypes module, supertype < module) :
    p.Acyclic := by
  have hless : ∀ a b, TransGen p.DeclaresSupertype a b → b < a := by
    intro a b hpath
    induction hpath with
    | single hstep =>
        obtain ⟨hmodule, hfollows⟩ := declaresSupertype_iff.1 hstep
        exact h a (lt_size_of_isModule hmodule) _ hfollows
    | tail _ hstep ih =>
        obtain ⟨hmodule, hfollows⟩ := declaresSupertype_iff.1 hstep
        exact (h _ (lt_size_of_isModule hmodule) _ hfollows).trans ih
  exact fun module hcircle => Nat.lt_irrefl module (hless module module hcircle)

end Program

namespace Sample

open Build

/-- A class that inherits a mixin twice: through another mixin and through
its superclass. -/
def diamond : List Tree :=
  [package "zoo"
    [mixin "Winged" [], (mixin "Flying" []).mixedWith ["Winged"],
     classNamed "Animal" [method "greet" [] []],
     ((classNamed "Bird" []).inherits "Animal").mixedWith ["Winged"],
     ((classNamed "Gull" []).inherits "Bird").mixedWith ["Flying"]]]

end Sample

/-- The mixin comes earlier in the hierarchy of the last class than in that
of its superclass; the method above both is found from either. -/
theorem diamond_lookup_is_inherited :
    ∃ p, Program.link none Sample.diamond = .ok p ∧ p.Acyclic
      ∧ p.hierarchy 8 = [8, 2, 5] ∧ p.hierarchy 11 = [11, 3, 2, 8, 5]
      ∧ p.lookupMethod? 8 "greet" 0 = some 6 ∧ p.lookupMethod? 11 "greet" 0 = some 6 := by
  obtain ⟨p, hlink, hordered, hbird, hgull, hfound, hbefore⟩ :
      ∃ p, Program.link none Sample.diamond = .ok p
        ∧ (∀ module < p.size, ∀ supertype ∈ p.supertypes module, supertype < module)
        ∧ p.hierarchy 8 = [8, 2, 5] ∧ p.hierarchy 11 = [11, 3, 2, 8, 5]
        ∧ p.lookupMethod? 8 "greet" 0 = some 6
        ∧ ∀ ancestor ∈ (p.hierarchy 11).takeWhile (· != 8),
          ∀ member ∈ p.membersOf ancestor, ¬ Program.answers "greet" 0 member :=
    ⟨_, rfl, by decide +kernel, rfl, rfl, rfl, by decide +kernel⟩
  have hacyclic := Program.acyclic_of_declared_before hordered
  exact ⟨p, hlink, hacyclic, hbird, hgull, hfound, Program.lookup_is_inherited hacyclic
    (by simp [Program.inherits, hgull]) hfound hbefore⟩

end ObjectMachine
