/-
Every message is answered.

Superclasses lead from every class and every object to the root class of
the library, where they do not run in a circle: each is a module, and only
the root class has none (Program/Library.lean). So whatever a class or an
object is sent, there is a method for it, or there is the fallback of the
root class or one that overrides it (`every_message_is_answered`). No
message ends in the fault that nobody understands it.

A superclass that comes with a target of its own is not looked up, so it may
name anything. A class above which there is no module answers nothing
(`stray_class_answers_nothing`).
-/
import Mathlib
import ObjectMachine.Proofs.Heap.Sharing
import ObjectMachine.Proofs.Laws.Inheritance
import ObjectMachine.Proofs.Program.Library
import ObjectMachine.Proofs.Session.Reached
import ObjectMachine.Proofs.Session.Uses

namespace ObjectMachine

open Relation

-- ============================================================== members

namespace Tree

theorem acceptsArity_stripped (parameters : List Tree) (arity : Nat) :
    Program.acceptsArity (parameters.map stripped) arity
      = Program.acceptsArity parameters arity := by
  unfold Program.acceptsArity
  rw [List.getLast?_map, List.length_map]
  cases parameters.getLast? with
  | none => rfl
  | some last =>
      rw [Option.map_some, Option.map_some, Option.map_some, kind_stripped]
      cases last.kind <;> rfl

/-- `answers` does not depend on identities and targets. -/
theorem answers_stripped (name : String) (arity : Nat) (member : Tree) :
    Program.answers name arity member.stripped = Program.answers name arity member := by
  unfold Program.answers
  rw [kind_stripped]
  cases hkind : member.kind with
  | method own parameters body native =>
      simp only [Kind.map, Kind.withTarget, acceptsArity_stripped, Option.isSome_map]
  | _ => rfl

end Tree

namespace Program

variable {p : Program} {object : Tree}

-- ========================================================= superclasses

/-- A class or an object has the other module as its `superclass?`. -/
def Extends (p : Program) (module superclass : NodeId) : Prop :=
  p.isKind Kind.isClassOrObject module ∧ p.superclass? module = some superclass

theorem lt_size_of_isClassOrObject {module : NodeId} (h : p.isKind Kind.isClassOrObject module) :
    module < p.size := by
  obtain ⟨kind, hkind, hclass⟩ := (Option.any_eq_true _ _).1 h
  refine lt_size_of_isModule ?_
  rw [isModule, isKind, hkind]
  exact Kind.isModule_of_isClassOrObject hclass

/-- What a class or an object `Extends` is in its hierarchy. -/
theorem Extends.follows {module superclass : NodeId} (h : p.Extends module superclass) :
    p.Follows module superclass :=
  List.mem_append_right _ (Option.mem_toList.2 h.2)

theorem Extends.lt_size {module superclass : NodeId} (h : p.Extends module superclass) :
    superclass < p.size :=
  lt_size_of_isModule (isModule_of_mem_supertypes h.follows)

/-- Where no superclass is a mixin, each is a class or an object. -/
theorem Extends.isClassOrObject {module superclass : NodeId} (h : p.Extends module superclass)
    (hmixin : p.isKind Kind.isMixin superclass = false) :
    p.isKind Kind.isClassOrObject superclass := by
  have hmodule := isModule_of_mem_supertypes h.follows
  rw [isModule, isKind] at hmodule
  rw [isKind] at hmixin ⊢
  cases hkind : p.kind? superclass with
  | none =>
      rw [hkind] at hmodule
      cases hmodule
  | some kind =>
      rw [hkind] at hmodule hmixin
      exact Kind.isClassOrObject_of_isModule hmodule hmixin

/-- Every superclass is a module. -/
def SuperclassesKnown (p : Program) : Prop :=
  ∀ s ∈ p.root.preorder, ∀ r, s.kind.superclass? = some r →
    ∃ target, r.kind.target? = some target ∧ p.isModule target

section

variable (hp : p.root.Numbered) (hbased : p.Based object)
include hp hbased

theorem Based.tree?_eq : p.tree? object.identity = some object :=
  (tree?_eq_some_iff hp).2 ⟨Tree.walk_mem hbased.found, rfl⟩

/-- A class or an object of a program that is `Based` on the root class is that
class, or it `Extends` another one. -/
theorem Based.eq_or_extends (hknown : p.SuperclassesKnown) {module : NodeId}
    (hmodule : p.isKind Kind.isClassOrObject module) :
    module = object.identity ∨ ∃ superclass, p.Extends module superclass := by
  obtain ⟨kind, hkind, hclass⟩ := (Option.any_eq_true _ _).1 hmodule
  obtain ⟨t, htree, rfl⟩ := Option.map_eq_some_iff.1 hkind
  obtain ⟨ht, hid⟩ := (tree?_eq_some_iff hp).1 htree
  cases hsuperclass : t.kind.superclass? with
  | none =>
      have hlacks : t.kind.lacksSuperclass := by
        rw [Kind.lacksSuperclass, hclass, hsuperclass]
        rfl
      rw [← hbased.only t ht hlacks]
      exact .inl hid.symm
  | some r =>
      obtain ⟨target, htarget, htargetModule⟩ := hknown t ht r hsuperclass
      refine .inr ⟨target, hmodule, ?_⟩
      rw [superclass?_of_isModule hkind (Kind.isModule_of_isClassOrObject hclass),
        declaredSuperclass?, hsuperclass, Option.bind_some, htarget]
      exact Option.filter_eq_some_iff.2 ⟨rfl, htargetModule⟩

/-- Superclasses that do not run in a circle end at the root class, as there are
finitely many nodes. -/
theorem Based.extends_object (hknown : p.SuperclassesKnown)
    (hacyclic : ∀ module, ¬ TransGen p.Extends module module)
    (hmixin : ∀ module superclass, p.Extends module superclass →
      p.isKind Kind.isMixin superclass = false) {module : NodeId}
    (hmodule : p.isKind Kind.isClassOrObject module) :
    ReflTransGen p.Extends module object.identity := by
  -- there are finitely many modules, so without circles the relation is well-founded
  let above (b a : { id // id < p.size }) : Prop := TransGen p.Extends a.1 b.1
  have htrans : IsTrans _ above := ⟨fun a b c hab hbc => hbc.trans hab⟩
  have hirrefl : Std.Irrefl above := ⟨fun a h => hacyclic a.1 h⟩
  have hwf : WellFounded above := Finite.wellFounded_of_trans_of_irrefl above
  have hall : ∀ id : { id // id < p.size }, p.isKind Kind.isClassOrObject id.1 →
      ReflTransGen p.Extends id.1 object.identity := by
    intro id
    induction id using hwf.induction with
    | h id ih =>
        intro hclass
        rcases hbased.eq_or_extends hp hknown hclass with heq | ⟨superclass, hextends⟩
        · rw [heq]
        · exact .head hextends (ih ⟨superclass, hextends.lt_size⟩ (.single hextends)
            (hextends.isClassOrObject (hmixin _ _ hextends)))
  exact hall ⟨module, lt_size_of_isClassOrObject hmodule⟩ hmodule

/-- In a program that is `Based` on the root class, that class declares the
fallback. -/
theorem Based.declares_fallback :
    (p.declaredMethod? object.identity Engine.fallbackSelector 2).isSome := by
  have hdeclared : ∃ member ∈ Prelude.objectClass.members,
      answers Engine.fallbackSelector 2 member := by decide
  obtain ⟨member₀, hmember₀, hanswers⟩ := hdeclared
  rw [← hbased.written, Tree.members_stripped] at hmember₀
  obtain ⟨member, hmember, rfl⟩ := List.mem_map.1 hmember₀
  rw [Tree.answers_stripped] at hanswers
  rw [declaredMethod?, Option.isSome_map, List.find?_isSome, membersOf, kind?,
    hbased.tree?_eq hp]
  exact ⟨member, hmember, hanswers⟩

end

end Program

-- ============================================================= messages

/-- A string that `Heap.string` makes holds its text. -/
theorem Heap.Canonical.shared?_string {h : Heap} (hc : h.Canonical) (text : String)
    (module : NodeId) :
    (h.string text module).2.shared? (h.string text module).1 = some (.string text) := by
  have hnew : (h.string text module).2.Canonical := hc.intern (.string text) module
  obtain ⟨inner, hinner, hkeyed⟩ := hnew.entry (Heap.lookup_intern h _ module (.string text))
  refine hinner.trans ?_
  generalize hkey : Heap.stringKey text = key at hkeyed
  cases hkeyed with
  | number value => exact absurd hkey (Heap.stringKey_ne_key text value)
  | string value =>
      have htext : text = value := String.append_right_inj _ |>.1 hkey
      rw [htext]

namespace Engine

variable {e : Engine} {receiver : ObjectId} {o : Object} {message : String}
  {args : List ObjectId} {start : Option NodeId} {m : Machine} {f : Frame} {rest : List Frame}

/-- A message runs the method of `methodFor`. If there is none, the fallback is
run on a new list of the arguments and a string, which is the selector. -/
inductive Replies (e : Engine) (receiver : ObjectId) (module : NodeId) (message : String)
    (args : List ObjectId) (start : Option NodeId) (m : Machine) :
    EStateM.Result Fault Machine Unit → Prop
  | method {method : NodeId} (found : e.methodFor module message args.length start = some method) :
      Replies e receiver module message args start m ((e.invoke method receiver args).run m)
  | fallback {method : NodeId} {selector list : ObjectId} {heap : Heap}
      (missing : e.methodFor module message args.length start = none)
      (found : e.program.lookupMethod? module fallbackSelector 2 = some method)
      (grows : m.heap.Grows heap)
      (text : (heap.object? selector).bind Object.inner = some (.string message))
      (arguments : (heap.object? list).bind Object.inner = some (.collection args)) :
      Replies e receiver module message args start m
        ((e.invoke method receiver [selector, list]).run { m with heap })

theorem dispatch_replies (hc : m.heap.Canonical) (known : m.heap.object? receiver = some o)
    {fallback : NodeId}
    (hfallback : e.program.lookupMethod? o.module fallbackSelector 2 = some fallback) :
    e.Replies receiver o.module message args start m
      ((e.dispatch receiver message args start).run m) := by
  unfold dispatch
  rw [Action.bind_ok (Action.object_ok known)]
  dsimp only
  split
  · next method hfound => exact .method hfound
  · next hmissing =>
    rw [hfallback]
    dsimp only
    rw [Action.bind_ok (Action.newString_eq ..), Action.bind_ok (Action.newList_eq ..)]
    have hlist : (m.heap.string message e.core.string).2.Changes (· <+: ·)
        (e.misunderstood message args m.heap) := Heap.allocateList_changes ..
    refine .fallback hmissing hfallback ((Heap.intern_grows ..).trans hlist.grows) ?_ ?_
    · have htext := hlist.shared?_of_some (hc.shared?_string message e.core.string)
      exact (Option.filter_eq_some_iff.1 htext).1
    · exact congrArg (·.bind Object.inner) ((Heap.object?_allocate ..).trans (if_pos rfl))

theorem of_create {p : Program} {natives : Natives} {maxFrames : Nat}
    (h : create p natives maxFrames = .ok e) : e.program = p ∧ e.natives = natives := by
  obtain ⟨_, -, rfl⟩ := create_eq_ok.1 h
  exact ⟨rfl, rfl⟩

theorem unanswered_of_plain {fault : Fault} (h : fault.plain = true) :
    fault.unanswered = false := by
  cases fault <;> first | rfl | cases h

/-- No native method of the library (`Performs`) ends in the fault of a message
that nobody answers. -/
theorem Performs.not_unanswered {w : World} {fault : Fault} {m' : Machine}
    (h : Natives.Performs w receiver args f rest m (.error fault m')) :
    fault.unanswered = false := by
  cases h with
  | fault plain => exact unanswered_of_plain plain
  | throw _ _ => rfl
  | callBack _ _ _ ends =>
      cases ends with
      | full => rfl

section

variable (hn : e.natives = Natives.core) (hframes : m.frames = f :: rest)
include hn hframes

theorem invoke_not_unanswered {method : NodeId} {fault : Fault} {m' : Machine}
    (h : (e.invoke method receiver args).run m = .error fault m') : fault.unanswered = false := by
  have hinvokes : e.Invokes method receiver args f rest m
      ((e.invoke method receiver args).run m) := invoke_conduct hframes ..
  generalize (e.invoke method receiver args).run m = r at h hinvokes
  cases hinvokes with
  | refused plain =>
      cases h
      exact unanswered_of_plain plain
  | @native owner selector native found arity =>
      rw [hn] at found
      have hperforms : Natives.Performs e.toWorld receiver args f rest m
          ((native.perform e.toWorld receiver args).run m) :=
        Natives.core_performs found arity hframes
      rw [h] at hperforms
      exact Performs.not_unanswered hperforms
  | started _ _ ends =>
      subst h
      cases ends with
      | full => rfl

theorem Replies.not_unanswered {module : NodeId} {fault : Fault} {m' : Machine}
    (h : e.Replies receiver module message args start m (.error fault m')) :
    fault.unanswered = false := by
  generalize hr : (.error fault m' : EStateM.Result Fault Machine Unit) = r at h
  cases h with
  | method _ => exact invoke_not_unanswered hn hframes hr.symm
  | @fallback _ _ _ heap _ _ _ _ _ =>
      have hframes' : ({ m with heap } : Machine).frames = f :: rest := hframes
      exact invoke_not_unanswered hn hframes' hr.symm

end

end Engine

namespace Program

/-- In a program that is linked with the library, and has no other package
of its name, let superclasses be references that name modules if they come
with a target, and let them neither run in a circle nor name mixins. Then
every class and every object, named or not, inherits from the root class of
the library and has a method for the fallback. Whatever is sent to one, in
any state an evaluation can be brought to, is answered by the method that is
found for it, or else by the fallback, which is given the selector and the
arguments in order. It never ends in the fault of a message that nobody
answers. -/
theorem every_message_is_answered {packages : List Tree} {p : Program}
    (hlink : linkPackages true packages = .ok p) (hout : ∀ t ∈ packages, t.Outside)
    (hrefer : ∀ t ∈ packages, t.SuperclassesRefer fun id => p.isModule id)
    (hacyclic : ∀ module, ¬ TransGen p.Extends module module)
    (hmixin : ∀ module superclass, p.Extends module superclass →
      p.isKind Kind.isMixin superclass = false) :
    ∃ object, p.resolveQualified? CoreNames.objectClass = some object
      ∧ (∃ t, p.tree? object = some t ∧ t.stripped = Prelude.objectClass)
      ∧ ∀ module, p.isKind Kind.isClassOrObject module → object ∈ p.hierarchy module
        ∧ (p.lookupMethod? module Engine.fallbackSelector 2).isSome
        ∧ ∀ maxFrames e, Engine.create p Natives.core maxFrames = .ok e →
          ∀ m₀ m f rest, e.Attained m₀ → m.heap = m₀.heap → m.frames = f :: rest →
          ∀ receiver o, m.heap.object? receiver = some o → o.module = module →
          ∀ message args start,
            e.Replies receiver module message args start m
              ((e.dispatch receiver message args start).run m)
            ∧ ∀ fault m', (e.dispatch receiver message args start).run m = .error fault m' →
                fault.unanswered = false := by
  obtain ⟨object, hbased⟩ := based_of_linkPackages hout hlink
  obtain ⟨root, targets, hlinks⟩ := links_of_link hlink
  have hp := hlinks.numbered_outcome
  have hknown : p.SuperclassesKnown := by
    refine fun s hs r hr => hlinks.superclass_target (fun t ht => ?_) hs hr
    obtain ⟨t₀, ht₀, rfl⟩ := List.mem_map.1 ht
    rcases List.mem_append.1 ht₀ with ht₀ | ht₀
    · exact (Prelude.superclasses_refer _ t₀ ht₀).fill []
    · exact (hrefer t₀ ht₀).fill []
  refine ⟨object.identity, ?_, ⟨object, hbased.tree?_eq hp, hbased.written⟩,
    fun module hmodule => ?_⟩
  · rw [resolveQualified?, hbased.found]
    rfl
  have hpath := hbased.extends_object hp hknown hacyclic hmixin hmodule
  have hinherits : object.identity ∈ p.hierarchy module :=
    mem_hierarchy_iff.2 (ReflTransGen.mono (fun _ _ h => Extends.follows h) _ _ hpath)
  have hfallback : (p.lookupMethod? module Engine.fallbackSelector 2).isSome :=
    List.findSome?_isSome_iff.2 ⟨_, hinherits, hbased.declares_fallback hp⟩
  refine ⟨hinherits, hfallback, ?_⟩
  rintro maxFrames e hcreate m₀ m f rest hm₀ hheap hframes receiver o known rfl message args start
  obtain ⟨rfl, hn⟩ := Engine.of_create hcreate
  have hcareful : e.natives.Careful (· <+: ·) := by
    rw [hn]
    exact Natives.core_careful
  have hcanonical : m.heap.Canonical := by
    rw [hheap]
    exact (Engine.Uses.changes hcareful hm₀).canonical (Heap.initial_canonical ..)
  obtain ⟨fallback, hfallback⟩ := Option.isSome_iff_exists.1 hfallback
  have hreplies : e.Replies receiver o.module message args start m
      ((e.dispatch receiver message args start).run m) :=
    Engine.dispatch_replies hcanonical known hfallback
  refine ⟨hreplies, fun fault m' hrun => ?_⟩
  rw [hrun] at hreplies
  exact hreplies.not_unanswered hn hframes

end Program

namespace Program

/-- Superclasses that have a lower rank than what `Extends` them do not run in a
circle. -/
theorem extends_acyclic {p : Program} {rank : NodeId → Nat}
    (h : ∀ module < p.size, ∀ superclass ∈ (p.superclass? module).toList,
      rank superclass < rank module) : ∀ module, ¬ TransGen p.Extends module module := by
  have hless : ∀ a b, p.Extends a b → rank b < rank a :=
    fun a b hextends => h a (lt_size_of_isClassOrObject hextends.1) b
      (Option.mem_toList.2 hextends.2)
  have hpath : ∀ a b, TransGen p.Extends a b → rank b < rank a := by
    intro a b hpath
    induction hpath with
    | single hstep => exact hless _ _ hstep
    | tail _ hstep ih => exact (hless _ _ hstep).trans ih
  exact fun module hcircle => Nat.lt_irrefl _ (hpath module module hcircle)

/-- Superclasses have a shorter `hierarchy` than what extends them, and none is
a mixin. -/
def HierarchyShortens (p : Program) : Prop :=
  ∀ module < p.size, ∀ superclass ∈ (p.superclass? module).toList,
    (p.hierarchy superclass).length < (p.hierarchy module).length
      ∧ p.isKind Kind.isMixin superclass = false

instance (p : Program) : Decidable p.HierarchyShortens :=
  inferInstanceAs (Decidable (∀ module < p.size, ∀ superclass ∈ (p.superclass? module).toList,
    (p.hierarchy superclass).length < (p.hierarchy module).length
      ∧ p.isKind Kind.isMixin superclass = false))

theorem HierarchyShortens.acyclic {p : Program} (h : p.HierarchyShortens) :
    ∀ module, ¬ TransGen p.Extends module module :=
  extends_acyclic fun module hlt superclass hmem => (h module hlt superclass hmem).1

theorem HierarchyShortens.not_isMixin {p : Program} (h : p.HierarchyShortens)
    (module superclass : NodeId) (hextends : p.Extends module superclass) :
    p.isKind Kind.isMixin superclass = false :=
  (h module (lt_size_of_isClassOrObject hextends.1) superclass (Option.mem_toList.2 hextends.2)).2

end Program

namespace Sample

open Build

/-- A class with a method that answers a closure, and one that inherits
it. -/
def coop : List Tree :=
  [package "coop" [classNamed "Hen" [method "lay" [] [answer (closure [] [])]],
    (classNamed "Chick" []).inherits "Hen"]]

/-- A class whose superclass is said to be the package of the root class. -/
def stray : List Tree :=
  [package "coop"
    [.of (.classDecl "Hen" (some (.of (.reference "wollok.lang" (some 2)))) [] [])]]

end Sample

/-- A program that is linked with the library, if a `test` of it succeeds. -/
theorem linkPackages_of_any {packages : List Tree} {test : Program → Bool}
    (h : (linkPackages true packages).toOption.any test = true) :
    ∃ p, linkPackages true packages = .ok p ∧ test p = true := by
  cases hlink : linkPackages true packages with
  | error _ =>
      rw [hlink] at h
      cases h
  | ok p =>
      rw [hlink] at h
      exact ⟨p, rfl, h⟩

/-- The classes and the closure of the sample, which stands in the first class,
inherit from the root class and have the fallback. -/
theorem coop_messages_are_answered : ∃ p, linkPackages true Sample.coop = .ok p
    ∧ ∃ object hen chick closure, p.resolveQualified? CoreNames.objectClass = some object
      ∧ p.resolveQualified? "coop.Hen" = some hen ∧ p.resolveQualified? "coop.Chick" = some chick
      ∧ p.enclosingModule? closure = some hen
      ∧ ∀ module ∈ [hen, chick, closure], p.isKind Kind.isClassOrObject module
        ∧ object ∈ p.hierarchy module
        ∧ (p.lookupMethod? module Engine.fallbackSelector 2).isSome := by
  obtain ⟨p, hlink, htest⟩ : ∃ p, linkPackages true Sample.coop = .ok p
      ∧ ((p.resolveQualified? "coop.Hen").any fun hen =>
        (p.resolveQualified? "coop.Chick").any fun chick =>
          (List.range p.size).any fun closure => decide (p.enclosingModule? closure = some hen
            ∧ p.HierarchyShortens
            ∧ [hen, chick, closure].all (p.isKind Kind.isClassOrObject) = true))
        = true :=
    linkPackages_of_any (by decide +kernel)
  obtain ⟨hen, hhen, htest⟩ := (Option.any_eq_true _ _).1 htest
  obtain ⟨chick, hchick, htest⟩ := (Option.any_eq_true _ _).1 htest
  obtain ⟨closure, -, htest⟩ := List.any_eq_true.1 htest
  obtain ⟨hclosure, hshortens, hall⟩ := of_decide_eq_true htest
  have hclasses := List.all_eq_true.1 hall
  have hout : ∀ t ∈ Sample.coop, t.Outside := by decide +kernel
  have hpending : ∀ t ∈ Sample.coop, ∀ s ∈ t.preorder, ∀ r ∈ s.kind.superclass?.toList,
      r.isPending := by decide +kernel
  obtain ⟨object, hobject, -, hanswered⟩ := Program.every_message_is_answered hlink hout
    (fun t ht => Tree.superclassesRefer_of_isPending (hpending t ht)) hshortens.acyclic
    hshortens.not_isMixin
  refine ⟨p, hlink, object, hen, chick, closure, hobject, hhen, hchick, hclosure,
    fun module hmodule => ?_⟩
  obtain ⟨hinherits, hfallback, -⟩ := hanswered module (hclasses module hmodule)
  exact ⟨hclasses module hmodule, hinherits, hfallback⟩

/-- A class whose superclass comes with a target that is no module inherits
from nothing and has no fallback, although superclasses are references,
neither run in a circle nor name mixins, and no other package is named like
that of the library. -/
theorem stray_class_answers_nothing : ∃ p, linkPackages true Sample.stray = .ok p
    ∧ (∀ t ∈ Sample.stray, t.Outside)
    ∧ (∀ t ∈ Sample.stray, t.SuperclassesRefer fun _ => True)
    ∧ (∀ module, ¬ TransGen p.Extends module module)
    ∧ (∀ module superclass, p.Extends module superclass →
        p.isKind Kind.isMixin superclass = false)
    ∧ ∃ hen, p.resolveQualified? "coop.Hen" = some hen ∧ p.isKind Kind.isClassOrObject hen
      ∧ p.hierarchy hen = [hen] ∧ p.lookupMethod? hen Engine.fallbackSelector 2 = none := by
  obtain ⟨p, hlink, htest⟩ : ∃ p, linkPackages true Sample.stray = .ok p
      ∧ ((p.resolveQualified? "coop.Hen").any fun hen => decide (p.HierarchyShortens
        ∧ p.isKind Kind.isClassOrObject hen ∧ p.hierarchy hen = [hen]
        ∧ p.lookupMethod? hen Engine.fallbackSelector 2 = none)) = true :=
    linkPackages_of_any (by decide +kernel)
  obtain ⟨hen, hhen, htest⟩ := (Option.any_eq_true _ _).1 htest
  obtain ⟨hshortens, hclass, hhierarchy, hnone⟩ := of_decide_eq_true htest
  refine ⟨p, hlink, by decide +kernel, fun t ht s hs r hr => ?_, hshortens.acyclic,
    hshortens.not_isMixin, hen, hhen, hclass, hhierarchy, hnone⟩
  have htargets : ∀ t ∈ Sample.stray, ∀ s ∈ t.preorder, ∀ r ∈ s.kind.superclass?.toList,
      r.kind.target?.isSome := by decide +kernel
  have htarget := htargets t ht s hs r (Option.mem_toList.2 hr)
  cases hkind : r.kind with
  | reference name target => exact ⟨name, target, rfl, fun _ _ => trivial⟩
  | _ =>
      rw [hkind] at htarget
      cases htarget

end ObjectMachine
