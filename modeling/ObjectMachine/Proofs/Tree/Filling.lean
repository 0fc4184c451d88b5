/-
What filling in adds.

A node of a filled tree was there before, filled in its place, or is one of
a few leaves that are put where something was left out
(`mem_preorder_fill`). So every class and every object has a superclass
afterwards. Only a class directly in `wollok.lang` may be left without one,
and there is none where no package is named `wollok`.
-/
import Mathlib
import ObjectMachine.Proofs.Tree.Layers
import ObjectMachine.Tree.Defaults

namespace ObjectMachine

namespace Kind

variable {α β : Type}

/-- The modules that have superclasses. -/
def isClassOrObject : Kind α → Bool
  | .classDecl .. | .singleton .. => true
  | _ => false

def isMixin : Kind α → Bool
  | .mixin .. => true
  | _ => false

/-- A class or an object that names no superclass. -/
def lacksSuperclass (kind : Kind α) : Bool := kind.isClassOrObject && kind.superclass?.isNone

@[simp] theorem isClassOrObject_map (f : α → β) (kind : Kind α) :
    (kind.map f).isClassOrObject = kind.isClassOrObject := by
  cases kind <;> rfl

@[simp] theorem isClassOrObject_withTarget (kind : Kind α) (target : Option NodeId) :
    (kind.withTarget target).isClassOrObject = kind.isClassOrObject := by
  cases kind <;> rfl

@[simp] theorem lacksSuperclass_map (f : α → β) (kind : Kind α) :
    (kind.map f).lacksSuperclass = kind.lacksSuperclass := by
  simp [lacksSuperclass]

@[simp] theorem lacksSuperclass_withTarget (kind : Kind α) (target : Option NodeId) :
    (kind.withTarget target).lacksSuperclass = kind.lacksSuperclass := by
  simp [lacksSuperclass]

theorem not_isPackage_of_isClassOrObject {kind : Kind α} (h : kind.isClassOrObject) :
    ¬ kind.isPackage := by
  cases kind <;> first | exact Bool.false_ne_true | cases h

theorem isClassOrObject_of_superclass? {kind : Kind α} {superclass : α}
    (h : kind.superclass? = some superclass) : kind.isClassOrObject := by
  cases kind <;> first | rfl | cases h

theorem isClassOrObject_of_isModule {kind : Kind α} (h : kind.isModule)
    (hmixin : kind.isMixin = false) : kind.isClassOrObject := by
  cases kind with
  | classDecl | singleton => rfl
  | mixin => cases hmixin
  | _ => cases h

theorem isModule_of_isClassOrObject {kind : Kind α} (h : kind.isClassOrObject) :
    kind.isModule := by
  cases kind <;> first | rfl | cases h

end Kind

namespace Tree

-- =============================================================== layers

/-- What `fill` puts where something was left out. -/
def fillers : List Tree :=
  [Build.reference CoreNames.objectClass, Build.reference CoreNames.closureClass, Build.null,
    Build.block []]

theorem preorder_of_fillers : ∀ t ∈ fillers, t.preorder = [t] := by
  repeat' refine List.forall_mem_cons.2 ⟨rfl, ?_⟩
  exact fun t ht => nomatch ht

variable {path : List String} {kind : Kind Tree}

-- The equations of `fillLayer` are made once, before all the proofs below ask for them.
attribute [local simp] fillLayer

theorem mem_children_fillLayer {c : Tree} (h : c ∈ (fillLayer path kind).children) :
    c ∈ kind.children ∨ c ∈ fillers := by
  unfold fillLayer at h
  split at h
  all_goals
    try split at h
  all_goals
    simp only [Kind.children, fillers, Option.toList, List.mem_append, List.mem_cons,
      List.not_mem_nil, or_false] at h ⊢
    tauto

theorem superclass?_fillLayer {r : Tree} (h : (fillLayer path kind).superclass? = some r) :
    kind.superclass? = some r ∨ ∃ name, r = Build.reference name := by
  unfold fillLayer at h
  split at h
  · split at h
    · cases h
    · cases h
      exact .inr ⟨_, rfl⟩
  · cases h
    exact .inr ⟨_, rfl⟩
  · cases h
  · cases h
  · cases h
  · cases h
  · exact .inl h

theorem path_of_lacksSuperclass (h : (fillLayer path kind).lacksSuperclass) :
    path = ["wollok", "lang"] := by
  unfold fillLayer at h
  split at h
  · split at h
    · next hroot =>
      rw [isRootClass, Bool.and_eq_true, beq_iff_eq, beq_iff_eq] at hroot
      exact hroot.2
    · cases h
  · cases h
  · cases h
  · cases h
  · cases h
  · cases h
  · next hclass hobject _ _ _ _ =>
    -- what is left as it is, is neither a class nor an object without superclass
    cases kind with
    | classDecl name superclass mixins members =>
        cases superclass with
        | none => exact absurd rfl (hclass name mixins members)
        | some r => cases h
    | singleton name superclass args mixins members closure =>
        cases superclass with
        | none => exact absurd rfl (hobject name args mixins members closure)
        | some r => cases h
    | _ => cases h

theorem isPackage_fillLayer : (fillLayer path kind).isPackage = kind.isPackage := by
  unfold fillLayer
  split <;> rfl

theorem name?_fillLayer : (fillLayer path kind).name? = kind.name? := by
  unfold fillLayer
  split <;> rfl

-- ================================================================ trees

theorem fill_eq (t : Tree) (path : List String) :
    t.fill path = .node t.id? t.span? (fillLayer (innerPath t.kind path)
      (t.kind.map fun c => c.fill (innerPath t.kind path))) := by
  rw [fill, fold_eq]
  exact congrArg (fun kind => node t.id? t.span? (fillLayer _ kind)) (Kind.map_map ..)

theorem kind_fill (t : Tree) (path : List String) :
    (t.fill path).kind = fillLayer (innerPath t.kind path)
      (t.kind.map fun c => c.fill (innerPath t.kind path)) := by
  rw [fill_eq]
  rfl

/-- `fill` leaves references alone. -/
theorem kind_fill_of_reference {t : Tree} {name : String} {target : Option NodeId}
    (h : t.kind = .reference name target) (path : List String) :
    (t.fill path).kind = .reference name target := by
  rw [kind_fill, h]
  rfl

theorem mem_innerPath {name : String} {t : Tree} (h : name ∈ innerPath t.kind path) :
    name ∈ path ∨ t.kind.isPackage ∧ t.name? = some name := by
  unfold innerPath at h
  split at h
  · next own imports members hkind =>
    rcases List.mem_append.1 h with h | h
    · exact .inl h
    · cases List.mem_singleton.1 h
      rw [name?, hkind]
      exact .inr ⟨rfl, rfl⟩
  · exact .inl h

/-- A node of a filled tree is one of the `fillers`, or it was there and is
filled, inside packages that are around the tree or in it. -/
theorem mem_preorder_fill {t s : Tree} {path : List String} (h : s ∈ (t.fill path).preorder) :
    s ∈ fillers ∨ ∃ r ∈ t.preorder, ∃ outer, s = r.fill outer ∧ ∀ name ∈ outer,
      name ∈ path ∨ ∃ q ∈ t.preorder, q.kind.isPackage ∧ q.name? = some name := by
  induction t using ofChildren generalizing path with
  | h t ih =>
      rw [preorder_eq] at h
      rcases List.mem_cons.1 h with rfl | h
      · exact .inr ⟨t, t.mem_preorder_self, path, rfl, fun _ hname => .inl hname⟩
      · obtain ⟨c', hc', hs⟩ := List.mem_flatMap.1 h
        rw [children, kind_fill] at hc'
        rcases mem_children_fillLayer hc' with hc' | hfiller
        · rw [Kind.children_map] at hc'
          obtain ⟨c, hc, rfl⟩ := List.mem_map.1 hc'
          rcases ih c hc hs with hfiller | ⟨r, hr, outer, rfl, houter⟩
          · exact .inl hfiller
          · refine .inr ⟨r, mem_preorder_of_child hc hr, outer, rfl, fun name hname => ?_⟩
            rcases houter name hname with hname | ⟨q, hq, hpackage⟩
            · rcases mem_innerPath hname with hname | hpackage
              · exact .inl hname
              · exact .inr ⟨t, t.mem_preorder_self, hpackage⟩
            · exact .inr ⟨q, mem_preorder_of_child hc hq, hpackage⟩
        · rw [preorder_of_fillers c' hfiller] at hs
          cases List.mem_singleton.1 hs
          exact .inl hfiller

-- ========================================================= superclasses

/-- No class and no object of the tree is without superclass. -/
def Founded (t : Tree) : Prop := ∀ s ∈ t.preorder, s.kind.lacksSuperclass = false

instance : DecidablePred Founded := fun t =>
  inferInstanceAs (Decidable (∀ s ∈ t.preorder, s.kind.lacksSuperclass = false))

/-- No package of the tree is named like the package of the library. -/
def Outside (t : Tree) : Prop :=
  ∀ s ∈ t.preorder, s.kind.isPackage → s.name? ≠ some CoreNames.globalPackage

instance : DecidablePred Outside := fun t =>
  inferInstanceAs (Decidable (∀ s ∈ t.preorder, s.kind.isPackage →
    s.name? ≠ some CoreNames.globalPackage))

theorem Outside.fill {t : Tree} (h : t.Outside) (path : List String) : (t.fill path).Outside := by
  have hfillers : ∀ s ∈ fillers, s.kind.isPackage = false := by decide
  intro s hs hpackage
  rcases mem_preorder_fill hs with hfiller | ⟨r, hr, outer, rfl, -⟩
  · rw [hfillers s hfiller] at hpackage
    cases hpackage
  · rw [kind_fill, isPackage_fillLayer, Kind.isPackage_map] at hpackage
    rw [name?, kind_fill, name?_fillLayer, Kind.name?_map]
    exact h r hr hpackage

/-- In a tree that is `Outside` the library `fill` gives every class and every
object a superclass. -/
theorem Outside.founded_fill {t : Tree} (h : t.Outside) : (t.fill []).Founded := by
  have hfillers : ∀ s ∈ fillers, s.kind.lacksSuperclass = false := by decide
  intro s hs
  rcases mem_preorder_fill hs with hfiller | ⟨r, hr, outer, rfl, houter⟩
  · exact hfillers s hfiller
  · refine Bool.eq_false_iff.2 fun hlacks => ?_
    rw [kind_fill] at hlacks
    have hwollok : CoreNames.globalPackage ∈ innerPath r.kind outer := by
      rw [path_of_lacksSuperclass hlacks]
      exact List.mem_cons_self
    rcases mem_innerPath hwollok with hname | ⟨hpackage, hname⟩
    · rcases houter _ hname with hname | ⟨q, hq, hpackage, hname⟩
      · cases hname
      · exact h q hq hpackage hname
    · exact h r hr hpackage hname

/-- Superclasses are references, and the targets they come with have the
property. -/
def SuperclassesRefer (P : NodeId → Prop) (t : Tree) : Prop :=
  ∀ s ∈ t.preorder, ∀ r, s.kind.superclass? = some r →
    ∃ name target, r.kind = .reference name target ∧ ∀ id ∈ target, P id

theorem SuperclassesRefer.fill {P : NodeId → Prop} {t : Tree} (h : t.SuperclassesRefer P)
    (path : List String) : (t.fill path).SuperclassesRefer P := by
  have hfillers : ∀ r ∈ fillers, r.kind.superclass? = none := by decide
  intro s hs r hr
  rcases mem_preorder_fill hs with hfiller | ⟨s₀, hs₀, outer, rfl, -⟩
  · rw [hfillers s hfiller] at hr
    cases hr
  · rw [kind_fill] at hr
    rcases superclass?_fillLayer hr with hr | ⟨name, rfl⟩
    · rw [Kind.superclass?_map] at hr
      obtain ⟨r₀, hr₀, rfl⟩ := Option.map_eq_some_iff.1 hr
      obtain ⟨name, target, hkind, htarget⟩ := h s₀ hs₀ r₀ hr₀
      exact ⟨name, target, kind_fill_of_reference hkind _, htarget⟩
    · exact ⟨name, none, rfl, fun id hid => nomatch hid⟩

end Tree

end ObjectMachine
