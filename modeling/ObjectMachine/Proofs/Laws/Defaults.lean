/-
Filling in leaves nothing out and takes nothing away.

A layer is complete when no part is missing that has a default. Whether a
class needs a superclass depends on the packages around it, so the nodes of a
tree are listed with those (`Tree.inPackages`). Filling in makes every node
complete, and a tree of complete nodes stays as it is (`fill_of_complete`):
hence the second time changes nothing.

All nodes that were there are there afterwards, in their order. Each has its
identity, its span and its parts, filled in, and the only thing that is new in
its layer is the default of a part that was missing (`Kind.Supplied`).
-/
import Mathlib
import ObjectMachine.Proofs.Tree.Filling

namespace ObjectMachine

namespace Kind

variable {α β : Type}

/-- No part is missing that has a default, in a layer inside the packages
`path`. -/
def isComplete (path : List String) : Kind α → Bool
  | .classDecl name superclass _ _ =>
    superclass.isSome || name == "Object" && path == ["wollok", "lang"]
  | .singleton _ superclass _ _ _ _ => superclass.isSome
  | .varDecl _ _ value => value.isSome
  | .field _ _ value => value.isSome
  | .ifElse _ _ elseBody => elseBody.isSome
  | .tryCatch _ _ always => always.isSome
  | _ => true

/-- A layer inside the packages `path`, and the same layer with the default
of a part that is missing. -/
inductive Supplied (path : List String) : Kind Tree → Kind Tree → Prop
  | nothing {kind : Kind Tree} (complete : kind.isComplete path) : Supplied path kind kind
  | classDecl {name : String} {mixins members : List Tree}
      (other : ¬ (name = "Object" ∧ path = ["wollok", "lang"])) :
      Supplied path (.classDecl name none mixins members)
        (.classDecl name (some (Build.reference CoreNames.objectClass)) mixins members)
  | object {name : Option String} {args mixins members : List Tree} :
      Supplied path (.singleton name none args mixins members false)
        (.singleton name (some (Build.reference CoreNames.objectClass)) args mixins members false)
  | closure {name : Option String} {args mixins members : List Tree} :
      Supplied path (.singleton name none args mixins members true)
        (.singleton name (some (Build.reference CoreNames.closureClass)) args mixins members true)
  | varDecl {name : String} {constant : Bool} :
      Supplied path (.varDecl name constant none) (.varDecl name constant (some Build.null))
  | field {name : String} {constant : Bool} :
      Supplied path (.field name constant none) (.field name constant (some Build.null))
  | ifElse {condition thenBody : Tree} :
      Supplied path (.ifElse condition thenBody none)
        (.ifElse condition thenBody (some (Build.block [])))
  | tryCatch {body : Tree} {catches : List Tree} :
      Supplied path (.tryCatch body catches none)
        (.tryCatch body catches (some (Build.block [])))

theorem Supplied.isComplete {path : List String} {kind kind' : Kind Tree}
    (h : kind.Supplied path kind') : kind'.isComplete path := by
  cases h with
  | nothing complete => exact complete
  | _ => rfl

end Kind

namespace Tree

-- =============================================================== layers

variable {path : List String} {kind : Kind Tree}

theorem isRootClass_iff {name : String} :
    isRootClass name path ↔ name = "Object" ∧ path = ["wollok", "lang"] := by
  rw [isRootClass, Bool.and_eq_true, beq_iff_eq, beq_iff_eq]

theorem supplied_fillLayer (path : List String) (kind : Kind Tree) :
    kind.Supplied path (fillLayer path kind) := by
  cases kind with
  | classDecl name superclass mixins members =>
      cases superclass with
      | some superclass => exact .nothing rfl
      | none =>
          rw [fillLayer]
          split
          · next hroot => exact .nothing hroot
          · next hother => exact .classDecl (mt isRootClass_iff.2 hother)
  | singleton name superclass args mixins members closure =>
      cases superclass with
      | some superclass => exact .nothing rfl
      | none =>
          cases closure with
          | false => exact .object
          | true => exact .closure
  | varDecl name constant value =>
      cases value with
      | some value => exact .nothing rfl
      | none => exact .varDecl
  | field name constant value =>
      cases value with
      | some value => exact .nothing rfl
      | none => exact .field
  | ifElse condition thenBody elseBody =>
      cases elseBody with
      | some elseBody => exact .nothing rfl
      | none => exact .ifElse
  | tryCatch body catches always =>
      cases always with
      | some always => exact .nothing rfl
      | none => exact .tryCatch
  | _ => exact .nothing rfl

/-- There is nothing to supply in a layer that `isComplete`. -/
theorem fillLayer_of_isComplete (h : kind.isComplete path) : fillLayer path kind = kind := by
  have hsupplied := supplied_fillLayer path kind
  generalize fillLayer path kind = kind' at hsupplied
  cases hsupplied with
  | nothing _ => rfl
  | classDecl other => exact absurd (isRootClass_iff.1 h) other
  | _ => cases h

/-- `fillLayer` keeps all children, in their order. -/
theorem children_sublist_fillLayer (path : List String) (kind : Kind Tree) :
    kind.children.Sublist (fillLayer path kind).children := by
  have hsupplied := supplied_fillLayer path kind
  generalize fillLayer path kind = kind' at hsupplied
  cases hsupplied with
  | nothing _ => exact .refl _
  | classDecl | object | closure => exact List.sublist_cons_self ..
  | varDecl | field => exact List.nil_sublist _
  | ifElse | tryCatch => exact List.Sublist.append_left (List.nil_sublist _) _

/-- `fillLayer` looks at the packages around a class only, and a class adds
nothing to them (`innerPath`). -/
theorem fillLayer_innerPath (path : List String) (kind : Kind Tree) :
    fillLayer (innerPath kind path) kind = fillLayer path kind := by
  cases kind <;> rfl

theorem innerPath_fillLayer (outer : List String) (kind : Kind Tree) :
    innerPath (fillLayer outer kind) path = innerPath kind path := by
  unfold fillLayer
  split <;> rfl

theorem innerPath_map (f : Tree → Tree) : innerPath (kind.map f) path = innerPath kind path := by
  cases kind <;> rfl

-- ================================================================ trees

/-- The nodes of a tree that is inside the packages `path`, parents before
children, each with the names of the packages around it. -/
def inPackages : Tree → List String → List (List String × Tree) :=
  fold fun t below path =>
    (path, t) :: (below.children.map fun child => child (innerPath t.kind path)).flatten

/-- The nodes of trees at the top level. -/
def allInPackages (forest : List Tree) : List (List String × Tree) :=
  forest.flatMap fun t => t.inPackages []

theorem inPackages_eq (t : Tree) (path : List String) : t.inPackages path
    = (path, t) :: t.children.flatMap fun c => c.inPackages (innerPath t.kind path) := by
  rw [inPackages, fold_eq, Kind.children_map, List.map_map]
  rfl

theorem innerPath_fill (t : Tree) (path outer : List String) :
    innerPath (t.fill path).kind outer = innerPath t.kind outer := by
  rw [kind_fill, innerPath_fillLayer, innerPath_map]

theorem inPackages_of_fillers (path : List String) :
    ∀ t ∈ fillers, t.inPackages path = [(path, t)] := by
  repeat' refine List.forall_mem_cons.2 ⟨rfl, ?_⟩
  exact fun t ht => nomatch ht

/-- A filled node is the node with its children filled, and `Supplied` with what
it lacks. -/
theorem supplied_fill (t : Tree) (path : List String) :
    (t.kind.map fun c => c.fill (innerPath t.kind path)).Supplied path (t.fill path).kind := by
  have hsupplied := supplied_fillLayer path (t.kind.map fun c => c.fill (innerPath t.kind path))
  rwa [← fillLayer_innerPath, innerPath_map, ← kind_fill] at hsupplied

/-- `fill` leaves a complete tree as it is. -/
theorem fill_of_complete {t : Tree} (h : ∀ x ∈ t.inPackages path, x.2.kind.isComplete x.1) :
    t.fill path = t := by
  induction t using ofChildren generalizing path with
  | h t ih =>
      rw [inPackages_eq, List.forall_mem_cons] at h
      have hchildren : ∀ c ∈ t.children, c.fill (innerPath t.kind path) = c := fun c hc =>
        ih c hc fun x hx => h.2 x (List.mem_flatMap.2 ⟨c, hc, hx⟩)
      obtain ⟨id, span, kind⟩ := t
      rw [fill_eq, Kind.map_congr hchildren, Kind.map_id, fillLayer_innerPath,
        fillLayer_of_isComplete h.1]
      rfl

/-- A node of a filled tree is one of the `fillers`, or it was there and is
filled. -/
theorem mem_inPackages_fill {t s : Tree} {path outer : List String}
    (h : (outer, s) ∈ (t.fill path).inPackages path) :
    s ∈ fillers ∨ ∃ r, (outer, r) ∈ t.inPackages path ∧ s = r.fill outer := by
  induction t using ofChildren generalizing path with
  | h t ih =>
      rw [inPackages_eq, innerPath_fill] at h
      rcases List.mem_cons.1 h with heq | h
      · cases heq
        exact .inr ⟨t, inPackages_eq t _ ▸ List.mem_cons_self, rfl⟩
      · obtain ⟨c', hc', hs⟩ := List.mem_flatMap.1 h
        rw [children, kind_fill] at hc'
        rcases mem_children_fillLayer hc' with hc' | hfiller
        · rw [Kind.children_map] at hc'
          obtain ⟨c, hc, rfl⟩ := List.mem_map.1 hc'
          refine (ih c hc hs).imp_right fun ⟨r, hr, heq⟩ => ⟨r, ?_, heq⟩
          rw [inPackages_eq]
          exact List.mem_cons_of_mem _ (List.mem_flatMap.2 ⟨c, hc, hr⟩)
        · rw [inPackages_of_fillers _ c' hfiller] at hs
          cases List.mem_singleton.1 hs
          exact .inl hfiller

/-- `fill` keeps all nodes, in their order, each filled in its place. -/
theorem inPackages_sublist_fill (t : Tree) (path : List String) :
    ((t.inPackages path).map fun x => (x.1, x.2.fill x.1)).Sublist
      ((t.fill path).inPackages path) := by
  induction t using ofChildren generalizing path with
  | h t ih =>
      rw [inPackages_eq, inPackages_eq (t.fill path), innerPath_fill, List.map_cons,
        List.map_flatMap]
      refine .cons_cons _ ?_
      have hchildren : (t.children.map fun c => c.fill (innerPath t.kind path)).Sublist
          (t.fill path).children := by
        rw [children, children, kind_fill, ← Kind.children_map]
        exact children_sublist_fillLayer _ _
      refine .trans ?_ (hchildren.flatMap _)
      rw [List.flatMap_map]
      exact List.Sublist.flatMap_right _ fun c hc => ih c hc _

/-- Filling in makes a tree complete. -/
theorem isComplete_of_fill {t : Tree} {path : List String} :
    ∀ x ∈ (t.fill path).inPackages path, x.2.kind.isComplete x.1 := by
  have hfillers : ∀ path, ∀ s ∈ fillers, s.kind.isComplete path := by
    intro path
    repeat' refine List.forall_mem_cons.2 ⟨rfl, ?_⟩
    exact fun t ht => nomatch ht
  rintro ⟨outer, s⟩ hs
  rcases mem_inPackages_fill hs with hfiller | ⟨r, -, rfl⟩
  · exact hfillers outer s hfiller
  · exact (supplied_fill r outer).isComplete

end Tree

-- ============================================================ the theorem

open ObjectMachine.Tree in
/-- After `fillAll` no node lacks a part that has a default. Every node that was
there is there in its order, with its identity and its span, and is what it was
with its children filled and `Supplied` with what it lacked. All other nodes are
`fillers`. Filling in once more changes nothing. -/
theorem defaults_are_filled_in (forest : List Tree) :
    (∀ x ∈ allInPackages (fillAll forest), x.2.kind.isComplete x.1)
    ∧ ((allInPackages forest).map fun x => (x.1, x.2.fill x.1)).Sublist
        (allInPackages (fillAll forest))
    ∧ (∀ x ∈ allInPackages forest, (x.2.fill x.1).id? = x.2.id?
        ∧ (x.2.fill x.1).span? = x.2.span?
        ∧ (x.2.kind.map fun c => c.fill (innerPath x.2.kind x.1)).Supplied x.1
            (x.2.fill x.1).kind)
    ∧ (∀ x ∈ allInPackages (fillAll forest), x.2 ∈ fillers
        ∨ ∃ r, (x.1, r) ∈ allInPackages forest ∧ x.2 = r.fill x.1)
    ∧ fillAll (fillAll forest) = fillAll forest := by
  refine ⟨fun x hx => ?_, ?_, fun x _ => ?_, fun x hx => ?_, ?_⟩
  · obtain ⟨t', ht', hx⟩ := List.mem_flatMap.1 hx
    obtain ⟨t, -, rfl⟩ := List.mem_map.1 ht'
    exact isComplete_of_fill x hx
  · rw [allInPackages, allInPackages, fillAll, List.map_flatMap, List.flatMap_map]
    exact List.Sublist.flatMap_right _ fun t _ => inPackages_sublist_fill t []
  · exact ⟨by rw [fill_eq]; rfl, by rw [fill_eq]; rfl, supplied_fill x.2 x.1⟩
  · obtain ⟨t', ht', hx⟩ := List.mem_flatMap.1 hx
    obtain ⟨t, ht, rfl⟩ := List.mem_map.1 ht'
    exact (mem_inPackages_fill hx).imp_right fun ⟨r, hr, heq⟩ =>
      ⟨r, List.mem_flatMap.2 ⟨t, ht, hr⟩, heq⟩
  · rw [fillAll, fillAll, List.map_map]
    exact List.map_congr_left fun t _ => fill_of_complete isComplete_of_fill

end ObjectMachine
