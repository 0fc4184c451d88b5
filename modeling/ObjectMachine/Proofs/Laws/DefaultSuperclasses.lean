/-
Where default superclasses lead.

A class or an object that names no superclass is given a reference to one of
the library, and that is resolved like any other reference to a supertype:
its first name stands for what the innermost of the nodes around introduces
under it, and the rest is followed down through members. The library comes
first whatever is merged into it, so from its own package the way leads to
the class that was meant (`exists_default`); from any other node it leads
somewhere else, as a node has one parent (`climb_of_walk`). So the default
is the class of the library exactly where the package of the library is
what the name stands for.

That is so everywhere if nothing inside the trees that are linked has both
the name of that package and members of its own (`Memberless`). What has no
members cannot take the place of the package: a name that stops there makes
linking fail.
-/
import Mathlib
import ObjectMachine.Proofs.Laws.Linking
import ObjectMachine.Proofs.Laws.Understanding
import ObjectMachine.Proofs.Program.Naming
import ObjectMachine.Proofs.Tree.Growth

namespace ObjectMachine

-- ============================================================== defaults

/-- Of a class or an object that names no superclass, whether it is a
closure. -/
def Kind.unfounded? {α : Type} : Kind α → Option Bool
  | .classDecl _ none _ _ => some false
  | .singleton _ none _ _ _ closure => some closure
  | _ => none

/-- The superclass that `Tree.fill` puts in, by its name. -/
def CoreNames.default (closure : Bool) : String :=
  if closure then closureClass else objectClass

/-- The superclass that is meant, as it stands in the `forest` of the
library. -/
def Prelude.default (closure : Bool) : Tree :=
  if closure then (Build.classNamed "Closure" []).inherits CoreNames.objectClass else objectClass

namespace Tree

/-- A node of a tree, and the names of the packages around both, in the order in
which `fill` passes them down. -/
inductive InPackages : Tree → List String → Tree → List String → Prop
  | here (t : Tree) (path : List String) : InPackages t path t path
  | inside {t c r : Tree} {path outer : List String} (child : c ∈ t.children)
      (stands : InPackages c (innerPath t.kind path) r outer) : InPackages t path r outer

/-- By induction over the tree: a node of a filled tree is one of the `fillers`,
or it was there and is filled inside the packages around it. -/
theorem inPackages_of_mem_fill {t s : Tree} {path : List String}
    (h : s ∈ (t.fill path).preorder) :
    s ∈ fillers ∨ ∃ r outer, t.InPackages path r outer ∧ s = r.fill outer := by
  induction t using ofChildren generalizing path with
  | h t ih =>
      rw [preorder_eq] at h
      rcases List.mem_cons.1 h with rfl | h
      · exact .inr ⟨t, path, .here t path, rfl⟩
      · obtain ⟨c', hc', hs⟩ := List.mem_flatMap.1 h
        rw [children, kind_fill] at hc'
        rcases mem_children_fillLayer hc' with hc' | hfiller
        · rw [Kind.children_map] at hc'
          obtain ⟨c, hc, rfl⟩ := List.mem_map.1 hc'
          rcases ih c hc hs with hfiller | ⟨r, outer, hinside, rfl⟩
          · exact .inl hfiller
          · exact .inr ⟨r, outer, .inside hc hinside, rfl⟩
        · rw [preorder_of_fillers c' hfiller] at hs
          cases List.mem_singleton.1 hs
          exact .inl hfiller

/-- Whatever is `unfounded?`, other than the root class of the library, refers
to `CoreNames.default` once it is filled. -/
theorem superclass?_fill {r : Tree} {outer : List String} {closure : Bool}
    (hunfounded : r.kind.unfounded? = some closure)
    (hroot : ∀ mixins members, r.kind = .classDecl "Object" none mixins members →
      outer ≠ ["wollok", "lang"]) :
    (r.fill outer).kind.superclass? = some (Build.reference (CoreNames.default closure)) := by
  rw [kind_fill]
  cases hkind : r.kind with
  | classDecl name superclass mixins members =>
      rw [hkind] at hunfounded
      cases superclass with
      | some superclass => cases hunfounded
      | none =>
          cases hunfounded
          have hother : isRootClass name outer = false := by
            refine Bool.eq_false_iff.2 fun hnamed => ?_
            rw [isRootClass, Bool.and_eq_true, beq_iff_eq, beq_iff_eq] at hnamed
            obtain ⟨rfl, hpath⟩ := hnamed
            exact hroot mixins members hkind hpath
          simp only [innerPath, Kind.map, Option.map_none, fillLayer, hother]
          rfl
  | singleton name superclass args mixins members own =>
      rw [hkind] at hunfounded
      cases superclass with
      | some superclass => cases hunfounded
      | none =>
          cases hunfounded
          rfl
  | _ =>
      rw [hkind] at hunfounded
      cases hunfounded

theorem Bare.fill {t : Tree} (h : t.Bare) (path : List String) : (t.fill path).Bare := by
  have hfillers : ∀ s ∈ fillers, s.id? = none ∧ s.kind.target? = none := by decide
  have htarget (path : List String) (kind : Kind Tree) :
      (fillLayer path kind).target? = kind.target? := by
    unfold fillLayer
    split <;> rfl
  intro s hs
  rcases mem_preorder_fill hs with hfiller | ⟨r, hr, outer, rfl, -⟩
  · exact hfillers s hfiller
  · obtain ⟨hid, hnone⟩ := h r hr
    refine ⟨by rw [fill_eq]; exact hid, ?_⟩
    rw [kind_fill, htarget]
    cases hkind : r.kind with
    | reference name target =>
        rw [hkind] at hnone
        exact hnone
    | _ => rfl

-- ================================================== names and members

/-- `walk` finds a member by its name where none before has it. -/
theorem walk_of_stripped {t c : Tree} {before after : List Tree} {name : String}
    (hmembers : t.members.map stripped = before ++ c :: after)
    (hbefore : ∀ b ∈ before, b.name? ≠ some name) (hname : c.name? = some name)
    (names : List String) :
    ∃ m ∈ t.members, m.stripped = c ∧ t.walk (name :: names) = m.walk names := by
  obtain ⟨before', rest, heq, rfl, hrest⟩ := List.map_eq_append_iff.1 hmembers
  obtain ⟨m, after', rfl, rfl, -⟩ := List.map_eq_cons_iff.1 hrest
  refine ⟨m, heq ▸ List.mem_append_right _ List.mem_cons_self, rfl, ?_⟩
  have hothers : ∀ b ∈ before', ¬ (b.name? == some name) = true := by
    intro b hb
    rw [beq_iff_eq, ← name?_stripped]
    exact hbefore _ (List.mem_map_of_mem hb)
  have hfound : (m.name? == some name) = true := by
    rw [beq_iff_eq, ← name?_stripped, hname]
  rw [walk, heq, List.find?_append, List.find?_eq_none.2 hothers, Option.none_or,
    List.find?_cons, hfound]

/-- Names are followed one after another. -/
theorem walk_cons_of_walk {t s : Tree} {name : String} (h : t.walk [name] = some s)
    (names : List String) : t.walk (name :: names) = s.walk names := by
  rw [walk] at h ⊢
  split at h
  · next member hfound =>
    obtain rfl : member = s := Option.some.inj h
    rfl
  · cases h

/-- Of a reference, `stripped` takes only the target. -/
theorem kind_of_stripped_reference {t : Tree} {name : String}
    (h : t.stripped = Build.reference name) : ∃ target, t.kind = .reference name target := by
  have hkind := t.kind_stripped
  rw [h] at hkind
  cases hown : t.kind with
  | reference name' target =>
      rw [hown] at hkind
      cases hkind
      exact ⟨target, rfl⟩
  | _ =>
      rw [hown] at hkind
      cases hkind

/-- Nothing in the tree has both the name and members. -/
def Memberless (name : String) (t : Tree) : Prop :=
  ∀ s ∈ t.preorder, s.name? = some name → s.members = []

instance (name : String) (t : Tree) : Decidable (t.Memberless name) :=
  inferInstanceAs (Decidable (∀ s ∈ t.preorder, s.name? = some name → s.members = []))

theorem memberless_iff {name : String} {t : Tree} : t.Memberless name ↔
    (t.name? = some name → t.members = []) ∧ ∀ c ∈ t.children, c.Memberless name := by
  constructor
  · intro h
    exact ⟨h t t.mem_preorder_self, fun c hc s hs => h s (mem_preorder_of_child hc hs)⟩
  · rintro ⟨hself, hbelow⟩ s hs
    rw [preorder_eq] at hs
    rcases List.mem_cons.1 hs with rfl | hs
    · exact hself
    · obtain ⟨c, hc, hs⟩ := List.mem_flatMap.1 hs
      exact hbelow c hc s hs

theorem memberless_stripped {name : String} {t : Tree} :
    t.stripped.Memberless name ↔ t.Memberless name := by
  unfold Memberless
  rw [preorder_stripped, List.forall_mem_map]
  simp only [name?_stripped, members_stripped, List.map_eq_nil_iff]

/-- `fill` gives members to nothing, and puts in no names of packages. -/
theorem Memberless.fill {t : Tree} (h : t.Memberless CoreNames.globalPackage) (path : List String) :
    (t.fill path).Memberless CoreNames.globalPackage := by
  have hfillers : ∀ s ∈ fillers, s.members = [] := by decide
  have hmembers (path : List String) (kind : Kind Tree) :
      (fillLayer path kind).members = kind.members := by
    unfold fillLayer
    split <;> rfl
  intro s hs hname
  rcases mem_preorder_fill hs with hfiller | ⟨r, hr, outer, rfl, -⟩
  · exact hfillers s hfiller
  · rw [name?, kind_fill, name?_fillLayer, Kind.name?_map] at hname
    rw [members, kind_fill, hmembers, Kind.members_map]
    exact List.map_eq_nil_iff.2 (h r hr hname)

theorem Memberless.fill_children {t : Tree}
    (h : ∀ c ∈ t.children, c.Memberless CoreNames.globalPackage)
    (path : List String) : ∀ c ∈ (t.fill path).children, c.Memberless CoreNames.globalPackage := by
  have hfillers : ∀ c ∈ fillers, c.Memberless CoreNames.globalPackage := by decide
  intro c hc
  rw [children, kind_fill] at hc
  rcases mem_children_fillLayer hc with hc | hfiller
  · rw [Kind.children_map] at hc
    obtain ⟨c₀, hc₀, rfl⟩ := List.mem_map.1 hc
    exact (h c₀ hc₀).fill _
  · exact hfillers c hfiller

-- ============================================================== merging

section

variable {Q : Tree → Prop}

theorem forall_mergeMembers {members : List Tree}
    (h : ∀ t ∈ members, Q t ∧ (t.kind.isPackage → ∀ siblings, (∀ s ∈ siblings, Q s) →
      ∀ s ∈ mergeInto siblings t, Q s)) {old : List Tree} (hold : ∀ s ∈ old, Q s) :
    ∀ s ∈ mergeMembers old members, Q s := by
  induction members generalizing old with
  | nil =>
      rw [mergeMembers]
      exact hold
  | cons t rest ih =>
      obtain ⟨⟨ht, hmerge⟩, hrest⟩ := List.forall_mem_cons.1 h
      rw [mergeMembers]
      apply ih hrest
      split
      · next hpackage => exact hmerge hpackage old hold
      · exact List.forall_mem_append.2 ⟨hold, List.forall_mem_singleton.2 ht⟩

/-- A property that trees share with their children is kept by `mergeInto`, if a
package has it that another one of its name has joined. -/
theorem forall_mergeInto (hchild : ∀ t, Q t → ∀ c ∈ t.children, Q c)
    (hjoin : ∀ {name : String} {id id' : Option NodeId} {span span' : Option Span}
      {imports imports' members members' : List Tree},
      Q (.node id span (.package name imports members)) →
      Q (.node id' span' (.package name imports' members')) →
      (∀ s ∈ mergeMembers members members', Q s) →
      Q (.node id span (.package name (imports ++ imports') (mergeMembers members members'))))
    {t : Tree} (ht : Q t) {siblings : List Tree} (h : ∀ s ∈ siblings, Q s) :
    ∀ s ∈ mergeInto siblings t, Q s := by
  have happend : ∀ s ∈ siblings ++ [t], Q s :=
    List.forall_mem_append.2 ⟨h, List.forall_mem_singleton.2 ht⟩
  induction t using ofChildren generalizing siblings with
  | h t ih =>
      by_cases hpackage : t.kind.isPackage
      · obtain ⟨id, span, kind⟩ := t
        cases kind with
        | package name imports members =>
            rw [mergeInto]
            rcases updateFirst?_cases (isPackageNamed (some name))
                (extendPackage imports fun old => mergeMembers old members) siblings with
              hnone | ⟨before, a, after, rfl, ha, hsome⟩
            · rw [hnone]
              exact happend
            · rw [hsome, Option.getD_some]
              obtain ⟨hbefore, hrest⟩ := List.forall_mem_append.1 h
              obtain ⟨hjoined, hafter⟩ := List.forall_mem_cons.1 hrest
              refine List.forall_mem_append.2 ⟨hbefore, List.forall_mem_cons.2 ⟨?_, hafter⟩⟩
              obtain ⟨id', span', kind'⟩ := a
              cases kind' with
              | package name' imports' members' =>
                  obtain rfl : name' = name := by
                    simpa [isPackageNamed, name?, kind, Kind.isPackage, Kind.name?] using ha
                  obtain ⟨-, hmembers⟩ := List.forall_mem_append.1 (hchild _ ht)
                  obtain ⟨-, hmembers'⟩ := List.forall_mem_append.1 (hchild _ hjoined)
                  refine hjoin hjoined ht ?_
                  refine forall_mergeMembers (fun c hc => ⟨hmembers c hc, fun _ s hs => ?_⟩)
                    hmembers'
                  exact ih c (List.mem_append_right imports hc) (hmembers c hc) hs
                    (List.forall_mem_append.2 ⟨hs, List.forall_mem_singleton.2 (hmembers c hc)⟩)
              | _ => simp [isPackageNamed, kind, Kind.isPackage] at ha
        | _ => cases hpackage
      · rw [mergeInto_of_not_isPackage hpackage]
        split
        · exact h
        · exact happend

end

section

variable {name : String}

/-- Packages of one name that are `Memberless` are so together. -/
theorem memberless_mergeInto {t : Tree} (ht : t.Memberless name) {siblings : List Tree}
    (h : ∀ s ∈ siblings, s.Memberless name) : ∀ s ∈ mergeInto siblings t, s.Memberless name := by
  refine forall_mergeInto (fun _ ht => (memberless_iff.1 ht).2) ?_ ht h
  intro own id id' span span' imports imports' members members' hold hnew hmerged
  obtain ⟨hempty, hbelow⟩ := memberless_iff.1 hold
  obtain ⟨hempty', hbelow'⟩ := memberless_iff.1 hnew
  obtain ⟨himports, -⟩ := List.forall_mem_append.1 hbelow
  obtain ⟨himports', -⟩ := List.forall_mem_append.1 hbelow'
  refine memberless_iff.2 ⟨fun hname => ?_, List.forall_mem_append.2
    ⟨List.forall_mem_append.2 ⟨himports, himports'⟩, hmerged⟩⟩
  have hnone : members = [] := hempty hname
  have hnone' : members' = [] := hempty' hname
  rw [hnone, hnone', mergeMembers]
  rfl

/-- What `mergeInto` puts together at the top level leaves all that is further
down `Memberless`. -/
theorem memberless_below_mergeInto {t : Tree} (ht : ∀ c ∈ t.children, c.Memberless name)
    {siblings : List Tree} (h : ∀ s ∈ siblings, ∀ c ∈ s.children, c.Memberless name) :
    ∀ s ∈ mergeInto siblings t, ∀ c ∈ s.children, c.Memberless name := by
  have happend : ∀ s ∈ siblings ++ [t], ∀ c ∈ s.children, c.Memberless name :=
    List.forall_mem_append.2 ⟨h, List.forall_mem_singleton.2 ht⟩
  by_cases hpackage : t.kind.isPackage
  · obtain ⟨id, span, kind⟩ := t
    cases kind with
    | package own imports members =>
        rw [mergeInto]
        rcases updateFirst?_cases (isPackageNamed (some own))
            (extendPackage imports fun old => mergeMembers old members) siblings with
          hnone | ⟨before, a, after, rfl, ha, hsome⟩
        · rw [hnone]
          exact happend
        · rw [hsome, Option.getD_some]
          obtain ⟨hbefore, hrest⟩ := List.forall_mem_append.1 h
          obtain ⟨hjoined, hafter⟩ := List.forall_mem_cons.1 hrest
          refine List.forall_mem_append.2 ⟨hbefore, List.forall_mem_cons.2 ⟨?_, hafter⟩⟩
          obtain ⟨id', span', kind'⟩ := a
          cases kind' with
          | package own' imports' members' =>
              obtain ⟨himports, hmembers⟩ := List.forall_mem_append.1 ht
              obtain ⟨himports', hmembers'⟩ := List.forall_mem_append.1 hjoined
              refine List.forall_mem_append.2
                ⟨List.forall_mem_append.2 ⟨himports', himports⟩, ?_⟩
              exact forall_mergeMembers
                (fun c hc => ⟨hmembers c hc, fun _ _ => memberless_mergeInto (hmembers c hc)⟩)
                hmembers'
          | _ => simp [isPackageNamed, kind, Kind.isPackage] at ha
    | _ => cases hpackage
  · rw [mergeInto_of_not_isPackage hpackage]
    split
    · exact h
    · exact happend

theorem memberless_below_mergeAll {base forest : List Tree}
    (hbase : ∀ t ∈ base, ∀ c ∈ t.children, c.Memberless name)
    (hforest : ∀ t ∈ forest, ∀ c ∈ t.children, c.Memberless name) :
    ∀ t ∈ mergeAll base forest, ∀ c ∈ t.children, c.Memberless name := by
  unfold mergeAll
  induction forest generalizing base with
  | nil => exact hbase
  | cons t rest ih =>
      obtain ⟨ht, hrest⟩ := List.forall_mem_cons.1 hforest
      exact ih (memberless_below_mergeInto ht hbase) hrest

/-- The first of the trees is a package of the name, and no other tree has
the name. -/
def FirstNamed (name : String) (ts : List Tree) : Prop :=
  ∃ first others, ts = first :: others ∧ isPackageNamed (some name) first
    ∧ ∀ t ∈ others, t.name? ≠ some name

theorem isPackageNamed_extendPackage {own : Option String} {t : Tree} (h : isPackageNamed own t)
    (imports : List Tree) (members : List Tree → List Tree) :
    isPackageNamed own (extendPackage imports members t) := by
  obtain ⟨id, span, kind⟩ := t
  cases kind with
  | package => exact h
  | _ => exact h

/-- `FirstNamed` is kept by `mergeInto`: a package of the name joins the first
tree, and nothing else of that name is let in. -/
theorem FirstNamed.mergeInto {siblings : List Tree} (h : FirstNamed name siblings) (t : Tree) :
    FirstNamed name (mergeInto siblings t) := by
  obtain ⟨first, others, rfl, hfirst, hothers⟩ := h
  have happend (hname : t.name? ≠ some name) : FirstNamed name (first :: others ++ [t]) :=
    ⟨first, others ++ [t], rfl, hfirst,
      List.forall_mem_append.2 ⟨hothers, List.forall_mem_singleton.2 hname⟩⟩
  by_cases hpackage : t.kind.isPackage
  · obtain ⟨id, span, kind⟩ := t
    cases kind with
    | package own imports members =>
        rw [Tree.mergeInto, updateFirst?]
        split
        · exact ⟨_, others, rfl, isPackageNamed_extendPackage hfirst _ _, hothers⟩
        · next hother =>
          have hne : own ≠ name := by
            rintro rfl
            exact hother hfirst
          rcases updateFirst?_cases (isPackageNamed (some own))
              (extendPackage imports fun old => mergeMembers old members) others with
            hnone | ⟨before, a, after, rfl, ha, hsome⟩
          · rw [hnone]
            exact happend fun hname => hne (Option.some.inj hname)
          · rw [hsome]
            obtain ⟨hbefore, hrest⟩ := List.forall_mem_append.1 hothers
            obtain ⟨-, hafter⟩ := List.forall_mem_cons.1 hrest
            refine ⟨first, _, rfl, hfirst,
              List.forall_mem_append.2 ⟨hbefore, List.forall_mem_cons.2 ⟨?_, hafter⟩⟩⟩
            have hjoined := isPackageNamed_extendPackage ha imports
              fun old => mergeMembers old members
            rw [isPackageNamed, Bool.and_eq_true, beq_iff_eq] at hjoined
            rw [hjoined.2]
            exact fun hname => hne (Option.some.inj hname)
    | _ => cases hpackage
  · rw [mergeInto_of_not_isPackage hpackage]
    split
    · exact ⟨first, others, rfl, hfirst, hothers⟩
    · next hnone =>
      refine happend fun hname => hnone ?_
      rw [List.any_cons, hname, hfirst]
      rfl

end

/-- By `Grows`, what is no package is merged around. -/
theorem Grows.isPrefix {old new : List Tree} (h : Grows old new)
    (hothers : ∀ t ∈ old, t.kind.isPackage = false) : old <+: new := by
  induction h with
  | more new => exact List.nil_prefix
  | keep t _ ih =>
      exact (List.prefix_cons_inj t).2 (ih fun s hs => hothers s (List.mem_cons_of_mem _ hs))
  | package => cases hothers _ List.mem_cons_self

/-- By `Grows`, a package that comes first still does, and so does what was
first in it. -/
theorem Grows.first {id : Option NodeId} {span : Option Span} {name : String}
    {imports members old new : List Tree}
    (h : Grows (.node id span (.package name imports members) :: old) new) :
    ∃ imports' members' new', new = .node id span (.package name imports' members') :: new'
      ∧ Grows members members' := by
  cases h with
  | @keep _ new' _ _ => exact ⟨imports, members, new', rfl, .refl members⟩
  | package inside _ => exact ⟨_, _, _, rfl, inside⟩

end Tree

-- ============================================================== library

/-- The classes of the library, as `fill` leaves them. -/
def Prelude.classes : List Tree := (langPackage.fill ["wollok"]).members

theorem Prelude.fillAll_forest : Tree.fillAll forest
    = [Build.package "wollok" [Build.package "lang" classes, libPackage.fill ["wollok"]]] := rfl

/-- The `forest` of the library comes first in the merged trees, and its
`classes` come first in their package. -/
theorem Program.merged_with_library (packages : List Tree) :
    ∃ imports imports' more libraries others,
      Tree.mergeAll [] (Tree.fillAll (Prelude.forest ++ packages))
        = .node none none (.package "wollok" imports
            (.node none none (.package "lang" imports' (Prelude.classes ++ more)) :: libraries))
          :: others
      ∧ ∀ t ∈ others, t.name? ≠ some CoreNames.globalPackage := by
  have hclasses : ∀ t ∈ Prelude.classes, t.kind.isPackage = false := by
    set_option maxRecDepth 8000 in decide
  have hall : Tree.mergeAll [] (Tree.fillAll (Prelude.forest ++ packages))
      = Tree.mergeAll (Tree.fillAll Prelude.forest) (Tree.fillAll packages) := by
    rw [Tree.fillAll, List.map_append, Tree.mergeAll, List.foldl_append]
    rfl
  have hnamed : Tree.FirstNamed CoreNames.globalPackage
      (Tree.mergeAll (Tree.fillAll Prelude.forest) (Tree.fillAll packages)) := by
    have hfirst : Tree.FirstNamed CoreNames.globalPackage (Tree.fillAll Prelude.forest) :=
      ⟨_, [], Prelude.fillAll_forest, rfl, List.forall_mem_nil _⟩
    unfold Tree.mergeAll
    generalize Tree.fillAll Prelude.forest = base at hfirst
    induction Tree.fillAll packages generalizing base with
    | nil => exact hfirst
    | cons t rest ih => exact ih _ (hfirst.mergeInto t)
  obtain ⟨first, others, hmerged, -, hothers⟩ := hnamed
  have hgrows := Tree.Grows.mergeAll (Tree.fillAll Prelude.forest) (Tree.fillAll packages)
  rw [hmerged, Prelude.fillAll_forest] at hgrows
  obtain ⟨imports, members, others', heq, hinside⟩ := hgrows.first
  obtain ⟨imports', classes, libraries, rfl, hlang⟩ := hinside.first
  obtain ⟨more, rfl⟩ := hlang.isPrefix hclasses
  cases heq
  exact ⟨imports, imports', more, libraries, others, hall.trans hmerged, hothers⟩

namespace Program

variable {p : Program}

-- ============================================================= upwards

/-- `walk` goes down one level for each name, so as many times `parent?` leads
back. -/
theorem climb_of_walk (hp : p.root.Numbered) {t s : Tree} {names : List String}
    (ht : t ∈ p.root.preorder) (h : t.walk names = some s) :
    (·.bind p.parent?)^[names.length] (some s.identity) = some t.identity := by
  induction names generalizing t with
  | nil =>
      cases h
      rfl
  | cons name rest ih =>
      rw [Tree.walk] at h
      split at h
      · next member hfound =>
        have hmember := List.mem_of_find?_eq_some hfound
        rw [List.length_cons, Function.iterate_succ_apply',
          ih (Tree.mem_preorder_trans ht (Tree.mem_preorder_of_member hmember)) h]
        exact parent?_of_child hp ht (Kind.mem_children_of_mem_members hmember)
      · cases h

/-- What a name stands for to a node and the nodes around it: what the innermost
of them introduces under it, as a `contribution` to the lexical scope. -/
def sees? (p : Program) (id : NodeId) (name : String) : Option NodeId :=
  Scope.nested? ((id :: p.ancestors id).map (p.contribution .lexical)) name

theorem name?_of_sees? (hp : p.root.Numbered) {id found : NodeId} {name : String}
    (h : p.sees? id name = some found) : p.name? found = some name := by
  obtain ⟨scope, hscope, hget⟩ := List.exists_of_findSome?_eq_some h
  obtain ⟨node, -, rfl⟩ := List.mem_map.1 hscope
  exact name?_of_contribution hp (Scope.mem_of_get? hget)

/-- The lexical scope of a child, `scopeWith`, is what its module `sees?`. -/
theorem scopeWith_child (hp : p.root.Numbered) {t c : Tree} (ht : t ∈ p.root.preorder)
    (hc : c ∈ t.children) :
    (p.scopeWith .lexical c.identity).get? = p.sees? t.identity := by
  obtain ⟨above, hbelow⟩ := Tree.exists_below_of_mem .root ht
  funext name
  rw [sees?, Scope.nested?_eq, scopeWith, ancestors_of_below hp (hbelow.child hc),
    ancestors_of_below hp hbelow, List.map_cons, ← List.map_reverse, List.flatMap_def]

/-- A superclass that is named without a target leads to what the first name
`sees?` at its module, and from there along a `walk`. -/
theorem superclass?_of_reference {forest : List Tree} (hbare : ∀ t ∈ forest, t.Bare)
    (hlink : link none forest = .ok p) {s r : Tree} (hs : s ∈ p.root.preorder)
    (hr : s.kind.superclass? = some r) {name : String} {target : Option NodeId}
    (hkind : r.kind = .reference name target) :
    ∃ superclass, p.superclass? s.identity = some superclass
      ∧ p.resolveName? (p.sees? s.identity) name = some superclass := by
  obtain ⟨root, targets, hlinks⟩ := links_of_link hlink
  have hp := hlinks.numbered_outcome
  have hmem := List.mem_append_right s.kind.mixins (Option.mem_toList.2 hr)
  have hchild : r ∈ s.children := Kind.mem_children_of_supertype hmem
  have hreference : p.kind? r.identity = some (.reference name target) := by
    rw [← hkind]
    exact kind?_of_mem hp (Tree.mem_preorder_trans hs
      (Tree.mem_preorder_of_child hchild r.mem_preorder_self))
  obtain ⟨superclass, -, rfl, hexplains, -⟩ :=
    references_are_explained (by simp) hbare hlink hreference
  have hsupertype : p.IsSupertype r.identity :=
    ⟨s.identity, s.kind, kind?_of_mem hp hs, r, hmem, rfl⟩
  obtain ⟨hmodule, hresolves⟩ := (hexplains (by simp)).supertype hsupertype
  rw [scopeWith_child hp hs hchild] at hresolves
  refine ⟨superclass, ?_, hresolves⟩
  rw [superclass?_of_isModule (kind?_of_mem hp hs)
    (Kind.isModule_of_isClassOrObject (Kind.isClassOrObject_of_superclass? hr)),
    declaredSuperclass?, hr, Option.bind_some, hkind]
  exact Option.filter_eq_some_iff.2 ⟨rfl, hmodule⟩

/-- The names that lead from the package of the library to a default. -/
def defaultPath (closure : Bool) : List String := ["lang", if closure then "Closure" else "Object"]

theorem dotted_default (closure : Bool) :
    dotted (CoreNames.default closure) = CoreNames.globalPackage :: defaultPath closure := by
  cases closure <;> decide

section

variable {packages : List Tree} (hbare : ∀ t ∈ packages, t.Bare)
  (hlink : linkPackages true packages = .ok p)
include hbare

theorem bare_fillAll : ∀ t ∈ Tree.fillAll (Prelude.forest ++ packages), t.Bare := by
  have hlibrary : ∀ t ∈ Prelude.forest, t.Bare := by
    set_option maxRecDepth 8000 in decide
  intro t ht
  obtain ⟨t₀, ht₀, rfl⟩ := List.mem_map.1 ht
  exact (List.forall_mem_append.2 ⟨hlibrary, hbare⟩ t₀ ht₀).fill []

include hlink

/-- The top level of a program that is linked with the library, without what
`stripped` takes off. -/
theorem members_stripped_root : p.root.members.map Tree.stripped
    = Tree.mergeAll [] (Tree.fillAll (Prelude.forest ++ packages)) := by
  obtain ⟨root, targets, hlinks⟩ := links_of_link hlink
  rw [← Tree.members_stripped, hlinks.stripped_root_of_bare (bare_fillAll hbare)]
  rfl

/-- Every class and every object was written somewhere, and is there as `fill`
leaves it. -/
theorem exists_written {s : Tree} (hs : s ∈ p.root.preorder) (hclass : s.kind.isClassOrObject) :
    ∃ t ∈ Prelude.forest ++ packages, ∃ r outer, t.InPackages [] r outer
      ∧ s.stripped = r.fill outer := by
  have hfillers : ∀ s ∈ Tree.fillers, s.kind.isClassOrObject = false := by decide
  obtain ⟨root, targets, hlinks⟩ := links_of_link hlink
  have hstripped :
      s.stripped ∈ (merged none (Tree.fillAll (Prelude.forest ++ packages))).preorder := by
    have hroot : p.root.stripped = merged none (Tree.fillAll (Prelude.forest ++ packages)) :=
      hlinks.stripped_root_of_bare (bare_fillAll hbare)
    rw [← hroot, Tree.preorder_stripped]
    exact List.mem_map_of_mem hs
  have hclass' : s.stripped.kind.isClassOrObject := by
    rw [Tree.kind_stripped, Kind.isClassOrObject_withTarget, Kind.isClassOrObject_map]
    exact hclass
  rw [Tree.preorder_eq] at hstripped
  rcases List.mem_cons.1 hstripped with heq | hstripped
  · rw [heq] at hclass'
    cases hclass'
  · obtain ⟨s', hs', -, hsame⟩ := (joins_merged [] _).origin hstripped
    obtain rfl := hsame (Kind.not_isPackage_of_isClassOrObject hclass')
    obtain ⟨t', ht', hs'⟩ := List.mem_flatMap.1 hs'
    obtain ⟨t, ht, rfl⟩ := List.mem_map.1 ht'
    rcases Tree.inPackages_of_mem_fill hs' with hfiller | ⟨r, outer, hinside, heq⟩
    · rw [hfillers _ hfiller] at hclass'
      cases hclass'
    · exact ⟨t, ht, r, outer, hinside, heq⟩

/-- From the package of the library the `defaultPath` leads to the defaults,
whatever was merged into it. -/
theorem exists_default : ∃ library ∈ p.root.members,
    p.root.walk [CoreNames.globalPackage] = some library
      ∧ (∀ t ∈ p.root.members, t.name? = some CoreNames.globalPackage → t = library)
      ∧ ∀ closure, ∃ default, library.walk (defaultPath closure) = some default
        ∧ default.stripped = Prelude.default closure := by
  obtain ⟨imports, imports', more, libraries, others, hmerged, hothers⟩ :=
    merged_with_library packages
  have htop := members_stripped_root hbare hlink
  rw [hmerged] at htop
  obtain ⟨library, others', hmembers, hlibrary, hothers'⟩ := List.map_eq_cons_iff.1 htop
  have hname : library.name? = some CoreNames.globalPackage := by
    rw [← Tree.name?_stripped, hlibrary]
    rfl
  refine ⟨library, hmembers ▸ List.mem_cons_self, ?_, fun t ht htname => ?_, fun closure => ?_⟩
  · rw [Tree.walk_first hmembers hname]
    rfl
  · rw [hmembers] at ht
    rcases List.mem_cons.1 ht with rfl | ht
    · rfl
    · refine absurd htname ?_
      rw [← Tree.name?_stripped]
      exact hothers _ (hothers' ▸ List.mem_map_of_mem ht)
  · have hinside : library.members.map Tree.stripped = [] ++ .node none none
        (.package "lang" imports' (Prelude.classes ++ more)) :: libraries := by
      rw [← Tree.members_stripped, hlibrary]
      rfl
    obtain ⟨before, after, hclasses, hbefore⟩ : ∃ before after,
        Prelude.classes = before ++ Prelude.default closure :: after
          ∧ ∀ t ∈ before, t.name? ≠ (Prelude.default closure).name? := by
      have hfound : Prelude.classes.find? (fun t => t.name? == (Prelude.default closure).name?)
          = some (Prelude.default closure) := by
        cases closure <;> rfl
      obtain ⟨-, before, after, hclasses, hbefore⟩ := List.find?_eq_some_iff_append.1 hfound
      exact ⟨before, after, hclasses, fun t ht => by simpa using hbefore t ht⟩
    obtain ⟨lang, hlang, hstripped, hwalk⟩ :=
      Tree.walk_of_stripped hinside nofun rfl [if closure then "Closure" else "Object"]
    have hmembers' : lang.members.map Tree.stripped
        = before ++ Prelude.default closure :: (after ++ more) := by
      rw [← Tree.members_stripped, hstripped]
      show Prelude.classes ++ more = _
      rw [hclasses, List.append_assoc]
      rfl
    have hdefault : (Prelude.default closure).name?
        = some (if closure then "Closure" else "Object") := by
      cases closure <;> rfl
    rw [hdefault] at hbefore
    obtain ⟨default, -, hwritten, hfound⟩ := Tree.walk_of_stripped hmembers' hbefore hdefault []
    exact ⟨default, (hwalk.trans hfound).trans rfl, hwritten⟩

/-- Where everything further down is `Memberless`, the package of the library
alone has members under its name. -/
theorem eq_library_of_memberless
    (hmemberless : ∀ t ∈ packages, ∀ c ∈ t.children, c.Memberless CoreNames.globalPackage)
    {library : Tree}
    (honly : ∀ t ∈ p.root.members, t.name? = some CoreNames.globalPackage → t = library)
    {s : Tree} (hs : s ∈ p.root.preorder) (hname : s.name? = some CoreNames.globalPackage)
    (hmembers : s.members ≠ []) : s = library := by
  obtain ⟨root, targets, hlinks⟩ := links_of_link hlink
  obtain ⟨top, hkind, -⟩ := Tree.environment_of_stripped hlinks.stripped_root rfl
  have hbelow : ∀ t ∈ Tree.mergeAll [] (Tree.fillAll (Prelude.forest ++ packages)),
      ∀ c ∈ t.children, c.Memberless CoreNames.globalPackage := by
    have hlibrary : ∀ t ∈ Prelude.forest, ∀ c ∈ t.children,
        c.Memberless CoreNames.globalPackage := by
      set_option maxRecDepth 8000 in decide
    have hall : ∀ t ∈ Tree.fillAll (Prelude.forest ++ packages), ∀ c ∈ t.children,
        c.Memberless CoreNames.globalPackage := by
      intro t ht
      obtain ⟨t₀, ht₀, rfl⟩ := List.mem_map.1 ht
      exact Tree.Memberless.fill_children
        (List.forall_mem_append.2 ⟨hlibrary, hmemberless⟩ t₀ ht₀) []
    exact Tree.memberless_below_mergeAll nofun hall
  rw [Tree.preorder_eq] at hs
  rcases List.mem_cons.1 hs with rfl | hs
  · rw [Tree.name?, hkind] at hname
    cases hname
  · obtain ⟨t, ht, hs⟩ := List.mem_flatMap.1 hs
    have ht' : t ∈ p.root.members := by
      rw [Tree.children, hkind] at ht
      rw [Tree.members, hkind]
      exact ht
    rw [Tree.preorder_eq] at hs
    rcases List.mem_cons.1 hs with rfl | hs
    · exact honly s ht' hname
    · obtain ⟨c, hc, hs⟩ := List.mem_flatMap.1 hs
      have hmerged := hbelow t.stripped (by
        rw [← members_stripped_root hbare hlink]
        exact List.mem_map_of_mem ht') c.stripped (by
        rw [Tree.children_stripped]
        exact List.mem_map_of_mem hc)
      exact absurd (Tree.memberless_stripped.1 hmerged s hs hname) hmembers

end

end Program

/-- A class or an object that names no superclass (`unfounded?`), in packages of
these names; the root class of the library is none of them. -/
structure Tree.LacksSuperclass (r : Tree) (outer : List String) (closure : Bool) : Prop where
  unfounded : r.kind.unfounded? = some closure
  notRoot : ∀ mixins members, r.kind = .classDecl "Object" none mixins members →
    outer ≠ ["wollok", "lang"]

namespace Program

/-- `default` is where the name `CoreNames.default` leads, and is as the library
has it. -/
structure HasDefault (p : Program) (closure : Bool) (default : Tree) : Prop where
  found : p.root.walk (dotted (CoreNames.default closure)) = some default
  written : default.stripped = Prelude.default closure

/-- The `superclass?` of a node that names none. It is the default exactly where
the node `sees?` the package of the library under its name; and so it is
everywhere, if nothing inside the trees has members under that name
(`Memberless`). -/
structure TakesDefault (p : Program) (packages : List Tree) (library default s : Tree)
    (superclass : NodeId) : Prop where
  has : p.superclass? s.identity = some superclass
  meant : superclass = default.identity
    ↔ p.sees? s.identity CoreNames.globalPackage = some library.identity
  unhidden : (∀ t ∈ packages, ∀ c ∈ t.children, c.Memberless CoreNames.globalPackage) →
    superclass = default.identity

end Program

open Program in
/-- Every class and every object of a program that is linked with the library
was written somewhere (`Tree.InPackages`), and is there as `Tree.fill` leaves it.
If it was written without superclass, it has one nevertheless, the root class
apart: what `TakesDefault` says of it. -/
theorem default_superclasses {packages : List Tree} (hbare : ∀ t ∈ packages, t.Bare) {p : Program}
    (hlink : linkPackages true packages = .ok p) :
    (∀ s ∈ p.root.preorder, s.kind.isClassOrObject →
      ∃ t ∈ Prelude.forest ++ packages, ∃ r outer, t.InPackages [] r outer
        ∧ s.stripped = r.fill outer)
    ∧ ∃ library, p.root.walk [CoreNames.globalPackage] = some library
      ∧ ∀ closure, ∃ default, p.HasDefault closure default
        ∧ ∀ (r : Tree) (outer : List String), r.LacksSuperclass outer closure →
          ∀ s ∈ p.root.preorder, s.stripped = r.fill outer →
            ∃ superclass, p.TakesDefault packages library default s superclass := by
  refine ⟨fun s hs => exists_written hbare hlink hs, ?_⟩
  obtain ⟨root, targets, hlinks⟩ := links_of_link hlink
  have hp := hlinks.numbered_outcome
  obtain ⟨library, hmember, hlibrary, honly, hdefaults⟩ := exists_default hbare hlink
  have hmem := Tree.mem_preorder_of_member hmember
  refine ⟨library, hlibrary, fun closure => ?_⟩
  obtain ⟨default, hdefault, hwritten⟩ := hdefaults closure
  have hwalk := Tree.walk_cons_of_walk hlibrary (defaultPath closure)
  refine ⟨default, ⟨(dotted_default closure ▸ hwalk).trans hdefault, hwritten⟩, ?_⟩
  intro r outer hlacks s hs hstripped
  -- the reference that was filled in, and what its first name stands for
  obtain ⟨reference, hr, target, hkind⟩ : ∃ reference, s.kind.superclass? = some reference
      ∧ ∃ target, reference.kind = .reference (CoreNames.default closure) target := by
    have hfilled := Tree.superclass?_fill hlacks.unfounded hlacks.notRoot
    rw [← hstripped, Tree.kind_stripped, Kind.superclass?_withTarget, Kind.superclass?_map]
      at hfilled
    obtain ⟨reference, hr, hreference⟩ := Option.map_eq_some_iff.1 hfilled
    exact ⟨reference, hr, Tree.kind_of_stripped_reference hreference⟩
  obtain ⟨superclass, hsuperclass, hresolves⟩ :=
    superclass?_of_reference (bare_fillAll hbare) hlink hs hr hkind
  rw [resolveName?, dotted_default] at hresolves
  obtain ⟨head, htree, hresolves⟩ := Option.bind_eq_some_iff.1 hresolves
  obtain ⟨id, hsees, htree⟩ := Option.bind_eq_some_iff.1 htree
  obtain ⟨hhead, rfl⟩ := (tree?_eq_some_iff hp).1 htree
  obtain ⟨found, hfound, rfl⟩ := Option.map_eq_some_iff.1 hresolves
  -- from the package of the library, and only from there, the default is found
  have hiff : found.identity = default.identity ↔ head.identity = library.identity := by
    constructor
    · intro heq
      have hclimb := climb_of_walk hp hhead hfound
      rw [heq, climb_of_walk hp hmem hdefault] at hclimb
      exact (Option.some.inj hclimb).symm
    · intro heq
      obtain rfl := hp.eq_of_identity hhead hmem heq
      rw [Option.some.inj (hfound.symm.trans hdefault)]
  refine ⟨found.identity, hsuperclass, ?_, fun hmemberless => hiff.2 ?_⟩
  · rw [hiff, hsees, Option.some.injEq]
  · have hname : head.name? = some CoreNames.globalPackage := by
      have hfirst := name?_of_sees? hp hsees
      rwa [Program.name?, kind?_of_mem hp hhead] at hfirst
    have hinside : head.members ≠ [] := by
      intro hnone
      rw [defaultPath, Tree.walk, hnone] at hfound
      cases hfound
    rw [eq_library_of_memberless hbare hlink hmemberless honly hhead hname hinside]

namespace Sample

open Build

/-- A closure, and a class with a method that answers it. -/
def unfounded (closure : Bool) : Tree :=
  let block := .of (.singleton none none [] [] [method "apply" [] []] true)
  if closure then block
  else classNamed "Hen"
    [method "call" ["wollok"] [], method "lay" [] [answer (literal (.singleton block))]]

/-- The class, and another one in the package of the root class. -/
def estate : List Tree :=
  [package "wollok" [package "lang" [classNamed "Egg" []]], package "coop" [unfounded false]]

/-- A class in a package that has a package of its own by the name of the
library's. -/
def annexe : List Tree :=
  [package "coop" [package "wollok" [package "lang" [classNamed "Object" []]], classNamed "Hen" []]]

/-- The class is in the program, under its name, and the closure is in it. -/
theorem unfounded_mem_estate (closure : Bool) : (unfounded closure).fill ["coop"]
    ∈ (Program.merged none (Tree.fillAll (Prelude.forest ++ estate))).preorder := by
  have hhen : (Program.merged none (Tree.fillAll (Prelude.forest ++ estate))).walk ["coop", "Hen"]
      = some ((unfounded false).fill ["coop"]) := rfl
  have hmem := Tree.walk_mem hhen
  cases closure with
  | false => exact hmem
  | true =>
      have hclosure : ((unfounded false).fill ["coop"]).preorder.find?
            (fun t => t.kind.isModule && t.name?.isNone)
          = some ((unfounded true).fill ["coop"]) := rfl
      exact Tree.mem_preorder_trans hmem (List.mem_of_find?_eq_some hclosure)

end Sample

open Program in
/-- The class and the closure have the superclasses that were meant, although
a parameter has the name of the package of the library and another tree has
been merged into it. -/
theorem estate_default_superclasses : ∃ p, linkPackages true Sample.estate = .ok p
    ∧ ∀ closure, ∃ s ∈ p.root.preorder, s.stripped = (Sample.unfounded closure).fill ["coop"]
      ∧ (p.superclass? s.identity).isSome
      ∧ p.superclass? s.identity = p.resolveQualified? (CoreNames.default closure) := by
  have hbare : ∀ t ∈ Sample.estate, t.Bare := by decide
  have hmemberless : ∀ t ∈ Sample.estate, ∀ c ∈ t.children,
      c.Memberless CoreNames.globalPackage := by
    decide
  have hsome : (linkPackages true Sample.estate).toOption.any (fun _ => true) = true := by
    decide +kernel
  obtain ⟨p, hlink, -⟩ := linkPackages_of_any hsome
  obtain ⟨root, targets, hlinks⟩ := links_of_link hlink
  have hroot : p.root.stripped = merged none (Tree.fillAll (Prelude.forest ++ Sample.estate)) :=
    hlinks.stripped_root_of_bare (bare_fillAll hbare)
  obtain ⟨-, library, -, hdefaults⟩ := default_superclasses hbare hlink
  refine ⟨p, hlink, fun closure => ?_⟩
  obtain ⟨default, hdefault, hall⟩ := hdefaults closure
  have hfilled : (Sample.unfounded closure).fill ["coop"] ∈ p.root.stripped.preorder := by
    rw [hroot]
    exact Sample.unfounded_mem_estate closure
  rw [Tree.preorder_stripped] at hfilled
  obtain ⟨s, hs, hstripped⟩ := List.mem_map.1 hfilled
  obtain ⟨superclass, hsuperclass, -, hmeant⟩ := hall (Sample.unfounded closure) ["coop"]
    ⟨by cases closure <;> rfl, fun _ _ _ => by decide⟩ s hs hstripped
  rw [hmeant hmemberless] at hsuperclass
  refine ⟨s, hs, hstripped, by rw [hsuperclass]; rfl, ?_⟩
  rw [hsuperclass, resolveQualified?, hdefault.found]
  rfl

/-- A package that stands next to a class and has the name of the library's
gives it another superclass than the one that was meant, which it does not
even inherit. -/
theorem annexe_takes_default : ∃ p, linkPackages true Sample.annexe = .ok p
    ∧ (∀ t ∈ Sample.annexe, t.Bare)
    ∧ ∃ hen annexed object, p.resolveQualified? "coop.Hen" = some hen
      ∧ p.resolveQualified? "coop.wollok.lang.Object" = some annexed
      ∧ p.resolveQualified? CoreNames.objectClass = some object
      ∧ p.superclass? hen = some annexed ∧ annexed ≠ object ∧ p.inherits hen object = false := by
  obtain ⟨p, hlink, htest⟩ : ∃ p, linkPackages true Sample.annexe = .ok p
      ∧ ((p.resolveQualified? "coop.Hen").any fun hen =>
        (p.resolveQualified? "coop.wollok.lang.Object").any fun annexed =>
          (p.resolveQualified? CoreNames.objectClass).any fun object =>
            decide (p.superclass? hen = some annexed ∧ annexed ≠ object
              ∧ p.inherits hen object = false)) = true :=
    linkPackages_of_any (by decide +kernel)
  obtain ⟨hen, hhen, htest⟩ := (Option.any_eq_true _ _).1 htest
  obtain ⟨annexed, hannexed, htest⟩ := (Option.any_eq_true _ _).1 htest
  obtain ⟨object, hobject, htest⟩ := (Option.any_eq_true _ _).1 htest
  exact ⟨p, hlink, by decide, hen, annexed, object, hhen, hannexed, hobject,
    of_decide_eq_true htest⟩

end ObjectMachine
