/-
Programs that do not use the reserved local.

An always block puts away what it is entered with in a local of its own,
`previousLocal`. A program can declare a variable of that name. If none of
its nodes has it, no code of the program binds it: a global is bound under
its qualified name, which is the declared name or has a dot in it.
-/
import Mathlib
import ObjectMachine.Proofs.Session.Reached

namespace ObjectMachine

/-- `joinDots` leaves a dot between two pieces. -/
theorem dot_mem_joinDots (a b : String) (pieces : List String) :
    '.' ∈ (joinDots (a :: b :: pieces)).toList := by
  rw [joinDots, String.intercalate_cons_cons]
  simp

/-- A last piece that is not a certain name without dots does not become it by
`joinDots`. -/
theorem joinDots_ne {name reserved : String} (path : List String) (hname : name ≠ reserved)
    (hdots : '.' ∉ reserved.toList) : joinDots (path ++ [name]) ≠ reserved := by
  cases path with
  | nil =>
      rw [List.nil_append, joinDots, String.intercalate_singleton]
      exact hname
  | cons first rest =>
      intro heq
      obtain ⟨b, pieces, hmore⟩ := List.exists_cons_of_ne_nil
        (List.append_ne_nil_of_right_ne_nil rest (List.cons_ne_nil name []))
      rw [List.cons_append, hmore] at heq
      exact hdots (heq ▸ dot_mem_joinDots first b pieces)

namespace Program

/-- No node of the program has the name. -/
def Avoids (p : Program) (name : String) : Prop :=
  ∀ t ∈ p.root.preorder, t.name? ≠ some name

variable {p : Program} {reserved : String}

theorem Avoids.kind? (h : p.Avoids reserved) {id : NodeId} {kind : Kind Tree}
    (hkind : p.kind? id = some kind) : kind.name? ≠ some reserved := by
  obtain ⟨t, ht, rfl⟩ := Option.map_eq_some_iff.1 hkind
  exact h t (tree?_mem ht)

/-- The name of a node or the empty text is not the one that the program
`Avoids`. -/
theorem Avoids.name_getD (h : p.Avoids reserved) {t : Tree} (ht : t ∈ p.root.preorder)
    (hempty : "" ≠ reserved) : t.name?.getD "" ≠ reserved := by
  cases hname : t.name? with
  | none => exact hempty
  | some name => exact fun heq => h t ht (hname.trans (congrArg some heq))

/-- The `qualifiedName` of what has a name is its path with the name. -/
theorem qualifiedName_eq {id : NodeId} {kind : Kind Tree} (hkind : p.kind? id = some kind)
    {name : String} (hname : kind.name? = some name) :
    p.qualifiedName id = joinDots (p.path id ++ [name]) := by
  rw [Program.qualifiedName, nameWithin.eq_def]
  simp only [hkind]
  split
  · next hanonymous =>
    cases hanonymous
    cases hname
  · next hsome =>
    cases hsome
    rw [hname]
    rfl
  · next hnone => cases hnone

/-- A `qualifiedName` is not one that the program `Avoids` and that has no
dots. -/
theorem Avoids.qualifiedName (h : p.Avoids reserved) (hdots : '.' ∉ reserved.toList)
    {id : NodeId} {kind : Kind Tree} (hkind : p.kind? id = some kind) {name : String}
    (hname : kind.name? = some name) : p.qualifiedName id ≠ reserved := by
  have hne : name ≠ reserved := fun heq => h.kind? hkind (hname.trans (congrArg some heq))
  rw [qualifiedName_eq hkind hname]
  exact joinDots_ne _ hne hdots

theorem Avoids.globalName? (h : p.Avoids reserved) (hdots : '.' ∉ reserved.toList)
    {target : NodeId} {name : String} (hname : p.globalName? target = some name) :
    name ≠ reserved := by
  unfold Program.globalName? at hname
  split at hname
  · next hkind =>
    cases hname
    exact h.qualifiedName hdots hkind rfl
  · next hkind =>
    split at hname
    · cases hname
      exact h.qualifiedName hdots hkind rfl
    · cases hname
  · cases hname

/-- None of the `boundNames` of a node is one that the program `Avoids`. -/
theorem Avoids.boundNames (h : p.Avoids reserved) (hdots : '.' ∉ reserved.toList)
    (hempty : "" ≠ reserved) {t : Tree} (ht : t ∈ p.root.preorder) {name : String}
    (hname : name ∈ p.boundNames t) : name ≠ reserved := by
  have hchild : ∀ c ∈ t.kind.children, c.name?.getD "" ≠ reserved := fun c hc =>
    h.name_getD (Tree.mem_preorder_trans ht
      (Tree.mem_preorder_of_child hc (Tree.mem_preorder_self c))) hempty
  have hown := h t ht
  unfold Tree.name? at hown
  unfold Program.boundNames at hname
  split at hname
  · next hkind =>
    rw [List.mem_singleton.1 hname]
    rw [hkind] at hown
    exact fun heq => hown (congrArg some heq)
  · next place _ hkind =>
    rw [hkind] at hchild
    cases hplace : p.placeName place with
    | error _ =>
        rw [hplace] at hname
        cases hname
    | ok written =>
        rw [hplace] at hname
        rw [List.mem_singleton.1 hname]
        simp only [placeName, bind_ok_iff, pure_ok_iff] at hplace
        obtain ⟨target, -, rfl⟩ := hplace
        cases hglobal : p.globalName? target with
        | none => exact hchild place (by simp [Kind.children])
        | some global => exact h.globalName? hdots hglobal
  · next param _ _ hkind =>
    rw [hkind] at hchild
    rw [List.mem_singleton.1 hname]
    exact hchild param (by simp [Kind.children])
  · cases hname

end Program

/-- A name that the program `Avoids` is bound by none of its code
(`Orderly`). -/
theorem Engine.orderly_of_reserved {e : Engine} {reserved : String} (hnatives : e.natives.Lawful)
    (h : e.program.Avoids reserved) (hdots : '.' ∉ reserved.toList) (hempty : "" ≠ reserved)
    (hexception : exceptionLocal ≠ reserved) : e.Orderly (· ≠ reserved) where
  exception := hexception
  program t ht _ hname := h.boundNames hdots hempty ht hname
  natives := hnatives
  globals id hid := by
    have hvar := (List.mem_filter.1 hid).2
    cases hkind : e.program.kind? id with
    | none =>
        rw [Program.isKind, hkind] at hvar
        cases hvar
    | some kind =>
        rw [Program.isKind, hkind] at hvar
        cases kind with
        | varDecl name constant value => exact h.qualifiedName hdots hkind rfl
        | _ => cases hvar

/-- `previousLocal`, the local of always blocks, is bound by no program that
avoids it. -/
theorem Engine.orderly_of_avoids {e : Engine} (hnatives : e.natives.Lawful)
    (h : e.program.Avoids previousLocal) : e.Orderly (· ≠ previousLocal) :=
  orderly_of_reserved hnatives h (by decide) (by decide) (by decide)

end ObjectMachine
