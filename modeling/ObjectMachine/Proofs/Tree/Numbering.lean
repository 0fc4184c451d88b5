/-
Numbering and targets, node by node.

Linking changes nothing in a tree but the identities of its nodes and the
targets of its references. `stripped` takes both away again, so a tree that
has none is found back under whatever linking made of it.

Read in preorder, numbering is a matter of lists: the nodes that have no
identity get the next free ones, in order (`numberedFrom`).
-/
import Mathlib
import ObjectMachine.Program.Link
import ObjectMachine.Proofs.Tree.Layers

namespace ObjectMachine.Tree

-- ======================================= without identities and targets

/-- No node has an identity, and no reference a target. -/
def Bare (t : Tree) : Prop := ∀ s ∈ t.preorder, s.id? = none ∧ s.kind.target? = none

instance (t : Tree) : Decidable t.Bare :=
  inferInstanceAs (Decidable (∀ s ∈ t.preorder, s.id? = none ∧ s.kind.target? = none))

/-- The tree without identities and targets. -/
def stripped : Tree → Tree := rebuild fun t => .node none t.span? (t.kind.withTarget none)

theorem stripped_eq (t : Tree) :
    t.stripped = .node none t.span? ((t.kind.map stripped).withTarget none) := by
  rw [stripped, rebuild, fold_eq]
  rfl

theorem kind_stripped (t : Tree) : t.stripped.kind = (t.kind.map stripped).withTarget none := by
  rw [stripped_eq]
  rfl

theorem members_stripped (t : Tree) : t.stripped.members = t.members.map stripped := by
  rw [members, kind_stripped, Kind.members_withTarget, Kind.members_map]
  rfl

@[simp] theorem isPackage_stripped (t : Tree) : t.stripped.kind.isPackage = t.kind.isPackage := by
  rw [kind_stripped, Kind.isPackage_withTarget, Kind.isPackage_map]

/-- `stripped` leaves packages what they are, so it does not matter when they
are left out. -/
theorem map_stripped_filter (ts : List Tree) :
    (ts.filter fun s => !s.kind.isPackage).map stripped
      = (ts.map stripped).filter fun s => !s.kind.isPackage := by
  have hsame : (fun s : Tree => !s.kind.isPackage) ∘ stripped = fun s => !s.kind.isPackage :=
    funext fun s => by rw [Function.comp_apply, isPackage_stripped]
  rw [List.filter_map, hsame]

theorem preorder_stripped (t : Tree) : t.stripped.preorder = t.preorder.map stripped := by
  induction t using ofChildren with
  | h t ih =>
      have hchildren : t.stripped.children = t.children.map stripped := by
        rw [children, kind_stripped, Kind.children_withTarget, Kind.children_map]
        rfl
      rw [preorder_eq, preorder_eq, hchildren, List.map_cons, List.flatMap_map, List.map_flatMap]
      exact congrArg _ (List.flatMap_congr ih)

theorem Bare.child {t c : Tree} (h : t.Bare) (hc : c ∈ t.children) : c.Bare :=
  fun s hs => h s (mem_preorder_of_child hc hs)

theorem Bare.stripped_eq_self {t : Tree} (h : t.Bare) : t.stripped = t := by
  induction t using ofChildren with
  | h t ih =>
      obtain ⟨hid, htarget⟩ := h t (mem_preorder_self t)
      have hchildren : t.kind.map stripped = t.kind := by
        rw [Kind.map_congr fun c hc => ih c hc (h.child hc), Kind.map_id]
      rw [stripped_eq, hchildren, Kind.withTarget_of_target? _ _ htarget]
      obtain ⟨id, span, kind⟩ := t
      rw [show id = none from hid]
      rfl

theorem Bare.map_stripped {ts : List Tree} (h : ∀ t ∈ ts, t.Bare) :
    (ts.flatMap preorder).map stripped = ts.flatMap preorder := by
  rw [List.map_flatMap]
  refine List.flatMap_congr fun t ht => ?_
  rw [← preorder_stripped, (h t ht).stripped_eq_self]

-- ============================================================= targets

section Targets

variable (targets : List (NodeId × NodeId)) (t : Tree)

theorem setTargets_eq : t.setTargets targets = .node t.id? t.span?
    ((t.kind.map (setTargets targets)).withTarget
      ((targets.lookup t.identity).or t.kind.target?)) := by
  rw [setTargets, rebuild, fold_eq]
  obtain ⟨id, span, kind⟩ := t
  cases kind <;> rfl

theorem kind_setTargets : (t.setTargets targets).kind =
    (t.kind.map (setTargets targets)).withTarget
      ((targets.lookup t.identity).or t.kind.target?) := by
  rw [setTargets_eq]
  rfl

@[simp] theorem id?_setTargets : (t.setTargets targets).id? = t.id? := by
  rw [setTargets_eq]
  rfl

@[simp] theorem identity_setTargets : (t.setTargets targets).identity = t.identity := by
  rw [identity, id?_setTargets, identity]

@[simp] theorem name?_setTargets : (t.setTargets targets).name? = t.name? := by
  simp [name?, kind_setTargets]

@[simp] theorem members_setTargets :
    (t.setTargets targets).members = t.members.map (setTargets targets) := by
  simp [members, kind_setTargets]

theorem children_setTargets :
    (t.setTargets targets).children = t.children.map (setTargets targets) := by
  simp [children, kind_setTargets, Kind.children_map]

theorem preorder_setTargets :
    (t.setTargets targets).preorder = t.preorder.map (setTargets targets) := by
  induction t using ofChildren with
  | h t ih =>
      rw [preorder_eq, preorder_eq, children_setTargets, List.map_cons, List.flatMap_map,
        List.map_flatMap]
      exact congrArg _ (List.flatMap_congr ih)

theorem stripped_setTargets : (t.setTargets targets).stripped = t.stripped := by
  induction t using ofChildren with
  | h t ih =>
      rw [stripped_eq, stripped_eq, kind_setTargets, Kind.map_withTarget, Kind.map_map,
        Kind.withTarget_withTarget, Kind.map_congr ih, setTargets_eq]
      rfl

end Targets

-- ========================================================== numbering

/-- What a node says by itself: its span and its kind, with the places of
its children but not what stands there. -/
def outline (t : Tree) : Option Span × Kind Unit := (t.span?, t.kind.map fun _ => ())

theorem reference_of_outline {s s' : Tree} (h : s'.outline = s.outline) {name : String}
    {target : Option NodeId} (hkind : s.kind = .reference name target) :
    s'.kind = .reference name target := by
  have hlayer := congrArg Prod.snd h
  rw [outline, outline, hkind] at hlayer
  cases hkind' : s'.kind with
  | reference name' target' =>
      rw [hkind'] at hlayer
      cases hlayer
      rfl
  | _ =>
      rw [hkind'] at hlayer
      cases hlayer

/-- Gives the entries of a list that have no identity the next ones. -/
def numberedFrom {α : Type} : NodeId → List (Option NodeId × α) → List (Option NodeId × α)
  | _, [] => []
  | next, (some id, a) :: rest => (some id, a) :: numberedFrom next rest
  | next, (none, a) :: rest => (some next, a) :: numberedFrom (next + 1) rest

/-- How many entries have no identity. -/
def unnumbered {α : Type} (l : List (Option NodeId × α)) : Nat :=
  l.countP fun entry => entry.1.isNone

theorem numberedFrom_append {α : Type} (next : NodeId) (l l' : List (Option NodeId × α)) :
    numberedFrom next (l ++ l') = numberedFrom next l ++ numberedFrom (next + unnumbered l) l' := by
  induction l generalizing next with
  | nil => rfl
  | cons entry rest ih =>
      obtain ⟨_ | id, a⟩ := entry
      · simp [numberedFrom, ih, unnumbered, Nat.add_assoc, Nat.add_comm 1]
      · simp [numberedFrom, ih, unnumbered]

theorem map_snd_numberedFrom {α : Type} (next : NodeId) (l : List (Option NodeId × α)) :
    (numberedFrom next l).map Prod.snd = l.map Prod.snd := by
  induction l generalizing next with
  | nil => rfl
  | cons entry rest ih =>
      obtain ⟨_ | id, a⟩ := entry <;> simp [numberedFrom, ih]

/-- Where nothing has an identity, `numberedFrom` gives them out one by one. -/
theorem map_fst_numberedFrom {α : Type} (next : NodeId) {l : List (Option NodeId × α)}
    (h : ∀ entry ∈ l, entry.1 = none) :
    (numberedFrom next l).map Prod.fst = (List.range' next l.length).map some := by
  induction l generalizing next with
  | nil => rfl
  | cons entry rest ih =>
      obtain ⟨id, a⟩ := entry
      obtain rfl : id = none := h _ List.mem_cons_self
      simp [numberedFrom, List.range'_succ, ih _ fun e he => h e (List.mem_cons_of_mem _ he)]

/-- `numberedFrom` keeps the identities that were there, and gives out as many
as were missing. -/
theorem filterMap_fst_numberedFrom {α : Type} (next : NodeId) (l : List (Option NodeId × α)) :
    ((numberedFrom next l).filterMap Prod.fst).Perm
      (l.filterMap Prod.fst ++ List.range' next (unnumbered l)) := by
  induction l generalizing next with
  | nil => exact .nil
  | cons entry rest ih =>
      obtain ⟨_ | id, a⟩ := entry
      · have hcount : unnumbered ((none, a) :: rest) = unnumbered rest + 1 := by simp [unnumbered]
        rw [numberedFrom, hcount, List.range'_succ]
        exact ((ih (next + 1)).cons next).trans List.perm_middle.symm
      · have hcount : unnumbered ((some id, a) :: rest) = unnumbered rest := by simp [unnumbered]
        rw [numberedFrom, hcount]
        exact (ih next).cons id

/-- An entry of `numberedFrom` has the identity it had, or had none and has a
new one. -/
theorem mem_numberedFrom {α : Type} {next : NodeId} {l : List (Option NodeId × α)}
    {id? : Option NodeId} {a : α} (h : (id?, a) ∈ numberedFrom next l) :
    ∃ id, id? = some id ∧ ((some id, a) ∈ l ∨ next ≤ id ∧ (none, a) ∈ l) := by
  induction l generalizing next with
  | nil => cases h
  | cons entry rest ih =>
      obtain ⟨_ | old, b⟩ := entry
      · rcases List.mem_cons.1 h with h | h
        · cases h
          exact ⟨next, rfl, .inr ⟨Nat.le_refl _, List.mem_cons_self⟩⟩
        · obtain ⟨id, hid, h | ⟨hle, h⟩⟩ := ih h
          · exact ⟨id, hid, .inl (List.mem_cons_of_mem _ h)⟩
          · exact ⟨id, hid, .inr ⟨Nat.le_of_succ_le hle, List.mem_cons_of_mem _ h⟩⟩
      · rcases List.mem_cons.1 h with h | h
        · cases h
          exact ⟨old, rfl, .inl List.mem_cons_self⟩
        · obtain ⟨id, hid, h | ⟨hle, h⟩⟩ := ih h
          · exact ⟨id, hid, .inl (List.mem_cons_of_mem _ h)⟩
          · exact ⟨id, hid, .inr ⟨hle, List.mem_cons_of_mem _ h⟩⟩

/-- The nodes of a list of trees, each with its identity if it has one. -/
def entries (ts : List Tree) : List (Option NodeId × Option Span × Kind Unit) :=
  (ts.flatMap preorder).map fun s => (s.id?, s.outline)

/-- The next free identity once a node has its own. -/
def afterOwn (t : Tree) (next : NodeId) : NodeId := if t.id?.isSome then next else next + 1

theorem number_run (t : Tree) (next : NodeId) : t.number.run next =
    (.node (some (t.id?.getD next)) t.span? ((t.kind.mapM number).run (t.afterOwn next)).1,
      ((t.kind.mapM number).run (t.afterOwn next)).2) := by
  rw [number, fold_eq, ← number, Kind.mapM_map, afterOwn]
  cases t.id? <;> rfl

/-- `number` leaves all else as it is. -/
theorem stripped_number (t : Tree) (next : NodeId) :
    (t.number.run next).1.stripped = t.stripped := by
  induction t using ofChildren generalizing next with
  | h t ih =>
      rw [number_run, stripped_eq, stripped_eq t, ← Kind.map_mapM_run ih]
      rfl

theorem outline_number (t : Tree) (next : NodeId) :
    (t.number.run next).1.outline = t.outline := by
  have hkind : ((t.kind.mapM number).run (t.afterOwn next)).1.map (fun _ => ())
      = t.kind.map fun _ => () := Kind.map_mapM_run (fun _ _ _ => rfl) _
  rw [number_run, outline, outline, ← hkind]
  rfl

/-- `number` goes through the children one after another. -/
theorem children_number (t : Tree) (next : NodeId) :
    ((t.number.run next).1.children, (t.number.run next).2)
      = (t.children.mapM number).run (t.afterOwn next) := by
  rw [number_run, children, children, ← Kind.children_mapM]
  rfl

theorem entries_append (ts ts' : List Tree) : entries (ts ++ ts') = entries ts ++ entries ts' := by
  simp [entries]

theorem entries_singleton (t : Tree) :
    entries [t] = (t.id?, t.outline) :: entries t.children := by
  simp [entries, preorder_eq t]

/-- `number` is `numberedFrom` on the nodes in preorder, with as many new
identities as were missing. -/
def NumbersInOrder (t : Tree) : Prop :=
  ∀ next, entries [(t.number.run next).1] = numberedFrom next (entries [t])
    ∧ (t.number.run next).2 = next + unnumbered (entries [t])

theorem entries_mapM_number {ts : List Tree} (h : ∀ t ∈ ts, t.NumbersInOrder) (next : NodeId) :
    entries ((ts.mapM number).run next).1 = numberedFrom next (entries ts)
      ∧ ((ts.mapM number).run next).2 = next + unnumbered (entries ts) := by
  induction ts generalizing next with
  | nil => exact ⟨rfl, rfl⟩
  | cons t ts ih =>
      obtain ⟨hfirst, hbetween⟩ := h t List.mem_cons_self next
      obtain ⟨hrest, hend⟩ := ih (fun s hs => h s (List.mem_cons_of_mem _ hs)) (t.number.run next).2
      have hsplit : entries (t :: ts) = entries [t] ++ entries ts := entries_append [t] ts
      simp only [List.mapM_cons, Kind.bind_run, Kind.pure_run]
      constructor
      · rw [← List.singleton_append, entries_append, hfirst, hrest, hbetween, hsplit,
          numberedFrom_append]
      · rw [hend, hbetween, hsplit, unnumbered, unnumbered, unnumbered, List.countP_append,
          Nat.add_assoc]

theorem numbersInOrder (t : Tree) : t.NumbersInOrder := by
  induction t using ofChildren with
  | h t ih =>
      intro next
      obtain ⟨hbelow, hend⟩ := entries_mapM_number ih (t.afterOwn next)
      rw [← children_number] at hbelow hend
      have hid : (t.number.run next).1.id? = some (t.id?.getD next) := by
        rw [number_run]
        rfl
      rw [entries_singleton, entries_singleton, hid, outline_number, hbelow, hend, afterOwn]
      cases t.id? with
      | none => simp [numberedFrom, unnumbered, Nat.add_assoc, Nat.add_comm 1]
      | some id => simp [numberedFrom, unnumbered]

/-- After `number` all nodes have identities. -/
theorem identified_number (t : Tree) (next : NodeId) :
    ∀ s ∈ (t.number.run next).1.preorder, s.id?.isSome := by
  intro s hs
  have hentry : (s.id?, s.outline) ∈ entries [(t.number.run next).1] :=
    List.mem_map_of_mem (by simpa using hs)
  rw [(t.numbersInOrder next).1] at hentry
  obtain ⟨id, hid, -⟩ := mem_numberedFrom hentry
  rw [hid]
  rfl

theorem filterMap_id?_of_identified {ts : List Tree} (h : ∀ s ∈ ts, s.id?.isSome) :
    ts.filterMap id? = ts.map identity := by
  rw [← List.filterMap_eq_map]
  refine List.filterMap_congr fun s hs => ?_
  obtain ⟨id, hid⟩ := Option.isSome_iff_exists.1 (h s hs)
  rw [Function.comp_apply, identity, hid]
  rfl

end ObjectMachine.Tree
