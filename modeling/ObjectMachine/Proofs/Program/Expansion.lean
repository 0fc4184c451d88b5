/-
The expansion of a hierarchy, and the relation it explores.

`expand` is bounded by a number of levels. `Expands` is the same listing
without a bound: a derivation of it is a finite run, so that `hierarchy`
has a derivation says that the bound is never met, also where supertypes
run in a circle.

What a run lists is new, comes from where the run started and has its
supertypes listed when the run ends. So a run from nothing lists exactly
what can be reached. Where supertypes do not run in a circle, the run
inside another one differs from a run from nothing only by what was listed
before: modules listed before bring nothing that is not listed too.

The search for a constructor is bounded as well, and its bound is not met
either: it passes from a module to its superclass, so it would have to come
back to a module it has passed, and then it finds nothing.
-/
import Mathlib
import ObjectMachine.Program.Hierarchy

namespace ObjectMachine.Program

open Relation

-- ==================================================== declared supertypes

/-- A module names another one as its superclass or as a mixin. -/
def DeclaresSupertype (p : Program) (module supertype : NodeId) : Prop :=
  p.isModule supertype ∧ ∃ kind, p.kind? module = some kind
    ∧ ∃ reference ∈ kind.mixins ++ kind.superclass?.toList,
        reference.kind.target? = some supertype

/-- No module is a supertype of itself, however far up. -/
def Acyclic (p : Program) : Prop := ∀ module, ¬ TransGen p.DeclaresSupertype module module

/-- The supertypes that `hierarchy` goes on with. -/
def Follows (p : Program) (id supertype : NodeId) : Prop := supertype ∈ p.supertypes id

variable {p : Program}

/-- A module exists. -/
theorem lt_size_of_isModule {id : NodeId} (h : p.isModule id) : id < p.size := by
  by_contra hout
  have hnone : p.sites[id]? = none := Array.getElem?_eq_none (Nat.le_of_not_lt hout)
  simp [isModule, isKind, kind?, tree?, site?, hnone] at h

/-- All `supertypes` are modules. -/
theorem isModule_of_mem_supertypes {id supertype : NodeId} (h : supertype ∈ p.supertypes id) :
    p.isModule supertype := by
  unfold supertypes at h
  rcases List.mem_append.1 h with h | h
  · exact (List.mem_filter.1 h).2
  · rw [Option.mem_toList] at h
    unfold superclass? declaredSuperclass? at h
    split at h
    · exact (Option.filter_eq_some_iff.1 h).2
    · exact (Option.filter_eq_some_iff.1 h).2
    · cases h

/-- Only a describe has a `superclass?` that it does not declare. -/
theorem superclass?_of_isModule {id : NodeId} {kind : Kind Tree} (hkind : p.kind? id = some kind)
    (hmodule : kind.isModule) : p.superclass? id = p.declaredSuperclass? kind := by
  rw [superclass?, hkind]
  cases kind with
  | describe => cases hmodule
  | _ => rfl

/-- Of a module, `Follows` is `DeclaresSupertype`. -/
theorem declaresSupertype_iff {id supertype : NodeId} :
    p.DeclaresSupertype id supertype ↔ p.isModule id ∧ p.Follows id supertype := by
  unfold DeclaresSupertype Follows supertypes isModule isKind superclass?
  cases hkind : p.kind? id with
  | none => simp
  | some kind =>
      simp only [Option.any_some, Option.map_some, Option.getD_some, List.mem_append,
        List.mem_filter, List.mem_filterMap, Option.mem_toList, Option.some.injEq, exists_eq_left']
      cases kind with
      | classDecl | singleton | mixin =>
          simp only [declaredSuperclass?, Option.filter_eq_some_iff, Option.bind_eq_some_iff,
            Kind.isModule, Kind.mixins, Kind.superclass?, isModule, isKind]
          grind
      | _ => simp [Kind.isModule, Kind.mixins, Kind.superclass?]

/-- From a module on, `Follows` leads where `DeclaresSupertype` leads. -/
theorem reaches_iff {module id : NodeId} (hmodule : p.isModule module) :
    ReflTransGen p.Follows module id ↔ ReflTransGen p.DeclaresSupertype module id := by
  constructor
  · intro h
    have hboth : p.isModule id ∧ ReflTransGen p.DeclaresSupertype module id := by
      induction h with
      | refl => exact ⟨hmodule, .refl⟩
      | tail _ hlast ih =>
          exact ⟨isModule_of_mem_supertypes hlast,
            ih.2.tail (declaresSupertype_iff.2 ⟨ih.1, hlast⟩)⟩
    exact hboth.2
  · exact ReflTransGen.mono (fun _ _ h => (declaresSupertype_iff.1 h).2) _ _

/-- `Acyclic` programs have no circles of `Follows`. -/
theorem Acyclic.follows (h : p.Acyclic) (id : NodeId) : ¬ TransGen p.Follows id id := by
  intro hcircle
  obtain ⟨last, hpath, hlast⟩ := TransGen.tail'_iff.1 hcircle
  have hmodule := isModule_of_mem_supertypes hlast
  have hlastModule : p.isModule last := by
    rcases ReflTransGen.cases_tail hpath with rfl | ⟨_, _, hstep⟩
    · exact hmodule
    · exact isModule_of_mem_supertypes hstep
  exact h id (.tail' ((reaches_iff hmodule).1 hpath)
    (declaresSupertype_iff.2 ⟨hlastModule, hlast⟩))

-- ====================================================== runs without bound

/-- Listing `ids` and all they inherit from after the modules already `listed`,
to any depth, ends with `out`. This is `hierarchy` without a bound. -/
inductive Expands (p : Program) : List NodeId → List NodeId → List NodeId → Prop where
  | done {listed : List NodeId} : Expands p listed [] listed
  | again {id : NodeId} {listed rest out : List NodeId} :
      id ∈ listed → Expands p listed rest out → Expands p listed (id :: rest) out
  | fresh {id : NodeId} {listed rest between out : List NodeId} :
      id ∉ listed → Expands p (listed ++ [id]) (p.supertypes id) between →
      Expands p between rest out → Expands p listed (id :: rest) out

namespace Expands

variable {listed ids out : List NodeId}

/-- `Expands` only adds at the end, and what it adds has every property that
passes on to supertypes. -/
theorem appends {P : NodeId → Prop} (hP : ∀ x y, P x → p.Follows x y → P y)
    (h : Expands p listed ids out) (hids : ∀ id ∈ ids, P id) :
    ∃ added, out = listed ++ added ∧ ∀ x ∈ added, P x := by
  induction h with
  | done => exact ⟨[], (List.append_nil _).symm, fun x hx => nomatch hx⟩
  | again _ _ ih => exact ih fun id hid => hids id (List.mem_cons_of_mem _ hid)
  | @fresh id listed rest between out _ _ _ ihBelow ihRest =>
      have hid : P id := hids id List.mem_cons_self
      obtain ⟨below, rfl, hbelow⟩ := ihBelow fun supertype h => hP id supertype hid h
      obtain ⟨more, rfl, hmore⟩ := ihRest fun id hid => hids id (List.mem_cons_of_mem _ hid)
      refine ⟨id :: below ++ more, by simp, fun x hx => ?_⟩
      rcases List.mem_append.1 hx with hx | hx
      · rcases List.mem_cons.1 hx with rfl | hx
        · exact hid
        · exact hbelow x hx
      · exact hmore x hx

theorem listed_prefix (h : Expands p listed ids out) : listed <+: out := by
  obtain ⟨added, rfl, -⟩ := h.appends (P := fun _ => True) (fun _ _ _ _ => trivial)
    fun _ _ => trivial
  exact List.prefix_append _ _

theorem nodup (h : Expands p listed ids out) (hlisted : listed.Nodup) : out.Nodup := by
  induction h with
  | done => exact hlisted
  | again _ _ ih => exact ih hlisted
  | fresh hnew _ _ ihBelow ihRest =>
      exact ihRest (ihBelow (List.nodup_append_comm.1 (List.nodup_cons.2 ⟨hnew, hlisted⟩)))

/-- What `Expands` adds is reached by `Follows` from where it starts. -/
theorem reached (h : Expands p listed ids out) {x : NodeId} (hx : x ∈ out) (hnew : x ∉ listed) :
    ∃ id ∈ ids, ReflTransGen p.Follows id x := by
  obtain ⟨added, rfl, hadded⟩ := h.appends (P := fun x => ∃ id ∈ ids, ReflTransGen p.Follows id x)
    (fun _ _ ⟨id, hid, hpath⟩ hstep => ⟨id, hid, hpath.tail hstep⟩) fun id hid => ⟨id, hid, .refl⟩
  exact hadded x ((List.mem_append.1 hx).resolve_left hnew)

/-- `Expands` lists all it is to list. -/
theorem lists (h : Expands p listed ids out) {id : NodeId} (hid : id ∈ ids) : id ∈ out := by
  induction h with
  | done => cases hid
  | again hold hrest ih =>
      rcases List.mem_cons.1 hid with rfl | hid
      · exact hrest.listed_prefix.subset hold
      · exact ih hid
  | fresh _ hbelow hrest _ ihRest =>
      rcases List.mem_cons.1 hid with rfl | hid
      · exact hrest.listed_prefix.subset
          (hbelow.listed_prefix.subset (List.mem_append_right _ List.mem_cons_self))
      · exact ihRest hid

/-- What `Expands` adds has its supertypes listed in the end. -/
theorem closed (h : Expands p listed ids out) {x y : NodeId} (hx : x ∈ out) (hnew : x ∉ listed)
    (hy : p.Follows x y) : y ∈ out := by
  induction h with
  | done => exact absurd hx hnew
  | again _ _ ih => exact ih hx hnew
  | @fresh id listed rest between out _ hbelow hrest ihBelow ihRest =>
      by_cases hbetween : x ∈ between
      · refine hrest.listed_prefix.subset ?_
        by_cases hid : x = id
        · exact hbelow.lists (hid ▸ hy)
        · exact ihBelow hbetween (by simp [hnew, hid])
      · exact ihRest hx hbetween

/-- `Expands` has one end. -/
theorem unique {out' : List NodeId} (h : Expands p listed ids out)
    (h' : Expands p listed ids out') : out = out' := by
  induction h generalizing out' with
  | done =>
      cases h'
      rfl
  | again hold _ ih =>
      cases h' with
      | again _ hrest => exact ih hrest
      | fresh hnew => exact absurd hold hnew
  | fresh hnew _ _ ihBelow ihRest =>
      cases h' with
      | again hold => exact absurd hold hnew
      | fresh _ hbelow hrest =>
          cases ihBelow hbelow
          exact ihRest hrest

end Expands

-- ================================================== the bound is not met

/-- Enough levels for what is still unlisted let a bounded listing run to
its end: every level down lists one more of the modules in `all`. -/
theorem expands_foldl {all : List NodeId}
    (hall : ∀ id ∈ all, ∀ supertype, p.Follows id supertype → supertype ∈ all)
    (levels : Nat) {listed ids : List NodeId} (hnodup : listed.Nodup) (hlisted : listed ⊆ all)
    (hids : ids ⊆ all) (henough : all.length ≤ levels + listed.length) :
    Expands p listed ids (ids.foldl (p.expand levels) listed) := by
  induction levels generalizing listed ids with
  | zero =>
      have hperm : listed.Perm all :=
        (List.subperm_of_subset hnodup hlisted).perm_of_length_le (by omega)
      induction ids with
      | nil => exact .done
      | cons id rest ih =>
          exact .again (hperm.symm.subset (hids List.mem_cons_self))
            (ih (List.subset_of_cons_subset hids))
  | succ levels ihLevels =>
      induction ids generalizing listed with
      | nil => exact .done
      | cons id rest ihRest =>
          have hid : id ∈ all := hids List.mem_cons_self
          have hrest : rest ⊆ all := List.subset_of_cons_subset hids
          rw [List.foldl_cons, expand]
          split
          · next hold => exact .again hold (ihRest hnodup hlisted hrest henough)
          · next hnew =>
            have hnodup' : (listed ++ [id]).Nodup :=
              List.nodup_append_comm.1 (List.nodup_cons.2 ⟨hnew, hnodup⟩)
            have hlisted' : listed ++ [id] ⊆ all :=
              List.append_subset.2 ⟨hlisted, List.cons_subset.2 ⟨hid, List.nil_subset _⟩⟩
            have hbelow : Expands p (listed ++ [id]) (p.supertypes id) _ :=
              ihLevels hnodup' hlisted' (hall id hid)
                (by rw [List.length_append, List.length_singleton]; omega)
            have hgrown := hbelow.listed_prefix.length_le
            rw [List.length_append] at hgrown
            refine .fresh hnew hbelow (ihRest (hbelow.nodup hnodup') ?_ hrest (by omega))
            obtain ⟨added, heq, hadded⟩ :=
              hbelow.appends (fun _ _ h hstep => hall _ h _ hstep) (hall id hid)
            exact heq ▸ List.append_subset.2 ⟨hlisted', hadded⟩

/-- `hierarchy` lists to the end, whatever the supertypes are: there are only
finitely many nodes. -/
theorem hierarchy_expands (p : Program) (id : NodeId) :
    p.Expands [] [id] (p.hierarchy id) := by
  have hall : ∀ x ∈ id :: List.range p.size, ∀ supertype, p.Follows x supertype →
      supertype ∈ id :: List.range p.size := fun _ _ _ hfollows =>
    List.mem_cons_of_mem _
      (List.mem_range.2 (lt_size_of_isModule (isModule_of_mem_supertypes hfollows)))
  exact expands_foldl hall (p.size + 1) List.nodup_nil (List.nil_subset _)
    (List.cons_subset.2 ⟨List.mem_cons_self, List.nil_subset _⟩) (by simp)

/-- The `hierarchy` holds what `Follows` reaches, and nothing else. -/
theorem mem_hierarchy_iff {id ancestor : NodeId} :
    ancestor ∈ p.hierarchy id ↔ ReflTransGen p.Follows id ancestor := by
  have hrun := p.hierarchy_expands id
  constructor
  · intro h
    obtain ⟨start, hstart, hpath⟩ := hrun.reached h List.not_mem_nil
    exact List.mem_singleton.1 hstart ▸ hpath
  · intro h
    induction h with
    | refl => exact hrun.lists List.mem_cons_self
    | tail _ hlast ih => exact hrun.closed ih List.not_mem_nil hlast

/-- All of the `hierarchy` of a module are modules. -/
theorem isModule_of_mem_hierarchy {id ancestor : NodeId} (hmodule : p.isModule id)
    (hmem : ancestor ∈ p.hierarchy id) : p.isModule ancestor := by
  rcases ReflTransGen.cases_tail (mem_hierarchy_iff.1 hmem) with rfl | ⟨_, _, hlast⟩
  · exact hmodule
  · exact isModule_of_mem_supertypes hlast

-- ======================================================= runs inside runs

namespace Expands

variable {listed ids out before : List NodeId} {m : NodeId}

/-- `Expands` with some modules listed before it lists the same as without them,
less those, if they bring nothing that is not among them. -/
theorem skip (h : Expands p listed ids out) (hids : ∀ id ∈ ids, ReflTransGen p.Follows m id)
    (hbefore : ∀ x ∈ before, ReflTransGen p.Follows m x → ∀ y, p.Follows x y → y ∈ before) :
    Expands p (before ++ listed.filter (· ∉ before)) ids
      (before ++ out.filter (· ∉ before)) := by
  induction h with
  | done => exact .done
  | @again id listed rest out hold _ ih =>
      refine .again ?_ (ih fun id hid => hids id (List.mem_cons_of_mem _ hid))
      by_cases hid : id ∈ before
      · exact List.mem_append_left _ hid
      · exact List.mem_append_right _ (List.mem_filter.2 ⟨hold, by simpa using hid⟩)
  | @fresh id listed rest between out hnew hbelow _ ihBelow ihRest =>
      have hpath := hids id List.mem_cons_self
      have hrest := ihRest fun id hid => hids id (List.mem_cons_of_mem _ hid)
      by_cases hid : id ∈ before
      · -- Listed before: what a run would list below it is listed before too.
        have hsame : between.filter (· ∉ before) = listed.filter (· ∉ before) := by
          obtain ⟨added, rfl, hadded⟩ := hbelow.appends
            (P := fun x => x ∈ before ∧ ReflTransGen p.Follows m x)
            (fun x y ⟨hx, hpath⟩ hstep => ⟨hbefore x hx hpath y hstep, hpath.tail hstep⟩)
            fun y hstep => ⟨hbefore id hid hpath y hstep, hpath.tail hstep⟩
          simpa [hid] using fun x hx => (hadded x hx).1
        exact .again (List.mem_append_left _ hid) (hsame ▸ hrest)
      · have hbelow' := ihBelow fun _ hstep => hpath.tail hstep
        have hsplit : (listed ++ [id]).filter (· ∉ before)
            = listed.filter (· ∉ before) ++ [id] := by
          simp [hid]
        rw [hsplit, ← List.append_assoc] at hbelow'
        exact .fresh (by simp [hid, hnew]) hbelow' hrest

/-- Where `Expands` lists a module, another run starts. Of what is listed before
it, each module was there before the first run, has its supertypes listed as
well, or is one that the module was reached from. -/
theorem enters (h : Expands p listed ids out) (hm : m ∈ out) (hnew : m ∉ listed) :
    ∃ before after, m ∉ before ∧ listed <+: before ∧ after <+: out ∧ Expands p before [m] after
      ∧ ∀ x ∈ before, x ∈ listed ∨ (∀ y, p.Follows x y → y ∈ before) ∨ TransGen p.Follows x m := by
  induction h with
  | done => exact absurd hm hnew
  | again _ _ ih => exact ih hm hnew
  | @fresh id listed rest between out hid hbelow hrest ihBelow ihRest =>
      by_cases heq : m = id
      · subst heq
        exact ⟨listed, between, hnew, List.prefix_rfl, hrest.listed_prefix,
          .fresh hnew hbelow .done, fun x hx => .inl hx⟩
      by_cases hbetween : m ∈ between
      · have hnew' : m ∉ listed ++ [id] := by simp [hnew, heq]
        obtain ⟨before, after, hm', hpre, hafter, hrun, hcases⟩ := ihBelow hbetween hnew'
        refine ⟨before, after, hm', (List.prefix_append _ _).trans hpre,
          hafter.trans hrest.listed_prefix, hrun, fun x hx => ?_⟩
        rcases hcases x hx with h | h | h
        · rcases List.mem_append.1 h with h | h
          · exact .inl h
          · obtain ⟨start, hstart, hpath⟩ := hbelow.reached hbetween hnew'
            rw [List.mem_singleton.1 h]
            exact .inr (.inr (.head' hstart hpath))
        · exact .inr (.inl h)
        · exact .inr (.inr h)
      · obtain ⟨before, after, hm', hpre, hafter, hrun, hcases⟩ := ihRest hm hbetween
        have hgrown : listed <+: between := (List.prefix_append _ _).trans hbelow.listed_prefix
        refine ⟨before, after, hm', hgrown.trans hpre, hafter, hrun, fun x hx => ?_⟩
        rcases hcases x hx with h | h | h
        · by_cases hold : x ∈ listed
          · exact .inl hold
          · have hclosed : Expands p listed [id] between := .fresh hid hbelow .done
            exact .inr (.inl fun y hstep => hpre.subset (hclosed.closed h hold hstep))
        · exact .inr (.inl h)
        · exact .inr (.inr h)

end Expands

/-- In an `Acyclic` program, the `hierarchy` of a module stands in that of every
module that inherits from it, in its order and less what stands before. -/
theorem Acyclic.hierarchy_eq (hacyclic : p.Acyclic) {descendant module : NodeId}
    (hmem : module ∈ p.hierarchy descendant) :
    ∃ before rest, module ∉ before ∧ p.hierarchy descendant
      = before ++ (p.hierarchy module).filter (· ∉ before) ++ rest := by
  obtain ⟨before, after, hnew, -, ⟨rest, hrest⟩, hrun, hcases⟩ :=
    (p.hierarchy_expands descendant).enters hmem List.not_mem_nil
  refine ⟨before, rest, hnew, ?_⟩
  have hskip : p.Expands before [module] (before ++ (p.hierarchy module).filter (· ∉ before)) := by
    have hclosed : ∀ x ∈ before, ReflTransGen p.Follows module x →
        ∀ y, p.Follows x y → y ∈ before := by
      intro x hx hpath y hstep
      rcases hcases x hx with h | h | h
      · cases h
      · exact h y hstep
      · exact absurd (TransGen.trans_right hpath h) (hacyclic.follows module)
    simpa using (p.hierarchy_expands module).skip
      (fun id hid => List.mem_singleton.1 hid ▸ .refl) hclosed
  rw [← hrest, hrun.unique hskip]

-- ========================================================= constructors

/-- The constructors that a module declares. -/
def ownConstructors (p : Program) (id : NodeId) : List Tree :=
  (p.membersOf id).filter fun member => member.kind.isConstructor

/-- The search for a constructor passes from a module on to superclasses, in
order, and finds it in the last one. -/
inductive Constructs (p : Program) (arity : Nat) (found : NodeId) : NodeId → List NodeId → Prop
  | own {id : NodeId} {member : Tree}
      (accepts : (p.ownConstructors id).find? (constructs arity) = some member)
      (same : member.identity = found) : Constructs p arity found id []
  | inherited {id superclass : NodeId} {rest : List NodeId} (none : p.ownConstructors id = [])
      (next : p.superclass? id = some superclass)
      (onward : Constructs p arity found superclass rest) :
      Constructs p arity found id (superclass :: rest)

namespace Constructs

variable {arity : Nat} {found id : NodeId} {rest : List NodeId}

theorem unique {rest' : List NodeId} (h : Constructs p arity found id rest)
    (h' : Constructs p arity found id rest') : rest = rest' := by
  induction h generalizing rest' with
  | own accepts =>
      cases h' with
      | own => rfl
      | inherited none => rw [none] at accepts; cases accepts
  | inherited none next _ ih =>
      cases h' with
      | own accepts => rw [none] at accepts; cases accepts
      | inherited _ next' onward =>
          cases next.symm.trans next'
          exact congrArg _ (ih onward)

/-- From a module on the way, `Constructs` goes on in the same way. -/
theorem from_mem (h : Constructs p arity found id rest) {module : NodeId} (hmem : module ∈ rest) :
    ∃ rest', Constructs p arity found module rest' ∧ rest'.length < rest.length := by
  induction h with
  | own => cases hmem
  | @inherited _ superclass rest _ _ onward ih =>
      rcases List.mem_cons.1 hmem with rfl | hmem
      · exact ⟨rest, onward, Nat.lt_succ_self _⟩
      · obtain ⟨rest', hrest, hless⟩ := ih hmem
        exact ⟨rest', hrest, Nat.lt_succ_of_lt hless⟩

/-- `Constructs` comes by no module twice. -/
theorem nodup (h : Constructs p arity found id rest) : rest.Nodup := by
  induction h with
  | own => exact List.nodup_nil
  | inherited _ _ onward ih =>
      refine List.nodup_cons.2 ⟨fun hmem => ?_, ih⟩
      obtain ⟨rest', hagain, hless⟩ := onward.from_mem hmem
      rw [onward.unique hagain] at hless
      exact Nat.lt_irrefl _ hless

theorem isModule_of_superclass? {superclass : NodeId} (h : p.superclass? id = some superclass) :
    p.isModule superclass :=
  isModule_of_mem_supertypes (List.mem_append_right _ (Option.mem_toList.2 h))

theorem isModule_of_mem (h : Constructs p arity found id rest) :
    ∀ module ∈ rest, p.isModule module := by
  induction h with
  | own => exact fun module hmem => nomatch hmem
  | inherited _ next _ ih => exact List.forall_mem_cons.2 ⟨isModule_of_superclass? next, ih⟩

theorem length_le (h : Constructs p arity found id rest) : rest.length ≤ p.size := by
  have hsub : rest ⊆ List.range p.size := fun module hmem =>
    List.mem_range.2 (lt_size_of_isModule (h.isModule_of_mem module hmem))
  have hlength := (List.subperm_of_subset h.nodup hsub).length_le
  rwa [List.length_range] at hlength

theorem within (h : Constructs p arity found id rest) {fuel : Nat} (hfuel : rest.length < fuel) :
    p.constructorWithin fuel id arity = some found := by
  induction h generalizing fuel with
  | @own id member accepts same =>
      obtain ⟨fuel, rfl⟩ := Nat.exists_eq_succ_of_ne_zero (Nat.ne_of_gt hfuel)
      rw [constructorWithin]
      split
      · next hnone => rw [ownConstructors, hnone] at accepts; cases accepts
      · rw [← ownConstructors, accepts, Option.map_some, same]
  | @inherited id superclass rest none next onward ih =>
      obtain ⟨fuel, rfl⟩ := Nat.exists_eq_succ_of_ne_zero (Nat.ne_of_gt (Nat.zero_lt_of_lt hfuel))
      rw [constructorWithin, ← ownConstructors, none, next]
      exact ih (Nat.lt_of_succ_lt_succ hfuel)

end Constructs

theorem exists_constructs {fuel arity : Nat} {id found : NodeId}
    (h : p.constructorWithin fuel id arity = some found) :
    ∃ rest, p.Constructs arity found id rest := by
  induction fuel generalizing id with
  | zero => cases h
  | succ fuel ih =>
      rw [constructorWithin, ← ownConstructors] at h
      split at h
      · next hnone =>
          obtain ⟨superclass, hnext, h⟩ := Option.bind_eq_some_iff.1 h
          obtain ⟨rest, honward⟩ := ih h
          exact ⟨superclass :: rest, .inherited hnone hnext honward⟩
      · obtain ⟨member, haccepts, hsame⟩ := Option.map_eq_some_iff.1 h
        exact ⟨[], .own haccepts hsame⟩

/-- `lookupConstructor?` is what the search `Constructs`, however far up. -/
theorem lookupConstructor?_eq_some_iff {id found : NodeId} {arity : Nat} :
    p.lookupConstructor? id arity = some found ↔ ∃ rest, p.Constructs arity found id rest :=
  ⟨exists_constructs, fun ⟨_, h⟩ => h.within (Nat.lt_succ_of_le h.length_le)⟩

end ObjectMachine.Program
