/-
Resolution, round by round.

Each round lists the pending references of one role: all of them, each with
what its name stands for in the program the round starts from. The last
round walks the tree with a stack of what the nodes above introduce. At
every node the stack finds what the scope of the node has, since a name is
taken from the innermost node that introduces it.

No round changes what an earlier one has set, nor the scopes it has looked
names up in. So every target is explained by the program that comes out.
-/
import Mathlib
import ObjectMachine.Proofs.Program.Retargeting

namespace ObjectMachine

/-- `mapM` that succeeds gives a result for each element, and no other. -/
theorem mapM_ok {α β ε : Type} {f : α → Except ε β} {l : List α} {out : List β}
    (h : l.mapM f = .ok out) :
    (∀ a ∈ l, ∃ b ∈ out, f a = .ok b) ∧ ∀ b ∈ out, ∃ a ∈ l, f a = .ok b := by
  induction l generalizing out with
  | nil =>
      cases h
      exact ⟨by simp, by simp⟩
  | cons a rest ih =>
      simp only [List.mapM_cons, bind_ok_iff, pure_ok_iff] at h
      obtain ⟨b, hfirst, bs, hrest, rfl⟩ := h
      obtain ⟨hall, honly⟩ := ih hrest
      constructor
      · intro a' ha'
        rcases List.mem_cons.1 ha' with rfl | ha'
        · exact ⟨b, List.mem_cons_self, hfirst⟩
        · obtain ⟨b', hb', heq⟩ := hall a' ha'
          exact ⟨b', List.mem_cons_of_mem _ hb', heq⟩
      · intro b' hb'
        rcases List.mem_cons.1 hb' with rfl | hb'
        · exact ⟨a, List.mem_cons_self, hfirst⟩
        · obtain ⟨a', ha', heq⟩ := honly b' hb'
          exact ⟨a', List.mem_cons_of_mem _ ha', heq⟩

namespace Scope

theorem get?_append (outer inner : Scope) (name : String) :
    get? (outer ++ inner) name = (inner.get? name).or (outer.get? name) := by
  rw [get?, get?, get?, List.reverse_append, List.lookup_append]

/-- `nested?` finds a name in the innermost scope that has it, which is the one
whose entry comes last. -/
theorem nested?_eq (scopes : List Scope) (name : String) :
    nested? scopes name = get? scopes.reverse.flatten name := by
  induction scopes with
  | nil => rfl
  | cons scope rest ih =>
      rw [nested?] at ih
      rw [nested?, List.findSome?_cons, ih, List.reverse_cons, List.flatten_append, get?_append,
        List.flatten_singleton]
      cases scope.get? name <;> rfl

end Scope

namespace Tree

/-- `setTargets` twice: targets that are set later count more. -/
theorem setTargets_setTargets (first later : List (NodeId × NodeId)) (t : Tree) :
    (t.setTargets first).setTargets later = t.setTargets (later ++ first) := by
  induction t using ofChildren with
  | h t ih =>
      rw [setTargets_eq, kind_setTargets, identity_setTargets, Kind.map_withTarget,
        Kind.withTarget_withTarget, Kind.map_map, Kind.map_congr ih, setTargets_eq first,
        setTargets_eq (later ++ first), List.lookup_append]
      obtain ⟨id, span, kind⟩ := t
      cases kind with
      | reference name target =>
          exact congrArg (fun o => node id span (.reference name o)) Option.or_assoc.symm
      | _ => rfl

theorem walk_mem {t s : Tree} {names : List String} (h : t.walk names = some s) :
    s ∈ t.preorder := by
  induction names generalizing t with
  | nil =>
      rw [← Option.some.inj h]
      exact mem_preorder_self t
  | cons name rest ih =>
      rw [walk] at h
      split at h
      · next member hmember =>
          exact mem_preorder_of_child
            (Kind.mem_children_of_mem_members (List.mem_of_find?_eq_some hmember)) (ih h)
      · cases h

end Tree

namespace Program

theorem withTargets_withTargets (first later : List (NodeId × NodeId)) (p : Program) :
    (p.withTargets first).withTargets later = p.withTargets (later ++ first) :=
  congrArg ofTree (p.root.setTargets_setTargets first later)

-- ============================================================== rounds

/-- The references of one role are listed, each with what its name stands
for. -/
structure Settles (p : Program) (role : NodeId → Prop)
    (denotes : NodeId → String → NodeId → Prop) (targets : List (NodeId × NodeId)) : Prop where
  sound : ∀ x ∈ targets, role x.1 ∧ ∃ s ∈ p.root.preorder, s.isPending ∧ s.identity = x.1
    ∧ denotes x.1 (s.name?.getD "") x.2
  complete : ∀ s ∈ p.root.preorder, s.isPending → role s.identity →
    ∃ target, targets.lookup s.identity = some target

variable {p : Program} {role : NodeId → Prop} {denotes : NodeId → String → NodeId → Prop}
  {targets : List (NodeId × NodeId)}

theorem Settles.pending (h : p.Settles role denotes targets) : p.Pending targets := by
  intro x hx
  obtain ⟨-, s, hs, hwaits, heq, -⟩ := h.sound x hx
  exact ⟨s, hs, hwaits, heq⟩

theorem Settles.settled (h : p.Settles role denotes targets) :
    (p.withTargets targets).Settled role := by
  intro s' hs' hrole
  obtain ⟨s, hs, rfl⟩ := mem_withTargets_iff.1 hs'
  rw [Tree.identity_setTargets] at hrole
  rw [Tree.isPending_setTargets]
  cases hwaits : s.isPending with
  | false => rfl
  | true =>
      obtain ⟨target, htarget⟩ := h.complete s hs hwaits hrole
      rw [htarget]
      rfl

theorem Settles.lookup_of_role (h : p.Settles role denotes targets) (hp : p.root.Numbered)
    {s : Tree} (hs : s ∈ p.root.preorder) (hwaits : s.isPending) (hrole : role s.identity) :
    ∃ target, targets.lookup s.identity = some target
      ∧ denotes s.identity (s.name?.getD "") target := by
  obtain ⟨target, htarget⟩ := h.complete s hs hwaits hrole
  obtain ⟨-, s', hs', -, heq, hdenotes⟩ := h.sound _ (mem_of_lookup htarget)
  rw [hp.eq_of_identity hs' hs heq] at hdenotes
  exact ⟨target, htarget, hdenotes⟩

theorem Settles.lookup_of_not (h : p.Settles role denotes targets) {id : NodeId}
    (hrole : ¬ role id) : targets.lookup id = none := by
  refine List.lookup_eq_none_iff.2 fun x hx => ?_
  rw [bne_iff_ne]
  rintro rfl
  exact hrole (h.sound x hx).1

/-- A round of `mapM` that visits the pending references of its role one by
one. -/
theorem Settles.of_mapM {α : Type} {l : List α} (reference : α → Tree)
    {resolve : α → Except LinkError (NodeId × NodeId)}
    (hl : ∀ s, (∃ a ∈ l, reference a = s) ↔ s ∈ p.root.preorder ∧ s.isPending ∧ role s.identity)
    (hresolve : ∀ a x, resolve a = .ok x → x.1 = (reference a).identity
      ∧ denotes x.1 ((reference a).name?.getD "") x.2)
    (h : l.mapM resolve = .ok targets) : p.Settles role denotes targets := by
  obtain ⟨hall, honly⟩ := mapM_ok h
  constructor
  · intro x hx
    obtain ⟨a, ha, hok⟩ := honly x hx
    obtain ⟨hkey, hdenotes⟩ := hresolve a x hok
    obtain ⟨hs, hwaits, hrole⟩ := (hl _).1 ⟨a, ha, rfl⟩
    exact ⟨hkey ▸ hrole, reference a, hs, hwaits, hkey.symm, hdenotes⟩
  · intro s hs hwaits hrole
    obtain ⟨a, ha, rfl⟩ := (hl s).2 ⟨hs, hwaits, hrole⟩
    obtain ⟨x, hx, hok⟩ := hall a ha
    rw [← Option.isSome_iff_exists, List.lookup_isSome_iff]
    exact ⟨x, hx, by rw [(hresolve a x hok).1, beq_self_eq_true]⟩

section Rounds

variable (hp : p.root.Numbered)
include hp

theorem mem_pendingImports (s : Tree) : s ∈ p.pendingImports
    ↔ s ∈ p.root.preorder ∧ s.isPending ∧ p.IsImported s.identity := by
  rw [pendingImports, List.mem_filterMap]
  constructor
  · rintro ⟨site, hsite, hsome⟩
    have ht := (mem_sites_iff hp).1 ⟨site, hsite, rfl⟩
    split at hsome
    · next entity generic hkind =>
        have hfound := kind?_of_mem hp ht
        rw [hkind] at hfound
        obtain ⟨hwaits, rfl⟩ : entity.isPending ∧ entity = s := by simpa using hsome
        exact ⟨kind?_child_mem hfound List.mem_cons_self, hwaits, _, entity, generic, hfound, rfl⟩
    · cases hsome
  · rintro ⟨hs, hwaits, declaration, entity, generic, hkind, hid⟩
    have hentity := kind?_child_mem hkind List.mem_cons_self
    obtain rfl := hp.eq_of_identity hentity hs hid
    obtain ⟨t, htree, hkind⟩ := Option.map_eq_some_iff.1 hkind
    obtain ⟨site, hsite, rfl⟩ := (mem_sites_iff hp).2 (tree?_mem htree)
    exact ⟨site, hsite, by rw [hkind]; exact if_pos hwaits⟩

theorem imports_settle (h : p.pendingImports.mapM p.resolveImport = .ok targets) :
    p.Settles p.IsImported (fun _ name target => p.resolveQualified? name = some target)
      targets := by
  refine .of_mapM (fun reference => reference) (fun s => ?_) (fun reference x hok => ?_) h
  · rw [← mem_pendingImports hp s]
    exact ⟨fun ⟨_, ha, heq⟩ => heq ▸ ha, fun hs => ⟨s, hs, rfl⟩⟩
  · rw [resolveImport] at hok
    split at hok
    · next target htarget =>
        cases hok
        exact ⟨rfl, htarget⟩
    · cases hok

theorem mem_pendingSupertypes (s : Tree) : (∃ entry ∈ p.pendingSupertypes, entry.2 = s)
    ↔ s ∈ p.root.preorder ∧ s.isPending ∧ p.IsSupertype s.identity := by
  constructor
  · rintro ⟨entry, hentry, rfl⟩
    obtain ⟨site, hsite, hentry⟩ := List.mem_flatMap.1 hentry
    obtain ⟨reference, hreference, rfl⟩ := List.mem_map.1 hentry
    obtain ⟨hmem, hwaits⟩ := List.mem_filter.1 hreference
    have hfound := kind?_of_mem hp ((mem_sites_iff hp).1 ⟨site, hsite, rfl⟩)
    exact ⟨kind?_child_mem hfound (Kind.mem_children_of_supertype hmem), hwaits,
      _, _, hfound, reference, hmem, rfl⟩
  · rintro ⟨hs, hwaits, module, kind, hkind, reference, hmem, hid⟩
    have hreference := kind?_child_mem hkind (Kind.mem_children_of_supertype hmem)
    obtain rfl := hp.eq_of_identity hreference hs hid
    obtain ⟨t, htree, rfl⟩ := Option.map_eq_some_iff.1 hkind
    obtain ⟨site, hsite, rfl⟩ := (mem_sites_iff hp).2 (tree?_mem htree)
    refine ⟨(site.tree.identity, reference), List.mem_flatMap.2 ⟨site, hsite, ?_⟩, rfl⟩
    exact List.mem_map.2 ⟨reference, List.mem_filter.2 ⟨hmem, hwaits⟩, rfl⟩

theorem supertypes_settle
    (h : p.pendingSupertypes.mapM (fun (module, reference) => p.resolveSupertype module reference)
      = .ok targets) :
    p.Settles p.IsSupertype (fun id name target => p.isModule target
      ∧ p.resolveName? (p.scopeWith .lexical id).get? name = some target) targets := by
  refine .of_mapM Prod.snd (mem_pendingSupertypes hp) (fun entry x hok => ?_) h
  obtain ⟨module, reference⟩ := entry
  simp only [resolveSupertype] at hok
  split at hok
  · next target htarget =>
      split at hok
      · next hmodule =>
          cases hok
          exact ⟨rfl, hmodule, htarget⟩
      · cases hok
  · cases hok

-- ============================================================ the walk

/-- The `scope` of a node is the `contribution` of the nodes above it, the
innermost last. -/
theorem scope_of_below {above : List Tree} {t : Tree} (h : Tree.Below p.root above t) :
    p.scope t.identity
      = (above.map fun a => p.contribution .inherited a.identity).reverse.flatten := by
  rw [scope, scopeWith, ancestors_of_below hp h, ← List.map_reverse, ← List.map_reverse,
    List.flatMap_map, List.flatMap_def]

omit hp in
theorem resolveBelow_eq (t : Tree) (scopes : List Scope) : p.resolveBelow t scopes =
    if t.isPending then
      match p.resolveName? (Scope.nested? scopes) (t.name?.getD "") with
      | some target => .ok [(t.identity, target)]
      | none => .error (unresolved t)
    else do
      let found ← t.children.mapM fun c =>
        p.resolveBelow c (p.contribution .inherited t.identity :: scopes)
      return found.flatten := by
  rw [resolveBelow, Tree.fold_eq, Kind.children_map]
  simp only [List.mapM_map]
  rfl

omit hp in
theorem children_of_isPending {t : Tree} (h : t.isPending) : t.children = [] := by
  unfold Tree.isPending at h
  split at h
  · next hkind =>
      rw [Tree.children, hkind]
      rfl
  · cases h

/-- `resolveBelow` at a node, with the `contribution` of the nodes above it,
lists the pending references from there on. -/
theorem walk_settles {above : List Tree} {t : Tree} (hbelow : Tree.Below p.root above t)
    (h : p.resolveBelow t (above.map fun a => p.contribution .inherited a.identity)
      = .ok targets) :
    (∀ x ∈ targets, ∃ s ∈ t.preorder, s.isPending ∧ s.identity = x.1
        ∧ p.resolveName? (p.scope x.1).get? (s.name?.getD "") = some x.2)
      ∧ ∀ s ∈ t.preorder, s.isPending → ∃ x ∈ targets, x.1 = s.identity := by
  induction t using Tree.ofChildren generalizing above targets with
  | h t ih =>
      rw [resolveBelow_eq] at h
      split at h
      · next hwaits =>
          have hlookup : Scope.nested? (above.map fun a => p.contribution .inherited a.identity)
              = (p.scope t.identity).get? := by
            funext name
            rw [scope_of_below hp hbelow, Scope.nested?_eq]
          rw [hlookup] at h
          split at h
          · next target htarget =>
              cases h
              have honly : t.preorder = [t] := by
                rw [Tree.preorder_eq, children_of_isPending hwaits]
                rfl
              constructor
              · intro x hx
                obtain rfl := List.mem_singleton.1 hx
                exact ⟨t, t.mem_preorder_self, hwaits, rfl, htarget⟩
              · intro s hs _
                rw [honly] at hs
                obtain rfl := List.mem_singleton.1 hs
                exact ⟨_, List.mem_cons_self, rfl⟩
          · cases h
      · next hsettled =>
          simp only [bind_ok_iff, pure_ok_iff] at h
          obtain ⟨found, hfound, rfl⟩ := h
          obtain ⟨hall, honly⟩ := mapM_ok hfound
          constructor
          · intro x hx
            obtain ⟨xs, hxs, hx⟩ := List.mem_flatten.1 hx
            obtain ⟨c, hc, hok⟩ := honly xs hxs
            obtain ⟨s, hs, hrest⟩ := (ih c hc (hbelow.child hc) hok).1 x hx
            exact ⟨s, Tree.mem_preorder_of_child hc hs, hrest⟩
          · intro s hs hwaits
            rw [Tree.preorder_eq] at hs
            rcases List.mem_cons.1 hs with rfl | hs
            · exact absurd hwaits hsettled
            · obtain ⟨c, hc, hs⟩ := List.mem_flatMap.1 hs
              obtain ⟨xs, hxs, hok⟩ := hall c hc
              obtain ⟨x, hx, hkey⟩ := (ih c hc (hbelow.child hc) hok).2 s hs hwaits
              exact ⟨x, List.mem_flatten.2 ⟨xs, hxs, hx⟩, hkey⟩

theorem references_settle (h : p.resolveBelow p.root [] = .ok targets) :
    p.Settles (fun _ => True)
      (fun id name target => p.resolveName? (p.scope id).get? name = some target) targets := by
  obtain ⟨hsound, hcomplete⟩ := walk_settles hp .root h
  constructor
  · exact fun x hx => ⟨trivial, hsound x hx⟩
  · intro s hs hwaits _
    obtain ⟨x, hx, hkey⟩ := hcomplete s hs hwaits
    rw [← Option.isSome_iff_exists, List.lookup_isSome_iff]
    exact ⟨x, hx, by rw [hkey, beq_self_eq_true]⟩

end Rounds

-- ======================================================== explanations

/-- What a reference stands for is explained by the program it is in:
imports name entities from the root, supertypes are modules that declared
names lead to, and all other names are looked up in the scope. -/
structure Explains (p : Program) (id : NodeId) (name : String) (target : NodeId) : Prop where
  imported : p.IsImported id → p.resolveQualified? name = some target
  supertype : p.IsSupertype id → p.isModule target
    ∧ p.resolveName? (p.scopeWith .lexical id).get? name = some target
  other : ¬ p.IsImported id → ¬ p.IsSupertype id →
    p.resolveName? (p.scope id).get? name = some target

/-- The entity of an import is no supertype: it stands under the import. -/
theorem not_isSupertype_of_isImported (hp : p.root.Numbered) {id : NodeId}
    (himported : p.IsImported id) : ¬ p.IsSupertype id := by
  rintro ⟨module, kind, hmodule, reference, hmem, rfl⟩
  obtain ⟨declaration, entity, generic, hdeclaration, hid⟩ := himported
  obtain ⟨m, hm, rfl⟩ := Option.map_eq_some_iff.1 hmodule
  obtain ⟨d, hd, hkind⟩ := Option.map_eq_some_iff.1 hdeclaration
  have hentity : entity ∈ d.children := by
    rw [Tree.children, hkind]
    exact List.mem_cons_self
  have hparent := parent?_of_child hp (tree?_mem hd) hentity
  rw [hid, parent?_of_child hp (tree?_mem hm) (Kind.mem_children_of_supertype hmem)] at hparent
  obtain rfl := hp.eq_of_identity (tree?_mem hm) (tree?_mem hd) (Option.some.inj hparent)
  rw [hkind] at hmem
  cases hmem

theorem lt_size_of_resolveName? (hp : p.root.Numbered) {lookup : String → Option NodeId}
    {name : String} {target : NodeId} (h : p.resolveName? lookup name = some target) :
    target < p.size := by
  unfold resolveName? at h
  split at h
  · cases h
  · obtain ⟨t, htree, h⟩ := Option.bind_eq_some_iff.1 h
    obtain ⟨id, -, htree⟩ := Option.bind_eq_some_iff.1 htree
    obtain ⟨s, hwalk, rfl⟩ := Option.map_eq_some_iff.1 h
    exact lt_size_of_mem hp (Tree.mem_preorder_trans (tree?_mem htree) (Tree.walk_mem hwalk))

theorem Explains.lt_size {id target : NodeId} {name : String} (h : p.Explains id name target)
    (hp : p.root.Numbered) : target < p.size := by
  by_cases himported : p.IsImported id
  · obtain ⟨s, hwalk, rfl⟩ := Option.map_eq_some_iff.1 (h.imported himported)
    exact lt_size_of_mem hp (Tree.walk_mem hwalk)
  · by_cases hsupertype : p.IsSupertype id
    · exact lt_size_of_resolveName? hp (h.supertype hsupertype).2
    · exact lt_size_of_resolveName? hp (h.other himported hsupertype)

theorem numbered_withTargets (hp : p.root.Numbered) :
    (p.withTargets targets).root.Numbered := by
  have hsame : Tree.identity ∘ Tree.setTargets targets = Tree.identity :=
    funext (Tree.identity_setTargets targets)
  rw [withTargets, ofTree, Tree.Numbered, Tree.preorder_setTargets, List.map_map, List.length_map,
    hsame]
  exact hp

theorem Pending.of_withTargets {later : List (NodeId × NodeId)}
    (h : (p.withTargets targets).Pending later) : p.Pending later := by
  intro x hx
  obtain ⟨s', hs', hwaits, hkey⟩ := h x hx
  obtain ⟨s, hs, rfl⟩ := mem_withTargets_iff.1 hs'
  rw [Tree.isPending_setTargets, Bool.and_eq_true] at hwaits
  rw [Tree.identity_setTargets] at hkey
  exact ⟨s, hs, hwaits.1, hkey⟩

theorem Pending.append {later : List (NodeId × NodeId)} (h : p.Pending targets)
    (hlater : (p.withTargets targets).Pending later) : p.Pending (later ++ targets) := by
  intro x hx
  rcases List.mem_append.1 hx with hx | hx
  · exact hlater.of_withTargets x hx
  · exact h x hx

/-- What one round has listed the next ones leave alone, as it is not `Pending`
any more. -/
theorem Pending.lookup_of_listed {later : List (NodeId × NodeId)} (hp : p.root.Numbered)
    (hlater : (p.withTargets targets).Pending later) {s : Tree} (hs : s ∈ p.root.preorder)
    {target : NodeId} (h : targets.lookup s.identity = some target) :
    later.lookup s.identity = none := by
  rw [← Tree.identity_setTargets targets s]
  refine lookup_of_settled (numbered_withTargets hp) hlater (mem_withTargets_iff.2 ⟨s, hs, rfl⟩) ?_
  rw [Tree.isPending_setTargets, h, Option.isNone_some, Bool.and_false]

/-- The three rounds of `resolve`, each on the program the one before has
left. -/
structure Rounds (p p₁ p₂ : Program) (imports supertypes references : List (NodeId × NodeId)) :
    Prop where
  numbered : p.root.Numbered
  next : p₁ = p.withTargets imports
  last : p₂ = p₁.withTargets supertypes
  first : p.Settles p.IsImported (fun _ name target => p.resolveQualified? name = some target)
    imports
  second : p₁.Settles p₁.IsSupertype (fun id name target => p₁.isModule target
    ∧ p₁.resolveName? (p₁.scopeWith .lexical id).get? name = some target) supertypes
  third : p₂.Settles (fun _ => True)
    (fun id name target => p₂.resolveName? (p₂.scope id).get? name = some target) references

namespace Rounds

variable {p₁ p₂ : Program} {imports supertypes references : List (NodeId × NodeId)}
  (h : Rounds p p₁ p₂ imports supertypes references)
include h

theorem numbered₁ : p₁.root.Numbered := by
  rw [h.next]
  exact numbered_withTargets h.numbered

theorem numbered₂ : p₂.root.Numbered := by
  rw [h.last]
  exact numbered_withTargets h.numbered₁

theorem p₂_eq : p₂ = p.withTargets (supertypes ++ imports) := by
  rw [h.last, h.next, withTargets_withTargets]

theorem importsSettled₁ : p₁.Settled p₁.IsImported := by
  rw [h.next, isImported_withTargets]
  exact h.first.settled

theorem importsSettled₂ : p₂.Settled p₂.IsImported := by
  rw [h.last, isImported_withTargets]
  exact h.importsSettled₁.withTargets

theorem supertypesSettled₂ : p₂.Settled p₂.IsSupertype := by
  rw [h.last, isSupertype_withTargets]
  exact h.second.settled

/-- The last round leaves alone what has a target before it. -/
theorem lookup_of_listed {s : Tree} (hs : s ∈ p.root.preorder) {target : NodeId}
    (hlisted : (supertypes ++ imports).lookup s.identity = some target) :
    (references ++ (supertypes ++ imports)).lookup s.identity = some target := by
  have hlater := h.third.pending
  rw [h.p₂_eq] at hlater
  rw [List.lookup_append, hlater.lookup_of_listed h.numbered hs hlisted, hlisted]
  rfl

theorem imported {s : Tree} (hs : s ∈ p.root.preorder) (hwaits : s.isPending)
    (hrole : p.IsImported s.identity) : ∃ target,
      (references ++ (supertypes ++ imports)).lookup s.identity = some target
        ∧ p.resolveQualified? (s.name?.getD "") = some target := by
  obtain ⟨target, hlisted, hdenotes⟩ := h.first.lookup_of_role h.numbered hs hwaits hrole
  have hlater := h.second.pending
  rw [h.next] at hlater
  refine ⟨target, h.lookup_of_listed hs ?_, hdenotes⟩
  rw [List.lookup_append, hlater.lookup_of_listed h.numbered hs hlisted, hlisted]
  rfl

theorem supertype {s : Tree} (hs : s ∈ p.root.preorder) (hwaits : s.isPending)
    (hother : ¬ p.IsImported s.identity) (hrole : p.IsSupertype s.identity) : ∃ target,
      (references ++ (supertypes ++ imports)).lookup s.identity = some target
        ∧ p₁.isModule target
        ∧ p₁.resolveName? (p₁.scopeWith .lexical s.identity).get? (s.name?.getD "")
            = some target := by
  have hnone := h.first.lookup_of_not hother
  have hwaits₁ : (s.setTargets imports).isPending := by
    rw [Tree.isPending_setTargets, hwaits, hnone]
    rfl
  have hs₁ : s.setTargets imports ∈ p₁.root.preorder := by
    rw [h.next]
    exact mem_withTargets_iff.2 ⟨s, hs, rfl⟩
  have hrole₁ : p₁.IsSupertype (s.setTargets imports).identity := by
    rw [h.next, isSupertype_withTargets, Tree.identity_setTargets]
    exact hrole
  obtain ⟨target, hlisted, hdenotes⟩ := h.second.lookup_of_role h.numbered₁ hs₁ hwaits₁ hrole₁
  rw [Tree.identity_setTargets] at hlisted hdenotes
  rw [Tree.name?_setTargets] at hdenotes
  refine ⟨target, h.lookup_of_listed hs ?_, hdenotes⟩
  rw [List.lookup_append, hlisted]
  rfl

theorem other {s : Tree} (hs : s ∈ p.root.preorder) (hwaits : s.isPending)
    (himported : ¬ p.IsImported s.identity) (hsupertype : ¬ p.IsSupertype s.identity) :
    ∃ target, (references ++ (supertypes ++ imports)).lookup s.identity = some target
      ∧ p₂.resolveName? (p₂.scope s.identity).get? (s.name?.getD "") = some target := by
  have hsupertype₁ : ¬ p₁.IsSupertype s.identity := by
    rw [h.next, isSupertype_withTargets]
    exact hsupertype
  have hwaits₂ : (s.setTargets (supertypes ++ imports)).isPending := by
    rw [Tree.isPending_setTargets, hwaits, List.lookup_append, h.first.lookup_of_not himported,
      h.second.lookup_of_not hsupertype₁]
    rfl
  have hs₂ : s.setTargets (supertypes ++ imports) ∈ p₂.root.preorder := by
    rw [h.p₂_eq]
    exact mem_withTargets_iff.2 ⟨s, hs, rfl⟩
  obtain ⟨target, hlisted, hdenotes⟩ := h.third.lookup_of_role h.numbered₂ hs₂ hwaits₂ trivial
  rw [Tree.identity_setTargets] at hlisted hdenotes
  rw [Tree.name?_setTargets] at hdenotes
  refine ⟨target, ?_, hdenotes⟩
  rw [List.lookup_append, hlisted]
  rfl

/-- The outcome `Explains` what the rounds have looked at. -/
theorem explains {s : Tree} (hs : s ∈ p.root.preorder) (hwaits : s.isPending) : ∃ target,
    (references ++ (supertypes ++ imports)).lookup s.identity = some target
      ∧ (p₂.withTargets references).Explains s.identity (s.name?.getD "") target := by
  have himportedEq : (p₂.withTargets references).IsImported = p.IsImported := by
    rw [isImported_withTargets, h.p₂_eq, isImported_withTargets]
  have hsupertypeEq : (p₂.withTargets references).IsSupertype = p.IsSupertype := by
    rw [isSupertype_withTargets, h.p₂_eq, isSupertype_withTargets]
  by_cases himported : p.IsImported s.identity
  · obtain ⟨target, hlisted, hdenotes⟩ := h.imported hs hwaits himported
    refine ⟨target, hlisted, fun _ => ?_, fun hsupertype => ?_, fun hother => ?_⟩
    · rw [resolveQualified?_withTargets, h.p₂_eq, resolveQualified?_withTargets, hdenotes]
    · rw [hsupertypeEq] at hsupertype
      exact absurd hsupertype (not_isSupertype_of_isImported h.numbered himported)
    · rw [himportedEq] at hother
      exact absurd himported hother
  · by_cases hsupertype : p.IsSupertype s.identity
    · obtain ⟨target, hlisted, hmodule, hdenotes⟩ := h.supertype hs hwaits himported hsupertype
      refine ⟨target, hlisted, fun hother => ?_, fun _ => ⟨?_, ?_⟩, fun _ hother => ?_⟩
      · rw [himportedEq] at hother
        exact absurd hother himported
      · rw [isModule_withTargets, h.last, isModule_withTargets, hmodule]
      · -- the scope of declared names is that of the second round
        rw [resolveName?_withTargets, scopeWith_withTargets h.numbered₂ h.third.pending
            h.importsSettled₂ (fun hvisibility => by cases hvisibility), h.last,
          resolveName?_withTargets, scopeWith_withTargets h.numbered₁ h.second.pending
            h.importsSettled₁ (fun hvisibility => by cases hvisibility), hdenotes]
      · rw [hsupertypeEq] at hother
        exact absurd hsupertype hother
    · obtain ⟨target, hlisted, hdenotes⟩ := h.other hs hwaits himported hsupertype
      refine ⟨target, hlisted, fun hother => ?_, fun hother => ?_, fun _ _ => ?_⟩
      · rw [himportedEq] at hother
        exact absurd hother himported
      · rw [hsupertypeEq] at hother
        exact absurd hother hsupertype
      · rw [resolveName?_withTargets, scope, scopeWith_withTargets h.numbered₂ h.third.pending
          h.importsSettled₂ (fun _ => h.supertypesSettled₂)]
        exact hdenotes

end Rounds

/-- `resolve` gives every pending reference a target, and the outcome `Explains`
it. -/
theorem resolve_explains (hp : p.root.Numbered) {q : Program} (h : p.resolve = .ok q) :
    ∃ targets, q = p.withTargets targets ∧ p.Pending targets
      ∧ ∀ s ∈ p.root.preorder, s.isPending → ∃ target,
          targets.lookup s.identity = some target
            ∧ q.Explains s.identity (s.name?.getD "") target := by
  simp only [resolve, bind_ok_iff, pure_ok_iff] at h
  obtain ⟨imports, himports, supertypes, hsupertypes, references, hreferences, rfl⟩ := h
  have hp₁ : (p.withTargets imports).root.Numbered := numbered_withTargets hp
  have hp₂ : ((p.withTargets imports).withTargets supertypes).root.Numbered :=
    numbered_withTargets hp₁
  have hrounds : Rounds p _ _ imports supertypes references :=
    ⟨hp, rfl, rfl, imports_settle hp himports, supertypes_settle hp₁ hsupertypes,
      references_settle hp₂ hreferences⟩
  refine ⟨references ++ (supertypes ++ imports), ?_, ?_, fun s hs hwaits => ?_⟩
  · rw [withTargets_withTargets, withTargets_withTargets, List.append_assoc]
  · refine (hrounds.first.pending.append hrounds.second.pending).append ?_
    rw [← withTargets_withTargets]
    exact hrounds.third.pending
  · exact hrounds.explains hs hwaits

end Program

end ObjectMachine
