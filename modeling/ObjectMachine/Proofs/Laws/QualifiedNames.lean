/-
Qualified names address entities.

A qualified name is put together on the way up, from an entity to the root.
Followed down from the root, member by member, it leads back to the entity
(`walk_path`), as long as the members of a container have different names and
no dots in them. So no two entities have the same qualified name, and the
search for an entity by its name, through all nodes of the program, finds the
only one there is.

Names lead through members. What stands among the imports of a package is
under the package, too, but no name leads to it
(`imported_entity_is_out_of_reach`).
-/
import Mathlib
import ObjectMachine.Proofs.Program.Sighting
import ObjectMachine.Tree.Build

namespace ObjectMachine

-- ================================================================== dots

/-- The first piece of `dotted` is what comes before the first dot. -/
theorem dotted_append_dot {name : String} (h : '.' ∉ name.toList) (rest : String) :
    dotted (name ++ "." ++ rest) = name :: dotted rest := by
  have hsplit : ∀ {cs more : List Char}, '.' ∉ cs → dotted.split (cs ++ '.' :: more)
      = (cs, (dotted.split more).1 :: (dotted.split more).2) := by
    intro cs more hcs
    induction cs with
    | nil => rfl
    | cons c cs ih =>
        rw [List.mem_cons, not_or] at hcs
        rw [List.cons_append, dotted.split, ih hcs.2]
        exact if_neg (Ne.symm hcs.1)
  have htext : (name ++ "." ++ rest).toList = name.toList ++ '.' :: rest.toList := by simp
  rw [dotted, htext, hsplit h]
  simp [dotted]

/-- Names without dots can be joined by `joinDots` and taken apart again. -/
theorem dotted_joinDots {names : List String} (hne : names ≠ [])
    (h : ∀ name ∈ names, '.' ∉ name.toList) : dotted (joinDots names) = names := by
  induction names with
  | nil => exact absurd rfl hne
  | cons first rest ih =>
      rw [List.forall_mem_cons] at h
      cases rest with
      | nil =>
          rw [joinDots, String.intercalate_singleton]
          exact Program.dotted_of_undotted h.1
      | cons second rest =>
          rw [joinDots, String.intercalate_cons_cons, dotted_append_dot h.1]
          exact congrArg _ (ih (List.cons_ne_nil _ _) h.2)

-- ============================================================== the way down

namespace Kind

variable {α : Type}

/-- The containers whose members have qualified names. -/
def isNamespace : Kind α → Bool
  | .environment _ | .package .. | .describe .. => true
  | _ => false

/-- The containers whose names are part of a `path`. -/
def isQualifier (kind : Kind α) : Bool := kind.isPackage || kind.isDescribe

/-- The imports of a package. -/
def imports : Kind α → List α
  | .package _ imports _ => imports
  | _ => []

theorem mem_imports_or_members {kind : Kind α} (h : kind.isNamespace) {c : α}
    (hc : c ∈ kind.children) : c ∈ kind.imports ∨ c ∈ kind.members := by
  cases kind with
  | package => exact List.mem_append.1 hc
  | environment | describe => exact .inr hc
  | _ => cases h

/-- A container whose name is part of a path is an entity itself. -/
theorem entity_of_isQualifier {kind : Kind α} (h : kind.isQualifier) :
    kind.isEntity ∧ kind.isNamespace ∧ ∃ name, kind.name? = some name := by
  cases kind with
  | package | describe => exact ⟨rfl, rfl, _, rfl⟩
  | _ => cases h

end Kind

namespace Tree

theorem walk_append (t : Tree) (names more : List String) :
    t.walk (names ++ more) = (t.walk names).bind fun s => s.walk more := by
  induction names generalizing t with
  | nil => rfl
  | cons name names ih =>
      rw [List.cons_append, walk, walk]
      split
      · exact ih _
      · rfl

/-- Where names are different, a name finds every member. -/
theorem find?_named {members : List Tree} (hdistinct : (members.filterMap name?).Nodup) {c : Tree}
    (hc : c ∈ members) {name : String} (hname : c.name? = some name) :
    (members.find? fun member => member.name? == some name) = some c := by
  induction members with
  | nil => cases hc
  | cons first rest ih =>
      by_cases hfirst : first.name? = some name
      · rw [List.find?_cons_of_pos (by rw [hfirst]; exact beq_self_eq_true _)]
        rcases List.mem_cons.1 hc with rfl | hc
        · rfl
        · rw [List.filterMap_cons_some hfirst] at hdistinct
          exact absurd (List.mem_filterMap.2 ⟨c, hc, hname⟩) (List.nodup_cons.1 hdistinct).1
      · rw [List.find?_cons_of_neg (by rwa [beq_iff_eq])]
        have hsub : (rest.filterMap name?).Sublist ((first :: rest).filterMap name?) :=
          (List.sublist_cons_self first rest).filterMap _
        rcases List.mem_cons.1 hc with rfl | hc
        · exact absurd hname hfirst
        · exact ih (hdistinct.sublist hsub) hc

theorem walk_member {t c : Tree} (hdistinct : t.memberNames.Nodup) (hc : c ∈ t.members)
    {name : String} (hname : c.name? = some name) : t.walk [name] = some c := by
  rw [walk, find?_named hdistinct hc hname]
  rfl

/-- What is `Below` a node is not the root. -/
theorem Below.ne_root {root t c : Tree} {above : List Tree} (h : Below root (t :: above) c) :
    c ≠ root := by
  rintro rfl
  have hlength := h.length_le
  rw [List.length_cons] at hlength
  omega

/-- The names in a path through nodes, the nearest of them last. -/
def pathThrough (above : List Tree) : List String :=
  ((above.filter fun a => a.kind.isQualifier).filterMap name?).reverse

theorem pathThrough_cons {t : Tree} (h : t.kind.isQualifier) {name : String}
    (hname : t.name? = some name) (above : List Tree) :
    pathThrough (t :: above) = pathThrough above ++ [name] := by
  have hkept : (t :: above).filter (fun a => a.kind.isQualifier)
      = t :: above.filter fun a => a.kind.isQualifier := List.filter_cons_of_pos h
  rw [pathThrough, hkept, List.filterMap_cons_some hname, List.reverse_cons]
  rfl

end Tree

namespace Program

variable {p : Program}

/-- What qualified names rest on: the members of an environment, a package or
a describe have different names, without dots, and there is nothing but
packages and describes between the root and what is addressed. -/
@[mk_iff]
structure WellNamed (p : Program) : Prop where
  distinct : ∀ t ∈ p.root.preorder, t.kind.isNamespace → t.memberNames.Nodup
  undotted : ∀ t ∈ p.root.preorder, t.kind.isNamespace →
    ∀ name ∈ t.memberNames, '.' ∉ name.toList
  between : ∀ t ∈ p.root.preorder, p.isAddressable t.identity →
    ∀ above ∈ p.ancestors t.identity, above = p.rootId ∨ p.isKind Kind.isQualifier above

/-- No entity that has a name stands among the imports of a package. -/
def ImportsNoEntity (p : Program) : Prop :=
  ∀ t ∈ p.root.preorder, ∀ c ∈ t.kind.imports, c.kind.isEntity → c.name? = none

instance : DecidablePred WellNamed := fun p => decidable_of_iff' _ (wellNamed_iff p)

instance : DecidablePred ImportsNoEntity := fun p =>
  inferInstanceAs (Decidable (∀ t ∈ p.root.preorder, ∀ c ∈ t.kind.imports,
    c.kind.isEntity → c.name? = none))

open ObjectMachine.Tree

section

variable (hp : p.root.Numbered)
include hp

theorem path_of_below {above : List Tree} {t : Tree} (h : Below p.root above t) :
    p.path t.identity = pathThrough above := by
  have hkind : ∀ a ∈ above, p.kind? a.identity = some a.kind := fun a ha =>
    kind?_of_mem hp (h.mem_of_above ha)
  rw [path, ancestors_of_below hp h, List.filter_map, List.filterMap_map, pathThrough]
  congr 1
  have htest : above.filter (p.isKind Kind.isQualifier ∘ identity)
      = above.filter fun a => a.kind.isQualifier := by
    refine List.filter_congr fun a ha => ?_
    rw [Function.comp_apply, isKind, hkind a ha]
    rfl
  refine (congrArg _ htest).trans (List.filterMap_congr fun a ha => ?_)
  rw [Function.comp_apply, Program.name?, hkind a (List.mem_of_mem_filter ha)]
  rfl

/-- What `isAddressable`, and the `isNamespace` it stands in. -/
theorem exists_below_of_addressable {id : NodeId} (h : p.isAddressable id) :
    ∃ above t c name, Below p.root above t ∧ c ∈ t.children ∧ c.identity = id
      ∧ t.kind.isNamespace ∧ c.kind.isEntity ∧ c.name? = some name := by
  unfold isAddressable at h
  split at h
  · next kind parentKind hkind hparent =>
    obtain ⟨c, htree, rfl⟩ := Option.map_eq_some_iff.1 hkind
    obtain ⟨hc, rfl⟩ := (tree?_eq_some_iff hp).1 htree
    obtain ⟨above, hbelow⟩ := exists_below_of_mem .root hc
    rw [parent?_of_below hp hbelow] at hparent
    cases hbelow with
    | root => cases hparent
    | @child above t c hbelow hchild =>
        rw [List.head?_cons, Option.map_some, Option.bind_some,
          kind?_of_mem hp hbelow.mem] at hparent
        cases hparent
        rw [Bool.and_eq_true, Bool.and_eq_true] at h
        obtain ⟨name, hname⟩ := Option.isSome_iff_exists.1 h.1.2
        refine ⟨above, t, c, name, hbelow, hchild, rfl, ?_, h.1.1, hname⟩
        cases hkind : t.kind with
        | environment | package | describe => rfl
        | _ =>
            rw [hkind] at h
            cases h.2
  · cases h

end

section

variable (henv : p.root.kind = .environment p.topLevel) (hnames : p.WellNamed)
  (himports : p.ImportsNoEntity)
include hnames himports

/-- From the container it is in, `walk` leads to an entity by its name. -/
theorem walk_entity {t c : Tree} (ht : t ∈ p.root.preorder) (hnamespace : t.kind.isNamespace)
    (hc : c ∈ t.children) (hentity : c.kind.isEntity) {name : String}
    (hname : c.name? = some name) : t.walk [name] = some c ∧ '.' ∉ name.toList := by
  have hmember : c ∈ t.members := by
    rcases Kind.mem_imports_or_members hnamespace hc with himport | hmember
    · cases (himports t ht c himport hentity).symm.trans hname
    · exact hmember
  exact ⟨walk_member (hnames.distinct t ht hnamespace) hmember hname,
    hnames.undotted t ht hnamespace name (List.mem_filterMap.2 ⟨c, hmember, hname⟩)⟩

include henv

/-- The path that is built on the way up, `pathThrough`, leads back on the way
down, by `walk`. -/
theorem walk_path {above : List Tree} {t : Tree} (h : Below p.root above t)
    (hchain : ∀ a ∈ t :: above, a = p.root ∨ a.kind.isQualifier) :
    p.root.walk (pathThrough (t :: above)) = some t
      ∧ ∀ name ∈ pathThrough (t :: above), '.' ∉ name.toList := by
  induction h with
  | root =>
      have hempty : pathThrough [p.root] = [] := by
        rw [pathThrough, List.filter_cons_of_neg (by rw [henv]; exact Bool.false_ne_true)]
        rfl
      rw [hempty]
      exact ⟨rfl, nofun⟩
  | @child above t c h hc ih =>
      have hqualifier : c.kind.isQualifier :=
        (hchain c List.mem_cons_self).resolve_left (h.child hc).ne_root
      have habove := fun a ha => hchain a (List.mem_cons_of_mem _ ha)
      have hnamespace : t.kind.isNamespace := by
        rcases habove t List.mem_cons_self with rfl | ht
        · rw [henv]
          rfl
        · exact (Kind.entity_of_isQualifier ht).2.1
      obtain ⟨hentity, -, name, hname⟩ := Kind.entity_of_isQualifier hqualifier
      obtain ⟨hwalk, hdots⟩ := walk_entity hnames himports h.mem hnamespace hc hentity hname
      obtain ⟨hwalk', hdots'⟩ := ih habove
      rw [pathThrough_cons hqualifier hname]
      refine ⟨?_, fun other hother => ?_⟩
      · rw [walk_append, hwalk', Option.bind_some, hwalk]
      · rcases List.mem_append.1 hother with hother | hother
        · exact hdots' other hother
        · exact List.mem_singleton.1 hother ▸ hdots

/-- `resolveQualified?` undoes `qualifiedName`. -/
theorem resolveQualified?_qualifiedName (hp : p.root.Numbered) {id : NodeId}
    (h : p.isAddressable id) : p.resolveQualified? (p.qualifiedName id) = some id := by
  obtain ⟨above, t, c, name, hbelow, hc, rfl, hnamespace, hentity, hname⟩ :=
    exists_below_of_addressable hp h
  have hbelow' : Below p.root (t :: above) c := hbelow.child hc
  have hchain : ∀ a ∈ t :: above, a = p.root ∨ a.kind.isQualifier := by
    intro a ha
    have hmem := hbelow'.mem_of_above ha
    have hancestor : a.identity ∈ p.ancestors c.identity := by
      rw [ancestors_of_below hp hbelow']
      exact List.mem_map_of_mem ha
    refine (hnames.between c hbelow'.mem h _ hancestor).imp (fun hroot => ?_) fun hkind => ?_
    · exact hp.eq_of_identity hmem (mem_preorder_self _) hroot
    · rwa [isKind, kind?_of_mem hp hmem] at hkind
  obtain ⟨hwalk, hdots⟩ := walk_entity hnames himports hbelow.mem hnamespace hc hentity hname
  obtain ⟨hwalk', hdots'⟩ := walk_path henv hnames himports hbelow hchain
  have hfull : p.qualifiedName c.identity = joinDots (pathThrough (t :: above) ++ [name]) := by
    rw [← path_of_below hp hbelow']
    exact nameWithin_of_named (by rw [Program.name?, kind?_of_mem hp hbelow'.mem]; exact hname) _
  have hpieces : ∀ piece ∈ pathThrough (t :: above) ++ [name], '.' ∉ piece.toList := by
    intro piece hpiece
    rcases List.mem_append.1 hpiece with hpiece | hpiece
    · exact hdots' piece hpiece
    · exact List.mem_singleton.1 hpiece ▸ hdots
  rw [resolveQualified?, hfull,
    dotted_joinDots (List.append_ne_nil_of_right_ne_nil _ (List.cons_ne_nil _ _)) hpieces,
    walk_append, hwalk', Option.bind_some, hwalk]
  rfl

end

theorem entity?_eq_some {name : String} {id : NodeId} (h : p.entity? name = some id) :
    p.isAddressable id ∧ p.qualifiedName id = name := by
  have hfound := List.find?_some h
  rw [Bool.and_eq_true, beq_iff_eq] at hfound
  exact hfound

/-- `entity?` finds what `isAddressable` by its qualified name, or another node
that has the same. -/
theorem exists_entity? (hp : p.root.Numbered) {id : NodeId} (h : p.isAddressable id) :
    ∃ found, p.entity? (p.qualifiedName id) = some found := by
  obtain ⟨above, t, c, name, hbelow, hc, rfl, -⟩ := exists_below_of_addressable hp h
  have hdescendant : c ∈ p.root.descendants := by
    have hmem := (hbelow.child hc).mem
    rw [preorder_eq] at hmem
    rw [descendants_eq, preorder_eq]
    exact (List.mem_cons.1 hmem).resolve_left (hbelow.child hc).ne_root
  have hlisted : c.identity ∈ (p.descendantIds p.rootId).reverse := by
    rw [descendantIds, rootId, (tree?_eq_some_iff hp).2 ⟨mem_preorder_self p.root, rfl⟩]
    exact List.mem_reverse.2 (List.mem_map_of_mem hdescendant)
  refine Option.isSome_iff_exists.1 (List.find?_isSome.2 ⟨_, hlisted, ?_⟩)
  rw [h, beq_self_eq_true]
  rfl

/-- In a `WellNamed` program whose imports are no entities, a `qualifiedName`
leads to its entity, and to nothing else. The search for an entity by its name,
`entity?`, finds just this one. -/
theorem qualified_names_address {base : Option Program} {forest : List Tree}
    (hlink : link base forest = .ok p) (hnames : p.WellNamed) (himports : p.ImportsNoEntity) :
    (∀ id, p.isAddressable id → p.entity? (p.qualifiedName id) = some id
      ∧ p.resolveQualified? (p.qualifiedName id) = some id)
    ∧ ∀ name id, p.entity? name = some id → p.isAddressable id ∧ p.qualifiedName id = name := by
  obtain ⟨root, targets, hlinks⟩ := links_of_link hlink
  have hresolves : ∀ {id}, p.isAddressable id →
      p.resolveQualified? (p.qualifiedName id) = some id :=
    resolveQualified?_qualifiedName hlinks.environment hnames himports hlinks.numbered_outcome
  refine ⟨fun id hid => ⟨?_, hresolves hid⟩, fun name id => entity?_eq_some⟩
  obtain ⟨found, hfound⟩ := exists_entity? hlinks.numbered_outcome hid
  obtain ⟨haddressed, hname⟩ := entity?_eq_some hfound
  have hsame : some found = some id := by
    rw [← hresolves haddressed, hname, hresolves hid]
  rw [hfound, hsame]

end Program

namespace Sample

open Build

/-- Three mixins of one name, one of them in a package inside a package, and
a test that is called like a package. -/
def atlas : List Tree :=
  [package "land" [package "hill" [mixin "Stone" []], mixin "Stone" [],
     describe "stroll" [test "hill" []]],
   packageImporting "sea" [importAll "land.hill"] [mixin "Stone" []]]

/-- A package with a mixin among its imports. -/
def stowage : List Tree := [packageImporting "sea" [mixin "Stone" []] []]

end Sample

open Program in
/-- Each of them is addressed by its own name. -/
theorem atlas_qualified_names :
    ∃ p, link none Sample.atlas = .ok p ∧ p.WellNamed ∧ p.ImportsNoEntity
      ∧ (p.entity? "land.hill.Stone" = some 3 ∧ p.resolveQualified? "land.hill.Stone" = some 3)
      ∧ p.entity? "land.stroll.hill" = some 6
      ∧ p.resolveQualified? "land.stroll.hill" = some 6 := by
  obtain ⟨p, hlink, hnames, himports, hmixin, htest, hname, hname'⟩ : ∃ p,
      link none Sample.atlas = .ok p ∧ p.WellNamed ∧ p.ImportsNoEntity
        ∧ p.isAddressable 3 ∧ p.isAddressable 6
        ∧ p.qualifiedName 3 = "land.hill.Stone" ∧ p.qualifiedName 6 = "land.stroll.hill" :=
    ⟨_, rfl, by decide +kernel, by decide +kernel, rfl, rfl, rfl, rfl⟩
  have haddress := (qualified_names_address hlink hnames himports).1
  rw [← hname, ← hname']
  exact ⟨p, hlink, hnames, himports, haddress 3 hmixin, haddress 6 htest⟩

open Program in
/-- A mixin among the imports of a package is addressed as one of the package,
but its name does not lead to it. -/
theorem imported_entity_is_out_of_reach :
    ∃ p, link none Sample.stowage = .ok p ∧ p.WellNamed ∧ p.isAddressable 2
      ∧ p.qualifiedName 2 = "sea.Stone" ∧ p.entity? "sea.Stone" = some 2
      ∧ p.resolveQualified? "sea.Stone" = none :=
  ⟨_, rfl, by decide +kernel, rfl, rfl, rfl, rfl⟩

end ObjectMachine
