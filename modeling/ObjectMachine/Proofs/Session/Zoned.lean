/-
Heaps in which every context is of the sort that the program says.

Program/Zones.lean says in which zone the code of a node runs. Here the
contexts of a heap are given zones (`Zoning`), and the heap has to agree
(`Heap.Zoned`): a context binds the names of its zone only, and hangs from
where its zone hangs from. A block inside other code hangs from the context
of that code, and the body of a method from an object that has the method.
Objects without a name hang from the context of the code they are written
in, and have the fields of their module only.

Whatever the machine does to a heap keeps it zoned, one lemma for each
change. Zones are only ever given to contexts that had none, or to the
context of a handler that has been chosen; neither takes anything away from
what is inside (`Zoning.Refines`).
-/
import Mathlib
import ObjectMachine.Proofs.Machine.Additions
import ObjectMachine.Proofs.Program.Sighting
import ObjectMachine.Proofs.Session.Instances

namespace ObjectMachine

/-- The zone of every context. -/
abbrev Zoning := ContextId → Zone

namespace Kind

variable {α : Type}

/-- What has a body that hangs from no other code. -/
def isRoutine : Kind α → Bool
  | .method .. | .constructor .. | .program .. | .test .. | .fixture .. => true
  | _ => false

/-- What holds members. -/
def isHolder (kind : Kind α) : Bool := kind.isContainer || kind.isAnonymous

theorem isHolder_of_mem_members {kind : Kind α} {c : α} (h : c ∈ kind.members) :
    kind.isHolder := by
  cases kind with
  | singleton name => cases name <;> rfl
  | environment | package | describe | classDecl | mixin => rfl
  | _ => cases h

end Kind

namespace Tree

/-- The `preorder` of a node is part of any that lists the node. -/
theorem preorder_sublist {t s : Tree} (hs : s ∈ t.preorder) : s.preorder.Sublist t.preorder := by
  induction t using ofChildren with
  | h t ih =>
      rw [t.preorder_eq] at hs ⊢
      rcases List.mem_cons.1 hs with rfl | hs
      · rw [s.preorder_eq]
      · obtain ⟨c, hc, hs⟩ := List.mem_flatMap.1 hs
        obtain ⟨before, after, hsplit⟩ := List.append_of_mem hc
        refine ((ih c hc hs).trans ?_).cons t
        rw [hsplit, List.flatMap_append, List.flatMap_cons]
        exact (List.sublist_append_left _ _).trans (List.sublist_append_right _ _)

theorem children_sublist (t : Tree) : t.children.Sublist t.preorder := by
  have hself (ts : List Tree) : ts.Sublist (ts.flatMap preorder) := by
    induction ts with
    | nil => exact List.Sublist.refl _
    | cons first rest ih =>
        rw [List.flatMap_cons, first.preorder_eq]
        exact (ih.trans (List.sublist_append_right _ _)).cons_cons first
  rw [t.preorder_eq]
  exact (hself t.children).cons t

/-- Siblings of a `Numbered` tree have different identities. -/
theorem Numbered.nodup_children {root t : Tree} (h : root.Numbered) (ht : t ∈ root.preorder) :
    (t.children.map identity).Nodup :=
  (((children_sublist t).trans (preorder_sublist ht)).map identity).nodup h.nodup

end Tree

namespace Program

variable {p : Program} {zones zones' : Zoning} {h h' : Heap} {zone : Zone} {name : String}

/-- The body of a constructor stands under it, by `parent?`. -/
theorem IsBodyOf.parent (hp : p.root.Numbered) {body constructor : NodeId}
    (hbody : p.IsBodyOf body constructor) : p.parent? body = some constructor := by
  obtain ⟨parameters, baseCall, block, hkind, rfl⟩ := hbody
  obtain ⟨t, htree, hk⟩ := Option.map_eq_some_iff.1 hkind
  obtain ⟨ht, rfl⟩ := (tree?_eq_some_iff hp).1 htree
  refine parent?_of_child hp ht ?_
  rw [Tree.children, hk]
  exact List.mem_append_right _ List.mem_cons_self

/-- The body of a constructor is not part of other code, so it is `Sited`
nowhere. -/
theorem IsBodyOf.not_sited (hp : p.root.Numbered) {body constructor : NodeId}
    (hbody : p.IsBodyOf body constructor) : ¬ p.Sited zone body := by
  have hparent := hbody.parent hp
  obtain ⟨parameters, baseCall, block, hkind, rfl⟩ := hbody
  have hother {test : Kind Tree → Bool} {above : NodeId}
      (hup : p.parent? block.identity = some above)
      (htest : p.isKind test above) : test (.constructor parameters baseCall block) := by
    cases hparent.symm.trans hup
    rwa [isKind, hkind] at htest
  rintro (hsits | hloose)
  · cases hsits with
    | sentence parent isBlock => cases hother parent isBlock
    | global parent variable_ _ _ => cases hother parent variable_
    | inside parent inline _ => cases hother parent inline
  · cases hloose with
    | inside parent inline _ => cases hother parent inline
    | detached apart =>
        obtain ⟨above, kind, hup, hkind', hcases⟩ := apart
        cases hparent.symm.trans hup
        cases hkind.symm.trans hkind'
        rcases hcases with hmem | ⟨hvariable, -⟩
        · -- an argument of the base call is a sibling of the body
          obtain ⟨t, htree, hk⟩ := Option.map_eq_some_iff.1 hkind
          obtain ⟨ht, rfl⟩ := (tree?_eq_some_iff hp).1 htree
          have hnodup := hp.nodup_children ht
          rw [Tree.children, hk, Kind.children, List.map_append] at hnodup
          refine List.disjoint_of_nodup_append hnodup ?_ List.mem_cons_self
          rw [List.map_append]
          exact List.mem_append_right _ hmem
        · cases hvariable

/-- Where the context of a block may hang from: an object that has the
routine that the block is the body of, the context of the code around the
block, or the globals. -/
inductive BlockHangs (p : Program) (zones : Zoning) (h : Heap) (body : NodeId) : Option Link → Prop
  | owned {unit owner : NodeId} {id : ObjectId} {o : Object} (parent : p.parent? body = some unit)
      (routine : p.isKind Kind.isRoutine unit) (above : p.parent? unit = some owner)
      (holder : p.isKind Kind.isHolder owner) (known : h.object? id = some o)
      (inherits : p.inherits o.module owner) : BlockHangs p zones h body (some (.object id))
  | nested {id : ContextId} (sited : p.Sited (zones id) body) :
      BlockHangs p zones h body (some (.context id))
  | outermost {unit : NodeId} (parent : p.parent? body = some unit)
      (routine : p.isKind Kind.isRoutine unit) (plain : ¬ p.isKind Kind.isConstructor unit) :
      BlockHangs p zones h body (some (.context rootContext))

/-- Where a context of a zone hangs from. That of a constructor has its
object at hand as `self`. -/
def Hangs (p : Program) (zones : Zoning) (h : Heap) (c : Context) : Zone → Prop
  | .globals => c.parent = none
  | .loose => True
  | .handlers protection =>
    ∃ outer, c.parent = some (.context outer) ∧ p.Sited (zones outer) protection
  | .block body => p.BlockHangs zones h body c.parent
    ∧ ∀ constructor id, p.IsBodyOf body constructor → c.parent = some (.object id) →
      c.locals.get? "self" = some id

/-- A context that fits a zone: it binds names of the zone only (`Binds`), and
`Hangs` from where the zone does. -/
structure FitsZone (p : Program) (zones : Zoning) (h : Heap) (c : Context) (zone : Zone) :
    Prop where
  names : ∀ name, (c.locals.get? name).isSome → p.Binds name zone ∨ name = "self"
  hangs : p.Hangs zones h c zone

/-- An object that hangs from where its module says. -/
structure HangsByModule (p : Program) (zones : Zoning) (o : Object) : Prop where
  named : ¬ p.isKind Kind.isAnonymous o.module → o.parent = rootContext
  sited : p.isKind Kind.isAnonymous o.module → p.Sited (zones o.parent) o.module
  fields : p.isKind Kind.isAnonymous o.module →
    ∀ name, (o.fields.get? name).isSome → name ∈ p.fieldNames o.module

/-- Code that is `Sited` in a zone goes on being so. -/
def Refines (p : Program) (zones zones' : Zoning) : Prop :=
  ∀ id node, p.Sited (zones id) node → p.Sited (zones' id) node

/-- Nothing but loose code is `Sited` in the `loose` zone or in `handlers`, so
either may become any other zone. -/
theorem refines_update {id : ContextId}
    (hold : zones id = .loose ∨ ∃ protection, zones id = .handlers protection) (zone : Zone) :
    p.Refines zones (Function.update zones id zone) := by
  intro id' node hsited
  by_cases hid : id' = id
  · subst hid
    rcases hsited with hsits | hloose
    · rcases hold with hold | ⟨protection, hold⟩ <;> rw [hold] at hsits <;>
        rcases hsits.known with heq | ⟨_, heq⟩ <;> cases heq
    · exact .inr hloose
  · rwa [Function.update_of_ne hid]

section

variable (grows : h.Grows h') (refines : p.Refines zones zones')
include grows refines

theorem BlockHangs.mono {body : NodeId} {link : Option Link}
    (hanchored : p.BlockHangs zones h body link) : p.BlockHangs zones' h' body link := by
  cases hanchored with
  | owned parent routine above holder known inherits =>
      obtain ⟨o', known', hgrows⟩ := grows.object known
      exact .owned parent routine above holder known' (by rwa [hgrows.module])
  | nested sited => exact .nested (refines _ _ sited)
  | outermost parent routine plain => exact .outermost parent routine plain

theorem Hangs.mono {c : Context} (hhangs : p.Hangs zones h c zone) : p.Hangs zones' h' c zone := by
  cases zone with
  | globals => exact hhangs
  | loose => trivial
  | handlers protection =>
      obtain ⟨outer, hparent, hsited⟩ := hhangs
      exact ⟨outer, hparent, refines _ _ hsited⟩
  | block body => exact ⟨hhangs.1.mono grows refines, hhangs.2⟩

theorem FitsZone.mono {c : Context} (hc : p.FitsZone zones h c zone) :
    p.FitsZone zones' h' c zone :=
  ⟨hc.names, hc.hangs.mono grows refines⟩

end

theorem HangsByModule.mono (refines : p.Refines zones zones') {o : Object}
    (ho : p.HangsByModule zones o) :
    p.HangsByModule zones' o :=
  ⟨ho.named, fun hanonymous => refines _ _ (ho.sited hanonymous), ho.fields⟩

/-- An object of a module with a name hangs from the root context. -/
theorem hangsByModule_of_named {o : Object} (hmodule : ¬ p.isKind Kind.isAnonymous o.module)
    (hparent : o.parent = rootContext) : p.HangsByModule zones o :=
  ⟨fun _ => hparent, fun h => absurd h hmodule, fun h => absurd h hmodule⟩

/-- A new context `Inside` that of the code around it fits its zone. -/
theorem Inside.fitsZone {id : ContextId} (hinside : p.Inside (zones id) zone) :
    p.FitsZone zones h { parent := some (.context id) } zone := by
  refine ⟨fun name hbound => absurd hbound Bool.false_ne_true, ?_⟩
  cases zone with
  | globals => exact hinside.elim
  | loose => trivial
  | handlers protection => exact ⟨id, rfl, hinside⟩
  | block body => exact ⟨.nested hinside, fun _ _ _ hparent => nomatch hparent⟩

end Program

-- ================================================================ heaps

/-- A heap whose contexts are of the zones they are given. Contexts that do not
exist yet are in the `loose` zone. -/
structure Heap.Zoned (p : Program) (zones : Zoning) (h : Heap) : Prop where
  root : zones rootContext = .globals
  fresh : ∀ id, h.contexts.size ≤ id → zones id = .loose
  context : ∀ {id c}, h.context? id = some c → p.FitsZone zones h c (zones id)
  object : ∀ {id o}, h.object? id = some o → p.HangsByModule zones o

namespace Heap.Zoned

variable {p : Program} {zones zones' : Zoning} {h h' : Heap} (hz : h.Zoned p zones)
include hz

theorem root_lt : rootContext < h.contexts.size := by
  by_contra hge
  have hroot := hz.root
  rw [hz.fresh _ (Nat.le_of_not_lt hge)] at hroot
  cases hroot

/-- `Zoned` looks at objects only, where contexts stay as they are. -/
theorem of_object (hcontexts : h'.contexts = h.contexts) (grows : h.Grows h')
    (object : ∀ {id o}, h'.object? id = some o → p.HangsByModule zones o) : h'.Zoned p zones where
  root := hz.root
  fresh id hid := hz.fresh id (hcontexts ▸ hid)
  context := by
    intro id c hc
    rw [context?, hcontexts] at hc
    exact (hz.context hc).mono grows fun _ _ h => h
  object := object

theorem allocate {o : Object} (ho : p.HangsByModule zones o) : (h.allocate o).2.Zoned p zones := by
  refine hz.of_object rfl (allocate_grows h o) fun {id o'} ho' => ?_
  rw [object?_allocate] at ho'
  split at ho'
  · cases ho'
    exact ⟨ho.named, ho.sited, ho.fields⟩
  · exact hz.object ho'

theorem intern (key : String) {module : NodeId} (hmodule : ¬ p.isKind Kind.isAnonymous module)
    (inner : Inner) : (h.intern key module inner).2.Zoned p zones := by
  unfold Heap.intern
  split
  · exact hz
  · have hnew : (h.allocate { module, inner := some inner }).2.Zoned p zones :=
      hz.allocate (Program.hangsByModule_of_named hmodule rfl)
    exact hnew.of_object rfl ⟨fun ho => ⟨_, ho, .refl _⟩, fun hc => ⟨_, hc, rfl, fun _ hl => hl⟩⟩
      hnew.object

/-- `Zoned` does not depend on what is inside an object. -/
theorem updateObject {id : ObjectId} {f : Object → Object} (grows : h.Grows (h.updateObject id f))
    (hmodule : ∀ o, (f o).module = o.module) (hparent : ∀ o, (f o).parent = o.parent)
    (hfields : ∀ o, (f o).fields = o.fields) : (h.updateObject id f).Zoned p zones := by
  refine hz.of_object rfl grows fun {id' o'} ho' => ?_
  rw [object?_updateObject] at ho'
  split at ho'
  · obtain ⟨o, ho, rfl⟩ := Option.map_eq_some_iff.1 ho'
    have hhangs := hz.object ho
    refine ⟨?_, ?_, ?_⟩ <;> rw [hmodule]
    · rw [hparent]
      exact hhangs.named
    · rw [hparent]
      exact hhangs.sited
    · rw [hfields]
      exact hhangs.fields
  · exact hz.object ho'

/-- `putField` on an object without a name has to be of a field of its
module. -/
theorem putField {id : ObjectId} {name : String}
    (hname : ∀ o, h.object? id = some o → p.isKind Kind.isAnonymous o.module →
      (o.fields.get? name).isSome ∨ name ∈ p.fieldNames o.module)
    (value : ObjectId) : (h.putField id name value).Zoned p zones := by
  have hgrows : h.Grows (h.putField id name value) := updateObject_grows fun o _ =>
    .of_inner rfl rfl rfl rfl rfl fun _ hf => Bindings.isSome_get?_insert hf name value
  refine hz.of_object rfl hgrows fun {id' o'} ho' => ?_
  rw [Heap.putField, object?_updateObject] at ho'
  split at ho'
  · next heq =>
    subst heq
    obtain ⟨o, ho, rfl⟩ := Option.map_eq_some_iff.1 ho'
    have hhangs := hz.object ho
    refine ⟨hhangs.named, hhangs.sited, fun hanonymous other hfield => ?_⟩
    rw [Bindings.get?_insert] at hfield
    split at hfield
    · next hsame =>
      rw [hsame]
      exact (hname o ho hanonymous).elim (hhangs.fields hanonymous name) fun hmem => hmem
    · exact hhangs.fields hanonymous other hfield
  · exact hz.object ho'

theorem putAll {id : ObjectId} {names : List String}
    (hnames : ∀ o, h.object? id = some o → p.isKind Kind.isAnonymous o.module →
      names ⊆ p.fieldNames o.module)
    (value : ObjectId) : (h.putAll id names value).Zoned p zones := by
  unfold Heap.putAll
  induction names generalizing h with
  | nil => exact hz
  | cons name rest ih =>
      refine ih (hz.putField (fun o ho hanonymous => .inr (hnames o ho hanonymous
        List.mem_cons_self)) value) fun o' ho' hanonymous => ?_
      have hput : (h.putField id name value).object? id = some o' := ho'
      rw [Heap.putField, object?_updateObject] at hput
      rw [if_pos rfl] at hput
      obtain ⟨o, ho, rfl⟩ := Option.map_eq_some_iff.1 hput
      exact List.subset_of_cons_subset (hnames o ho hanonymous)

/-- `declare` binds a name where its zone may bind it. -/
theorem declare {id : ContextId} {name : String} (hbinds : p.Binds name (zones id))
    (hself : name = "self" → zones id = .loose) (value : ObjectId) :
    (h.declare id name value).Zoned p zones where
  root := hz.root
  fresh id' hid := hz.fresh id' ((contexts_size_declare ..).symm ▸ hid)
  context := by
    intro id' c' hc'
    rw [context?_declare] at hc'
    split at hc'
    · next heq =>
      subst heq
      obtain ⟨c, hc, rfl⟩ := Option.map_eq_some_iff.1 hc'
      obtain ⟨hnames, hhangs⟩ := (hz.context hc).mono (declare_grows h id name value) fun _ _ h => h
      refine ⟨fun other hbound => ?_, ?_⟩
      · rw [Bindings.get?_insert] at hbound
        split at hbound
        · next hsame => exact .inl (hsame ▸ hbinds)
        · exact hnames other hbound
      · cases hzone : zones id with
        | globals | handlers => rwa [hzone] at hhangs
        | loose => trivial
        | block body =>
            rw [hzone] at hhangs hself
            refine ⟨hhangs.1, fun constructor object hbody hparent => ?_⟩
            rw [Bindings.get?_insert, if_neg fun heq => nomatch hself heq.symm]
            exact hhangs.2 constructor object hbody hparent
    · exact (hz.context hc').mono (declare_grows h id name value) fun _ _ h => h
  object := hz.object

/-- Where a name is bound already, `declare` may bind it again. -/
theorem redeclare {id : ContextId} {name : String} (hbound : (h.local? id name).isSome)
    (hself : name ≠ "self") (value : ObjectId) : (h.declare id name value).Zoned p zones := by
  refine hz.declare ?_ (fun heq => absurd heq hself) value
  obtain ⟨found, hfound⟩ := Option.isSome_iff_exists.1 hbound
  obtain ⟨c, hc, hlocal⟩ := Option.bind_eq_some_iff.1 hfound
  exact ((hz.context hc).names name (by rw [hlocal]; rfl)).resolve_right hself

theorem assign {name : String} (hself : name ≠ "self") (id : ContextId) (value : ObjectId) :
    (h.assign id name value).2.Zoned p zones := by
  unfold Heap.assign
  split
  · next holder hholder => exact hz.redeclare (binds_of_holderFrom hholder) hself value
  · next holder hholder =>
    obtain ⟨o, ho, hfield⟩ := binds_of_holderFrom hholder
    refine hz.putField (fun o' ho' _ => .inl ?_) value
    cases ho.symm.trans ho'
    exact hfield
  · exact hz

/-- A new context, given a zone. -/
theorem opened {c : Context} {zone : Zone} (hc : p.FitsZone zones h c zone)
    (objects : h'.objects = h.objects) (size : h'.contexts.size = h.contexts.size + 1)
    (contexts : ∀ id, h'.context? id = if id = h.contexts.size then some c else h.context? id) :
    h'.Zoned p (Function.update zones h.contexts.size zone) := by
  have hnew : zones h.contexts.size = .loose := hz.fresh _ le_rfl
  have refines : p.Refines zones (Function.update zones h.contexts.size zone) :=
    Program.refines_update (.inl hnew) zone
  have hobject (id : ObjectId) : h'.object? id = h.object? id := by rw [object?, objects, object?]
  have grows : h.Grows h' := by
    refine ⟨fun {id o} ho => ⟨o, by rwa [hobject], .refl o⟩,
      fun {id c'} hc' => ⟨c', ?_, rfl, fun _ h => h⟩⟩
    rw [contexts, if_neg (Nat.ne_of_lt (Array.getElem?_eq_some_iff.1 hc').1)]
    exact hc'
  refine ⟨?_, fun id hid => ?_, fun {id c'} hc' => ?_, fun {id o} ho => ?_⟩
  · rw [Function.update_of_ne (Nat.ne_of_lt hz.root_lt)]
    exact hz.root
  · rw [size] at hid
    rw [Function.update_of_ne (Nat.ne_of_gt hid)]
    exact hz.fresh id (Nat.le_of_succ_le hid)
  · rw [contexts] at hc'
    split at hc'
    · next heq =>
      cases hc'
      rw [heq, Function.update_self]
      exact hc.mono grows refines
    · next hne =>
      rw [Function.update_of_ne hne]
      exact (hz.context hc').mono grows refines
  · rw [hobject] at ho
    exact (hz.object ho).mono refines

/-- The context of a handler that is chosen (`Handles`) is that of its body. -/
theorem handle {id : ContextId} {protection body : NodeId} {name : String}
    (hzone : zones id = .handlers protection) (hhandles : p.Handles protection body name) :
    h.Zoned p (Function.update zones id (.block body)) := by
  have refines : p.Refines zones (Function.update zones id (.block body)) :=
    Program.refines_update (.inr ⟨protection, hzone⟩) _
  have grows : h.Grows h := .refl h
  refine ⟨?_, fun id' hid => ?_, fun {id' c} hc => ?_, fun ho => (hz.object ho).mono refines⟩
  · refine (Function.update_of_ne (fun heq => ?_) ..).trans hz.root
    rw [← heq, hz.root] at hzone
    cases hzone
  · refine (Function.update_of_ne (fun heq => ?_) ..).trans (hz.fresh id' hid)
    rw [← heq, hz.fresh id' hid] at hzone
    cases hzone
  · by_cases heq : id' = id
    · rw [heq] at hc
      obtain ⟨hnames, hhangs⟩ := hz.context hc
      rw [hzone] at hnames hhangs
      obtain ⟨outer, hparent, hsited⟩ := hhangs
      rw [heq, Function.update_self]
      refine ⟨fun other hbound => (hnames other hbound).imp_left fun heq => ?_, ?_, ?_⟩
      · rw [show other = exceptionLocal from heq]
        exact .inr (.inr (by simp))
      · rw [hparent]
        exact .nested (refines _ _ (hhandles.2 _ hsited))
      · intro constructor object _ hobject
        cases hparent.symm.trans hobject
    · rw [Function.update_of_ne heq]
      exact (hz.context hc).mono grows refines

theorem newContext {parent : Link} {zone : Zone}
    (hc : p.FitsZone zones h { parent := some parent } zone) :
    (h.newContext parent).2.Zoned p (Function.update zones h.contexts.size zone) :=
  hz.opened hc rfl (Array.size_push ..) (context?_newContext h parent)

end Heap.Zoned

-- ======================================================= parts of heaps

namespace Program

variable {p : Program}

/-- A member stands under what it is a member of. -/
theorem holder_of_member (hp : p.root.Numbered) {owner : NodeId} {member : Tree}
    (h : member ∈ p.membersOf owner) :
    p.parent? member.identity = some owner ∧ p.isKind Kind.isHolder owner := by
  refine ⟨parent?_of_member hp h, ?_⟩
  unfold membersOf at h
  rw [isKind]
  cases hkind : p.kind? owner with
  | none =>
      rw [hkind] at h
      cases h
  | some kind =>
      rw [hkind] at h
      exact Kind.isHolder_of_mem_members h

/-- The constructor of `lookupConstructor?` is one that the module
`inherits`. -/
theorem owner_of_lookupConstructor? (hp : p.root.Numbered) {start constructor : NodeId}
    {arity : Nat}
    (h : p.lookupConstructor? start arity = some constructor) :
    ∃ owner, p.parent? constructor = some owner ∧ p.isKind Kind.isHolder owner
      ∧ p.inherits start owner := by
  obtain ⟨rest, hfound⟩ := lookupConstructor?_eq_some_iff.1 h
  induction hfound with
  | own accepts same =>
      have hmember := (List.mem_filter.1 (List.mem_of_find?_eq_some accepts)).1
      obtain ⟨hparent, hholder⟩ := holder_of_member hp hmember
      exact ⟨_, same ▸ hparent, hholder, p.inherits_self _⟩
  | inherited none next onward ih =>
      obtain ⟨owner, hparent, hholder, hinherits⟩ :=
        ih (lookupConstructor?_eq_some_iff.2 ⟨_, onward⟩)
      have hfollows : p.Follows _ _ := List.mem_append_right _ (Option.mem_toList.2 next)
      exact ⟨owner, hparent, hholder,
        inherits_trans (inherits_iff_follows.2 (.single hfollows)) hinherits⟩

theorem owner_of_declaredMethod? (hp : p.root.Numbered) {owner method : NodeId} {name : String}
    {arity : Nat} (h : p.declaredMethod? owner name arity = some method) :
    p.parent? method = some owner ∧ p.isKind Kind.isHolder owner := by
  obtain ⟨member, hfound, rfl⟩ := Option.map_eq_some_iff.1 h
  exact holder_of_member hp (List.mem_of_find?_eq_some hfound)

/-- Parameters are names that a routine introduces to its body, which therefore
may bind them (`MayBind`). -/
theorem mayBind_parameter (hp : p.root.Numbered) (hself : p.Avoids "self") {routine : NodeId}
    {kind : Kind Tree} {body : Tree} {parameters : List Tree} (hkind : p.kind? routine = some kind)
    (hbody : body ∈ kind.children) (hchildren : parameters ⊆ kind.children)
    (hnames : p.contribution .inherited routine = namedNodes parameters) :
    ∀ t ∈ parameters, ∀ name, t.name? = some name →
      p.MayBind body.identity name ∧ name ≠ "self" := by
  intro t ht name hname
  obtain ⟨s, htree, rfl⟩ := Option.map_eq_some_iff.1 hkind
  obtain ⟨hs, rfl⟩ := (tree?_eq_some_iff hp).1 htree
  refine ⟨.inr (.inl ⟨s.identity, parent?_of_child hp hs hbody, ?_⟩), fun heq => ?_⟩
  · rw [introducedNames, hnames]
    refine List.mem_map.2 ⟨(name, t.identity), List.mem_filterMap.2 ⟨t, ht, ?_⟩, rfl⟩
    rw [hname]
    rfl
  · exact hself t (kind?_child_mem hkind (hchildren ht)) (heq ▸ hname)

/-- The `initializedFields` of an object without a name are the fields of its
module. -/
theorem initializedFields_eq {module : NodeId} (h : p.isKind Kind.isAnonymous module) :
    p.initializedFields module = p.fieldsOf module := by
  obtain ⟨kind, hkind, htest⟩ := (Option.any_eq_true _ _).1 h
  unfold initializedFields
  rw [hkind]
  cases kind with
  | singleton => exact List.append_nil _
  | _ => cases htest

end Program

/-- The method of `methodFor` is one that the module `inherits`. -/
theorem Engine.owner_of_methodFor {e : Engine} (hp : e.program.root.Numbered)
    {module method : NodeId}
    {message : String} {arity : Nat} {start : Option NodeId}
    (h : e.methodFor module message arity start = some method) :
    ∃ owner, e.program.parent? method = some owner ∧ e.program.isKind Kind.isHolder owner
      ∧ e.program.inherits module owner := by
  obtain ⟨owner, hmem, hfound⟩ : ∃ owner ∈ e.program.hierarchy module,
      e.program.declaredMethod? owner message arity = some method := by
    unfold methodFor at h
    split at h
    · obtain ⟨owner, hmem, hfound⟩ := List.exists_of_findSome?_eq_some h
      exact ⟨owner, (List.dropWhile_suffix _).subset (List.mem_of_mem_tail hmem), hfound⟩
    · exact List.exists_of_findSome?_eq_some h
  obtain ⟨hparent, hholder⟩ := Program.owner_of_declaredMethod? hp hfound
  exact ⟨owner, hparent, hholder, decide_eq_true hmem⟩

namespace Heap.Zoned

variable {e : Engine} {zones : Zoning} {h : Heap} (hz : h.Zoned e.program zones)
include hz

/-- `prepared` sets up the fields of the module of the object. -/
theorem prepared {receiver : ObjectId} {start : NodeId} {initFields : Bool}
    (hproper : initFields = true → ∀ o, h.object? receiver = some o → o.module = start) :
    (e.prepared receiver start initFields h).Zoned e.program zones := by
  unfold Engine.prepared
  split
  · next hinit =>
    refine hz.putAll (fun o ho hanonymous => ?_) _
    have hmodule := hproper hinit o ho
    rw [hmodule] at hanonymous ⊢
    rw [Program.initializedFields_eq hanonymous]
    exact List.Subset.refl _
  · exact hz

variable (hw : e.toWorld.Within fun id => ¬ e.program.isKind Kind.isAnonymous id)
include hw

theorem number (value : Float) : (h.number value e.core.number).2.Zoned e.program zones :=
  hz.intern _ hw.number _

theorem string (value : String) : (h.string value e.core.string).2.Zoned e.program zones :=
  hz.intern _ hw.string _

theorem bindAll {context : ContextId} {parameters : List Tree}
    (hparameters : ∀ t ∈ parameters, ∀ name, t.name? = some name →
      e.program.Binds name (zones context) ∧ name ≠ "self") (args : List ObjectId) :
    (e.toWorld.bindAll context parameters args h).Zoned e.program zones := by
  induction parameters generalizing args h with
  | nil => exact hz
  | cons parameter rest ih =>
      have hname {name : String} {variadic : Bool}
          (hkind : parameter.kind = .parameter name variadic) :
          e.program.Binds name (zones context) ∧ name ≠ "self" := by
        refine hparameters parameter List.mem_cons_self name ?_
        rw [Tree.name?, hkind]
        rfl
      rw [World.bindAll]
      refine ih ?_ (fun t ht => hparameters t (List.mem_cons_of_mem _ ht)) _
      split
      · next hkind =>
        refine (hz.allocate ?_).declare (hname hkind).1 (fun heq => absurd heq (hname hkind).2) _
        exact Program.hangsByModule_of_named hw.list rfl
      · next hkind => exact hz.declare (hname hkind).1 (fun heq => absurd heq (hname hkind).2) _
      · exact hz

theorem misunderstood (message : String) (args : List ObjectId) :
    (e.misunderstood message args h).Zoned e.program zones :=
  (hz.string hw message).allocate (Program.hangsByModule_of_named hw.list rfl)

theorem withMessage {module : NodeId} (hmodule : ¬ e.program.isKind Kind.isAnonymous module)
    (message : String) : (e.toWorld.withMessage module message h).Zoned e.program zones := by
  have hnew := hz.allocate (o := { module }) (Program.hangsByModule_of_named hmodule rfl)
  have htext := hnew.string hw message
  -- the exception itself goes on having a module with a name
  have hown {h' : Heap} (grows : (h.allocate { module }).2.Grows h') (o : Object)
      (ho : h'.object? h.size = some o) : ¬ e.program.isKind Kind.isAnonymous o.module := by
    have hself : (h.allocate { module }).2.object? h.size = some { module, id := h.size } := by
      rw [object?_allocate, if_pos rfl]
    obtain ⟨o', ho', hgrows⟩ := grows.object hself
    cases ho.symm.trans ho'
    rwa [hgrows.module]
  have hgrows := (h.allocate { module }).2.intern_grows (stringKey message) e.core.string
    (.string message)
  have hfields : (((h.allocate { module }).2.string message e.core.string).2.putAll h.size
      (e.toWorld.fieldNames module) .null).Zoned e.program zones :=
    htext.putAll (fun o ho hanonymous => absurd hanonymous (hown hgrows o ho)) .null
  refine hfields.putField (fun o ho hanonymous => absurd hanonymous (hown ?_ o ho)) _
  exact hgrows.trans (putAll_changes ..).grows

variable (hp : e.program.root.Numbered) (hself : e.program.Avoids "self")
include hp hself

/-- The context that `invoking` opens hangs from an object that has the
method. -/
theorem invoking {receiver : ObjectId} {o : Object} (known : h.object? receiver = some o)
    {method : NodeId} {selector : String} {parameters : List Tree} {body : Tree} {isNative : Bool}
    (hmethod : e.program.kind? method = some (.method selector parameters (some body) isNative))
    {owner : NodeId} (hparent : e.program.parent? method = some owner)
    (hholder : e.program.isKind Kind.isHolder owner)
    (hinherits : e.program.inherits o.module owner) (args : List ObjectId) :
    (e.invoking receiver parameters args h).Zoned e.program
      (Function.update zones h.contexts.size (.block body.identity)) := by
  have hbody : e.program.parent? body.identity = some method := by
    obtain ⟨s, htree, hk⟩ := Option.map_eq_some_iff.1 hmethod
    obtain ⟨hs, rfl⟩ := (Program.tree?_eq_some_iff hp).1 htree
    refine Program.parent?_of_child hp hs ?_
    rw [Tree.children, hk]
    exact List.mem_append_right _ List.mem_cons_self
  have hfits : e.program.FitsZone zones h { parent := some (.object receiver) }
      (.block body.identity) := by
    refine ⟨fun _ hbound => absurd hbound Bool.false_ne_true, .owned hbody ?_ hparent hholder known
      hinherits, fun constructor id hconstructor => ?_⟩
    · rw [Program.isKind, hmethod]
      rfl
    · cases hbody.symm.trans (hconstructor.parent hp)
      obtain ⟨_, _, _, hkind, -⟩ := hconstructor
      cases hmethod.symm.trans hkind
  refine (hz.newContext hfits).bindAll hw ?_ args
  rw [Function.update_self]
  refine Program.mayBind_parameter hp hself hmethod (List.mem_append_right _ List.mem_cons_self)
    (List.subset_append_left _ _) ?_
  rw [Program.contribution, hmethod]

/-- The context that `constructing` opens hangs from the object, which is
`self`. -/
theorem constructing {receiver : ObjectId} {o : Object} (known : h.object? receiver = some o)
    {start : NodeId} {initFields : Bool} (hproper : initFields = true → o.module = start)
    (hinherits : e.program.inherits o.module start) (args : List ObjectId) :
    (e.constructing receiver start args initFields h).Zoned e.program
      (Function.update zones h.contexts.size
        (e.program.initZone (e.program.lookupConstructor? start args.length))) := by
  have hprepared : (e.prepared receiver start initFields h).Zoned e.program zones :=
    hz.prepared fun hinit o' ho' => by
      cases known.symm.trans ho'
      exact hproper hinit
  have hsize : (e.prepared receiver start initFields h).contexts = h.contexts :=
    e.contexts_prepared receiver start initFields h
  -- the context once `self` is bound in it
  have hopened {zone : Zone} (hc : e.program.FitsZone zones (e.prepared receiver start initFields h)
      { parent := some (.object receiver), locals := [("self", receiver)] } zone) :
      (((e.prepared receiver start initFields h).newContext (.object receiver)).2.declare
        h.contexts.size "self" receiver).Zoned e.program
          (Function.update zones h.contexts.size zone) := by
    rw [← hsize]
    refine hprepared.opened hc rfl ?_ fun id => ?_
    · rw [contexts_size_declare]
      exact Array.size_push ..
    · rw [context?_declare, context?_newContext]
      by_cases heq : id = (e.prepared receiver start initFields h).contexts.size
      · rw [if_pos heq.symm, if_pos heq, if_pos heq]
        rfl
      · rw [if_neg (Ne.symm heq), if_neg heq, if_neg heq]
  have hnames {zone : Zone} (name : String)
      (hbound : (Bindings.get? [("self", receiver)] name).isSome) :
      e.program.Binds name zone ∨ name = "self" := by
    rw [Bindings.get?, lookup_cons_eq_ite] at hbound
    split at hbound
    · next heq => exact .inr heq
    · cases hbound
  have hloose : (e.toWorld.bindAll h.contexts.size [] args
      (((e.prepared receiver start initFields h).newContext (.object receiver)).2.declare
        h.contexts.size "self" receiver)).Zoned e.program
          (Function.update zones h.contexts.size .loose) := hopened ⟨hnames, trivial⟩
  unfold Engine.constructing Engine.parametersOf
  cases hfound : e.program.lookupConstructor? start args.length with
  | none => exact hloose
  | some constructor =>
      rw [Option.bind_some, Program.initZone, Option.bind_some]
      cases hkind : e.program.kind? constructor with
      | none => exact hloose
      | some kind =>
          cases kind with
          | constructor parameters baseCall body =>
              obtain ⟨owner, hparent, hholder, howner⟩ :=
                Program.owner_of_lookupConstructor? hp hfound
              obtain ⟨o', known', hgrows⟩ :=
                (e.prepared_changes receiver start initFields h).grows.object known
              have hbody : e.program.IsBodyOf body.identity constructor :=
                ⟨parameters, baseCall, body, hkind, rfl⟩
              have hfits : e.program.FitsZone zones (e.prepared receiver start initFields h)
                  { parent := some (.object receiver), locals := [("self", receiver)] }
                  (.block body.identity) := by
                refine ⟨hnames, .owned (hbody.parent hp) ?_ hparent hholder known' ?_,
                  fun _ id _ hlink => ?_⟩
                · rw [Program.isKind, hkind]
                  rfl
                · rw [hgrows.module]
                  exact Program.inherits_trans hinherits howner
                · cases hlink
                  rfl
              refine (hopened hfits).bindAll hw ?_ args
              rw [Function.update_self]
              refine Program.mayBind_parameter hp hself hkind
                (List.mem_append_right _ List.mem_cons_self) ?_ ?_
              · rw [Kind.children, List.append_assoc]
                exact List.subset_append_left _ _
              · rw [Program.contribution, hkind]
          | _ => exact hloose

end Heap.Zoned

end ObjectMachine
