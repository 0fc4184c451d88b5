/-
Compiled code is laid out in the zones of Program/Zones.lean.

`Program.placement` puts every node into the zones it is sited in. Read off
the description of Code/Compiled.lean with that placement, the code of a
node runs in its zones (`Compiled.lays`): a node hands its zone on to its
parts, blocks start zones of their own, and the handlers of a protected
block share one zone until one of them is chosen. Then the units of a
program: methods, constructions and the setting up of globals.
-/
import Mathlib
import ObjectMachine.Proofs.Code.Compiled
import ObjectMachine.Proofs.Program.Layering

namespace ObjectMachine

variable {p : Program}

namespace Program

-- ===================================================== what code names

/-- What `entity?` finds is a node that has a name. -/
theorem entity?_named (hp : p.root.Numbered) {name : String} {id : NodeId}
    (h : p.entity? name = some id) : id < p.size ∧ (p.name? id).isSome := by
  have haddressable := List.find?_some h
  rw [Bool.and_eq_true] at haddressable
  have hkind := haddressable.1
  unfold isAddressable at hkind
  split at hkind
  · next kind parent hkind' _ =>
    rw [Bool.and_eq_true, Bool.and_eq_true] at hkind
    obtain ⟨t, htree, hk⟩ := Option.map_eq_some_iff.1 hkind'
    obtain ⟨hmem, rfl⟩ := (tree?_eq_some_iff hp).1 htree
    refine ⟨lt_size_of_mem hp hmem, ?_⟩
    rw [Program.name?, hkind']
    exact hkind.1.2
  · cases hkind

theorem coreModule_named (hp : p.root.Numbered) {name : String} {id : NodeId}
    (h : p.coreModule name = .ok id) : id < p.size ∧ (p.name? id).isSome := by
  unfold coreModule at h
  split at h
  · next id' hid =>
    cases h
    exact entity?_named hp hid
  · cases h

theorem linkedTarget_named (hp : p.Linked) {t : Tree} (ht : t ∈ p.root.preorder) {target : NodeId}
    (h : linkedTarget t = .ok target) : target < p.size ∧ (p.name? target).isSome := by
  unfold linkedTarget at h
  split at h
  · next target' htarget =>
    cases h
    exact ⟨hp.complete.target_lt ht htarget, hp.named t ht target htarget⟩
  · cases h

theorem not_anonymous_of_name? {id : NodeId} (h : (p.name? id).isSome) :
    ¬ p.isKind Kind.isAnonymous id := by
  intro hanonymous
  obtain ⟨kind, hkind, htest⟩ := (Option.any_eq_true _ _).1 hanonymous
  rw [Program.name?, hkind, Option.bind_some] at h
  cases kind with
  | singleton name superclass args mixins members closure =>
      cases name with
      | none => cases h
      | some name => cases htest
  | _ => cases htest

-- =============================================================== places

/-- A node of the program that is `Sited` in a zone. -/
structure Placed (p : Program) (zone : Zone) (t : Tree) : Prop where
  mem : t ∈ p.root.preorder
  sited : p.Sited zone t.identity

theorem mem_of_child {t c : Tree} (ht : t ∈ p.root.preorder) (hc : c ∈ t.children) :
    c ∈ p.root.preorder :=
  Tree.mem_preorder_trans ht (Tree.mem_preorder_of_child hc c.mem_preorder_self)

theorem Placed.child (hp : p.root.Numbered) {zone : Zone} {t c : Tree} (h : p.Placed zone t)
    (hinline : t.kind.isInline) (hc : c ∈ t.children) : p.Placed zone c :=
  ⟨mem_of_child h.mem hc, h.sited.child hp h.mem hinline hc⟩

theorem Placed.sited_part (hp : p.root.Numbered) {zone : Zone} {t : Tree} (h : p.Placed zone t)
    (hinline : t.kind.isInline) : ∀ c ∈ t.kind.inlined, p.Sited zone c.identity :=
  fun _ hc => (h.child hp hinline (Kind.mem_children_of_mem_inlined hc)).sited

theorem Placed.detached (hp : p.root.Numbered) {zone : Zone} {t c : Tree}
    (ht : t ∈ p.root.preorder) (hc : c ∈ t.kind.detached) : p.Placed zone c :=
  ⟨mem_of_child ht (Kind.mem_children_of_mem_detached hc), sited_detached hp ht zone hc⟩

/-- The variables among the sentences of a block are introduced by it, so it may
bind them (`MayBind`). -/
theorem mayBind_variable (hp : p.root.Numbered) {t sentence : Tree} (ht : t ∈ p.root.preorder)
    {sentences : List Tree} (hkind : t.kind = .block sentences) (hs : sentence ∈ sentences)
    (hvariable : sentence.kind.isVariable) {name : String} (hname : sentence.name? = some name) :
    p.MayBind t.identity name := by
  refine .inl (List.mem_map.2 ⟨(name, sentence.identity), ?_, rfl⟩)
  rw [contribution, kind?_of_mem hp ht, hkind]
  refine List.mem_filterMap.2 ⟨sentence, List.mem_filter.2 ⟨hs, hvariable⟩, ?_⟩
  rw [hname]
  rfl

/-- The body of a handler may bind the exception to the parameter
(`Handles`). -/
theorem handles_of_catchClause (hp : p.root.Numbered) {t clause param body : Tree}
    {type : Option Tree} (ht : t ∈ p.root.preorder) (hinline : t.kind.isInline)
    (hclause : clause ∈ t.children) (hkind : clause.kind = .catchClause param type body) :
    p.Handles t.identity body.identity (param.name?.getD "") := by
  have hmem := mem_of_child ht hclause
  have hbody : body ∈ clause.children := by
    simp [Tree.children, hkind, Kind.children]
  refine ⟨?_, fun zone hzone => ?_⟩
  · cases hname : param.name? with
    | none => exact .inr (.inr List.mem_cons_self)
    | some name =>
        refine .inr (.inl ⟨clause.identity, parent?_of_child hp hmem hbody, List.mem_map.2
          ⟨(name, param.identity), ?_, rfl⟩⟩)
        rw [contribution, kind?_of_mem hp hmem, hkind]
        refine List.mem_filterMap.2 ⟨param, List.mem_singleton.2 rfl, ?_⟩
        rw [hname]
        rfl
  · have hsited := hzone.child hp ht hinline hclause
    exact hsited.child hp hmem (by rw [hkind]; rfl) hbody

theorem inside_bodyZone {zone : Zone} (body : Option Tree)
    (h : ∀ t ∈ body.toList, p.Sited zone t.identity) : p.Inside zone (bodyZone body) := by
  cases body with
  | some body => exact h body List.mem_cons_self
  | none => trivial

/-- The placement of a program: its nodes stand in the zones they are sited
in, and a zone declares what may be bound in it. -/
def placement (hp : p.root.Numbered) : Placement where
  Stands := p.Placed
  Opens t := t ∈ p.root.preorder
  Declares zone name := p.Binds name zone
  part h hinline hc := h.child hp hinline (Kind.mem_children_of_mem_inlined hc)
  detached h hc := .detached hp h.mem hc
  opens h := h.mem
  sentence {t c sentences} h hkind hc :=
    have hchild : c ∈ t.children := by rwa [Tree.children, hkind]
    ⟨mem_of_child h hchild, sited_sentence hp h (by rw [hkind]; rfl) hchild⟩
  declares h hkind hc hvariable hname := mayBind_variable hp h hkind hc hvariable hname

theorem placement_names (hp : p.Linked) {zone : Zone} {module : NodeId}
    (h : (placement hp.complete.numbered).Names p zone module) :
    module < p.size ∧ (p.name? module).isSome := by
  cases h with
  | core known => exact coreModule_named hp.complete.numbered known
  | linked stands child target => exact linkedTarget_named hp (mem_of_child stands.mem child) target

/-- `previousLocal` may be bound where an always block runs. -/
theorem binds_previousLocal (body : Option Tree) : p.Binds previousLocal (bodyZone body) := by
  cases body with
  | some body => exact .inr (.inr (by simp))
  | none => trivial

-- =================================================== shapes of code

/-- A new object that is constructed at once, by the rule `make` of `Laid`. -/
theorem construct_lays {zone : Zone} {module : NodeId} (hknown : module < p.size)
    (hsited : p.isKind Kind.isAnonymous module → p.Sited zone module) (arity : Nat) :
    p.Lays zone [.instantiate module none, .init arity module true] [.plain, .plain] :=
  fun _ _ hrest => .make hknown hsited hrest

/-- A handler that is chosen, by the rule `handle` of `Laid`. -/
theorem chosen_lays {protection body : NodeId} {name : String} {code : Code} {notes : List Note}
    (hhandles : p.Handles protection body name) (hbody : p.Lays (.block body) code notes) :
    p.Lays (.handlers protection)
      ([Instruction.load exceptionLocal, .store name false] ++ code ++ [.interrupt .result])
      ([Note.plain, .plain] ++ notes ++ [.plain]) := by
  intro rest restNotes hrest
  simp only [List.append_assoc, List.cons_append, List.nil_append]
  exact .plain trivial (.handle hhandles (hbody _ _ (.leave _ hrest)))

/-- `Code.guarded` code is laid out if the code is, as a jump leads to the end
of it. -/
theorem guarded_lays {zone : Zone} {code : Code} {notes : List Note}
    (h : p.Lays zone code notes) : p.Lays zone (Code.guarded code) (.plain :: notes) := by
  intro rest restNotes hrest
  refine .jump (h _ _ hrest) ?_
  show Laid p zone ((code ++ rest).drop code.length) ((notes ++ restNotes).drop code.length)
  rw [List.drop_left, h.length_eq, List.drop_left]
  exact hrest

end Program

-- ============================================================ the layout

theorem Instruction.simple_of_isPlain {i : Instruction} (h : i.isPlain) : i.Simple p := by
  cases i <;> trivial

/-- `Compiled` code is laid out in its zone: one rule of `Laid` for each of
`Compiled`. -/
theorem Compiled.lays (hp : p.Linked) {zone : Zone} {a b : Nat} {code : Code}
    {notes : List Note}
    (h : Compiled p (Program.placement hp.complete.numbered) zone a b code notes) :
    p.Lays zone code notes := by
  have hnumbered := hp.complete.numbered
  induction h with
  | nil k => exact .nil
  | append _ _ ih1 ih2 => exact ih1.append ih2
  | lift _ k ih => exact ih
  | plain effect plain => exact .plain (Instruction.simple_of_isPlain plain)
  | push reserved => exact .plain trivial
  | reference stands reads =>
      have htree := (Program.tree?_eq_some_iff hnumbered).2 ⟨stands.mem, rfl⟩
      exact fun _ _ hrest => .reference ⟨_, htree, reads⟩ stands.sited hrest
  | declare declares => exact fun _ _ hrest => .bind declares hrest
  | assign stands kind writes =>
      exact fun _ _ hrest => .assign ⟨_, stands.mem, _, _, kind, writes⟩ hrest
  | value names effect => exact .plain (Program.placement_names hp names)
  | construct names arity =>
      obtain ⟨hknown, hnamed⟩ := Program.placement_names hp names
      exact Program.construct_lays hknown
        (fun hanonymous => absurd hanonymous (Program.not_anonymous_of_name? hnamed)) arity
  | object stands arity =>
      exact Program.construct_lays (Program.lt_size_of_mem hnumbered stands.mem)
        (fun _ => stands.sited) arity
  | setUp named arity => exact .plain ⟨rfl, named⟩
  | delegate delegates arity => exact fun _ _ hrest => .delegate delegates hrest
  | @superSend zone _ _ _ _ _ _ stands kind method _ ih =>
      have hself : p.Lays zone [.load "self"] [.plain] := .plain trivial
      exact (hself.append ih).append (.plain trivial)
  | leave stands kind k => exact fun _ _ hrest => .leave _ hrest
  | raise k => exact fun _ _ hrest => .leave _ hrest
  | @ifThenElse zone t condition thenBody elseBody _ _ _ _ stands kind _ _ ih1 ih2 =>
      have hpart := stands.sited_part hnumbered (by rw [kind]; rfl)
      rw [kind] at hpart
      have hthen : p.Inside zone (.block thenBody.identity) :=
        hpart thenBody (by simp [Kind.inlined])
      have helse := Program.inside_bodyZone elseBody fun c hc =>
        hpart c (List.mem_append_right _ hc)
      exact fun _ _ hrest => .branch hthen (ih1.leave _) helse (ih2.leave _) hrest
  | @tryCatchAlways zone t body catches always _ _ _ _ _ _ stands kind _ _ _ ih1 ih2 ih3 =>
      have hpart := stands.sited_part hnumbered (by rw [kind]; rfl)
      rw [kind] at hpart
      have hbody : p.Inside zone (.block body.identity) := hpart body (by simp [Kind.inlined])
      have hhandlers : p.Inside zone (.handlers t.identity) := stands.sited
      have halways := Program.inside_bodyZone always fun c hc =>
        hpart c (List.mem_append_right _ hc)
      intro rest restNotes hrest
      refine .protect hbody (ih1.leave _) hhandlers (.bind rfl ?_) halways
        (.bind (Program.binds_previousLocal always) ?_) hrest
      · exact ih2 _ _ (.plain trivial (.leave .loose .nil))
      · exact ih3 _ _ (.plain trivial (.plain trivial (.plain trivial .nil)))
  | handler stands kind among clauseKind _ ih =>
      refine Program.chosen_lays (Program.handles_of_catchClause hnumbered stands.mem ?_ ?_
        clauseKind) ih
      · rw [kind]
        rfl
      · simp [Tree.children, kind, Kind.children, among]
  | guarded _ ih => exact Program.guarded_lays ih

namespace Program

/-- `blockCode` is laid out in a zone of its own. -/
theorem blockCode_lays (hp : p.Linked) (t : Tree) {code : Code} (ht : t ∈ p.root.preorder)
    (h : p.blockCode t = .ok code) : p.Lays (.block t.identity) code t.blockNotes :=
  Compiled.lays hp (blockCode_compiled t ht h)

-- ==================================================== units of a program

/-- `methodCode` is laid out in the zone of its body. -/
theorem methodCode_laid (hp : p.Linked) {method : NodeId} {code : Code}
    (h : p.methodCode method = .ok code) : ∃ name parameters body native,
      p.kind? method = some (.method name parameters (some body) native)
        ∧ Laid p (.block body.identity) code (p.methodNotes method) := by
  obtain ⟨name, parameters, body, native, bodyCode, hkind, hcode, rfl⟩ := methodCode_parts h
  have hbody : body ∈ p.root.preorder := kind?_child_mem hkind (by simp [Kind.children])
  refine ⟨name, parameters, body, native, hkind, ?_⟩
  rw [methodNotes, hkind]
  exact blockCode_lays hp body hbody hcode _ _ (.plain trivial (.leave .loose .nil))

/-- A field, or a variable of a describe. -/
def IsInitialized (p : Program) (field : Tree) : Prop :=
  field ∈ p.root.preorder ∧ (field.kind.isField ∨ field.kind.isVariable
    ∧ ((p.parent? field.identity).bind p.kind?).any Kind.isDescribe)

theorem isInitialized_of_mem (hp : p.root.Numbered) {module : NodeId} {field : Tree}
    (h : field ∈ p.initializedFields module) : p.IsInitialized field := by
  refine ⟨initializedFields_mem h, ?_⟩
  rcases List.mem_append.1 h with h | h
  · obtain ⟨ancestor, -, h⟩ := List.mem_flatMap.1 h
    exact .inl (List.mem_filter.1 h).2
  · split at h
    · next name members hkind =>
      obtain ⟨hmember, hvariable⟩ := List.mem_filter.1 h
      obtain ⟨t, htree, hk⟩ := Option.map_eq_some_iff.1 hkind
      refine .inr ⟨hvariable, ?_⟩
      have hchild : field ∈ t.children := by
        rw [Tree.children, hk]
        exact hmember
      rw [parent?_of_child hp (tree?_mem htree) hchild, Option.bind_some,
        kind?_of_mem hp (tree?_mem htree), hk]
      rfl
    · cases h

/-- Initial values are detached, so they may be `Placed` in any zone. -/
theorem IsInitialized.placed (hp : p.root.Numbered) {zone : Zone} {field c : Tree}
    (h : p.IsInitialized field) (hc : c ∈ field.children) : p.Placed zone c := by
  obtain ⟨hmem, hfield | ⟨hvariable, hdescribe⟩⟩ := h
  · refine .detached hp hmem ?_
    cases hkind : field.kind with
    | field name constant value =>
        rw [Tree.children, hkind] at hc
        exact hc
    | _ =>
        rw [hkind] at hfield
        cases hfield
  · exact ⟨mem_of_child hmem hc, sited_described hp hmem zone hvariable hdescribe hc⟩

/-- What `initCode` runs is `Placed` in the zone of the body of the
constructor. -/
theorem placement_constructs (hp : p.root.Numbered) (start : NodeId)
    (constructor : Option NodeId) : (placement hp).Constructs p start constructor where
  fields field hfield c hc :=
    (isInitialized_of_mem hp hfield).placed hp (Kind.mem_children_of_mem_inlined hc)
  args id _ {parameters baseCall body} hkind c hc := by
    obtain ⟨t, htree, hk⟩ := Option.map_eq_some_iff.1 hkind
    exact .detached hp (tree?_mem htree) (by rwa [hk])
  body id _ {parameters baseCall body} hkind := kind?_child_mem hkind (by simp [Kind.children])

/-- `initCode` is laid out in the zone of the body of its constructor. -/
theorem initCode_laid (hp : p.Linked) {start : NodeId} {constructor : Option NodeId}
    {initFields : Bool} {code : Code} (h : p.initCode start constructor initFields = .ok code) :
    Laid p (p.initZone constructor) code (p.initNotes start constructor initFields) := by
  obtain ⟨inner, notes, hinner, rfl, hnotes⟩ :=
    initCode_compiled (placement_constructs hp.complete.numbered start constructor) h
  rw [hnotes]
  exact hinner.lays hp _ _ (.plain trivial (.leave .loose .nil))

/-- The value of a variable of a package is `Placed` in the zone of globals. -/
theorem placed_global (hp : p.root.Numbered) {id : NodeId} {name : String} {constant : Bool}
    {value : Option Tree} (hpackage : ((p.parent? id).bind p.kind?).any Kind.isPackage)
    (hkind : p.kind? id = some (.varDecl name constant value)) {c : Tree}
    (hc : c ∈ value.toList) : p.Placed .globals c := by
  obtain ⟨t, htree, hk⟩ := Option.map_eq_some_iff.1 hkind
  obtain ⟨hmem, rfl⟩ := (tree?_eq_some_iff hp).1 htree
  obtain ⟨kind, hkind', htest⟩ := (Option.any_eq_true _ _).1 hpackage
  obtain ⟨package, hparent, hkind'⟩ := Option.bind_eq_some_iff.1 hkind'
  have hisPackage : p.isKind Kind.isPackage package := by
    rw [isKind, hkind']
    exact htest
  have hchild : c ∈ t.children := by
    rw [Tree.children, hk]
    exact hc
  exact ⟨mem_of_child hmem hchild,
    sited_global hp hmem (by rw [hk]; rfl) hparent hisPackage hchild⟩

/-- `globalsCode` is laid out in the zone of globals. -/
theorem globalsCode_lays (hp : p.Linked) {objects vars : List NodeId} {code : Code}
    (ho : ∀ id ∈ objects, p.isKind Kind.isNamedObject id)
    (hv : ∀ id ∈ vars, '.' ∈ (p.qualifiedName id).toList
      ∧ ((p.parent? id).bind p.kind?).any Kind.isPackage)
    (h : p.globalsCode objects vars = .ok code) : ∃ notes, p.Lays .globals code notes := by
  have hnumbered := hp.complete.numbered
  have hplacement : (placement hnumbered).SetsUp p objects vars := {
    named := ho
    args := fun id _ kind hkind c hc => by
      obtain ⟨t, htree, rfl⟩ := Option.map_eq_some_iff.1 hkind
      exact .detached hnumbered (tree?_mem htree) hc
    values := fun id hid {name constant value} hkind c hc =>
      placed_global hnumbered (hv id hid).2 hkind hc
    declares := fun id hid => (hv id hid).1 }
  obtain ⟨notes, hcompiled⟩ := globalsCode_compiled hplacement h
  exact ⟨notes, hcompiled.lays hp⟩

end Program

end ObjectMachine
