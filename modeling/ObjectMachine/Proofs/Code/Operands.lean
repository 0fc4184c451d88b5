/-
Compiled code is in the grammar of Code/Emitted.lean.

`Compiled.emits` reads it off the description of Code/Compiled.lean, one case
for each shape of code. Every expression leaves one operand, so does every
sentence, a list of arguments leaves as many as it has elements; fields and
globals are set up without leaving anything. Branches, protected blocks,
handlers and methods never come to the end of their code.

The names that code binds are those of the nodes it comes from
(`Program.boundNames`), the local of the exception in a handler, and, at
the start of always blocks only, the local of the pending value. The
placement of a palette (`Palette.placement`) holds the nodes to that.
-/
import Mathlib
import ObjectMachine.Proofs.Code.Compiled
import ObjectMachine.Proofs.Code.Emitted

namespace ObjectMachine

variable {p : Program} {pal : Palette}

namespace Program

-- ======================================================== bound names

/-- The names that the code of a node binds, apart from what its children
bind. -/
def boundNames (p : Program) (t : Tree) : List String :=
  match t.kind with
  | .varDecl name _ _ => [name]
  | .assignment place _ => (p.placeName place).toOption.toList
  | .catchClause param _ _ => [param.name?.getD ""]
  | _ => []

/-- A tree whose nodes have no `boundNames` but those of the palette. -/
def BindsOnly (p : Program) (pal : Palette) (t : Tree) : Prop :=
  ∀ s ∈ t.preorder, ∀ name ∈ p.boundNames s, pal.binds name

theorem BindsOnly.child {t c : Tree} (h : p.BindsOnly pal t) (hc : c ∈ t.children) :
    p.BindsOnly pal c :=
  fun s hs => h s (Tree.mem_preorder_of_child hc hs)

theorem BindsOnly.own {t : Tree} (h : p.BindsOnly pal t) {name : String}
    (hn : name ∈ p.boundNames t) : pal.binds name :=
  h t (Tree.mem_preorder_self t) name hn

/-- What stands in a program binds what the program binds. -/
theorem BindsOnly.node {t : Tree} (h : p.BindsOnly pal p.root) (ht : t ∈ p.root.preorder) :
    p.BindsOnly pal t :=
  fun s hs => h s (Tree.mem_preorder_trans ht hs)

theorem BindsOnly.variable {t : Tree} (h : p.BindsOnly pal t) (hvariable : t.kind.isVariable)
    {name : String} (hname : t.name? = some name) : pal.binds name := by
  obtain ⟨id, span, kind⟩ := t
  cases kind with
  | varDecl _ constant value =>
      cases hname
      exact h.own List.mem_cons_self
  | _ => cases hvariable

theorem BindsOnly.parameter {t clause param body : Tree} {type : Option Tree}
    (h : p.BindsOnly pal t) (hclause : clause ∈ t.children)
    (hkind : clause.kind = .catchClause param type body) : pal.binds (param.name?.getD "") := by
  refine (h.child hclause).own ?_
  rw [boundNames, hkind]
  exact List.mem_cons_self

end Program

/-- The placement of a palette: all nodes are `BindsOnly`, in whichever zone. -/
def Palette.placement (pal : Palette) (p : Program) : Placement where
  Stands _ t := p.BindsOnly pal t
  Opens t := p.BindsOnly pal t
  Declares _ name := pal.binds name
  part h _ hc := h.child (Kind.mem_children_of_mem_inlined hc)
  detached h hc := h.child (Kind.mem_children_of_mem_detached hc)
  opens h := h
  sentence {t c sentences} h hkind hc := h.child (by rwa [Tree.children, hkind])
  declares {t c sentences name} h hkind hc hvariable hname :=
    (h.child (by rwa [Tree.children, hkind])).variable hvariable hname

theorem Palette.placement_constructs (hp : p.BindsOnly pal p.root) (start : NodeId)
    (constructor : Option NodeId) : (pal.placement p).Constructs p start constructor where
  fields field hfield c hc := (hp.node (Program.initializedFields_mem hfield)).child
    (Kind.mem_children_of_mem_inlined hc)
  args id _ {parameters baseCall body} hkind c hc :=
    hp.node (Program.kind?_child_mem hkind (by simp [Kind.children, hc]))
  body id _ {parameters baseCall body} hkind :=
    hp.node (Program.kind?_child_mem hkind (by simp [Kind.children]))

-- ======================================================== shapes of code

theorem Instruction.ne_store_of_isPlain {i : Instruction} (h : i.isPlain) (name : String)
    (lookup : Bool) : i ≠ .store name lookup := by
  rintro rfl
  cases h

theorem Instruction.ne_push_of_isPlain {i : Instruction} (h : i.isPlain) (id : ObjectId) :
    i ≠ .push id := by
  rintro rfl
  cases h

/-- A new object, constructed with the arguments on the stack. -/
theorem Emits.construct (module : NodeId) (arity : Nat) :
    Emits pal arity 1 [.instantiate module none, .init arity module true] := by
  have hnew : Emits pal 0 1 [.instantiate module none] := .plain rfl (by simp) (by simp)
  have hinit : Emits pal (arity + 1) 1 [.init arity module true] := .plain rfl (by simp) (by simp)
  have hmade := hnew.lift arity
  rw [Nat.zero_add, Nat.add_comm] at hmade
  exact hmade.append hinit

/-- Handlers end in a result, so only frames of the role `block` may run
them. -/
def Zone.Allows : Zone → Role → Prop
  | .handlers _, role => role = .block
  | _, _ => True

theorem Zone.allows_block (zone : Zone) : zone.Allows .block := by
  cases zone <;> trivial

theorem Zone.bodyZone_allows (body : Option Tree) (role : Role) :
    (Program.bodyZone body).Allows role := by
  cases body <;> trivial

-- =========================================================== the grammar

/-- `Compiled` code is `Emitted`: one rule for each. -/
theorem Compiled.emits (he : pal.Lawful) {zone : Zone} {a b : Nat} {code : Code}
    {notes : List Note} (h : Compiled p (pal.placement p) zone a b code notes) {role : Role}
    (hrole : zone.Allows role) : Emitted pal role a b code := by
  induction h generalizing role with
  | nil k => exact .nil k
  | append _ _ ih1 ih2 => exact .append (ih1 hrole) (ih2 hrole)
  | lift _ k ih => exact .lift (ih hrole) k
  | plain effect plain =>
      exact .plain effect (Instruction.ne_store_of_isPlain plain)
        (Instruction.ne_push_of_isPlain plain)
  | push reserved => exact .push (he.reserved _ reserved)
  | reference stands reads => exact .plain rfl (by simp) (by simp)
  | declare declares => exact .store declares false
  | assign stands kind writes =>
      refine .store (stands.own ?_) true
      rw [Program.boundNames, kind]
      simp [writes, Except.toOption]
  | value names effect => exact .plain effect (by simp) (by simp)
  | construct names arity => exact Emits.construct _ arity role
  | object stands arity => exact Emits.construct _ arity role
  | setUp named arity => exact .plain rfl (by simp) (by simp)
  | @delegate body start _ arity =>
      have hself : Emitted pal role 0 1 [.load "self"] := .plain rfl (by simp) (by simp)
      have hinit : Emitted pal role (arity + 1) 1 [.init arity start false] :=
        .plain rfl (by simp) (by simp)
      have hloaded := hself.lift arity
      rw [Nat.zero_add, Nat.add_comm] at hloaded
      exact hloaded.append hinit
  | superSend stands kind method _ ih =>
      have hself : Emitted pal role 0 1 [.load "self"] := .plain rfl (by simp) (by simp)
      exact (hself.append ((ih hrole).lift 1)).append (.plain rfl (by simp) (by simp))
  | leave stands kind k => exact Emits.leave (by simp) k role
  | raise k => exact Emits.leave (by simp) k role
  | ifThenElse stands kind _ _ ih1 ih2 =>
      exact .ifThenElse (ih1 trivial) (ih2 (Zone.allows_block _))
  | tryCatchAlways stands kind _ _ _ ih1 ih2 ih3 =>
      exact .tryCatchAlways (ih1 trivial) (ih2 rfl) (ih3 (Zone.bodyZone_allows _ _)) he.exception
  | handler stands kind among clauseKind _ ih =>
      cases hrole
      have hparam := stands.parameter (by rw [Tree.children, kind]; simp [Kind.children, among])
        clauseKind
      have hload : Emitted pal .block 0 1 [.load exceptionLocal] := .plain rfl (by simp) (by simp)
      have hbind := hload.append (.store hparam false)
      exact (hbind.append (ih trivial)).append (.leave (fun _ => rfl) 0)
  | guarded _ ih => exact .guarded (ih hrole)

namespace Program

/-- `argumentsCode` leaves one operand for each argument. -/
theorem argumentsCode_emits (he : pal.Lawful) (ts : List Tree) {code : Code}
    (hb : ∀ t ∈ ts, p.BindsOnly pal t) (h : p.argumentsCode ts = .ok code) :
    Emits pal 0 ts.length code := by
  have hcompiled : Compiled p (pal.placement p) .loose 0 ts.length code _ :=
    argumentsCode_compiled ts hb h
  exact fun _ => hcompiled.emits he trivial

/-- `blockCode` leaves one operand. -/
theorem blockCode_emits (he : pal.Lawful) (t : Tree) {code : Code} (hb : p.BindsOnly pal t)
    (h : p.blockCode t = .ok code) : Emits pal 0 1 code :=
  fun _ => (blockCode_compiled (P := pal.placement p) t hb h).emits he trivial

/-- `sentencesCode` leaves the operand of the last sentence. -/
theorem sentencesCode_emits (he : pal.Lawful) {ts : List Tree} {code : Code}
    (hb : ∀ t ∈ ts, p.BindsOnly pal t) (h : p.sentencesCode ts = .ok code) :
    Emits pal 0 1 code := by
  simp only [sentencesCode, bind_ok_iff, pure_ok_iff] at h
  obtain ⟨codes, hcodes, rfl⟩ := h
  have hsentences : List.Forall₂ (Compiled p (pal.placement p) .loose 0 1) codes _ :=
    sentenceCodes_compiled ts hb (fun t ht hvariable name => (hb t ht).variable hvariable) hcodes
  exact fun _ => (Compiled.joinSentences hsentences).emits he trivial

-- ==================================================== units of a program

/-- `methodCode` is left by a return or an exception. -/
theorem methodCode_returns (he : pal.Lawful) (hp : p.BindsOnly pal p.root)
    {method : NodeId} {code : Code} (h : p.methodCode method = .ok code) :
    Returns pal code := by
  obtain ⟨name, parameters, body, native, bodyCode, hkind, hbody, rfl⟩ := methodCode_parts h
  have hmem : body ∈ p.root.preorder := kind?_child_mem hkind (by simp [Kind.children])
  have h1 := blockCode_emits he body (hp.node hmem) hbody
  have h2 : Emits pal 0 1 [.push .void] := .push (he.reserved _ le_rfl)
  exact ⟨1, _, h1.append (h2.lift 1), by simp⟩

/-- `initCode` returns the object it constructs. -/
theorem initCode_returns (he : pal.Lawful) (hp : p.BindsOnly pal p.root)
    {start : NodeId} {constructor : Option NodeId} {initFields : Bool} {code : Code}
    (h : p.initCode start constructor initFields = .ok code) :
    Returns pal code := by
  obtain ⟨inner, notes, hinner, rfl, -⟩ := initCode_compiled (Palette.placement_constructs hp _ _) h
  have hself : Emits pal 0 1 [.load "self"] := .plain rfl (by simp) (by simp)
  have h1 : Emits pal 0 0 inner := fun _ => hinner.emits he ?_
  · exact ⟨0, _, h1.append hself, by simp⟩
  · unfold initZone
    split <;> trivial

/-- `globalsCode` leaves `void`. -/
theorem globalsCode_emits (he : pal.Lawful) (hp : p.BindsOnly pal p.root)
    {objects vars : List NodeId} {code : Code}
    (ho : ∀ id ∈ objects, p.isKind Kind.isNamedObject id)
    (hq : ∀ id ∈ vars, pal.binds (p.qualifiedName id))
    (h : p.globalsCode objects vars = .ok code) : Emits pal 0 1 code := by
  have hplacement : (pal.placement p).SetsUp p objects vars := {
    named := ho
    args := fun id _ kind hkind c hc =>
      hp.node (kind?_child_mem hkind (Kind.mem_children_of_mem_detached hc))
    values := fun id _ {name constant value} hkind c hc => hp.node (kind?_child_mem hkind hc)
    declares := hq }
  obtain ⟨notes, hcompiled⟩ := globalsCode_compiled hplacement h
  exact fun _ => hcompiled.emits he trivial

end Program

end ObjectMachine
