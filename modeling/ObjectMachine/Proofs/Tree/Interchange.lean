/-
What is written is read back.

A reader returns a value from its written form (`Reads.Returns`) if it does
so wherever the written form may still be entered. Each way of reading has
its lemma: fields, lists, records and tags return what their parts return.
One layer of a tree returns if its children do (`kind_returns`), and a tree
by induction over the levels that are left: a child is written less deeply
than the tree around it (`Kind.depth_lt`).
-/
import Mathlib
import ObjectMachine.Tree.Interchange
import ObjectMachine.Proofs.Tree.Nodes

namespace ObjectMachine

-- ================================================================ depth

namespace Json

theorem depth_le_itemsDepth {items : List Json} {value : Json} (h : value ∈ items) :
    value.depth ≤ itemsDepth items := by
  induction items with
  | nil => cases h
  | cons item rest ih =>
      rw [itemsDepth]
      rcases List.mem_cons.1 h with rfl | h
      · exact le_max_left _ _
      · exact (ih h).trans (le_max_right _ _)

theorem depth_lt_array {items : List Json} {value : Json} (h : value ∈ items) :
    value.depth < (Json.array items).depth := by
  rw [depth]
  exact Nat.lt_succ_of_le (depth_le_itemsDepth h)

theorem depth_lt_record {members : List (String × Json)} {member : String × Json}
    (h : member ∈ members) : member.2.depth < (Json.record members).depth := by
  rw [record, depth]
  refine Nat.lt_succ_of_le ?_
  induction members with
  | nil => cases h
  | cons first rest ih =>
      rw [List.map_cons, membersDepth]
      rcases List.mem_cons.1 h with rfl | h
      · exact le_max_left _ _
      · exact (ih h).trans (le_max_right _ _)

theorem depth_tagged (tag : String) (payload : Json) :
    (tagged tag payload).depth = payload.depth + 1 := by
  simp [tagged, record, depth, membersDepth]

theorem optional_map {α : Type} (write : α → Json) (value : Option α) :
    optional (value.map write) = option write value := by
  cases value <;> rfl

theorem option_map {α β : Type} (write : β → Json) (f : α → β) (value : Option α) :
    option write (value.map f) = option (fun a => write (f a)) value := by
  cases value <;> rfl

end Json

-- ==================================================== what can be written

/-- Offsets, lines and columns have 64 bits. -/
def Pos.Fits (p : Pos) : Prop :=
  p.offset < Nat.pow 2 64 ∧ p.line < Nat.pow 2 64 ∧ p.column < Nat.pow 2 64

instance : DecidablePred Pos.Fits := fun _ => inferInstanceAs (Decidable (_ ∧ _ ∧ _))

def Span.Fits (s : Span) : Prop := s.start.Fits ∧ s.stop.Fits

instance : DecidablePred Span.Fits := fun _ => inferInstanceAs (Decidable (_ ∧ _))

/-- Numbers are finite, and targets are identities, which have 32 bits. -/
def Kind.Fits {α : Type} : Kind α → Prop
  | .reference _ (some target) => target < Nat.pow 2 32
  | .literal (.number value) => value.isFinite = true
  | _ => True

/-- What a node has besides its children can be written. -/
structure Tree.Fits (t : Tree) : Prop where
  id : ∀ id ∈ t.id?.toList, id < Nat.pow 2 32
  span : ∀ span ∈ t.span?.toList, span.Fits
  kind : t.kind.Fits

/-- A tree that can be written. -/
def Tree.Portable (t : Tree) : Prop := ∀ s ∈ t.preorder, s.Fits

theorem Tree.toJson_eq (t : Tree) :
    t.toJson = .record [("id", .option .nat t.id?), ("span", .option Span.toJson t.span?),
      ("kind", (t.kind.map toJson).toJson)] := by
  rw [toJson, fold_eq]

theorem Tree.Portable.child {t c : Tree} (h : t.Portable) (hc : c ∈ t.children) : c.Portable :=
  fun s hs => h s (mem_preorder_of_child hc hs)

-- ============================================================== readers

namespace Interchange

variable {α : Type} {read : Reads α} {write : α → Json} {level : Nat}

/-- A reader returns a value from its written form, if the levels that are
left are enough to enter it. -/
def Reads.Returns (read : Reads α) (json : Json) (value : α) : Prop :=
  ∀ level, json.depth ≤ level → read level json = some value

theorem text_returns (value : String) : text.Returns (.str value) value := fun _ _ => rfl

theorem bool_returns (value : Bool) : bool.Returns (.bool value) value := fun _ _ => rfl

theorem natBelow_returns {bound value : Nat} (h : value < bound) :
    (natBelow bound).Returns (.nat value) value := fun _ _ => if_pos h

theorem number_returns {value : Float} (h : value.isFinite = true) :
    number.Returns (.real value) value := fun _ _ => if_pos h

theorem listOf_returns {values : List α} (h : ∀ value ∈ values, read.Returns (write value) value) :
    (listOf read).Returns (.array (values.map write)) values := by
  intro level hlevel
  cases level with
  | zero => exact absurd hlevel (Nat.not_succ_le_zero _)
  | succ level =>
      have hitems : ∀ value ∈ values, read level (write value) = some value :=
        fun value hvalue => h value hvalue level (Nat.le_of_lt_succ
          ((Json.depth_lt_array (List.mem_map_of_mem hvalue)).trans_le hlevel))
      rw [listOf]
      clear h hlevel
      induction values with
      | nil => rfl
      | cons value rest ih =>
          obtain ⟨hvalue, hrest⟩ := List.forall_mem_cons.1 hitems
          rw [List.map_cons, List.mapM_cons, hvalue, ih hrest]
          rfl

/-- `required` of a field that is there. -/
theorem required_bind {β : Type} {json : Json} {value : α} (h : read.Returns json value)
    (hlevel : json.depth ≤ level) (k : α → Option β) :
    (required read level (some json) >>= k) = k value := by
  rw [required, h level hlevel]
  rfl

/-- `optional` of a field that is there, or written as null. -/
theorem optional_bind {β : Type} {value : Option α}
    (h : ∀ a ∈ value.toList, read.Returns (write a) a) (hne : ∀ a, write a ≠ .null)
    (hlevel : (Json.option write value).depth ≤ level) (k : Option α → Option β) :
    (optional read level (some (.option write value)) >>= k) = k value := by
  cases value with
  | none => rfl
  | some a =>
      have hread : read level (write a) = some a := h a List.mem_cons_self level hlevel
      rw [Json.option, optional.eq_3 _ _ _ (hne a), hread]
      rfl

theorem defaulting_bind {β : Type} {json : Json} {value : α} (h : read.Returns json value)
    (hlevel : json.depth ≤ level) (default : α) (k : α → Option β) :
    (defaulting read default level (some json) >>= k) = k value := by
  rw [defaulting, h level hlevel]
  rfl

/-- `lookup` finds each field of a written record, as it is there once. -/
theorem lookup_record {members : List (String × Json)} (hnodup : (members.map Prod.fst).Nodup)
    {member : String × Json} (h : member ∈ members) :
    (members.map fun (key, value) => (some key, value)).lookup (some member.1)
      = some member.2 := by
  induction members with
  | nil => cases h
  | cons first rest ih =>
      obtain ⟨hfirst, hrest⟩ := List.nodup_cons.1 hnodup
      rcases List.mem_cons.1 h with rfl | h
      · exact List.lookup_cons_self
      · have hne : (some member.1 == some first.1) = false := by
          refine beq_eq_false_iff_ne.2 fun heq => hfirst ?_
          rw [← Option.some.inj heq]
          exact List.mem_map_of_mem h
        rw [List.map_cons, List.lookup_cons, hne]
        exact ih hrest h

/-- `fields` of a written record, in order. -/
theorem fields_record {names : List String} {members : List (String × Json)}
    (hnames : members.map Prod.fst = names) (hnodup : names.Nodup) (spare : Nat) :
    fields names spare (.record members) = some (members.map fun member => some member.2) := by
  subst hnames
  have hkeys : (members.map fun (key, value) => (some key, value)).all (fun m => m.1.isSome)
      = true := by
    simp
  have honce : (members.map Prod.fst).all (fun name => decide
      ((members.map fun (key, value) => (some key, value)).countP (fun m => m.1 == some name)
        ≤ 1)) = true := by
    refine List.all_eq_true.2 fun name _ => decide_eq_true ?_
    have hcount := List.nodup_iff_count_le_one.1 hnodup name
    rw [List.count, List.countP_map] at hcount
    rw [List.countP_map]
    refine le_of_eq_of_le (List.countP_congr fun member _ => ?_) hcount
    simp
  rw [Json.record, fields, hkeys, honce, Bool.and_self, if_pos rfl, List.map_map]
  exact congrArg some (List.map_congr_left fun member hmember => lookup_record hnodup hmember)

theorem record_returns {names : List String} {spare : Nat} {members : List (String × Json)}
    {read : Nat → List (Option Json) → Option α} {value : α}
    (hnames : members.map Prod.fst = names) (hnodup : names.Nodup)
    (h : ∀ level, members.Forall (fun member => member.2.depth ≤ level) →
      read level (members.map fun member => some member.2) = some value) :
    (record names spare read).Returns (.record members) value := by
  intro level hlevel
  cases level with
  | zero => exact absurd hlevel (Nat.not_succ_le_zero _)
  | succ level =>
      rw [record, fields_record hnames hnodup]
      exact h level (List.forall_iff_forall_mem.2 fun member hmember =>
        Nat.le_of_lt_succ ((Json.depth_lt_record hmember).trans_le hlevel))

theorem tagged_returns {plain : String → Option α} {read : String → Reads α} {tag : String}
    {payload : Json} {value : α} (h : (read tag).Returns payload value) :
    (tagged plain read).Returns (.tagged tag payload) value := by
  intro level hlevel
  rw [Json.depth_tagged] at hlevel
  cases level with
  | zero => exact absurd hlevel (Nat.not_succ_le_zero _)
  | succ level => exact h level (Nat.le_of_succ_le_succ hlevel)

-- =============================================================== layers

theorem pos_returns {p : Pos} (h : p.Fits) : pos.Returns p.toJson p := by
  refine record_returns rfl (by decide) fun level ⟨h₁, h₂, h₃⟩ => ?_
  exact (required_bind (natBelow_returns h.1) h₁ _).trans
    ((required_bind (natBelow_returns h.2.1) h₂ _).trans
    (required_bind (natBelow_returns h.2.2) h₃ _))

theorem span_returns {s : Span} (h : s.Fits) : span.Returns s.toJson s := by
  refine record_returns rfl (by decide) fun level ⟨h₁, h₂⟩ => ?_
  exact (required_bind (pos_returns h.1) h₁ _).trans (required_bind (pos_returns h.2) h₂ _)

section

variable {tree : Reads Tree}

theorem children_return {cs : List Tree} (h : ∀ c ∈ cs, tree.Returns c.toJson c) :
    (listOf tree).Returns (.array (cs.map Tree.toJson)) cs :=
  listOf_returns h

theorem toJson_ne_null (t : Tree) : t.toJson ≠ .null := by
  rw [t.toJson_eq]
  exact fun h => nomatch h

theorem child_bind {β : Type} {child : Option Tree}
    (h : ∀ c ∈ child.toList, tree.Returns c.toJson c)
    (hlevel : (Json.optional (child.map Tree.toJson)).depth ≤ level)
    (k : Option Tree → Option β) :
    (optional tree level (some (.optional (child.map Tree.toJson))) >>= k) = k child := by
  rw [Json.optional_map] at hlevel ⊢
  exact optional_bind h toJson_ne_null hlevel k

theorem baseCall_returns {call : BaseCall Tree} (h : ∀ c ∈ call.args, tree.Returns c.toJson c) :
    (baseCall tree).Returns
      (BaseCall.toJson ⟨call.callsSuper, call.args.map Tree.toJson⟩) call := by
  refine record_returns rfl (by decide) fun level ⟨h₁, h₂⟩ => ?_
  exact (required_bind (bool_returns _) h₁ _).trans (required_bind (children_return h) h₂ _)

theorem literal_returns {value : Literal Tree} (hfits : (Kind.literal value).Fits)
    (h : ∀ c ∈ value.children, tree.Returns c.toJson c) :
    (literal tree).Returns (value.map Tree.toJson).toJson value := by
  cases value with
  | null => exact fun _ _ => rfl
  | boolean value =>
      refine tagged_returns fun level hlevel => ?_
      exact congrArg (Option.map _) (bool_returns value level hlevel)
  | number value =>
      refine tagged_returns fun level hlevel => ?_
      exact congrArg (Option.map _) (number_returns hfits level hlevel)
  | string value =>
      refine tagged_returns fun level hlevel => ?_
      exact congrArg (Option.map _) (text_returns value level hlevel)
  | collection module elements =>
      obtain ⟨hmodule, helements⟩ := List.forall_mem_cons.1 h
      refine tagged_returns (record_returns rfl (by decide) fun level ⟨h₁, h₂⟩ => ?_)
      exact (required_bind hmodule h₁ _).trans (required_bind (children_return helements) h₂ _)
  | singleton object =>
      refine tagged_returns fun level hlevel => ?_
      exact congrArg (Option.map _) (h object List.mem_cons_self level hlevel)

theorem kind_returns {kind : Kind Tree} (hfits : kind.Fits)
    (h : ∀ c ∈ kind.children, tree.Returns c.toJson c) :
    (Interchange.kind tree).Returns (kind.map Tree.toJson).toJson kind := by
  cases kind with
  | environment members =>
      refine tagged_returns (record_returns rfl (by decide) fun level h₁ => ?_)
      exact required_bind (children_return h) h₁ _
  | package name imports members =>
      obtain ⟨himports, hmembers⟩ := List.forall_mem_append.1 h
      refine tagged_returns (record_returns rfl (by decide) fun level ⟨h₁, h₂, h₃⟩ => ?_)
      exact (required_bind (text_returns name) h₁ _).trans
        ((required_bind (children_return himports) h₂ _).trans
        (required_bind (children_return hmembers) h₃ _))
  | importDecl entity generic =>
      have hentity := List.forall_mem_singleton.1 h
      refine tagged_returns (record_returns rfl (by decide) fun level ⟨h₁, h₂⟩ => ?_)
      exact (required_bind hentity h₁ _).trans (required_bind (bool_returns generic) h₂ _)
  | program name body =>
      have hbody := List.forall_mem_singleton.1 h
      refine tagged_returns (record_returns rfl (by decide) fun level ⟨h₁, h₂⟩ => ?_)
      exact (required_bind (text_returns name) h₁ _).trans (required_bind hbody h₂ _)
  | test name body =>
      have hbody := List.forall_mem_singleton.1 h
      refine tagged_returns (record_returns rfl (by decide) fun level ⟨h₁, h₂⟩ => ?_)
      exact (required_bind (text_returns name) h₁ _).trans (required_bind hbody h₂ _)
  | describe name members =>
      refine tagged_returns (record_returns rfl (by decide) fun level ⟨h₁, h₂⟩ => ?_)
      exact (required_bind (text_returns name) h₁ _).trans (required_bind (children_return h) h₂ _)
  | classDecl name superclass mixins members =>
      obtain ⟨hfirst, hmembers⟩ := List.forall_mem_append.1 h
      obtain ⟨hsuper, hmixins⟩ := List.forall_mem_append.1 hfirst
      refine tagged_returns (record_returns rfl (by decide) fun level ⟨h₁, h₂, h₃, h₄⟩ => ?_)
      exact (required_bind (text_returns name) h₁ _).trans
        ((child_bind hsuper h₂ _).trans
        ((required_bind (children_return hmixins) h₃ _).trans
        (required_bind (children_return hmembers) h₄ _)))
  | singleton name superclass supercallArgs mixins members closure =>
      obtain ⟨hfirst, hmembers⟩ := List.forall_mem_append.1 h
      obtain ⟨hfirst, hmixins⟩ := List.forall_mem_append.1 hfirst
      obtain ⟨hsuper, hargs⟩ := List.forall_mem_append.1 hfirst
      refine tagged_returns
        (record_returns rfl (by decide) fun level ⟨h₁, h₂, h₃, h₄, h₅, h₆⟩ => ?_)
      exact (optional_bind (fun a _ => text_returns a) (fun _ => nofun) h₁ _).trans
        ((child_bind hsuper h₂ _).trans
        ((required_bind (children_return hargs) h₃ _).trans
        ((required_bind (children_return hmixins) h₄ _).trans
        ((required_bind (children_return hmembers) h₅ _).trans
        (defaulting_bind (bool_returns closure) h₆ _ _)))))
  | mixin name mixins members =>
      obtain ⟨hmixins, hmembers⟩ := List.forall_mem_append.1 h
      refine tagged_returns (record_returns rfl (by decide) fun level ⟨h₁, h₂, h₃⟩ => ?_)
      exact (required_bind (text_returns name) h₁ _).trans
        ((required_bind (children_return hmixins) h₂ _).trans
        (required_bind (children_return hmembers) h₃ _))
  | varDecl name constant value =>
      refine tagged_returns (record_returns rfl (by decide) fun level ⟨h₁, h₂, h₃⟩ => ?_)
      exact (required_bind (text_returns name) h₁ _).trans
        ((required_bind (bool_returns constant) h₂ _).trans (child_bind h h₃ _))
  | field name constant value =>
      refine tagged_returns (record_returns rfl (by decide) fun level ⟨h₁, h₂, h₃⟩ => ?_)
      exact (required_bind (text_returns name) h₁ _).trans
        ((required_bind (bool_returns constant) h₂ _).trans (child_bind h h₃ _))
  | method name parameters body native =>
      obtain ⟨hparameters, hbody⟩ := List.forall_mem_append.1 h
      refine tagged_returns (record_returns rfl (by decide) fun level ⟨h₁, h₂, h₃, h₄⟩ => ?_)
      exact (required_bind (text_returns name) h₁ _).trans
        ((required_bind (children_return hparameters) h₂ _).trans
        ((child_bind hbody h₃ _).trans (required_bind (bool_returns native) h₄ _)))
  | constructor parameters call body =>
      obtain ⟨hfirst, hbody⟩ := List.forall_mem_append.1 h
      obtain ⟨hparameters, hargs⟩ := List.forall_mem_append.1 hfirst
      have hbody := List.forall_mem_singleton.1 hbody
      have hcall : ∀ call' ∈ call.toList, (baseCall tree).Returns
          (BaseCall.toJson ⟨call'.callsSuper, call'.args.map Tree.toJson⟩) call' := by
        intro call' hmem
        cases Option.mem_toList.1 hmem
        exact baseCall_returns hargs
      refine tagged_returns (record_returns rfl (by decide) fun level ⟨h₁, h₂, h₃⟩ => ?_)
      rw [Json.option_map] at h₂
      simp only [List.map_cons, Json.option_map]
      exact (required_bind (children_return hparameters) h₁ _).trans
        ((optional_bind hcall (fun _ => nofun) h₂ _).trans
        (required_bind hbody h₃ _))
  | fixture body =>
      have hbody := List.forall_mem_singleton.1 h
      refine tagged_returns (record_returns rfl (by decide) fun level h₁ => ?_)
      exact required_bind hbody h₁ _
  | parameter name varArg =>
      refine tagged_returns (record_returns rfl (by decide) fun level ⟨h₁, h₂⟩ => ?_)
      exact (required_bind (text_returns name) h₁ _).trans
        (required_bind (bool_returns varArg) h₂ _)
  | block sentences =>
      refine tagged_returns (record_returns rfl (by decide) fun level h₁ => ?_)
      exact required_bind (children_return h) h₁ _
  | catchClause param type body =>
      obtain ⟨hfirst, hbody⟩ := List.forall_mem_append.1 h
      obtain ⟨hparam, htype⟩ := List.forall_mem_append.1 hfirst
      have hparam := List.forall_mem_singleton.1 hparam
      have hbody := List.forall_mem_singleton.1 hbody
      refine tagged_returns (record_returns rfl (by decide) fun level ⟨h₁, h₂, h₃⟩ => ?_)
      exact (required_bind hparam h₁ _).trans
        ((child_bind htype h₂ _).trans (required_bind hbody h₃ _))
  | namedArgument name value =>
      have hvalue := List.forall_mem_singleton.1 h
      refine tagged_returns (record_returns rfl (by decide) fun level ⟨h₁, h₂⟩ => ?_)
      exact (required_bind (text_returns name) h₁ _).trans (required_bind hvalue h₂ _)
  | returnStmt value =>
      refine tagged_returns (record_returns rfl (by decide) fun level h₁ => ?_)
      exact child_bind h h₁ _
  | assignment place value =>
      obtain ⟨hplace, hvalue⟩ := List.forall_mem_cons.1 h
      have hvalue := List.forall_mem_singleton.1 hvalue
      refine tagged_returns (record_returns rfl (by decide) fun level ⟨h₁, h₂⟩ => ?_)
      exact (required_bind hplace h₁ _).trans (required_bind hvalue h₂ _)
  | reference name target =>
      have htarget : ∀ id ∈ target.toList, nodeId.Returns (.nat id) id := by
        intro id hmem
        cases Option.mem_toList.1 hmem
        exact natBelow_returns hfits
      refine tagged_returns (record_returns rfl (by decide) fun level ⟨h₁, h₂⟩ => ?_)
      exact (required_bind (text_returns name) h₁ _).trans
        (optional_bind htarget (fun _ => nofun) h₂ _)
  | selfRef => exact fun _ _ => rfl
  | literal value =>
      refine tagged_returns (record_returns rfl (by decide) fun level h₁ => ?_)
      exact required_bind (literal_returns hfits h) h₁ _
  | send receiver message args =>
      obtain ⟨hreceiver, hargs⟩ := List.forall_mem_cons.1 h
      refine tagged_returns (record_returns rfl (by decide) fun level ⟨h₁, h₂, h₃⟩ => ?_)
      exact (required_bind hreceiver h₁ _).trans
        ((required_bind (text_returns message) h₂ _).trans
        (required_bind (children_return hargs) h₃ _))
  | superSend args =>
      refine tagged_returns (record_returns rfl (by decide) fun level h₁ => ?_)
      exact required_bind (children_return h) h₁ _
  | newInstance instantiated args =>
      obtain ⟨hclass, hargs⟩ := List.forall_mem_cons.1 h
      refine tagged_returns (record_returns rfl (by decide) fun level ⟨h₁, h₂⟩ => ?_)
      exact (required_bind hclass h₁ _).trans (required_bind (children_return hargs) h₂ _)
  | ifElse condition thenBody elseBody =>
      obtain ⟨hcondition, hrest⟩ := List.forall_mem_cons.1 h
      obtain ⟨hthen, helse⟩ := List.forall_mem_cons.1 hrest
      refine tagged_returns (record_returns rfl (by decide) fun level ⟨h₁, h₂, h₃⟩ => ?_)
      exact (required_bind hcondition h₁ _).trans
        ((required_bind hthen h₂ _).trans (child_bind helse h₃ _))
  | throwStmt exception =>
      have hexception := List.forall_mem_singleton.1 h
      refine tagged_returns (record_returns rfl (by decide) fun level h₁ => ?_)
      exact required_bind hexception h₁ _
  | tryCatch body catches always =>
      obtain ⟨hfirst, halways⟩ := List.forall_mem_append.1 h
      obtain ⟨hbody, hcatches⟩ := List.forall_mem_append.1 hfirst
      have hbody := List.forall_mem_singleton.1 hbody
      refine tagged_returns (record_returns rfl (by decide) fun level ⟨h₁, h₂, h₃⟩ => ?_)
      exact (required_bind hbody h₁ _).trans
        ((required_bind (children_return hcatches) h₂ _).trans (child_bind halways h₃ _))

end

end Interchange

-- ================================================================ trees

theorem Literal.depth_le {value : Literal Json} {j : Json} (h : j ∈ value.children) :
    j.depth ≤ value.toJson.depth := by
  cases value with
  | collection module elements =>
      have helements : j ∈ elements → j.depth ≤ Json.itemsDepth elements :=
        Json.depth_le_itemsDepth
      simp only [children, toJson, Json.depth_tagged, Json.record, Json.depth, Json.membersDepth,
        List.map, List.mem_cons] at h ⊢
      grind
  | singleton object =>
      cases List.mem_singleton.1 h
      rw [toJson, Json.depth_tagged]
      exact Nat.le_succ _
  | _ => cases h

/-- A child is written less deeply than the layer around it (`depth`). -/
theorem Kind.depth_lt {kind : Kind Json} {j : Json} (h : j ∈ kind.children) :
    j.depth < kind.toJson.depth := by
  have hitems : ∀ items : List Json, j ∈ items → j.depth ≤ Json.itemsDepth items :=
    fun _ => Json.depth_le_itemsDepth
  have hoptional : ∀ value : Option Json, j ∈ value.toList →
      j.depth ≤ (Json.optional value).depth := by
    intro value hvalue
    cases Option.mem_toList.1 hvalue
    exact le_rfl
  cases kind with
  | literal value =>
      have hvalue : j.depth ≤ value.toJson.depth := Literal.depth_le h
      simp only [toJson, Json.depth_tagged, Json.record, Json.depth, Json.membersDepth, List.map]
      omega
  | constructor parameters call body =>
      have hcall : ∀ c, call = some c → j ∈ c.args →
          j.depth < (Json.option BaseCall.toJson call).depth := by
        rintro c rfl hargs
        have hle := hitems c.args hargs
        simp only [Json.option, BaseCall.toJson, Json.record, Json.depth, Json.membersDepth,
          List.map]
        omega
      simp only [children, toJson, Json.depth_tagged, Json.record, Json.depth, Json.membersDepth,
        List.map, List.mem_append, List.mem_singleton] at h ⊢
      cases call <;> grind
  | _ =>
      simp only [children, toJson, Json.depth_tagged, Json.record, Json.depth, Json.membersDepth,
        List.map, List.mem_append, List.mem_cons] at h ⊢
      grind

namespace Tree

theorem depth_child_lt {t c : Tree} (hc : c ∈ t.children) : c.toJson.depth < t.toJson.depth := by
  have hbelow : c.toJson.depth < (t.kind.map toJson).toJson.depth := by
    refine Kind.depth_lt ?_
    rw [Kind.children_map]
    exact List.mem_map_of_mem hc
  have hlayer : (t.kind.map toJson).toJson.depth < t.toJson.depth := by
    rw [t.toJson_eq]
    exact @Json.depth_lt_record _ ("kind", _) (.tail _ (.tail _ (.head _)))
  exact hbelow.trans hlayer

end Tree

/-- `treeWithin` reads back a tree that is `Portable`, if the levels that are
left are enough. -/
theorem Interchange.treeWithin_returns {fuel : Nat} {t : Tree} (hp : t.Portable)
    (hfuel : t.toJson.depth ≤ fuel) : (treeWithin fuel).Returns t.toJson t := by
  induction fuel generalizing t with
  | zero =>
      rw [Tree.toJson_eq] at hfuel
      exact absurd hfuel (Nat.not_succ_le_zero _)
  | succ fuel ih =>
      have hfits := hp t (Tree.mem_preorder_self t)
      have hchildren : ∀ c ∈ t.children, (treeWithin fuel).Returns c.toJson c :=
        fun c hc => ih (hp.child hc)
          (Nat.le_of_lt_succ ((Tree.depth_child_lt hc).trans_le hfuel))
      rw [Tree.toJson_eq]
      refine record_returns rfl (by decide) fun level ⟨h₁, h₂, h₃⟩ => ?_
      refine (optional_bind (fun id hid => natBelow_returns (hfits.id id hid)) (fun _ => nofun) h₁
        _).trans ?_
      refine (optional_bind (fun span hspan => span_returns (hfits.span span hspan))
        (fun _ => nofun) h₂ _).trans ?_
      refine (required_bind (kind_returns hfits.kind hchildren) h₃ _).trans ?_
      cases t
      rfl

end ObjectMachine
