/-
Layers that are visited child by child.

A visit calls a function on every child of a layer. The function may fail, and
it may remember (`Visit`): what it answers can depend on the calls before. So
the calls that a visit makes, and their order, show in what is remembered at
its end, and a visit that breaks off shows where it did.

Two layers are `Alike` when they differ in nothing but what their children
are. With its children in order that is all there is to a layer
(`Alike.eq_of_children`), and a visit is settled by the same two facts: what it
leaves is alike, and its children are what the calls on the children answered,
one after another (`outcome_mapM_ok`).
-/
import Mathlib
import ObjectMachine.Proofs.Tree.Layers

namespace ObjectMachine

variable {α β ε σ : Type}

-- ============================================================== visits

/-- An action that may fail, with a memory that outlasts the failure. -/
abbrev Visit (ε σ β : Type) := ExceptT ε (StateM σ) β

namespace Visit

variable {x : Visit ε σ α} {g : α → Visit ε σ β} {s s₁ s' : σ} {a : α} {b : β} {e : ε}

/-- What comes of a visit: an answer or a failure, and what is remembered
after it. -/
def outcome (x : Visit ε σ α) (s : σ) : Except ε α × σ := x.run.run s

theorem outcome_pure (a : α) (s : σ) : (pure a : Visit ε σ α).outcome s = (.ok a, s) := rfl

theorem outcome_bind_of_ok (h : x.outcome s = (.ok a, s₁)) :
    (x >>= g).outcome s = (g a).outcome s₁ := by
  show (ExceptT.bindCont g (x.outcome s).1).run (x.outcome s).2 = _
  rw [h]
  rfl

theorem outcome_bind_of_error (h : x.outcome s = (.error e, s₁)) :
    (x >>= g).outcome s = (.error e, s₁) := by
  show (ExceptT.bindCont g (x.outcome s).1).run (x.outcome s).2 = _
  rw [h]
  rfl

/-- One visit after another answers when both do. -/
theorem outcome_bind_ok : (x >>= g).outcome s = (.ok b, s')
    ↔ ∃ a s₁, x.outcome s = (.ok a, s₁) ∧ (g a).outcome s₁ = (.ok b, s') := by
  rcases hx : x.outcome s with ⟨e | a, s₁⟩
  · rw [outcome_bind_of_error hx]
    simp
  · rw [outcome_bind_of_ok hx]
    simp

/-- It fails when the first does, and the second is not made; or when the
second does. -/
theorem outcome_bind_error : (x >>= g).outcome s = (.error e, s')
    ↔ x.outcome s = (.error e, s')
      ∨ ∃ a s₁, x.outcome s = (.ok a, s₁) ∧ (g a).outcome s₁ = (.error e, s') := by
  rcases hx : x.outcome s with ⟨e | a, s₁⟩
  · rw [outcome_bind_of_error hx]
    simp
  · rw [outcome_bind_of_ok hx]
    simp

theorem outcome_map (h : α → β) :
    (h <$> x).outcome s = ((x.outcome s).1.map h, (x.outcome s).2) := by
  rw [← bind_pure_comp]
  rcases hx : x.outcome s with ⟨e | a, s₁⟩
  · rw [outcome_bind_of_error hx]
    rfl
  · rw [outcome_bind_of_ok hx]
    rfl

theorem outcome_lift (x : StateM σ α) (s : σ) :
    (liftM x : Visit ε σ α).outcome s = (.ok (x.run s).1, (x.run s).2) := rfl

end Visit

open Visit

/-- The function is called on each of them in turn, and gives these answers. -/
inductive InTurn (f : α → Visit ε σ β) : σ → List α → List β → σ → Prop
  | none (s : σ) : InTurn f s [] [] s
  | next {s s₁ s' : σ} {a : α} {b : β} {as : List α} {bs : List β}
      (first : (f a).outcome s = (.ok b, s₁)) (rest : InTurn f s₁ as bs s') :
      InTurn f s (a :: as) (b :: bs) s'

namespace InTurn

variable {f : α → Visit ε σ β} {s s' : σ} {as : List α} {bs : List β} {e : ε}

theorem length_eq (h : InTurn f s as bs s') : bs.length = as.length := by
  induction h with
  | none => rfl
  | next _ _ ih => rw [List.length_cons, List.length_cons, ih]

/-- `InTurn` of a function that answers the same, and remembers the same. -/
theorem lift {g : α → StateM σ β} (h : InTurn f s as bs s')
    (hg : ∀ a ∈ as, ∀ s b s', (f a).outcome s = (.ok b, s') → (g a).run s = (b, s')) :
    InTurn (fun a => (liftM (g a) : Visit ε σ β)) s as bs s' := by
  induction h with
  | none => exact .none _
  | @next s s₁ s' a b as bs first _ ih =>
      refine .next ?_ (ih fun c hc => hg c (List.mem_cons_of_mem _ hc))
      rw [outcome_lift, hg a List.mem_cons_self s b s₁ first]

/-- `mapM` of a list calls the function `InTurn`. -/
theorem iff_mapM : InTurn f s as bs s' ↔ (as.mapM f : Visit ε σ _).outcome s = (.ok bs, s') := by
  induction as generalizing s bs with
  | nil =>
      rw [List.mapM_nil, outcome_pure]
      constructor
      · rintro ⟨⟩
        rfl
      · rintro ⟨⟩
        exact .none _
  | cons a as ih =>
      simp only [List.mapM_cons, outcome_bind_ok, outcome_pure]
      constructor
      · rintro (_ | ⟨hfirst, hrest⟩)
        exact ⟨_, _, hfirst, _, _, ih.1 hrest, rfl⟩
      · rintro ⟨b, s₁, hfirst, bs, s₂, hrest, hend⟩
        cases hend
        exact .next hfirst (ih.2 hrest)

end InTurn

/-- The function answers each time up to one of them, and fails there. What
comes after that one does not matter. -/
def BreaksOff (f : α → Visit ε σ β) (s : σ) (as : List α) (e : ε) (s' : σ) : Prop :=
  ∃ before a after bs s₁, as = before ++ a :: after
    ∧ InTurn f s before bs s₁ ∧ (f a).outcome s₁ = (.error e, s')

theorem BreaksOff.iff_mapM {f : α → Visit ε σ β} {s s' : σ} {as : List α} {e : ε} :
    BreaksOff f s as e s' ↔ (as.mapM f : Visit ε σ _).outcome s = (.error e, s') := by
  induction as generalizing s with
  | nil => simp [BreaksOff, outcome_pure]
  | cons a as ih =>
      simp only [List.mapM_cons, outcome_bind_error, outcome_pure]
      constructor
      · rintro ⟨before, c, after, bs, s₁, hsplit, hbefore, hlast⟩
        cases hbefore with
        | none =>
            cases hsplit
            exact .inl hlast
        | next hfirst hrest =>
            cases hsplit
            exact .inr ⟨_, _, hfirst, .inl (ih.1 ⟨_, _, _, _, _, rfl, hrest, hlast⟩)⟩
      · rintro (hfirst | ⟨b, s₁, hfirst, hrest | ⟨bs, s₂, -, hend⟩⟩)
        · exact ⟨[], a, as, [], s, rfl, .none s, hfirst⟩
        · obtain ⟨before, c, after, bs, s₂, rfl, hbefore, hlast⟩ := ih.2 hrest
          exact ⟨a :: before, c, after, b :: bs, s₂, rfl, .next hfirst hbefore, hlast⟩
        · cases hend

-- ======================================================== alike layers

/-- No base calls, or base calls to the same side with as many arguments. -/
inductive BaseCall.Alike : Option (BaseCall α) → Option (BaseCall β) → Prop
  | none : Alike .none .none
  | some (callsSuper : Bool) {args : List α} {args' : List β} (h : args'.length = args.length) :
      Alike (.some ⟨callsSuper, args⟩) (.some ⟨callsSuper, args'⟩)

/-- Literals of the same form with the same data of their own, and as many
elements. -/
inductive Literal.Alike : Literal α → Literal β → Prop
  | null : Alike .null .null
  | boolean (value : Bool) : Alike (.boolean value) (.boolean value)
  | number (value : Float) : Alike (.number value) (.number value)
  | string (value : String) : Alike (.string value) (.string value)
  | collection (module : α) (module' : β) {elements : List α} {elements' : List β}
      (h : elements'.length = elements.length) :
      Alike (.collection module elements) (.collection module' elements')
  | singleton (object : α) (object' : β) : Alike (.singleton object) (.singleton object')

namespace Kind

/-- Layers of the same kind with the same data of their own, and as many
children in each place. What the children are does not matter. -/
inductive Alike : Kind α → Kind β → Prop
  | environment {members : List α} {members' : List β}
      (h : members'.length = members.length) :
      Alike (.environment members) (.environment members')
  | package (name : String) {imports members : List α} {imports' members' : List β}
      (himports : imports'.length = imports.length) (h : members'.length = members.length) :
      Alike (.package name imports members) (.package name imports' members')
  | importDecl (entity : α) (entity' : β) (generic : Bool) :
      Alike (.importDecl entity generic) (.importDecl entity' generic)
  | program (name : String) (body : α) (body' : β) :
      Alike (.program name body) (.program name body')
  | test (name : String) (body : α) (body' : β) : Alike (.test name body) (.test name body')
  | describe (name : String) {members : List α} {members' : List β}
      (h : members'.length = members.length) :
      Alike (.describe name members) (.describe name members')
  | classDecl (name : String) {superclass : Option α} {superclass' : Option β}
      {mixins members : List α} {mixins' members' : List β}
      (hsuper : superclass'.isSome = superclass.isSome) (hmixins : mixins'.length = mixins.length)
      (h : members'.length = members.length) :
      Alike (.classDecl name superclass mixins members)
        (.classDecl name superclass' mixins' members')
  | singleton (name : Option String) {superclass : Option α} {superclass' : Option β}
      {supercallArgs mixins members : List α} {supercallArgs' mixins' members' : List β}
      (closure : Bool) (hsuper : superclass'.isSome = superclass.isSome)
      (hargs : supercallArgs'.length = supercallArgs.length)
      (hmixins : mixins'.length = mixins.length) (h : members'.length = members.length) :
      Alike (.singleton name superclass supercallArgs mixins members closure)
        (.singleton name superclass' supercallArgs' mixins' members' closure)
  | mixin (name : String) {mixins members : List α} {mixins' members' : List β}
      (hmixins : mixins'.length = mixins.length) (h : members'.length = members.length) :
      Alike (.mixin name mixins members) (.mixin name mixins' members')
  | varDecl (name : String) (constant : Bool) {value : Option α} {value' : Option β}
      (h : value'.isSome = value.isSome) :
      Alike (.varDecl name constant value) (.varDecl name constant value')
  | field (name : String) (constant : Bool) {value : Option α} {value' : Option β}
      (h : value'.isSome = value.isSome) :
      Alike (.field name constant value) (.field name constant value')
  | method (name : String) {parameters : List α} {parameters' : List β} {body : Option α}
      {body' : Option β} (native : Bool) (hparameters : parameters'.length = parameters.length)
      (h : body'.isSome = body.isSome) :
      Alike (.method name parameters body native) (.method name parameters' body' native)
  | constructor {parameters : List α} {parameters' : List β} {baseCall : Option (BaseCall α)}
      {baseCall' : Option (BaseCall β)} (body : α) (body' : β)
      (hparameters : parameters'.length = parameters.length)
      (hcall : BaseCall.Alike baseCall baseCall') :
      Alike (.constructor parameters baseCall body) (.constructor parameters' baseCall' body')
  | fixture (body : α) (body' : β) : Alike (.fixture body) (.fixture body')
  | parameter (name : String) (varArg : Bool) :
      Alike (.parameter name varArg) (.parameter name varArg)
  | block {sentences : List α} {sentences' : List β}
      (h : sentences'.length = sentences.length) : Alike (.block sentences) (.block sentences')
  | catchClause (param : α) (param' : β) {type : Option α} {type' : Option β} (body : α)
      (body' : β) (h : type'.isSome = type.isSome) :
      Alike (.catchClause param type body) (.catchClause param' type' body')
  | namedArgument (name : String) (value : α) (value' : β) :
      Alike (.namedArgument name value) (.namedArgument name value')
  | returnStmt {value : Option α} {value' : Option β} (h : value'.isSome = value.isSome) :
      Alike (.returnStmt value) (.returnStmt value')
  | assignment (place value : α) (place' value' : β) :
      Alike (.assignment place value) (.assignment place' value')
  | reference (name : String) (target : Option NodeId) :
      Alike (.reference name target) (.reference name target)
  | selfRef : Alike .selfRef .selfRef
  | literal {value : Literal α} {value' : Literal β} (h : value.Alike value') :
      Alike (.literal value) (.literal value')
  | send (receiver : α) (receiver' : β) (message : String) {args : List α} {args' : List β}
      (h : args'.length = args.length) :
      Alike (.send receiver message args) (.send receiver' message args')
  | superSend {args : List α} {args' : List β} (h : args'.length = args.length) :
      Alike (.superSend args) (.superSend args')
  | newInstance (instantiated : α) (instantiated' : β) {args : List α} {args' : List β}
      (h : args'.length = args.length) :
      Alike (.newInstance instantiated args) (.newInstance instantiated' args')
  | ifElse (condition thenBody : α) (condition' thenBody' : β) {elseBody : Option α}
      {elseBody' : Option β} (h : elseBody'.isSome = elseBody.isSome) :
      Alike (.ifElse condition thenBody elseBody) (.ifElse condition' thenBody' elseBody')
  | throwStmt (exception : α) (exception' : β) :
      Alike (.throwStmt exception) (.throwStmt exception')
  | tryCatch (body : α) (body' : β) {catches : List α} {catches' : List β} {always : Option α}
      {always' : Option β} (hcatches : catches'.length = catches.length)
      (h : always'.isSome = always.isSome) :
      Alike (.tryCatch body catches always) (.tryCatch body' catches' always')

namespace Alike

/-- `map` changes nothing but the children. -/
theorem map (f : α → β) (kind : Kind α) : kind.Alike (kind.map f) := by
  cases kind with
  | constructor parameters baseCall body =>
      refine .constructor _ _ (List.length_map f) ?_
      cases baseCall with
      | none => exact .none
      | some call => exact .some _ (List.length_map f)
  | literal value =>
      refine .literal ?_
      cases value <;> constructor
      simp
  | _ => constructor <;> simp

theorem toList_inj {o o' : Option β} : o.toList = o'.toList ↔ o = o' := by
  cases o <;> cases o' <;> simp

/-- Alike layers with the same children are the same: each place takes as many
of them as in the other. -/
theorem eq_of_children {kind : Kind α} {kind₁ kind₂ : Kind β} (h₁ : kind.Alike kind₁)
    (h₂ : kind.Alike kind₂) (h : kind₁.children = kind₂.children) : kind₁ = kind₂ := by
  cases h₁ with
  | constructor _ _ _ hcall₁ =>
      cases h₂ with
      | constructor _ _ _ hcall₂ =>
          cases hcall₁ <;> cases hcall₂ <;>
            simp_all [children, List.append_eq_append_iff_of_size_eq_left]
  | literal h₁ =>
      cases h₂ with
      | literal h₂ => cases h₁ <;> cases h₂ <;> simp_all [children, Literal.children]
  | _ =>
      cases h₂
      simp_all [children, List.append_eq_append_iff_of_size_eq_left, Option.length_toList,
        toList_inj]

variable {f : α → Visit ε σ β} {s s' : σ}

theorem length_of_mapM {as : List α} {bs : List β}
    (h : (as.mapM f : Visit ε σ _).outcome s = (.ok bs, s')) : bs.length = as.length :=
  (InTurn.iff_mapM.2 h).length_eq

theorem isSome_of_mapOption {o : Option α} {o' : Option β}
    (h : (mapOption f o : Visit ε σ _).outcome s = (.ok o', s')) : o'.isSome = o.isSome := by
  cases o with
  | none =>
      cases h
      rfl
  | some a =>
      obtain ⟨b, s₁, -, hend⟩ := outcome_bind_ok.1 h
      cases hend
      rfl

theorem of_mapBaseCall {call : Option (BaseCall α)} {call' : Option (BaseCall β)}
    (h : (mapBaseCall f call : Visit ε σ _).outcome s = (.ok call', s')) :
    BaseCall.Alike call call' := by
  cases call with
  | none =>
      cases h
      exact .none
  | some call =>
      obtain ⟨args, s₁, hargs, hend⟩ := outcome_bind_ok.1 h
      cases hend
      exact .some _ (length_of_mapM hargs)

theorem of_literal_mapM {value : Literal α} {value' : Literal β}
    (h : (value.mapM f : Visit ε σ _).outcome s = (.ok value', s')) : value.Alike value' := by
  cases value with
  | collection module elements =>
      obtain ⟨module', s₁, -, h⟩ := outcome_bind_ok.1 h
      obtain ⟨elements', s₂, helements, hend⟩ := outcome_bind_ok.1 h
      cases hend
      exact .collection _ _ (length_of_mapM helements)
  | singleton object =>
      obtain ⟨object', s₁, -, hend⟩ := outcome_bind_ok.1 h
      cases hend
      exact .singleton _ _
  | _ =>
      cases h
      constructor

/-- `mapM` changes nothing but the children. -/
theorem of_mapM {kind : Kind α} {kind' : Kind β}
    (h : (kind.mapM f : Visit ε σ _).outcome s = (.ok kind', s')) : kind.Alike kind' := by
  -- one call of the lemmas above for each place that the kind has
  cases kind <;> simp only [mapM, outcome_bind_ok, outcome_pure] at h <;>
    grind -ring -linarith -lia [Alike, length_of_mapM, isSome_of_mapOption, of_mapBaseCall,
      of_literal_mapM]

end Alike

-- ======================================================= visited layers

variable {f : α → Visit ε σ β} {kind : Kind α} {s s' : σ}

/-- `mapM` of a layer answers when all calls on its children do, `InTurn`, and
puts their answers in the places of the children. -/
theorem outcome_mapM_ok {kind' : Kind β} :
    (kind.mapM f : Visit ε σ _).outcome s = (.ok kind', s')
      ↔ kind.Alike kind' ∧ InTurn f s kind.children kind'.children s' := by
  rw [InTurn.iff_mapM, ← children_mapM, outcome_map]
  constructor
  · intro h
    rw [h]
    exact ⟨.of_mapM h, rfl⟩
  · rintro ⟨halike, h⟩
    rcases hvisit : (kind.mapM f : Visit ε σ _).outcome s with ⟨e | kind₁, s₁⟩
    · rw [hvisit] at h
      cases h
    · rw [hvisit] at h
      obtain ⟨hchildren, rfl⟩ := Prod.mk.inj h
      rw [(Alike.of_mapM hvisit).eq_of_children halike (Except.ok.inj hchildren)]

/-- `mapM` of a layer fails as the first call does that fails, and makes no call
after it (`BreaksOff`). -/
theorem outcome_mapM_error {e : ε} :
    (kind.mapM f : Visit ε σ _).outcome s = (.error e, s') ↔ BreaksOff f s kind.children e s' := by
  rw [BreaksOff.iff_mapM, ← children_mapM, outcome_map]
  rcases (kind.mapM f : Visit ε σ _).outcome s with ⟨e | kind', s₁⟩ <;> simp [Except.map]

-- ============================================ visits that cannot fail

section Lifting

variable {m n : Type → Type} [Monad m] [Monad n] [LawfulMonad n]

theorem mapOption_pure (f : α → β) (o : Option α) :
    mapOption (fun a => (pure (f a) : n β)) o = pure (o.map f) := by
  cases o <;> simp [mapOption]

/-- Where there is nothing to it but its answers, `mapM` is `map`. -/
theorem mapM_pure (f : α → β) (kind : Kind α) :
    kind.mapM (fun a => (pure (f a) : n β)) = pure (kind.map f) := by
  cases kind with
  | constructor parameters baseCall body => cases baseCall <;> simp [mapM, map, mapBaseCall]
  | literal value => cases value <;> simp [mapM, map, Literal.mapM, Literal.map]
  | _ => simp [mapM, map, mapOption_pure]

variable [LawfulMonad m] [MonadLiftT m n] [LawfulMonadLiftT m n] (g : α → m β)

theorem list_mapM_lift (as : List α) :
    as.mapM (fun a => (liftM (g a) : n β)) = liftM (as.mapM g) := by
  induction as with
  | nil => simp
  | cons a as ih => simp [ih]

omit [LawfulMonad m] in
theorem mapOption_lift (o : Option α) :
    mapOption (fun a => (liftM (g a) : n β)) o = liftM (mapOption g o) := by
  cases o <;> simp [mapOption]

theorem mapM_lift (kind : Kind α) :
    kind.mapM (fun a => (liftM (g a) : n β)) = liftM (kind.mapM g) := by
  cases kind with
  | constructor parameters baseCall body =>
      cases baseCall <;> simp [mapM, mapBaseCall, list_mapM_lift]
  | literal value => cases value <;> simp [mapM, Literal.mapM, list_mapM_lift]
  | _ => simp [mapM, list_mapM_lift, mapOption_lift]

end Lifting

/-- What `mapM` in `StateM` leaves is what it leaves in `Visit`, when the calls
answer as the others do. -/
theorem mapM_run_of_outcome {g : α → StateM σ β} {kind' : Kind β}
    (hg : ∀ c ∈ kind.children, ∀ s b s', (f c).outcome s = (.ok b, s') → (g c).run s = (b, s'))
    (h : (kind.mapM f : Visit ε σ _).outcome s = (.ok kind', s')) :
    (kind.mapM g).run s = (kind', s') := by
  obtain ⟨halike, hcalls⟩ := outcome_mapM_ok.1 h
  have hlifted := outcome_mapM_ok.2 ⟨halike, hcalls.lift hg⟩
  rw [mapM_lift, outcome_lift] at hlifted
  cases hlifted
  rfl

end Kind

end ObjectMachine
