/-
Layers whose children are replaced.

What a layer says by itself does not depend on what its children are: a
mapped layer has the name, the parts and the kind of the old one, with each
child replaced in its place. The only thing that is changed in a layer
besides its children is the target of a reference (`withTarget`).

A layer visited in the state monad visits its children in order, so the
states it goes through are those of the list of its children.
-/
import Mathlib
import ObjectMachine.Proofs.Tree.Nodes

namespace ObjectMachine.Kind

variable {α β γ : Type}

-- ======================================================= mapped layers

theorem map_map (f : α → β) (g : β → γ) (kind : Kind α) :
    (kind.map f).map g = kind.map fun a => g (f a) := by
  cases kind with
  | constructor parameters baseCall body => cases baseCall <;> simp [map]
  | literal value => cases value <;> simp [map, Literal.map]
  | _ => simp [map, Function.comp_def]

/-- `map` depends on the children only. -/
theorem map_congr {f g : α → β} {kind : Kind α} (h : ∀ c ∈ kind.children, f c = g c) :
    kind.map f = kind.map g := by
  cases kind with
  | constructor parameters baseCall body =>
      cases baseCall <;> simp_all [map, children]
  | literal value => cases value <;> simp_all [map, children, Literal.map, Literal.children]
  | classDecl | singleton | varDecl | field | method | catchClause | returnStmt | ifElse
  | tryCatch =>
      simp_all [map, children]
      exact Option.map_congr (by simp_all)
  | _ => simp_all [map, children]

theorem map_id (kind : Kind α) : kind.map (fun a => a) = kind := by
  cases kind with
  | constructor parameters baseCall body => cases baseCall <;> simp [map]
  | literal value => cases value <;> simp [map, Literal.map]
  | _ => simp [map]

variable (f : α → β) (kind : Kind α)

@[simp] theorem name?_map : (kind.map f).name? = kind.name? := by cases kind <;> rfl

@[simp] theorem isModule_map : (kind.map f).isModule = kind.isModule := by cases kind <;> rfl

@[simp] theorem isPackage_map : (kind.map f).isPackage = kind.isPackage := by cases kind <;> rfl

@[simp] theorem isField_map : (kind.map f).isField = kind.isField := by cases kind <;> rfl

@[simp] theorem isVariable_map : (kind.map f).isVariable = kind.isVariable := by
  cases kind <;> rfl

@[simp] theorem members_map : (kind.map f).members = kind.members.map f := by
  cases kind <;> simp [map, members]

@[simp] theorem mixins_map : (kind.map f).mixins = kind.mixins.map f := by
  cases kind <;> simp [map, mixins]

@[simp] theorem superclass?_map : (kind.map f).superclass? = kind.superclass?.map f := by
  cases kind <;> simp [map, superclass?]

-- ============================================================= targets

/-- The same layer; a reference gets this target. -/
def withTarget (target : Option NodeId) : Kind α → Kind α
  | .reference name _ => .reference name target
  | other => other

variable (target other : Option NodeId)

@[simp] theorem children_withTarget : (kind.withTarget target).children = kind.children := by
  cases kind <;> rfl

@[simp] theorem name?_withTarget : (kind.withTarget target).name? = kind.name? := by
  cases kind <;> rfl

@[simp] theorem isModule_withTarget : (kind.withTarget target).isModule = kind.isModule := by
  cases kind <;> rfl

@[simp] theorem isPackage_withTarget : (kind.withTarget target).isPackage = kind.isPackage := by
  cases kind <;> rfl

@[simp] theorem isField_withTarget : (kind.withTarget target).isField = kind.isField := by
  cases kind <;> rfl

@[simp] theorem isVariable_withTarget :
    (kind.withTarget target).isVariable = kind.isVariable := by
  cases kind <;> rfl

@[simp] theorem members_withTarget : (kind.withTarget target).members = kind.members := by
  cases kind <;> rfl

@[simp] theorem mixins_withTarget : (kind.withTarget target).mixins = kind.mixins := by
  cases kind <;> rfl

@[simp] theorem superclass?_withTarget :
    (kind.withTarget target).superclass? = kind.superclass? := by
  cases kind <;> rfl

@[simp] theorem map_withTarget :
    (kind.withTarget target).map f = (kind.map f).withTarget target := by
  cases kind <;> rfl

@[simp] theorem withTarget_withTarget :
    (kind.withTarget target).withTarget other = kind.withTarget other := by
  cases kind <;> rfl

theorem withTarget_of_target? (h : kind.target? = target) : kind.withTarget target = kind := by
  cases kind <;> simp_all [withTarget, target?]

-- ================================================== children in order

variable {m : Type → Type} [Monad m] [LawfulMonad m]

omit [LawfulMonad m] in
theorem mapOption_map (g : β → m γ) (o : Option α) :
    mapOption g (o.map f) = mapOption (fun a => g (f a)) o := by
  cases o <;> rfl

theorem mapM_map (g : β → m γ) : (kind.map f).mapM g = kind.mapM fun a => g (f a) := by
  cases kind with
  | constructor parameters baseCall body =>
      cases baseCall <;> simp [map, mapM, mapBaseCall, Function.comp_def]
  | literal value =>
      cases value <;> simp [map, mapM, Literal.map, Literal.mapM, Function.comp_def]
  | _ => simp [map, mapM, mapOption_map, Function.comp_def]

theorem mapM_toList (g : α → m β) (o : Option α) :
    o.toList.mapM g = Option.toList <$> mapOption g o := by
  cases o <;> simp [mapOption]

/-- `mapM` of the layer visits the children, in their order. -/
theorem children_mapM (g : α → m β) : children <$> kind.mapM g = kind.children.mapM g := by
  cases kind with
  | constructor parameters baseCall body =>
      cases baseCall <;> simp [children, mapM, mapBaseCall]
  | literal value => cases value <;> simp [children, mapM, Literal.children, Literal.mapM]
  | _ => simp [children, mapM, mapM_toList]

-- ================================================== visits with a state

variable {σ : Type}

theorem bind_run (x : StateM σ α) (g : α → StateM σ β) (s : σ) :
    (x >>= g).run s = (g (x.run s).1).run (x.run s).2 := rfl

theorem pure_run (a : α) (s : σ) : (pure a : StateM σ α).run s = (a, s) := rfl

theorem list_mapM_run {g : α → StateM σ β} {h : β → γ} {h' : α → γ} {l : List α}
    (hg : ∀ a ∈ l, ∀ s, h ((g a).run s).1 = h' a) (s : σ) :
    ((l.mapM g).run s).1.map h = l.map h' := by
  induction l generalizing s with
  | nil => rfl
  | cons a rest ih =>
      simp only [List.mapM_cons, bind_run, pure_run, List.map_cons, hg a List.mem_cons_self,
        ih fun b hb => hg b (List.mem_cons_of_mem _ hb)]

theorem mapOption_run {g : α → StateM σ β} {h : β → γ} {h' : α → γ} {o : Option α}
    (hg : ∀ a, o = some a → ∀ s, h ((g a).run s).1 = h' a) (s : σ) :
    ((mapOption g o).run s).1.map h = o.map h' := by
  cases o with
  | none => rfl
  | some a => simp only [mapOption, bind_run, pure_run, Option.map_some, hg a rfl]

/-- What `mapM` of a layer leaves is the layer, with what it leaves of each
child. -/
theorem map_mapM_run {g : α → StateM σ β} {h : β → γ} {h' : α → γ} {kind : Kind α}
    (hg : ∀ c ∈ kind.children, ∀ s, h ((g c).run s).1 = h' c) (s : σ) :
    ((kind.mapM g).run s).1.map h = kind.map h' := by
  cases kind with
  | constructor parameters baseCall body =>
      cases baseCall <;> simp only [mapM, mapBaseCall, bind_run, pure_run, map] <;>
        simp_all [children, list_mapM_run]
  | literal value =>
      cases value <;> simp only [mapM, Literal.mapM, bind_run, pure_run, map, Literal.map] <;>
        simp_all [children, Literal.children, list_mapM_run]
  | parameter | reference | selfRef => rfl
  | _ =>
      simp only [mapM, bind_run, pure_run, map]
      simp_all [children, list_mapM_run, mapOption_run]

end ObjectMachine.Kind
