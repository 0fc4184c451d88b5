/-
What stays of a heap.

`Heap.Change` lists the changes that are made to a heap, as `Heap.Edit` does,
but of any heap: nothing has to exist. It leaves open what a native method
may do to the elements of a collection (`lists`). Where collections are only
added to, a heap never loses anything (`Heap.Grows`): an object stays what it
is and where it is and has the fields it had, a context keeps its place and
its locals.
-/
import Mathlib
import ObjectMachine.Proofs.Heap.Edits

namespace ObjectMachine

/-- `insert` takes no name away. -/
theorem Bindings.isSome_get?_insert {bindings : Bindings} {other : String}
    (h : (bindings.get? other).isSome) (name : String) (value : ObjectId) :
    ((bindings.insert name value).get? other).isSome := by
  rw [get?_insert]
  split
  · rfl
  · exact h

-- ============================================================== changes

namespace Heap

/-- One change of a heap, with `lists` for what may become of the elements of
a collection. -/
inductive Change (lists : List ObjectId → List ObjectId → Prop) (h : Heap) : Heap → Prop
  /-- A new object, without fields: a collection or nothing inside. -/
  | allocate (module : NodeId) (elements : Option (List ObjectId)) (parent : ContextId)
      (answersSelf : Bool) :
      Change lists h (h.allocate
        { module, inner := elements.map .collection, parent, answersSelf }).2
  | number (value : Float) (module : NodeId) : Change lists h (h.number value module).2
  | string (value : String) (module : NodeId) : Change lists h (h.string value module).2
  | newContext (parent : Link) : Change lists h (h.newContext parent).2
  | declare (context : ContextId) (name : String) (value : ObjectId) :
      Change lists h (h.declare context name value)
  | putField (id : ObjectId) (name : String) (value : ObjectId) :
      Change lists h (h.putField id name value)
  | relist {id : ObjectId} {old new : List ObjectId}
      (held : (h.object? id).bind Object.inner = some (.collection old)) (may : lists old new) :
      Change lists h (h.updateObject id fun o => { o with inner := some (.collection new) })

/-- Any number of changes. -/
def Changes (lists : List ObjectId → List ObjectId → Prop) : Heap → Heap → Prop :=
  Relation.ReflTransGen (Change lists)

variable {lists : List ObjectId → List ObjectId → Prop} {h h' h'' : Heap}

theorem Change.changes (change : h.Change lists h') : h.Changes lists h' := .single change

theorem Changes.refl (h : Heap) : h.Changes lists h := Relation.ReflTransGen.refl

theorem Changes.trans (first : h.Changes lists h') (second : h'.Changes lists h'') :
    h.Changes lists h'' :=
  Relation.ReflTransGen.trans first second

theorem Changes.tail (changes : h.Changes lists h') (change : h'.Change lists h'') :
    h.Changes lists h'' :=
  Relation.ReflTransGen.tail changes change

theorem Changes.of_eq (heq : h' = h) : h.Changes lists h' := by
  rw [heq]
  exact .refl h

/-- `Changes` with a weaker relation between elements. -/
theorem Changes.mono {lists' : List ObjectId → List ObjectId → Prop}
    (changes : h.Changes lists h') (hle : ∀ old new, lists old new → lists' old new) :
    h.Changes lists' h' := by
  refine Relation.ReflTransGen.mono (fun _ _ change => ?_) _ _ changes
  cases change with
  | allocate module elements parent answersSelf => exact .allocate ..
  | number value module => exact .number ..
  | string value module => exact .string ..
  | newContext parent => exact .newContext parent
  | declare context name value => exact .declare ..
  | putField id name value => exact .putField ..
  | relist held may => exact .relist held (hle _ _ may)

/-- `assign` changes one slot, if any. -/
theorem assign_changes (h : Heap) (id : ContextId) (name : String) (value : ObjectId) :
    h.Changes lists (h.assign id name value).2 := by
  unfold assign
  split
  · exact (Change.declare ..).changes
  · exact (Change.putField ..).changes
  · exact .refl h

-- =============================================================== growth

end Heap

/-- An object later on: the same object, with its fields or more and, inside,
what was there or a longer collection. -/
structure Object.Grows (o o' : Object) : Prop where
  id : o'.id = o.id
  module : o'.module = o.module
  parent : o'.parent = o.parent
  answersSelf : o'.answersSelf = o.answersSelf
  fields : ∀ name, (o.fields.get? name).isSome → (o'.fields.get? name).isSome
  bare : o.inner = none → o'.inner = none
  number : ∀ value, o.inner = some (.number value) → o'.inner = some (.number value)
  string : ∀ value, o.inner = some (.string value) → o'.inner = some (.string value)
  collection : ∀ elements, o.inner = some (.collection elements) →
    ∃ longer, o'.inner = some (.collection longer) ∧ elements <+: longer

namespace Object.Grows

variable {o o' o'' : Object}

/-- An object with the same inner value. -/
theorem of_inner (inner : o'.inner = o.inner) (id : o'.id = o.id) (module : o'.module = o.module)
    (parent : o'.parent = o.parent) (answersSelf : o'.answersSelf = o.answersSelf)
    (fields : ∀ name, (o.fields.get? name).isSome → (o'.fields.get? name).isSome) :
    o.Grows o' where
  id := id
  module := module
  parent := parent
  answersSelf := answersSelf
  fields := fields
  bare := inner.trans
  number _ := inner.trans
  string _ := inner.trans
  collection elements held := ⟨elements, inner.trans held, List.prefix_rfl⟩

theorem refl (o : Object) : o.Grows o := of_inner rfl rfl rfl rfl rfl fun _ h => h

theorem trans (first : o.Grows o') (second : o'.Grows o'') : o.Grows o'' where
  id := second.id.trans first.id
  module := second.module.trans first.module
  parent := second.parent.trans first.parent
  answersSelf := second.answersSelf.trans first.answersSelf
  fields name h := second.fields name (first.fields name h)
  bare h := second.bare (first.bare h)
  number value h := second.number value (first.number value h)
  string value h := second.string value (first.string value h)
  collection elements held := by
    obtain ⟨longer, hlonger, hle⟩ := first.collection elements held
    obtain ⟨longest, hlongest, hle'⟩ := second.collection longer hlonger
    exact ⟨longest, hlongest, hle.trans hle'⟩

end Object.Grows

/-- A context later on: in the same place, with its locals or more. -/
structure Context.Grows (c c' : Context) : Prop where
  parent : c'.parent = c.parent
  locals : ∀ name, (c.locals.get? name).isSome → (c'.locals.get? name).isSome

namespace Heap

/-- A heap later on: whatever was there is still there. -/
structure Grows (h h' : Heap) : Prop where
  object : ∀ {id o}, h.object? id = some o → ∃ o', h'.object? id = some o' ∧ o.Grows o'
  context : ∀ {id c}, h.context? id = some c → ∃ c', h'.context? id = some c' ∧ c.Grows c'

variable {h h' h'' : Heap}

theorem Grows.refl (h : Heap) : h.Grows h where
  object ho := ⟨_, ho, .refl _⟩
  context hc := ⟨_, hc, rfl, fun _ h => h⟩

theorem Grows.trans (first : h.Grows h') (second : h'.Grows h'') : h.Grows h'' where
  object ho := by
    obtain ⟨o', ho', hgrows⟩ := first.object ho
    obtain ⟨o'', ho'', hgrows'⟩ := second.object ho'
    exact ⟨o'', ho'', hgrows.trans hgrows'⟩
  context hc := by
    obtain ⟨c', hc', hgrows⟩ := first.context hc
    obtain ⟨c'', hc'', hgrows'⟩ := second.context hc'
    exact ⟨c'', hc'', hgrows'.parent.trans hgrows.parent,
      fun name hl => hgrows'.locals name (hgrows.locals name hl)⟩

theorem Grows.contexts_size_le (grows : h.Grows h') : h.contexts.size ≤ h'.contexts.size := by
  by_contra hless
  have hc : h.context? h'.contexts.size = some _ :=
    Array.getElem?_eq_getElem (Nat.lt_of_not_le hless)
  obtain ⟨c', hc', -⟩ := grows.context hc
  exact absurd (Array.getElem?_eq_some_iff.1 hc').1 (Nat.lt_irrefl _)

theorem Grows.size_le (grows : h.Grows h') : h.size ≤ h'.size := by
  by_contra hless
  obtain ⟨o, ho⟩ := object?_of_lt (Nat.lt_of_not_le hless)
  obtain ⟨o', ho', -⟩ := grows.object ho
  exact absurd (lt_size_of_object? ho') (Nat.lt_irrefl _)

/-- `Grows` where contexts are as they were. -/
theorem Grows.of_object (hcontexts : h'.contexts = h.contexts)
    (object : ∀ {id o}, h.object? id = some o → ∃ o', h'.object? id = some o' ∧ o.Grows o') :
    h.Grows h' where
  object := object
  context := by
    intro id c hc
    refine ⟨c, ?_, rfl, fun _ h => h⟩
    rw [context?, hcontexts]
    exact hc

theorem allocate_grows (h : Heap) (o : Object) : h.Grows (h.allocate o).2 := by
  refine .of_object rfl fun {id o'} ho => ⟨o', ?_, .refl o'⟩
  rw [object?_allocate, if_neg (Nat.ne_of_lt (lt_size_of_object? ho))]
  exact ho

theorem intern_grows (h : Heap) (key : String) (module : NodeId) (inner : Inner) :
    h.Grows (h.intern key module inner).2 := by
  unfold intern
  split
  · exact .refl h
  · have hnew := allocate_grows h { module, inner := some inner }
    exact ⟨hnew.object, hnew.context⟩

theorem updateObject_grows {id : ObjectId} {f : Object → Object}
    (hf : ∀ o, h.object? id = some o → o.Grows (f o)) : h.Grows (h.updateObject id f) := by
  refine .of_object rfl fun {id' o} ho => ?_
  rw [object?_updateObject]
  split
  · next heq =>
    subst heq
    exact ⟨f o, by rw [ho]; rfl, hf o ho⟩
  · exact ⟨o, ho, .refl o⟩

theorem newContext_grows (h : Heap) (parent : Link) : h.Grows (h.newContext parent).2 where
  object ho := ⟨_, ho, .refl _⟩
  context := by
    intro id c hc
    refine ⟨c, ?_, rfl, fun _ h => h⟩
    have hlt : id < h.contexts.size := (Array.getElem?_eq_some_iff.1 hc).1
    rw [context?_newContext, if_neg (Nat.ne_of_lt hlt)]
    exact hc

theorem declare_grows (h : Heap) (target : ContextId) (name : String) (value : ObjectId) :
    h.Grows (h.declare target name value) where
  object ho := ⟨_, ho, .refl _⟩
  context := by
    intro id c hc
    rw [context?_declare]
    split
    · rw [hc]
      exact ⟨_, rfl, rfl, fun _ hl => Bindings.isSome_get?_insert hl name value⟩
    · exact ⟨c, hc, rfl, fun _ h => h⟩

/-- Where `lists` is `<+:`, so that collections are only added to, every
`Change` leaves what was there. -/
theorem Change.grows (change : h.Change (· <+: ·) h') : h.Grows h' := by
  cases change with
  | allocate module elements parent answersSelf => exact allocate_grows h _
  | number value module => exact intern_grows ..
  | string value module => exact intern_grows ..
  | newContext parent => exact newContext_grows h parent
  | declare context name value => exact declare_grows h context name value
  | putField id name value =>
      exact updateObject_grows fun o _ => .of_inner rfl rfl rfl rfl rfl fun _ hf =>
        Bindings.isSome_get?_insert hf name value
  | @relist id old new held may =>
      refine updateObject_grows fun o ho => ?_
      rw [ho] at held
      have hinner : o.inner = some (.collection old) := held
      refine { id := rfl, module := rfl, parent := rfl, answersSelf := rfl, fields := fun _ h => h,
               bare := ?_, number := ?_, string := ?_, collection := ?_ }
      · exact fun h => nomatch hinner.symm.trans h
      · exact fun _ h => nomatch hinner.symm.trans h
      · exact fun _ h => nomatch hinner.symm.trans h
      · intro elements h
        cases hinner.symm.trans h
        exact ⟨new, rfl, may⟩

theorem Changes.grows (changes : h.Changes (· <+: ·) h') : h.Grows h' := by
  induction changes with
  | refl => exact .refl h
  | tail _ change ih => exact ih.trans change.grows

end Heap

end ObjectMachine
