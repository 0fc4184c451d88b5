/-
How a heap changes while a program runs.

`Heap.Edit h h'` lists the single changes that the machine ever makes to a
heap, each with what holds when it makes it: whatever it writes exists.
Nothing is taken away, so identities that exist go on existing
(`Edit.size_le`), and a heap in which every identity exists stays one
(`Edit.closed`). A property of heaps that is to hold in every state of a
run only has to be checked against these changes.
-/
import Mathlib
import ObjectMachine.Machine.Heap

namespace ObjectMachine

-- ============================================================ bindings

/-- The objects that names are bound to. -/
def Bindings.ids (bindings : Bindings) : List ObjectId := bindings.map Prod.snd

theorem Bindings.mem_ids_of_get? {bindings : Bindings} {name : String} {value : ObjectId}
    (h : bindings.get? name = some value) : value ∈ bindings.ids := by
  obtain ⟨l, r, rfl, -⟩ := List.lookup_eq_some_iff.1 h
  simp [ids]

theorem Bindings.mem_ids_insert {bindings : Bindings} {name : String} {value id : ObjectId}
    (h : id ∈ (bindings.insert name value).ids) : id = value ∨ id ∈ bindings.ids := by
  induction bindings with
  | nil => simpa [insert, ids] using h
  | cons entry rest ih =>
      obtain ⟨key, old⟩ := entry
      by_cases hk : key = name
      · simp only [insert, hk, if_true, ids, List.map_cons, List.mem_cons] at h ⊢
        exact h.imp_right .inr
      · simp only [insert, hk, if_false, ids, List.map_cons, List.mem_cons] at h ⊢
        rcases h with h | h
        · exact .inr (.inl h)
        · exact (ih h).imp_right .inr

theorem lookup_cons_eq_ite (key : String) (old : ObjectId) (rest : Bindings) (name : String) :
    List.lookup name ((key, old) :: rest)
      = if name = key then some old else List.lookup name rest := by
  by_cases h : name = key
  · simp [h]
  · rw [List.lookup_cons, beq_eq_false_iff_ne.2 h, if_neg h]

/-- `insert` binds a name anew, and leaves the others. -/
theorem Bindings.get?_insert (bindings : Bindings) (name other : String) (value : ObjectId) :
    (bindings.insert name value).get? other
      = if other = name then some value else bindings.get? other := by
  induction bindings with
  | nil => simp only [insert, get?, lookup_cons_eq_ite, List.lookup_nil]
  | cons entry rest ih =>
      obtain ⟨key, old⟩ := entry
      simp only [insert, get?, lookup_cons_eq_ite] at ih ⊢
      by_cases hk : key = name
      · subst hk
        by_cases h : other = key <;> simp [lookup_cons_eq_ite, h]
      · rw [if_neg hk, lookup_cons_eq_ite, ih]
        by_cases h : other = key
        · simp [h, hk]
        · simp [h]

-- ============================================================ closedness

/-- The identities inside an object. -/
def Object.ids (object : Object) : List ObjectId :=
  object.fields.ids ++ match object.inner with
    | some (.collection elements) => elements
    | _ => []

namespace Heap

/-- Whether a link leads to a context or an object that exists. -/
def Has (h : Heap) : Link → Prop
  | .context id => id < h.contexts.size
  | .object id => id < h.size

/-- A heap in which every identity that is held anywhere exists, among them
the objects that every heap starts with and the context of globals. -/
structure Closed (h : Heap) : Prop where
  reserved : ObjectId.void < h.size
  root : rootContext < h.contexts.size
  object : ∀ {id o}, h.object? id = some o →
    (∀ x ∈ o.ids, x < h.size) ∧ o.parent < h.contexts.size
  context : ∀ {id c}, h.context? id = some c →
    (∀ x ∈ c.locals.ids, x < h.size) ∧ ∀ link, c.parent = some link → h.Has link
  interned : ∀ entry ∈ h.interned, entry.2 < h.size

theorem lt_size_of_object? {h : Heap} {id : ObjectId} {o : Object} (ho : h.object? id = some o) :
    id < h.size :=
  (Array.getElem?_eq_some_iff.1 ho).1

theorem object?_of_lt {h : Heap} {id : ObjectId} (hi : id < h.size) :
    ∃ o, h.object? id = some o :=
  ⟨_, Array.getElem?_eq_getElem hi⟩

-- ============================================================== changes

/-- One change of a heap. It puts in only what exists. -/
inductive Edit (h : Heap) : Heap → Prop
  /-- A new object, without fields: a collection or nothing inside. -/
  | allocate {module : NodeId} {elements : Option (List ObjectId)} {parent : ContextId}
      {answersSelf : Bool} (known : ∀ x ∈ elements.getD [], x < h.size)
      (scope : parent < h.contexts.size) :
      Edit h (h.allocate
        { module, inner := elements.map .collection, parent, answersSelf }).2
  | number (value : Float) (module : NodeId) : Edit h (h.number value module).2
  | string (value : String) (module : NodeId) : Edit h (h.string value module).2
  | newContext {parent : Link} (known : h.Has parent) : Edit h (h.newContext parent).2
  | declare {context : ContextId} {name : String} {value : ObjectId}
      (known : value < h.size) : Edit h (h.declare context name value)
  | putField {id : ObjectId} {name : String} {value : ObjectId} (known : value < h.size) :
      Edit h (h.putField id name value)
  /-- One more element at the end of a collection. -/
  | extend {id element : ObjectId} {elements : List ObjectId}
      (held : (h.object? id).bind Object.inner = some (.collection elements))
      (known : element < h.size) :
      Edit h (h.updateObject id fun o =>
        { o with inner := some (.collection (elements ++ [element])) })

/-- Any number of changes. -/
def Reaches : Heap → Heap → Prop := Relation.ReflTransGen Edit

-- ======================================================= sizes of tables

@[simp] theorem size_allocate (h : Heap) (o : Object) : (h.allocate o).2.size = h.size + 1 := by
  simp [allocate, size]

@[simp] theorem contexts_allocate (h : Heap) (o : Object) :
    (h.allocate o).2.contexts = h.contexts := rfl

@[simp] theorem size_updateObject (h : Heap) (id : ObjectId) (f : Object → Object) :
    (h.updateObject id f).size = h.size := by
  simp [updateObject, size]

@[simp] theorem contexts_updateObject (h : Heap) (id : ObjectId) (f : Object → Object) :
    (h.updateObject id f).contexts = h.contexts := rfl

@[simp] theorem size_declare (h : Heap) (id : ContextId) (name : String) (value : ObjectId) :
    (h.declare id name value).size = h.size := rfl

@[simp] theorem contexts_size_declare (h : Heap) (id : ContextId) (name : String)
    (value : ObjectId) : (h.declare id name value).contexts.size = h.contexts.size := by
  simp [declare, updateContext]

@[simp] theorem contexts_intern (h : Heap) (key : String) (module : NodeId) (inner : Inner) :
    (h.intern key module inner).2.contexts = h.contexts := by
  unfold intern
  split <;> rfl

theorem size_le_intern (h : Heap) (key : String) (module : NodeId) (inner : Inner) :
    h.size ≤ (h.intern key module inner).2.size := by
  unfold intern
  split
  · exact le_rfl
  · simp [allocate, size]

/-- An `Edit` takes nothing away. -/
theorem Edit.size_le {h h' : Heap} (edit : Edit h h') :
    h.size ≤ h'.size ∧ h.contexts.size ≤ h'.contexts.size := by
  cases edit with
  | allocate known scope => simp
  | number value module => exact ⟨size_le_intern .., by simp [Heap.number]⟩
  | string value module => exact ⟨size_le_intern .., by simp [Heap.string]⟩
  | newContext known => exact ⟨le_rfl, by simp [Heap.newContext]⟩
  | declare known => simp
  | putField known => simp [Heap.putField]
  | extend held known => simp

theorem Reaches.size_le {h h' : Heap} (edits : h.Reaches h') :
    h.size ≤ h'.size ∧ h.contexts.size ≤ h'.contexts.size := by
  induction edits with
  | refl => exact ⟨le_rfl, le_rfl⟩
  | tail _ edit ih => exact ⟨ih.1.trans edit.size_le.1, ih.2.trans edit.size_le.2⟩

theorem Has.mono {h h' : Heap} (hs : h.size ≤ h'.size ∧ h.contexts.size ≤ h'.contexts.size)
    {link : Link} (hl : h.Has link) : h'.Has link := by
  cases link with
  | context id => exact lt_of_lt_of_le hl hs.2
  | object id => exact lt_of_lt_of_le hl hs.1

-- =================================================== tables after changes

theorem object?_allocate (h : Heap) (o : Object) (id : ObjectId) :
    (h.allocate o).2.object? id
      = if id = h.size then some { o with id := h.size } else h.object? id := by
  unfold allocate object? size
  rw [Array.getElem?_push]

theorem object?_updateObject (h : Heap) (target : ObjectId) (f : Object → Object)
    (id : ObjectId) :
    (h.updateObject target f).object? id
      = if target = id then (h.object? id).map f else h.object? id := by
  simp only [updateObject, object?, Array.getElem?_modify]

theorem context?_newContext (h : Heap) (parent : Link) (id : ContextId) :
    (h.newContext parent).2.context? id
      = if id = h.contexts.size then some { parent := some parent } else h.context? id := by
  simp only [newContext, context?, Array.getElem?_push]

theorem object?_newContext (h : Heap) (parent : Link) (id : ObjectId) :
    (h.newContext parent).2.object? id = h.object? id := rfl

theorem context?_declare (h : Heap) (target : ContextId) (name : String) (value : ObjectId)
    (id : ContextId) :
    (h.declare target name value).context? id
      = if target = id then
          (h.context? id).map fun c => { c with locals := c.locals.insert name value }
        else h.context? id := by
  simp only [declare, updateContext, context?, Array.getElem?_modify]

-- ================================================== closedness is kept

/-- `allocate` of an object that holds only what exists. -/
theorem Closed.allocate {h : Heap} (hc : h.Closed) {o : Object} (hids : ∀ x ∈ o.ids, x < h.size)
    (hp : o.parent < h.contexts.size) : (h.allocate o).2.Closed where
  reserved := by
    rw [size_allocate]
    exact Nat.lt_succ_of_lt hc.reserved
  root := hc.root
  object := by
    intro id o' ho
    rw [size_allocate]
    rw [object?_allocate] at ho
    split at ho
    · cases ho
      exact ⟨fun x hx => Nat.lt_succ_of_lt (hids x hx), hp⟩
    · exact ⟨fun x hx => Nat.lt_succ_of_lt ((hc.object ho).1 x hx), (hc.object ho).2⟩
  context := by
    intro id c hctx
    rw [size_allocate]
    refine ⟨fun x hx => Nat.lt_succ_of_lt ((hc.context hctx).1 x hx), fun link hl => ?_⟩
    exact ((hc.context hctx).2 link hl).mono (h := h) (by simp)
  interned := by
    intro entry hentry
    rw [size_allocate]
    exact Nat.lt_succ_of_lt (hc.interned entry hentry)

/-- `updateObject` into an object that holds only what exists. -/
theorem Closed.updateObject {h : Heap} (hc : h.Closed) {id : ObjectId} {f : Object → Object}
    (hf : ∀ o, h.object? id = some o →
      (∀ x ∈ (f o).ids, x < h.size) ∧ (f o).parent < h.contexts.size) :
    (h.updateObject id f).Closed where
  reserved := by
    rw [size_updateObject]
    exact hc.reserved
  root := hc.root
  object := by
    intro id' o' ho
    rw [size_updateObject, contexts_updateObject]
    rw [object?_updateObject] at ho
    split at ho
    · next heq =>
      subst heq
      obtain ⟨o, hold, rfl⟩ := Option.map_eq_some_iff.1 ho
      exact hf o hold
    · exact hc.object ho
  context := by
    intro id' c hctx
    rw [size_updateObject]
    refine ⟨(hc.context hctx).1, fun link hl => ?_⟩
    exact ((hc.context hctx).2 link hl).mono (h := h) (by simp)
  interned := by
    intro entry hentry
    rw [size_updateObject]
    exact hc.interned entry hentry

theorem Closed.putField {h : Heap} (hc : h.Closed) {id value : ObjectId} {name : String}
    (hv : value < h.size) : (h.putField id name value).Closed := by
  refine hc.updateObject fun o ho => ⟨fun x hx => ?_, (hc.object ho).2⟩
  rcases List.mem_append.1 hx with hx | hx
  · rcases Bindings.mem_ids_insert hx with rfl | hx
    · exact hv
    · exact (hc.object ho).1 x (List.mem_append_left _ hx)
  · exact (hc.object ho).1 x (List.mem_append_right _ hx)

theorem Closed.declare {h : Heap} (hc : h.Closed) {context : ContextId} {name : String}
    {value : ObjectId} (hv : value < h.size) : (h.declare context name value).Closed where
  reserved := hc.reserved
  root := by
    rw [contexts_size_declare]
    exact hc.root
  object := by
    intro id o ho
    rw [contexts_size_declare]
    exact hc.object ho
  context := by
    intro id c hctx
    have hmono : ∀ link, h.Has link → (h.declare context name value).Has link :=
      fun link hl => hl.mono (by simp)
    rw [context?_declare] at hctx
    split at hctx
    · obtain ⟨c, hold, rfl⟩ := Option.map_eq_some_iff.1 hctx
      refine ⟨fun x hx => ?_, fun link hl => hmono link ((hc.context hold).2 link hl)⟩
      rcases Bindings.mem_ids_insert hx with rfl | hx
      · exact hv
      · exact (hc.context hold).1 x hx
    · exact ⟨(hc.context hctx).1, fun link hl => hmono link ((hc.context hctx).2 link hl)⟩
  interned := hc.interned

theorem Closed.newContext {h : Heap} (hc : h.Closed) {parent : Link} (hp : h.Has parent) :
    (h.newContext parent).2.Closed where
  reserved := hc.reserved
  root := by
    simp only [Heap.newContext, Array.size_push]
    exact Nat.lt_succ_of_lt hc.root
  object := by
    intro id o ho
    simp only [Heap.newContext, Array.size_push]
    exact ⟨(hc.object ho).1, Nat.lt_succ_of_lt (hc.object ho).2⟩
  context := by
    intro id c hctx
    have hgrows : h.size ≤ (h.newContext parent).2.size
        ∧ h.contexts.size ≤ (h.newContext parent).2.contexts.size :=
      ⟨le_rfl, by simp [Heap.newContext]⟩
    have hmono : ∀ link, h.Has link → (h.newContext parent).2.Has link :=
      fun link hl => hl.mono hgrows
    rw [context?_newContext] at hctx
    split at hctx
    · cases hctx
      refine ⟨fun x hx => (nomatch hx), fun link hl => ?_⟩
      cases hl
      exact hmono parent hp
    · exact ⟨(hc.context hctx).1, fun link hl => hmono link ((hc.context hctx).2 link hl)⟩
  interned := hc.interned

/-- `intern` makes an object that holds nothing. -/
theorem Closed.intern {h : Heap} (hc : h.Closed) {key : String} {module : NodeId} {inner : Inner}
    (hi : ∀ elements, inner ≠ .collection elements) : (h.intern key module inner).2.Closed := by
  unfold Heap.intern
  split
  · exact hc
  · have hnew : (h.allocate { module, inner := some inner }).2.Closed := by
      refine hc.allocate (fun x hx => ?_) hc.root
      cases inner with
      | collection elements => exact absurd rfl (hi elements)
      | number value => cases hx
      | string value => cases hx
    exact {
      reserved := hnew.reserved, root := hnew.root, object := hnew.object
      context := fun hctx => ⟨(hnew.context hctx).1, fun link hl =>
        ((hnew.context hctx).2 link hl).mono ⟨le_rfl, le_rfl⟩⟩
      interned := fun entry hentry => by
        rcases List.mem_cons.1 hentry with rfl | hentry
        · exact Nat.lt_of_lt_of_eq (Nat.lt_succ_self h.size) (size_allocate h _).symm
        · exact hnew.interned entry hentry }

/-- An `Edit` keeps the heap `Closed`. -/
theorem Edit.closed {h h' : Heap} (edit : Edit h h') (hc : h.Closed) : h'.Closed := by
  cases edit with
  | @allocate module elements parent answersSelf known scope =>
      refine hc.allocate (fun x hx => ?_) scope
      cases elements with
      | none => cases hx
      | some elements => exact known x hx
  | number value module => exact hc.intern fun elements h => nomatch h
  | string value module => exact hc.intern fun elements h => nomatch h
  | newContext known => exact hc.newContext known
  | declare known => exact hc.declare known
  | putField known => exact hc.putField known
  | @extend id element elements held known =>
      refine hc.updateObject fun o ho => ⟨fun x hx => ?_, (hc.object ho).2⟩
      rw [ho] at held
      rcases List.mem_append.1 hx with hx | hx
      · exact (hc.object ho).1 x (List.mem_append_left _ hx)
      · rcases List.mem_append.1 hx with hx | hx
        · refine (hc.object ho).1 x (List.mem_append_right _ ?_)
          rw [show o.inner = some (.collection elements) from held]
          exact hx
        · rw [List.mem_singleton.1 hx]
          exact known

theorem Reaches.closed {h h' : Heap} (edits : h.Reaches h') (hc : h.Closed) : h'.Closed := by
  induction edits with
  | refl => exact hc
  | tail _ edit ih => exact edit.closed ih

theorem Reaches.lt {h h' : Heap} (edits : h.Reaches h') {id : ObjectId} (hi : id < h.size) :
    id < h'.size :=
  hi.trans_le edits.size_le.1

theorem Edit.reaches {h h' : Heap} (edit : Edit h h') : h.Reaches h' := .single edit

/-- What `intern` answers exists. -/
theorem Closed.intern_lt {h : Heap} (hc : h.Closed) (key : String) (module : NodeId)
    (inner : Inner) :
    (h.intern key module inner).1 < (h.intern key module inner).2.size := by
  unfold Heap.intern
  split
  · next id hid =>
    obtain ⟨l, r, hl, -⟩ := List.lookup_eq_some_iff.1 hid
    exact hc.interned (key, id) (by simp [hl])
  · exact Nat.lt_of_lt_of_eq (Nat.lt_succ_self h.size) (size_allocate h _).symm

-- ============================================================== lookups

/-- What `lookupFrom` finds in a `Closed` heap exists. -/
theorem Closed.lookupFrom_lt {h : Heap} (hc : h.Closed) {name : String} {value : ObjectId}
    {fuel : Nat} {link : Link} (hl : h.lookupFrom name fuel link = some value) :
    value < h.size := by
  induction fuel generalizing link with
  | zero => cases hl
  | succ fuel ih =>
      cases link with
      | context id =>
          rw [lookupFrom] at hl
          split at hl
          · cases hl
          · next c hctx =>
            split at hl
            · next v hv =>
              cases hl
              exact (hc.context hctx).1 _ (Bindings.mem_ids_of_get? hv)
            · obtain ⟨parent, -, hl⟩ := Option.bind_eq_some_iff.1 hl
              exact ih hl
      | object id =>
          rw [lookupFrom] at hl
          split at hl
          · cases hl
          · next o ho =>
            split at hl
            · cases hl
              exact lt_size_of_object? ho
            · split at hl
              · next v hv =>
                cases hl
                exact (hc.object ho).1 _
                  (List.mem_append_left _ (Bindings.mem_ids_of_get? hv))
              · exact ih hl

/-- `assign` changes one slot, if any, and that is an `Edit`. -/
theorem assign_reaches {h : Heap} {id : ContextId} {name : String} {value : ObjectId}
    (hv : value < h.size) : h.Reaches (h.assign id name value).2 := by
  unfold assign
  split
  · exact (Edit.declare hv).reaches
  · exact (Edit.putField hv).reaches
  · exact .refl

theorem contexts_size_assign (h : Heap) (id : ContextId) (name : String) (value : ObjectId) :
    (h.assign id name value).2.contexts.size = h.contexts.size := by
  unfold assign
  split
  · exact contexts_size_declare ..
  · rfl
  · rfl

-- =============================================================== locals

/-- What a name is bound to in a context itself. -/
def local? (h : Heap) (id : ContextId) (name : String) : Option ObjectId :=
  (h.context? id).bind fun c => c.locals.get? name

theorem local?_declare_self {h : Heap} {id : ContextId} (hid : id < h.contexts.size)
    (name : String) (value : ObjectId) :
    (h.declare id name value).local? id name = some value := by
  have hctx : h.context? id = some h.contexts[id] := Array.getElem?_eq_getElem hid
  simp only [local?, context?_declare, if_true, hctx, Option.map_some, Option.bind_some,
    Bindings.get?_insert]

/-- `declare` leaves other names, and other contexts, as they are. -/
theorem local?_declare_of_ne {h : Heap} {target id : ContextId} {name other : String}
    (hne : target ≠ id ∨ other ≠ name) (value : ObjectId) :
    (h.declare target name value).local? id other = h.local? id other := by
  simp only [local?, context?_declare]
  by_cases ht : target = id
  · have hname : other ≠ name := hne.resolve_left (not_not_intro ht)
    cases hctx : h.context? id with
    | none => simp [ht]
    | some c => simp [ht, Bindings.get?_insert, hname]
  · rw [if_neg ht]

theorem local?_assign_of_ne {h : Heap} {start id : ContextId} {name other : String}
    (hne : other ≠ name) (value : ObjectId) :
    (h.assign start name value).2.local? id other = h.local? id other := by
  unfold assign
  split
  · exact local?_declare_of_ne (.inr hne) value
  · rfl
  · rfl

/-- `lookup` tries the context itself first. -/
theorem lookup_of_local? {h : Heap} {id : ContextId} {name : String} {value : ObjectId}
    (hl : h.local? id name = some value) : h.lookup id name = some value := by
  obtain ⟨c, hctx, hv⟩ := Option.bind_eq_some_iff.1 hl
  simp only [lookup, chainBound, lookupFrom, hctx, hv]

end Heap

end ObjectMachine
