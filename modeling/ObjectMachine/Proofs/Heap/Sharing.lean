/-
Numbers and strings are shared.

A heap is canonical (`Heap.Canonical`) if its table of shared objects and
the numbers and strings among its objects say the same: every entry of the
table holds an object with the value of its key, every number and string is
in the table, and no object is there twice. Of all the changes of a heap
(Heap/Growth.lean) only one has to do with sharing, and it is always made in
the same way (`Change.sharing`). So a canonical heap stays one, and what is
in the table stays there.
-/
import Mathlib
import ObjectMachine.Proofs.Heap.Growth

namespace ObjectMachine

/-- Whether there is one object only for a value. -/
def Inner.isShared : Inner → Bool
  | .number _ => true
  | .string _ => true
  | .collection _ => false

namespace Heap

/-- The number or the string inside an object. -/
def shared? (h : Heap) (id : ObjectId) : Option Inner :=
  ((h.object? id).bind Object.inner).filter Inner.isShared

/-- The keys of a value. The number that is kept of those that round to it
is the canonical one. -/
inductive Keyed : String → Inner → Prop
  | number (value : Float) : Keyed (Number.key value) (.number (Number.canonical value))
  | string (value : String) : Keyed (stringKey value) (.string value)

theorem Keyed.isShared {key : String} {inner : Inner} (h : Keyed key inner) :
    inner.isShared = true := by
  cases h <;> rfl

/-- The key of a string is not that of a number. -/
theorem stringKey_ne_key (text : String) (value : Float) : stringKey text ≠ Number.key value := by
  intro h
  have hlist := congrArg String.toList h
  simp only [stringKey, Number.key, String.toList_append] at hlist
  have hhead := congrArg List.head? hlist
  simp at hhead

/-- The table `interned` and the objects themselves say the same: every number
and every string is under its key, and under no other. -/
structure Canonical (h : Heap) : Prop where
  injective : ∀ {key key' id}, h.interned.lookup key = some id →
    h.interned.lookup key' = some id → key = key'
  entry : ∀ {key id}, h.interned.lookup key = some id →
    ∃ inner, h.shared? id = some inner ∧ Keyed key inner
  shared : ∀ {id inner}, h.shared? id = some inner →
    ∃ key, Keyed key inner ∧ h.interned.lookup key = some id

variable {lists : List ObjectId → List ObjectId → Prop} {h h' : Heap}

-- ========================================================== the changes

theorem shared?_eq_some {id : ObjectId} {o : Object} {inner : Inner} (ho : h.object? id = some o)
    (hinner : o.inner = some inner) (hs : inner.isShared = true) : h.shared? id = some inner := by
  simp [shared?, ho, hinner, Option.filter, hs]

theorem shared?_size (h : Heap) : h.shared? h.size = none := by
  simp [shared?, object?, size]

theorem shared?_allocate (h : Heap) (o : Object) (id : ObjectId) :
    (h.allocate o).2.shared? id
      = if id = h.size then o.inner.filter Inner.isShared else h.shared? id := by
  unfold shared?
  rw [object?_allocate]
  split <;> rfl

/-- `updateObject` to an object with the same number or string. -/
theorem shared?_updateObject {target : ObjectId} {f : Object → Object}
    (hf : ∀ o, h.object? target = some o →
      (f o).inner.filter Inner.isShared = o.inner.filter Inner.isShared) (id : ObjectId) :
    (h.updateObject target f).shared? id = h.shared? id := by
  unfold shared?
  rw [object?_updateObject]
  split
  · next heq =>
    subst heq
    cases ho : h.object? target with
    | none => rfl
    | some o => exact hf o ho
  · rfl

/-- A `Change` has nothing to do with sharing, or it is `intern` with a key. -/
theorem Change.sharing (change : h.Change lists h') :
    ((∀ id, h'.shared? id = h.shared? id) ∧ h'.interned = h.interned)
    ∨ ∃ key module inner, Keyed key inner ∧ h' = (h.intern key module inner).2 := by
  cases change with
  | allocate module elements parent answersSelf =>
      refine .inl ⟨fun id => ?_, rfl⟩
      rw [shared?_allocate]
      split
      · next heq =>
        rw [heq, shared?_size]
        cases elements <;> rfl
      · rfl
  | number value module => exact .inr ⟨_, module, _, .number value, rfl⟩
  | string value module => exact .inr ⟨_, module, _, .string value, rfl⟩
  | newContext parent => exact .inl ⟨fun _ => rfl, rfl⟩
  | declare context name value => exact .inl ⟨fun _ => rfl, rfl⟩
  | putField id name value => exact .inl ⟨shared?_updateObject fun o _ => rfl, rfl⟩
  | @relist id old new held may =>
      refine .inl ⟨shared?_updateObject fun o ho => ?_, rfl⟩
      rw [ho] at held
      rw [show o.inner = some (.collection old) from held]
      rfl

section

variable {key : String} {inner : Inner}

theorem intern_of_some {id : ObjectId} (hl : h.interned.lookup key = some id) (module : NodeId)
    (inner : Inner) : h.intern key module inner = (id, h) := by
  rw [intern, hl]

theorem intern_of_none (hl : h.interned.lookup key = none) (module : NodeId) (inner : Inner) :
    h.intern key module inner = (h.size, { (h.allocate { module, inner := some inner }).2 with
      interned := (key, h.size) :: h.interned }) := by
  rw [intern, hl]
  rfl

/-- What `intern` gives out for a key is in the table. -/
theorem lookup_intern (h : Heap) (key : String) (module : NodeId) (inner : Inner) :
    (h.intern key module inner).2.interned.lookup key = some (h.intern key module inner).1 := by
  cases hl : h.interned.lookup key with
  | some id => rw [intern_of_some hl, hl]
  | none => rw [intern_of_none hl, lookup_cons_eq_ite, if_pos rfl]

theorem lookup_intern_of_some {other : String} {id : ObjectId}
    (hl : h.interned.lookup other = some id) (key : String) (module : NodeId) (inner : Inner) :
    (h.intern key module inner).2.interned.lookup other = some id := by
  cases hk : h.interned.lookup key with
  | some id' => rwa [intern_of_some hk]
  | none =>
      rw [intern_of_none hk, lookup_cons_eq_ite, if_neg]
      · exact hl
      · rintro rfl
        cases hl.symm.trans hk

theorem shared?_intern_of_some {id : ObjectId} {held : Inner} (hs : h.shared? id = some held)
    (key : String) (module : NodeId) (inner : Inner) :
    (h.intern key module inner).2.shared? id = some held := by
  cases hk : h.interned.lookup key with
  | some id' => rwa [intern_of_some hk]
  | none =>
      rw [intern_of_none hk]
      have hne : id ≠ h.size := by
        rintro rfl
        cases (shared?_size h).symm.trans hs
      exact (shared?_allocate h _ id).trans ((if_neg hne).trans hs)

/-- `intern` with a key keeps the heap `Canonical`. -/
theorem Canonical.intern (hc : h.Canonical) (hk : Keyed key inner) (module : NodeId) :
    (h.intern key module inner).2.Canonical := by
  cases hl : h.interned.lookup key with
  | some id => rwa [intern_of_some hl]
  | none =>
      rw [intern_of_none hl]
      -- The new entry is the only one for the new object.
      have hfresh : ∀ {other}, h.interned.lookup other ≠ some h.size := fun {other} hother => by
        obtain ⟨held, hheld, -⟩ := hc.entry hother
        cases (shared?_size h).symm.trans hheld
      have hshared (id : ObjectId) :
          ({ (h.allocate { module, inner := some inner }).2 with
              interned := (key, h.size) :: h.interned } : Heap).shared? id
            = if id = h.size then some inner else h.shared? id := by
        refine (shared?_allocate h _ id).trans ?_
        simp [Option.filter, hk.isShared]
      refine ⟨?_, ?_, ?_⟩
      · intro key' key'' id h' h''
        rw [lookup_cons_eq_ite] at h' h''
        split at h' <;> split at h''
        · next heq heq' => exact heq.trans heq'.symm
        · cases h'
          exact absurd h'' hfresh
        · cases h''
          exact absurd h' hfresh
        · exact hc.injective h' h''
      · intro key' id h'
        rw [hshared]
        rw [lookup_cons_eq_ite] at h'
        split at h'
        · next heq =>
          cases h'
          subst heq
          exact ⟨inner, if_pos rfl, hk⟩
        · have hne : id ≠ h.size := fun heq => hfresh (heq ▸ h')
          rw [if_neg hne]
          exact hc.entry h'
      · intro id held hheld
        rw [hshared] at hheld
        split at hheld
        · next heq =>
          cases hheld
          subst heq
          exact ⟨key, hk, by rw [lookup_cons_eq_ite, if_pos rfl]⟩
        · obtain ⟨key', hk', hl'⟩ := hc.shared hheld
          refine ⟨key', hk', ?_⟩
          rw [lookup_cons_eq_ite, if_neg]
          · exact hl'
          · rintro rfl
            cases hl'.symm.trans hl

end

-- ===================================================== canonical for ever

/-- `Canonical` depends on `shared?` and `interned` only. -/
theorem Canonical.of_sharing (hc : h.Canonical) (hs : ∀ id, h'.shared? id = h.shared? id)
    (hi : h'.interned = h.interned) : h'.Canonical where
  injective := by
    rw [hi]
    exact hc.injective
  entry := by
    intro key id hl
    rw [hi] at hl
    rw [hs]
    exact hc.entry hl
  shared := by
    intro id inner hid
    rw [hs] at hid
    rw [hi]
    exact hc.shared hid

theorem Change.canonical (change : h.Change lists h') (hc : h.Canonical) : h'.Canonical := by
  rcases change.sharing with ⟨hs, hi⟩ | ⟨key, module, inner, hk, rfl⟩
  · exact hc.of_sharing hs hi
  · exact hc.intern hk module

theorem Changes.canonical (changes : h.Changes lists h') (hc : h.Canonical) : h'.Canonical := by
  induction changes with
  | refl => exact hc
  | tail _ change ih => exact change.canonical ih

/-- `Changes` leave in the table what is there. -/
theorem Changes.lookup_of_some (changes : h.Changes lists h') {key : String} {id : ObjectId}
    (hl : h.interned.lookup key = some id) : h'.interned.lookup key = some id := by
  induction changes with
  | refl => exact hl
  | tail _ change ih =>
      rcases change.sharing with ⟨-, hi⟩ | ⟨key', module, inner, -, rfl⟩
      · rw [hi]
        exact ih
      · exact lookup_intern_of_some ih key' module inner

/-- `Changes` leave a number or a string what it is. -/
theorem Changes.shared?_of_some (changes : h.Changes lists h') {id : ObjectId} {inner : Inner}
    (hs : h.shared? id = some inner) : h'.shared? id = some inner := by
  induction changes with
  | refl => exact hs
  | tail _ change ih =>
      rcases change.sharing with ⟨hsame, -⟩ | ⟨key, module, inner', -, rfl⟩
      · rw [hsame]
        exact ih
      · exact shared?_intern_of_some ih key module inner'

theorem initial_canonical (nullModule booleanModule voidModule : NodeId) :
    (initial nullModule booleanModule voidModule).Canonical where
  injective hl := nomatch hl
  entry hl := nomatch hl
  shared := by
    intro id inner hs
    obtain ⟨o, ho, hinner⟩ := Option.bind_eq_some_iff.1 (Option.filter_eq_some_iff.1 hs).1
    have hmem := Array.mem_of_getElem? ho
    simp only [initial, List.mem_toArray, List.mem_cons, List.not_mem_nil, or_false] at hmem
    rcases hmem with rfl | rfl | rfl | rfl <;> cases hinner

-- ============================================================ identities

/-- In a `Canonical` heap two strings are the same object if they are the same
text. -/
theorem Canonical.string_eq_iff (hc : h.Canonical) {id id' : ObjectId} {text text' : String}
    (hs : h.shared? id = some (.string text)) (hs' : h.shared? id' = some (.string text')) :
    id = id' ↔ text = text' := by
  constructor
  · rintro rfl
    cases hs.symm.trans hs'
    rfl
  · rintro rfl
    obtain ⟨key, hk, hl⟩ := hc.shared hs
    obtain ⟨key', hk', hl'⟩ := hc.shared hs'
    cases hk
    cases hk'
    exact Option.some.inj (hl.symm.trans hl')

/-- In a `Canonical` heap two numbers that are made one after the other,
whatever has happened in between, are the same object if they have the same
key. -/
theorem Canonical.number_eq_iff (hc : h.Canonical) {a b : Float} {module module' : NodeId}
    (changes : (h.number a module).2.Changes lists h') :
    (h.number a module).1 = (h'.number b module').1 ↔ Number.key a = Number.key b := by
  have hfirst := changes.lookup_of_some (lookup_intern h (Number.key a) module _)
  constructor
  · intro heq
    have hcanonical : (h'.number b module').2.Canonical :=
      (changes.canonical (hc.intern (.number a) module)).intern (.number b) module'
    have hlater := lookup_intern_of_some hfirst (Number.key b) module'
      (.number (Number.canonical b))
    have hsecond := lookup_intern h' (Number.key b) module' (.number (Number.canonical b))
    refine hcanonical.injective hlater ?_
    exact hsecond.trans (congrArg some heq.symm)
  · intro hkey
    have hsecond : h'.interned.lookup (Number.key b) = some (h.number a module).1 := by
      rw [← hkey]
      exact hfirst
    rw [Heap.number.eq_1 h', intern_of_some hsecond]

end Heap

end ObjectMachine
