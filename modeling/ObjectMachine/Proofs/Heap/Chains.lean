/-
Chains of links end.

A context leads on to what it hangs from, an object to the context it hangs
from. Both were there before, so links can be numbered in such a way that
the numbers fall along every chain (`Heap.Ranked`). No chain is longer than
there are contexts and objects, and a lookup is never out of links before it
is at the end of its chain: what is seen from a context that does not bind a
name is what is seen from the next link (`lookupFrom_context`,
`lookupFrom_object`).
-/
import Mathlib
import ObjectMachine.Proofs.Heap.Edits

namespace ObjectMachine

theorem Link.context_ne_object (context : ContextId) (id : ObjectId) :
    Link.context context ≠ .object id := nofun

/-- Ranks for a heap in which no context hangs from anything. -/
def Link.initialRank : Link → Nat
  | .context _ => 0
  | .object _ => 1

namespace Heap

/-- Numbers that fall along every chain of parents. -/
structure RankedBy (h : Heap) (rank : Link → Nat) : Prop where
  context : ∀ {id c link}, h.context? id = some c → c.parent = some link →
    rank link < rank (.context id)
  object : ∀ {id o}, h.object? id = some o → rank (.context o.parent) < rank (.object id)
  bound : ∀ {link}, h.Has link → rank link < h.contexts.size + h.size

/-- A heap whose chains end: there are ranks for it. -/
def Ranked (h : Heap) : Prop := ∃ rank, h.RankedBy rank

/-- A heap in which nothing hangs from what does not exist. -/
structure LinksKnown (h : Heap) : Prop where
  root : rootContext < h.contexts.size
  context : ∀ {id c link}, h.context? id = some c → c.parent = some link → h.Has link
  object : ∀ {id o}, h.object? id = some o → h.Has (.context o.parent)

variable {h h' : Heap}

theorem Closed.linksKnown (hc : h.Closed) : h.LinksKnown :=
  ⟨hc.root, fun hctx hparent => (hc.context hctx).2 _ hparent, fun ho => (hc.object ho).2⟩

-- ====================================================== the same parents

/-- Two heaps with the same contexts and objects, none of which hangs from
somewhere else in the second. -/
structure SameParents (h h' : Heap) : Prop where
  context : ∀ {id c'}, h'.context? id = some c' →
    ∃ c, h.context? id = some c ∧ c'.parent = c.parent
  object : ∀ {id o'}, h'.object? id = some o' →
    ∃ o, h.object? id = some o ∧ o'.parent = o.parent
  size : h'.size = h.size
  contexts : h'.contexts.size = h.contexts.size

theorem updateObject_sameParents (h : Heap) (id : ObjectId) {f : Object → Object}
    (hf : ∀ o, (f o).parent = o.parent) : h.SameParents (h.updateObject id f) := by
  refine ⟨fun {_ c} hc => ⟨c, hc, rfl⟩, fun {id' o'} ho' => ?_, size_updateObject .., rfl⟩
  rw [object?_updateObject] at ho'
  split at ho'
  · obtain ⟨o, ho, rfl⟩ := Option.map_eq_some_iff.1 ho'
    exact ⟨o, ho, hf o⟩
  · exact ⟨o', ho', rfl⟩

theorem declare_sameParents (h : Heap) (target : ContextId) (name : String) (value : ObjectId) :
    h.SameParents (h.declare target name value) := by
  refine ⟨fun {id c'} hc' => ?_, fun {_ o} ho => ⟨o, ho, rfl⟩, rfl, contexts_size_declare ..⟩
  rw [context?_declare] at hc'
  split at hc'
  · obtain ⟨c, hc, rfl⟩ := Option.map_eq_some_iff.1 hc'
    exact ⟨c, hc, rfl⟩
  · exact ⟨c', hc', rfl⟩

-- =========================================================== ranks are kept

theorem Ranked.of_parents (hr : h.Ranked) (same : h.SameParents h') : h'.Ranked := by
  obtain ⟨rank, hrank⟩ := hr
  refine ⟨rank, fun hc' hparent => ?_, fun ho' => ?_, fun {link} hl => ?_⟩
  · obtain ⟨c, hc, heq⟩ := same.context hc'
    exact hrank.context hc (heq ▸ hparent)
  · obtain ⟨o, ho, heq⟩ := same.object ho'
    rw [heq]
    exact hrank.object ho
  · rw [same.size, same.contexts]
    exact hrank.bound (hl.mono ⟨same.size.le, same.contexts.le⟩)

/-- `allocate` puts a new object before the links that were there. -/
theorem Ranked.allocate (hr : h.Ranked) (ht : h.LinksKnown) {o : Object}
    (hp : o.parent < h.contexts.size) : (h.allocate o).2.Ranked := by
  obtain ⟨rank, hrank⟩ := hr
  have hne {link : Link} (hl : h.Has link) : link ≠ .object h.size := by
    rintro rfl
    exact Nat.lt_irrefl _ hl
  refine ⟨Function.update rank (.object h.size) (h.contexts.size + h.size), ?_, ?_, ?_⟩
  · intro id c link hctx hparent
    rw [Function.update_of_ne (hne (ht.context hctx hparent)),
      Function.update_of_ne (Link.context_ne_object _ _)]
    exact hrank.context hctx hparent
  · intro id o' ho'
    rw [Function.update_of_ne (Link.context_ne_object _ _)]
    rw [object?_allocate] at ho'
    split at ho'
    · next heq =>
      cases ho'
      rw [heq, Function.update_self]
      have hparent : h.Has (.context o.parent) := hp
      exact hrank.bound hparent
    · have hid : h.Has (.object id) := lt_size_of_object? ho'
      rw [Function.update_of_ne (hne hid)]
      exact hrank.object ho'
  · intro link hl
    rw [size_allocate, contexts_allocate, ← Nat.add_assoc]
    by_cases heq : link = .object h.size
    · rw [heq, Function.update_self]
      exact Nat.lt_succ_self _
    · rw [Function.update_of_ne heq]
      refine Nat.lt_succ_of_lt (hrank.bound ?_)
      cases link with
      | context id => exact hl
      | object id =>
          have hlt : id < h.size + 1 := (size_allocate h o) ▸ hl
          have hid : id ≠ h.size := fun hid => heq (congrArg Link.object hid)
          exact Nat.lt_of_le_of_ne (Nat.le_of_lt_succ hlt) hid

theorem Ranked.newContext (hr : h.Ranked) (ht : h.LinksKnown) {parent : Link} (hp : h.Has parent) :
    (h.newContext parent).2.Ranked := by
  obtain ⟨rank, hrank⟩ := hr
  have hne {link : Link} (hl : h.Has link) : link ≠ .context h.contexts.size := by
    rintro rfl
    exact Nat.lt_irrefl _ hl
  have hcontexts : (h.newContext parent).2.contexts.size = h.contexts.size + 1 := by
    simp [Heap.newContext]
  refine ⟨Function.update rank (.context h.contexts.size) (h.contexts.size + h.size), ?_, ?_, ?_⟩
  · intro id c link hctx hparent
    rw [context?_newContext] at hctx
    split at hctx
    · next heq =>
      cases hctx
      cases hparent
      rw [heq, Function.update_self, Function.update_of_ne (hne hp)]
      exact hrank.bound hp
    · have hid : h.Has (.context id) := (Array.getElem?_eq_some_iff.1 hctx).1
      rw [Function.update_of_ne (hne (ht.context hctx hparent)),
        Function.update_of_ne (hne hid)]
      exact hrank.context hctx hparent
  · intro id o ho
    rw [Function.update_of_ne (hne (ht.object ho)),
      Function.update_of_ne (Link.context_ne_object _ _).symm]
    exact hrank.object ho
  · intro link hl
    rw [hcontexts, Nat.add_right_comm]
    by_cases heq : link = .context h.contexts.size
    · rw [heq, Function.update_self]
      exact Nat.lt_succ_self _
    · rw [Function.update_of_ne heq]
      refine Nat.lt_succ_of_lt (hrank.bound ?_)
      cases link with
      | context id =>
          have hlt : id < h.contexts.size + 1 := hcontexts ▸ hl
          have hid : id ≠ h.contexts.size := fun hid => heq (congrArg Link.context hid)
          exact Nat.lt_of_le_of_ne (Nat.le_of_lt_succ hlt) hid
      | object id => exact hl

theorem Ranked.intern (hr : h.Ranked) (ht : h.LinksKnown) (key : String) (module : NodeId)
    (inner : Inner) : (h.intern key module inner).2.Ranked := by
  unfold Heap.intern
  split
  · exact hr
  · obtain ⟨rank, hrank⟩ := hr.allocate ht (o := { module, inner := some inner }) ht.root
    exact ⟨rank, hrank.context, hrank.object, fun {link} hl =>
      hrank.bound (hl.mono ⟨le_rfl, le_rfl⟩)⟩

/-- An `Edit` of a `Closed` heap keeps it `Ranked`. -/
theorem Edit.ranked (edit : Edit h h') (hc : h.Closed) (hr : h.Ranked) : h'.Ranked := by
  cases edit with
  | allocate known scope => exact hr.allocate hc.linksKnown scope
  | number value module => exact hr.intern hc.linksKnown _ _ _
  | string value module => exact hr.intern hc.linksKnown _ _ _
  | newContext known => exact hr.newContext hc.linksKnown known
  | declare known => exact hr.of_parents (declare_sameParents ..)
  | putField known => exact hr.of_parents (updateObject_sameParents _ _ fun _ => rfl)
  | extend held known => exact hr.of_parents (updateObject_sameParents _ _ fun _ => rfl)

/-- In the `initial` heap all that is there hangs from the globals. -/
theorem initial_ranked (nullModule booleanModule voidModule : NodeId) :
    (initial nullModule booleanModule voidModule).Ranked := by
  refine ⟨Link.initialRank, ?_, ?_, ?_⟩
  · intro id c link hc hparent
    have hmem := Array.mem_of_getElem? hc
    simp only [initial, List.mem_toArray, List.mem_cons, List.not_mem_nil, or_false] at hmem
    rw [hmem] at hparent
    cases hparent
  · exact fun _ => Nat.one_pos
  · intro link _
    cases link <;> simp [Link.initialRank, initial, size]

-- =============================================================== lookups

/-- `lookupFrom` with more fuel than the rank does not depend on the fuel. -/
theorem RankedBy.lookupFrom_eq {rank : Link → Nat} (hr : h.RankedBy rank) (name : String)
    {fuel fuel' : Nat} {link : Link} (hfuel : rank link < fuel) (hfuel' : rank link < fuel') :
    h.lookupFrom name fuel link = h.lookupFrom name fuel' link := by
  induction fuel generalizing fuel' link with
  | zero => cases hfuel
  | succ fuel ih =>
      obtain ⟨fuel', rfl⟩ := Nat.exists_eq_succ_of_ne_zero (Nat.ne_zero_of_lt hfuel')
      cases link with
      | context id =>
          rw [lookupFrom, lookupFrom]
          cases hc : h.context? id with
          | none => rfl
          | some c =>
              dsimp only
              cases c.locals.get? name with
              | some value => rfl
              | none =>
                  cases hparent : c.parent with
                  | none => rfl
                  | some link =>
                      have hlt := hr.context hc hparent
                      exact ih (hlt.trans_le (Nat.le_of_lt_succ hfuel))
                        (hlt.trans_le (Nat.le_of_lt_succ hfuel'))
      | object id =>
          rw [lookupFrom, lookupFrom]
          cases ho : h.object? id with
          | none => rfl
          | some o =>
              dsimp only
              have hlt := hr.object ho
              rw [ih (hlt.trans_le (Nat.le_of_lt_succ hfuel))
                (hlt.trans_le (Nat.le_of_lt_succ hfuel'))]

/-- `lookupFrom` goes on from a context that does not bind a name to what it
hangs from. -/
theorem Ranked.lookupFrom_context (hr : h.Ranked) {id : ContextId} {c : Context} {link : Link}
    {name : String} (hc : h.context? id = some c) (hname : c.locals.get? name = none)
    (hparent : c.parent = some link) :
    h.lookupFrom name h.chainBound (.context id) = h.lookupFrom name h.chainBound link := by
  obtain ⟨rank, hrank⟩ := hr
  have hid : rank (.context id) < h.contexts.size + h.size :=
    hrank.bound (Array.getElem?_eq_some_iff.1 hc).1
  have hlt := (hrank.context hc hparent).trans hid
  rw [chainBound, lookupFrom, hc]
  dsimp only
  rw [hname, hparent]
  exact hrank.lookupFrom_eq name hlt (Nat.lt_succ_of_lt hlt)

/-- `lookupFrom` goes on from an object that does not answer a name to its
context. -/
theorem Ranked.lookupFrom_object (hr : h.Ranked) {id : ObjectId} {o : Object} {name : String}
    (ho : h.object? id = some o) (hself : (o.answersSelf && name == "self") = false)
    (hname : o.fields.get? name = none) :
    h.lookupFrom name h.chainBound (.object id)
      = h.lookupFrom name h.chainBound (.context o.parent) := by
  obtain ⟨rank, hrank⟩ := hr
  have hid : rank (.object id) < h.contexts.size + h.size :=
    hrank.bound (lt_size_of_object? ho)
  have hlt := (hrank.object ho).trans hid
  have hnext (fuel : Nat) : h.lookupFrom name (fuel + 1) (.object id)
      = h.lookupFrom name fuel (.context o.parent) := by
    rw [lookupFrom, ho]
    dsimp only
    rw [hself, hname]
    rfl
  rw [chainBound, hnext]
  exact hrank.lookupFrom_eq name hlt (Nat.lt_succ_of_lt hlt)

end Heap

end ObjectMachine
