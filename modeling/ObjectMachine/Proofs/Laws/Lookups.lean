/-
Lookups and assignments.

A heap that is built up by the operations of the machine, each from what is
there already (`Heap.Built`), has no chain of parents that comes back to
where it was. The walk of a lookup ends, and what it gives is what a search
along the whole chain gives (`lookups_end`). The walk of an assignment is
another one, but it stops where that of a lookup stops: what is assigned is
what is read afterwards, and nothing else has changed (`assign_rebinds`).
-/
import Mathlib
import ObjectMachine.Proofs.Heap.Walks
import ObjectMachine.Proofs.Laws.Scopes

namespace ObjectMachine

namespace Heap

-- =========================================================== operations

/-- One operation on a heap. What is new hangs from what exists. -/
inductive Operation (h : Heap) : Heap → Prop
  | allocate {o : Object} (scope : o.parent < h.contexts.size) : Operation h (h.allocate o).2
  | intern (key : String) (module : NodeId) (inner : Inner) :
      Operation h (h.intern key module inner).2
  | newContext {parent : Link} (known : h.Has parent) : Operation h (h.newContext parent).2
  | declare (id : ContextId) (name : String) (value : ObjectId) :
      Operation h (h.declare id name value)
  | assign (id : ContextId) (name : String) (value : ObjectId) :
      Operation h (h.assign id name value).2
  | putField (id : ObjectId) (name : String) (value : ObjectId) :
      Operation h (h.putField id name value)
  /-- Something else is inside an object. -/
  | hold (id : ObjectId) (inner : Option Inner) :
      Operation h (h.updateObject id fun o => { o with inner })

/-- A heap that an `Operation` after another leads to. -/
def Built (h : Heap) : Prop :=
  ∃ nullModule booleanModule voidModule,
    Relation.ReflTransGen Operation (initial nullModule booleanModule voidModule) h

variable {h h' : Heap}

/-- The changes of the machine, each an `Edit`, are operations. -/
theorem Edit.operation (edit : Edit h h') : Operation h h' := by
  cases edit with
  | allocate _ scope => exact .allocate scope
  | number value module => exact .intern _ _ _
  | string value module => exact .intern _ _ _
  | newContext known => exact .newContext known
  | declare _ => exact .declare _ _ _
  | putField _ => exact .putField _ _ _
  | extend _ _ => exact .hold _ _

-- ============================================ what operations leave alone

theorem LinksKnown.of_parents (ht : h.LinksKnown) (same : h.SameParents h') : h'.LinksKnown := by
  have hmono {link : Link} (hl : h.Has link) : h'.Has link :=
    hl.mono ⟨same.size.ge, same.contexts.ge⟩
  refine ⟨same.contexts ▸ ht.root, fun hc' hparent => ?_, fun ho' => ?_⟩
  · obtain ⟨c, hc, heq⟩ := same.context hc'
    exact hmono (ht.context hc (heq ▸ hparent))
  · obtain ⟨o, ho, heq⟩ := same.object ho'
    rw [heq]
    exact hmono (ht.object ho)

theorem LinksKnown.allocate (ht : h.LinksKnown) {o : Object} (scope : o.parent < h.contexts.size) :
    (h.allocate o).2.LinksKnown := by
  have hsize : h.size ≤ (h.allocate o).2.size
      ∧ h.contexts.size ≤ (h.allocate o).2.contexts.size := by simp
  have hmono {link : Link} (hl : h.Has link) : (h.allocate o).2.Has link := hl.mono hsize
  refine ⟨ht.root, fun hc hparent => hmono (ht.context hc hparent), fun {id o'} ho' => ?_⟩
  rw [object?_allocate] at ho'
  split at ho'
  · cases ho'
    exact scope
  · exact hmono (ht.object ho')

theorem LinksKnown.intern (ht : h.LinksKnown) (key : String) (module : NodeId) (inner : Inner) :
    (h.intern key module inner).2.LinksKnown := by
  unfold Heap.intern
  split
  · exact ht
  · have hnew := ht.allocate (o := { module, inner := some inner }) ht.root
    exact ⟨hnew.root, hnew.context, hnew.object⟩

theorem LinksKnown.newContext (ht : h.LinksKnown) {parent : Link} (known : h.Has parent) :
    (h.newContext parent).2.LinksKnown := by
  have hsize : h.size ≤ (h.newContext parent).2.size
      ∧ h.contexts.size ≤ (h.newContext parent).2.contexts.size :=
    ⟨le_rfl, by simp [Heap.newContext]⟩
  have hmono {link : Link} (hl : h.Has link) : (h.newContext parent).2.Has link := hl.mono hsize
  refine ⟨ht.root.trans_le hsize.2, fun {id c link} hc hparent => ?_,
    fun ho => hmono (ht.object ho)⟩
  rw [context?_newContext] at hc
  split at hc
  · cases hc
    cases hparent
    exact hmono known
  · exact hmono (ht.context hc hparent)

/-- An `Operation` keeps `LinksKnown`, so that what hangs hangs from what
exists, and `Ranked`, so that chains end. -/
theorem Operation.keeps (op : Operation h h') (hh : h.LinksKnown ∧ h.Ranked) :
    h'.LinksKnown ∧ h'.Ranked := by
  obtain ⟨ht, hr⟩ := hh
  have hsame {h' : Heap} (same : h.SameParents h') : h'.LinksKnown ∧ h'.Ranked :=
    ⟨ht.of_parents same, hr.of_parents same⟩
  cases op with
  | allocate scope => exact ⟨ht.allocate scope, hr.allocate ht scope⟩
  | intern key module inner => exact ⟨ht.intern .., hr.intern ht ..⟩
  | newContext known => exact ⟨ht.newContext known, hr.newContext ht known⟩
  | declare id name value => exact hsame (declare_sameParents ..)
  | assign id name value =>
      unfold Heap.assign
      split
      · exact hsame (declare_sameParents ..)
      · exact hsame (updateObject_sameParents _ _ fun _ => rfl)
      · exact ⟨ht, hr⟩
  | putField id name value => exact hsame (updateObject_sameParents _ _ fun _ => rfl)
  | hold id inner => exact hsame (updateObject_sameParents _ _ fun _ => rfl)

theorem initial_linksKnown (nullModule booleanModule voidModule : NodeId) :
    (initial nullModule booleanModule voidModule).LinksKnown := by
  refine ⟨Nat.one_pos, fun {id c link} hc hparent => ?_, fun {id o} ho => ?_⟩
  · have hmem := Array.mem_of_getElem? hc
    simp only [initial, List.mem_toArray, List.mem_cons, List.not_mem_nil, or_false] at hmem
    rw [hmem] at hparent
    cases hparent
  · have hmem := Array.mem_of_getElem? ho
    simp only [initial, List.mem_toArray, List.mem_cons, List.not_mem_nil, or_false] at hmem
    rcases hmem with rfl | rfl | rfl | rfl <;> exact Nat.one_pos

theorem Built.linksKnown_and_ranked (hb : h.Built) : h.LinksKnown ∧ h.Ranked := by
  obtain ⟨nullModule, booleanModule, voidModule, operations⟩ := hb
  induction operations with
  | refl => exact ⟨initial_linksKnown .., initial_ranked ..⟩
  | tail _ op ih => exact op.keeps ih

-- ======================================================== where walks end

/-- Where a `lookup` stops: at a `slot?` of the name, with no `answer?` before
it. -/
def Reads (h : Heap) (id : ContextId) (name : String) (link : Link) : Prop :=
  ∃ before after, h.Chain (.context id) (before ++ link :: after)
    ∧ (∀ l ∈ before, h.answer? name l = none)
    ∧ (h.slot? name link).isSome ∧ h.slot? name link = h.lookup id name

/-- `assign` is true where there is a `slot?`, and writes to the first on the
chain. -/
theorem Chain.assign_eq {rank : Link → Nat} (hr : h.RankedBy rank) {id : ContextId}
    {chain : List Link} (hchain : h.Chain (.context id) chain) (name : String)
    (value : ObjectId) :
    h.assign id name value = (chain.find? fun l => (h.slot? name l).isSome).elim (false, h)
      fun link => (true, h.write name value link) := by
  rw [Heap.assign_eq, hchain.holderFrom_eq name (hr.length_le_chainBound hchain)]

theorem Chain.lookup_eq {rank : Link → Nat} (hr : h.RankedBy rank) {id : ContextId}
    {chain : List Link} (hchain : h.Chain (.context id) chain) (name : String) :
    h.lookup id name = chain.findSome? (h.answer? name) :=
  hchain.lookupFrom_eq name (hr.length_le_chainBound hchain)

/-- A search that finds nothing before a `slot?` finds the slot. -/
theorem findSome?_slot {name : String} (hname : name ≠ "self") {before after : List Link}
    {link : Link} {value : ObjectId} (hbefore : ∀ l ∈ before, h.slot? name l = none)
    (hvalue : h.slot? name link = some value) :
    (before ++ link :: after).findSome? (h.answer? name) = some value := by
  have hnone : before.findSome? (h.answer? name) = none :=
    List.findSome?_eq_none_iff.2 fun l hl => (answer?_eq hname l).trans (hbefore l hl)
  rw [List.findSome?_append, hnone, Option.none_or, List.findSome?_cons, answer?_eq hname, hvalue]

end Heap

-- =============================================================== theorems

/-- The heap of every `Visited` state is `Built`. -/
theorem Engine.Visited.built {e : Engine} (he : e.natives.Lawful) {m : Machine}
    (h : e.Visited m) : m.heap.Built := by
  refine h.of_keeps he (I := fun m => m.heap.Built) (Keeps.of_edit he ?_) ⟨_, _, _, .refl⟩
  rintro h h' - ⟨nullModule, booleanModule, voidModule, operations⟩ edit
  exact ⟨_, _, _, operations.tail edit.operation⟩

open Heap in
/-- Lookups and assignments end, in every `Visited` state and in every heap that
is `Built` by operations. No chain of parents is cyclic, every context is at the
start of a finite `Chain`, of contexts and objects that exist and are all
different, and both walks are searches along it, with no limit to the number of
links. -/
theorem lookups_end :
    (∀ (e : Engine) (m : Machine), e.natives.Lawful → e.Visited m → m.heap.Built)
    ∧ ∀ h : Heap, h.Built →
      (∀ link, ¬ Relation.TransGen h.Leads link link)
      ∧ ∀ id < h.contexts.size, ∃ chain, h.Chain (.context id) chain ∧ chain.Nodup
        ∧ (∀ link ∈ chain, h.Has link)
        ∧ ∀ name, h.lookup id name = chain.findSome? (h.answer? name)
          ∧ ∀ value, h.assign id name value
            = (chain.find? fun link => (h.slot? name link).isSome).elim (false, h)
              fun link => (true, h.write name value link) := by
  refine ⟨fun e m he hvisited => hvisited.built he, fun h hb => ?_⟩
  obtain ⟨ht, hr⟩ := hb.linksKnown_and_ranked
  refine ⟨fun link => hr.acyclic, fun id hid => ?_⟩
  obtain ⟨rank, hrank⟩ := hr
  obtain ⟨chain, hchain⟩ := hrank.exists_chain (.context id)
  have known : h.Has (.context id) := hid
  refine ⟨chain, hchain, hchain.nodup hrank, hchain.has ht known, fun name => ?_⟩
  exact ⟨hchain.lookup_eq hrank name, hchain.assign_eq hrank name⟩

open Heap in
/-- From the activation of a closure, the walk goes through the closure to
the context that it was made in. -/
theorem capture_lookups_end :
    Capture.engine.natives.Lawful ∧ Capture.engine.Visited Capture.active
      ∧ Capture.active.heap.Built ∧ 3 < Capture.active.heap.contexts.size
      ∧ ∃ chain, Capture.active.heap.Chain (.context 3) chain ∧ chain.Nodup
        ∧ chain.findSome? (Capture.active.heap.answer? "x") = some .true := by
  have hbuilt := lookups_end.1 _ _ Natives.core_lawful Capture.active_visited
  have hsize : 3 < Capture.active.heap.contexts.size := by decide
  obtain ⟨-, hends⟩ := lookups_end.2 _ hbuilt
  obtain ⟨chain, hchain, hnodup, -, hwalks⟩ := hends 3 hsize
  exact ⟨Natives.core_lawful, Capture.active_visited, hbuilt, hsize, chain, hchain, hnodup,
    (hwalks "x").1.symm⟩

open Heap in
/-- `assign` rebinds the name where `lookup` finds it. It says whether there is
such a place. If there is none, nothing changes. If there is one, it is the one
that a lookup `Reads`, it has the value afterwards, which is what the next
lookup gives, and it is the only slot of the heap to change (`Rewritten`). -/
theorem assign_rebinds {h : Heap} (hb : h.Built) (id : ContextId) {name : String}
    (hname : name ≠ "self") (value : ObjectId) :
    ((h.assign id name value).1 = true ↔ (h.lookup id name).isSome)
    ∧ ((h.assign id name value).1 = false → (h.assign id name value).2 = h)
    ∧ ((h.assign id name value).1 = true →
      (h.assign id name value).2.lookup id name = some value
      ∧ ∃ link, h.Reads id name link ∧ h.Rewritten (h.assign id name value).2 name value link) := by
  obtain ⟨rank, hrank⟩ := hb.linksKnown_and_ranked.2
  obtain ⟨chain, hchain⟩ := hrank.exists_chain (.context id)
  have hlookup := hchain.lookup_eq hrank name
  rw [hchain.assign_eq hrank]
  cases hfind : chain.find? fun l => (h.slot? name l).isSome with
  | none =>
      have hnone : h.lookup id name = none := by
        rw [hlookup, List.findSome?_eq_none_iff]
        intro l hl
        rw [answer?_eq hname]
        exact Option.not_isSome_iff_eq_none.1 (List.find?_eq_none.1 hfind l hl)
      rw [hnone]
      exact ⟨⟨nofun, nofun⟩, fun _ => rfl, nofun⟩
  | some link =>
      obtain ⟨bound, before, after, rfl, hbefore⟩ := List.find?_eq_some_iff_append.1 hfind
      have hfree : ∀ l ∈ before, h.slot? name l = none := fun l hl => by simpa using hbefore l hl
      obtain ⟨old, hold⟩ := Option.isSome_iff_exists.1 bound
      rw [findSome?_slot hname hfree hold] at hlookup
      have hwritten := write_rewritten bound value
      have hreads : h.Reads id name link := by
        refine ⟨before, after, hchain, fun l hl => ?_, bound, hold.trans hlookup.symm⟩
        rw [answer?_eq hname, hfree l hl]
      refine ⟨⟨fun _ => hlookup ▸ rfl, fun _ => rfl⟩, nofun, fun _ => ⟨?_, link, hreads, hwritten⟩⟩
      -- the chain is the same, and what comes before the link still has no slot
      have hfree' : ∀ l ∈ before, (h.write name value link).slot? name l = none := by
        intro l hl
        rw [hwritten.others name l (.inr ?_), hfree l hl]
        rintro rfl
        have hdisjoint := (List.nodup_append.1 (hchain.nodup hrank)).2.2
        exact hdisjoint l hl l List.mem_cons_self rfl
      have hlength := hrank.length_le_chainBound hchain
      rw [← chainBound_write h name value link] at hlength
      exact ((hchain.congr hwritten.next?_eq).lookupFrom_eq name hlength).trans
        (findSome?_slot hname hfree' hwritten.written)

/-- A closure assigns to a variable of the context that it was made in. -/
theorem capture_assign_rebinds :
    Capture.active.heap.Built ∧ "x" ≠ "self"
      ∧ (Capture.active.heap.assign 3 "x" .null).1 = true
      ∧ (Capture.active.heap.assign 3 "x" .null).2.lookup 3 "x" = some .null
      ∧ ∃ link, Capture.active.heap.Reads 3 "x" link
        ∧ Capture.active.heap.Rewritten (Capture.active.heap.assign 3 "x" .null).2 "x" .null
          link := by
  have hbuilt := Capture.active_visited.built Natives.core_lawful
  obtain ⟨hiff, -, hassigned⟩ := assign_rebinds hbuilt 3 (show "x" ≠ "self" by decide) .null
  have htrue : (Capture.active.heap.assign 3 "x" .null).1 = true := hiff.2 rfl
  exact ⟨hbuilt, by decide, htrue, hassigned htrue⟩

end ObjectMachine
