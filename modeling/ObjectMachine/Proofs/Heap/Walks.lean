/-
The walks of lookups and assignments.

From a link a walk goes on to the next one until there is none
(`Heap.Chain`). It meets slots on its way (`Heap.slot?`): the locals of
contexts and the fields of objects. A lookup answers with the first link
that has an answer, and an assignment writes to the first slot of the name.
Both are given a number of links to follow, and where the chain has no more
links than that they are what they would be without the number: a search
along the chain (`Chain.lookupFrom_eq`, `Chain.holderFrom_eq`).
-/
import Mathlib
import ObjectMachine.Proofs.Heap.Chains

namespace ObjectMachine

namespace Heap

-- =============================================================== chains

/-- Where a link leads: from a context to its parent, from an object to the
context it hangs from. -/
def next? (h : Heap) : Link → Option Link
  | .context id => (h.context? id).bind Context.parent
  | .object id => (h.object? id).map fun o => .context o.parent

/-- One link leads to another. -/
def Leads (h : Heap) (link next : Link) : Prop := h.next? link = some next

/-- The links from one on, along `next?` to the last. -/
inductive Chain (h : Heap) : Link → List Link → Prop
  | last {link : Link} (ends : h.next? link = none) : Chain h link [link]
  | cons {link next : Link} {rest : List Link} (leads : h.Leads link next)
      (onward : Chain h next rest) : Chain h link (link :: rest)

variable {h h' : Heap} {link : Link} {chain : List Link}

theorem RankedBy.lt_of_leads {rank : Link → Nat} (hr : h.RankedBy rank) {next : Link}
    (leads : h.Leads link next) : rank next < rank link := by
  cases link with
  | context id =>
      obtain ⟨c, hc, hparent⟩ := Option.bind_eq_some_iff.1 leads
      exact hr.context hc hparent
  | object id =>
      obtain ⟨o, ho, rfl⟩ := Option.map_eq_some_iff.1 leads
      exact hr.object ho

/-- In a `Ranked` heap no link leads back to itself. -/
theorem Ranked.acyclic (hr : h.Ranked) : ¬ Relation.TransGen h.Leads link link := by
  obtain ⟨rank, hrank⟩ := hr
  have hlt {a b : Link} (path : Relation.TransGen h.Leads a b) : rank b < rank a := by
    induction path with
    | single leads => exact hrank.lt_of_leads leads
    | tail _ leads ih => exact (hrank.lt_of_leads leads).trans ih
  exact fun path => Nat.lt_irrefl _ (hlt path)

theorem RankedBy.exists_chain {rank : Link → Nat} (hr : h.RankedBy rank) (link : Link) :
    ∃ chain, h.Chain link chain := by
  -- the rank is what falls from link to link
  induction hrank : rank link using Nat.strong_induction_on generalizing link with
  | _ n ih =>
      cases hnext : h.next? link with
      | none => exact ⟨_, .last hnext⟩
      | some next =>
          obtain ⟨rest, hrest⟩ := ih (rank next) (hrank ▸ hr.lt_of_leads hnext) next rfl
          exact ⟨_, .cons hnext hrest⟩

/-- Along a `Chain` the ranks fall. -/
theorem Chain.rank_le {rank : Link → Nat} (hr : h.RankedBy rank) (hchain : h.Chain link chain) :
    ∀ l ∈ chain, rank l ≤ rank link := by
  induction hchain with
  | last _ => exact fun l hl => (List.mem_singleton.1 hl) ▸ le_rfl
  | cons leads _ ih =>
      refine List.forall_mem_cons.2 ⟨le_rfl, fun l hl => (ih l hl).trans ?_⟩
      exact (hr.lt_of_leads leads).le

theorem Chain.nodup {rank : Link → Nat} (hr : h.RankedBy rank) (hchain : h.Chain link chain) :
    chain.Nodup := by
  induction hchain with
  | last _ => exact List.nodup_singleton _
  | cons leads onward ih =>
      refine List.nodup_cons.2 ⟨fun hmem => ?_, ih⟩
      exact absurd (onward.rank_le hr _ hmem) (Nat.not_le.2 (hr.lt_of_leads leads))

theorem Chain.length_le {rank : Link → Nat} (hr : h.RankedBy rank) (hchain : h.Chain link chain) :
    chain.length ≤ rank link + 1 := by
  induction hchain with
  | last _ => exact Nat.le_add_left _ _
  | cons leads _ ih => exact Nat.succ_le_succ (ih.trans (hr.lt_of_leads leads))

/-- Nothing that does not exist leads anywhere. -/
theorem has_of_leads_from {next : Link} (leads : h.Leads link next) : h.Has link := by
  cases link with
  | context id =>
      obtain ⟨c, hc, -⟩ := Option.bind_eq_some_iff.1 leads
      exact (Array.getElem?_eq_some_iff.1 hc).1
  | object id =>
      obtain ⟨o, ho, -⟩ := Option.map_eq_some_iff.1 leads
      exact lt_size_of_object? ho

/-- `chainBound` is as many links as a walk can need. -/
theorem RankedBy.length_le_chainBound {rank : Link → Nat} (hr : h.RankedBy rank)
    (hchain : h.Chain link chain) : chain.length ≤ h.chainBound := by
  cases hchain with
  | last _ => exact Nat.le_add_left _ _
  | cons leads onward =>
      have hrank : rank link < h.contexts.size + h.size := hr.bound (has_of_leads_from leads)
      exact ((Chain.cons leads onward).length_le hr).trans (Nat.le_succ_of_le hrank)

/-- Where `LinksKnown`, what a link leads to exists. -/
theorem LinksKnown.has_of_leads (ht : h.LinksKnown) {next : Link} (leads : h.Leads link next) :
    h.Has next := by
  cases link with
  | context id =>
      obtain ⟨c, hc, hparent⟩ := Option.bind_eq_some_iff.1 leads
      exact ht.context hc hparent
  | object id =>
      obtain ⟨o, ho, rfl⟩ := Option.map_eq_some_iff.1 leads
      exact ht.object ho

theorem Chain.has (ht : h.LinksKnown) (known : h.Has link) (hchain : h.Chain link chain) :
    ∀ l ∈ chain, h.Has l := by
  induction hchain with
  | last _ => exact fun l hl => (List.mem_singleton.1 hl) ▸ known
  | cons leads _ ih => exact List.forall_mem_cons.2 ⟨known, ih (ht.has_of_leads leads)⟩

theorem Chain.congr (hnext : ∀ l, h'.next? l = h.next? l) (hchain : h.Chain link chain) :
    h'.Chain link chain := by
  induction hchain with
  | last ends => exact .last ((hnext _).trans ends)
  | cons leads _ ih => exact .cons ((hnext _).trans leads) ih

-- ================================================================ slots

/-- What a name is bound to in a context or an object itself. -/
def slot? (h : Heap) (name : String) : Link → Option ObjectId
  | .context id => h.local? id name
  | .object id => (h.object? id).bind fun o => o.fields.get? name

/-- What a context or an object answers to `lookup`. -/
def answer? (h : Heap) (name : String) : Link → Option ObjectId
  | .context id => h.local? id name
  | .object id => (h.object? id).bind fun o =>
    if o.answersSelf && name == "self" then some id else o.fields.get? name

/-- Only `self` has an `answer?` without a `slot?`. -/
theorem answer?_eq {name : String} (hname : name ≠ "self") (link : Link) :
    h.answer? name link = h.slot? name link := by
  cases link with
  | context id => rfl
  | object id => simp only [answer?, slot?, beq_eq_false_iff_ne.2 hname, Bool.and_false,
      Bool.false_eq_true, if_false]

/-- `lookupFrom` takes the `answer?` of a link, or goes on to `next?`. -/
theorem lookupFrom_succ (h : Heap) (name : String) (fuel : Nat) (link : Link) :
    h.lookupFrom name (fuel + 1) link
      = (h.answer? name link).or ((h.next? link).bind (h.lookupFrom name fuel)) := by
  cases link with
  | context id =>
      rw [lookupFrom, answer?, next?, local?]
      cases h.context? id with
      | none => rfl
      | some c => cases hvalue : c.locals.get? name <;> cases hparent : c.parent <;>
          simp [hvalue, hparent]
  | object id =>
      rw [lookupFrom, answer?, next?]
      cases h.object? id with
      | none => rfl
      | some o =>
          dsimp only [Option.bind_some, Option.map_some]
          split
          · rfl
          · cases o.fields.get? name <;> rfl

/-- `holderFrom` takes the link that has the `slot?`, or goes on to `next?`. -/
theorem holderFrom_succ (h : Heap) (name : String) (fuel : Nat) (link : Link) :
    h.holderFrom name (fuel + 1) link
      = if (h.slot? name link).isSome then some link
        else (h.next? link).bind (h.holderFrom name fuel) := by
  cases link with
  | context id =>
      rw [holderFrom, slot?, next?, local?]
      cases h.context? id with
      | none => rfl
      | some c => cases hvalue : c.locals.get? name <;> cases hparent : c.parent <;>
          simp [hvalue, hparent]
  | object id =>
      rw [holderFrom, slot?, next?]
      cases h.object? id with
      | none => rfl
      | some o => cases hvalue : o.fields.get? name <;> simp [hvalue]

/-- `lookupFrom` is a search for an `answer?` along the chain. -/
theorem Chain.lookupFrom_eq (hchain : h.Chain link chain) (name : String) {fuel : Nat}
    (enough : chain.length ≤ fuel) :
    h.lookupFrom name fuel link = chain.findSome? (h.answer? name) := by
  induction hchain generalizing fuel with
  | last ends =>
      cases fuel with
      | zero => exact absurd enough (Nat.not_succ_le_zero _)
      | succ fuel => rw [lookupFrom_succ, ends, Option.bind_none, Option.or_none,
          List.findSome?_singleton]
  | @cons link next rest leads _ ih =>
      cases fuel with
      | zero => exact absurd enough (Nat.not_succ_le_zero _)
      | succ fuel =>
          rw [lookupFrom_succ, leads, Option.bind_some, ih (Nat.le_of_succ_le_succ enough),
            List.findSome?_cons]
          cases h.answer? name link <;> rfl

/-- `holderFrom` is a search for a `slot?` along the chain. -/
theorem Chain.holderFrom_eq (hchain : h.Chain link chain) (name : String) {fuel : Nat}
    (enough : chain.length ≤ fuel) :
    h.holderFrom name fuel link = chain.find? fun l => (h.slot? name l).isSome := by
  induction hchain generalizing fuel with
  | last ends =>
      cases fuel with
      | zero => exact absurd enough (Nat.not_succ_le_zero _)
      | succ fuel => rw [holderFrom_succ, ends, Option.bind_none, List.find?_singleton]
  | @cons link next rest leads _ ih =>
      cases fuel with
      | zero => exact absurd enough (Nat.not_succ_le_zero _)
      | succ fuel =>
          rw [holderFrom_succ, leads, Option.bind_some, ih (Nat.le_of_succ_le_succ enough),
            List.find?_cons]
          cases (h.slot? name link).isSome <;> rfl

-- =============================================================== writes

/-- The heap once a name is bound in a context or an object. -/
def write (h : Heap) (name : String) (value : ObjectId) : Link → Heap
  | .context id => h.declare id name value
  | .object id => h.putField id name value

@[simp] theorem chainBound_write (h : Heap) (name : String) (value : ObjectId) (link : Link) :
    (h.write name value link).chainBound = h.chainBound := by
  cases link with
  | context id => simp [write, chainBound, declare, updateContext]
  | object id => simp [write, chainBound, putField, updateObject]

/-- `assign` is a `write` to the holder, if there is one. -/
theorem assign_eq (h : Heap) (id : ContextId) (name : String) (value : ObjectId) :
    h.assign id name value = (h.holderFrom name h.chainBound (.context id)).elim (false, h)
      fun holder => (true, h.write name value holder) := by
  unfold assign
  split
  · next holder hholder => rw [hholder]; rfl
  · next holder hholder => rw [hholder]; rfl
  · next hholder => rw [hholder]; rfl

/-- Two heaps that differ in one slot at most, which has the value in the
second. -/
structure Rewritten (h h' : Heap) (name : String) (value : ObjectId) (link : Link) : Prop where
  written : h'.slot? name link = some value
  others : ∀ other l, other ≠ name ∨ l ≠ link → h'.slot? other l = h.slot? other l
  objects : ∀ id, (h'.object? id).map (fun o => { o with fields := [] })
    = (h.object? id).map fun o => { o with fields := [] }
  contexts : ∀ id, (h'.context? id).map Context.parent = (h.context? id).map Context.parent
  interned : h'.interned = h.interned

/-- `Rewritten` leaves `next?` as it is. -/
theorem Rewritten.next?_eq {name : String} {value : ObjectId} (hr : h.Rewritten h' name value link)
    (l : Link) : h'.next? l = h.next? l := by
  cases l with
  | context id =>
      have hsame := hr.contexts id
      simp only [next?]
      cases hc : h.context? id <;> cases hc' : h'.context? id <;> simp_all
  | object id =>
      have hsame := congrArg (Option.map Object.parent) (hr.objects id)
      simp only [Option.map_map, Function.comp_def] at hsame
      simp only [next?]
      cases ho : h.object? id <;> cases ho' : h'.object? id <;> simp_all

/-- Where there is a `slot?`, `write` changes that slot and nothing else. -/
theorem write_rewritten {name : String} (bound : (h.slot? name link).isSome) (value : ObjectId) :
    h.Rewritten (h.write name value link) name value link := by
  cases link with
  | context id =>
      have known : id < h.contexts.size := by
        obtain ⟨old, hold⟩ := Option.isSome_iff_exists.1 bound
        obtain ⟨c, hc, -⟩ := Option.bind_eq_some_iff.1 hold
        exact (Array.getElem?_eq_some_iff.1 hc).1
      refine ⟨local?_declare_self known name value, fun other l hne => ?_, fun _ => rfl,
        fun id' => ?_, rfl⟩
      · cases l with
        | context id' =>
            refine local?_declare_of_ne (hne.symm.imp_left fun hl heq => hl ?_) value
            rw [heq]
        | object id' => rfl
      · rw [write, context?_declare]
        split
        · cases h.context? id' <;> rfl
        · rfl
  | object id =>
      obtain ⟨old, hold⟩ := Option.isSome_iff_exists.1 bound
      obtain ⟨o, ho, -⟩ := Option.bind_eq_some_iff.1 hold
      refine ⟨?_, fun other l hne => ?_, fun id' => ?_, fun _ => rfl, rfl⟩
      · rw [slot?, write, putField, object?_updateObject, if_pos rfl, ho, Option.map_some,
          Option.bind_some, Bindings.get?_insert, if_pos rfl]
      · cases l with
        | context id' => rfl
        | object id' =>
            rw [slot?, slot?, write, putField, object?_updateObject]
            split
            · next heq =>
              subst heq
              have hother : other ≠ name := hne.resolve_right (not_not_intro rfl)
              rw [ho, Option.map_some, Option.bind_some, Option.bind_some, Bindings.get?_insert,
                if_neg hother]
            · rfl
      · rw [write, putField, object?_updateObject]
        split
        · cases h.object? id' <;> rfl
        · rfl

end Heap

end ObjectMachine
