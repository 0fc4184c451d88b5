/-
References to fields read fields.

What a reference stands for is found twice. The linker looks at the nodes
around it, from the inside out; the machine walks from context to context
and from object to object, and knows names only. For fields the two agree:
the walk follows the nodes. A context of a block binds names that the block
introduces, so one that the linker went past is not bound there; and an
object that has the field is met no sooner than the module that introduces
it (`Zoned.finds_field`).

That is so of code that runs where it stands. The arguments of a base call
do not: a closure among them runs later, next to the locals of the
constructor's body (`argument_reads_local`).
-/
import Mathlib
import ObjectMachine.Proofs.Laws.Lookups
import ObjectMachine.Proofs.Session.FieldsSet

namespace ObjectMachine

-- ================================================================ walks

namespace Heap

variable {h : Heap} {link : Link} {chain : List Link} {name : String} {value : ObjectId}

/-- From a link without an `answer?` the search goes on along `Leads`. -/
theorem Chain.onward (hchain : h.Chain link chain) (silent : h.answer? name link = none)
    (found : chain.findSome? (h.answer? name) = some value) :
    ∃ next rest, chain = link :: rest ∧ h.Leads link next ∧ h.Chain next rest
      ∧ rest.findSome? (h.answer? name) = some value := by
  cases hchain with
  | last _ =>
      rw [List.findSome?_singleton, silent] at found
      cases found
  | cons leads onward =>
      rw [List.findSome?_cons, silent] at found
      exact ⟨_, _, rfl, leads, onward, found⟩

/-- At a link that has an `answer?` the search ends. -/
theorem Chain.ends (hchain : h.Chain link chain) {answer : ObjectId}
    (answers : h.answer? name link = some answer)
    (found : chain.findSome? (h.answer? name) = some value) :
    answer = value ∧ ∃ rest, chain = link :: rest := by
  cases hchain with
  | last _ =>
      rw [List.findSome?_singleton, answers] at found
      exact ⟨Option.some.inj found, [], rfl⟩
  | cons _ _ =>
      rw [List.findSome?_cons, answers] at found
      exact ⟨Option.some.inj found, _, rfl⟩

/-- A `Chain` on which something is found starts at a context that is there. -/
theorem Chain.exists_context {id : ContextId} (hchain : h.Chain (.context id) chain)
    (found : chain.findSome? (h.answer? name) = some value) : ∃ c, h.context? id = some c := by
  cases hc : h.context? id with
  | some c => exact ⟨c, rfl⟩
  | none =>
      have hsilent : h.answer? name (.context id) = none := by rw [answer?, local?, hc]; rfl
      obtain ⟨_, _, -, hleads, -⟩ := hchain.onward hsilent found
      rw [Leads, next?, hc] at hleads
      cases hleads

/-- A chain on which the first `answer?` is a field of an object that inherits
from `owner`. -/
def FindsField (h : Heap) (p : Program) (owner : NodeId) (name : String) (value : ObjectId)
    (chain : List Link) : Prop :=
  ∃ before id o after, chain = before ++ .object id :: after
    ∧ (∀ l ∈ before, h.answer? name l = none) ∧ h.object? id = some o
    ∧ o.fields.get? name = some value ∧ p.inherits o.module owner

theorem FindsField.cons {p : Program} {owner : NodeId} (silent : h.answer? name link = none)
    (found : h.FindsField p owner name value chain) :
    h.FindsField p owner name value (link :: chain) := by
  obtain ⟨before, id, o, after, rfl, hbefore, hfound⟩ := found
  exact ⟨link :: before, id, o, after, rfl, List.forall_mem_cons.2 ⟨silent, hbefore⟩, hfound⟩

end Heap

-- ================================================================ names

namespace Program

variable {p : Program} {owner field node : NodeId} {name : String} {depth : Nat}

/-- Names without a `contribution` to the inherited scope are not introduced. -/
theorem not_introduced (h : Scope.get? (p.contribution .inherited node) name = none) :
    name ∉ p.introducedNames node := by
  intro hmem
  obtain ⟨entry, hentry, rfl⟩ := List.mem_map.1 hmem
  have hmissing := List.lookup_eq_none_iff.1 h _ (List.mem_reverse.2 hentry)
  rw [bne_self_eq_false] at hmissing
  cases hmissing

/-- The block that `Attached` code runs in is `Attached`. -/
theorem Sits.attached (hp : p.root.Numbered) {zone : Zone} (hsits : p.Sits zone node)
    (hattached : p.Attached node) {body : NodeId} (hzone : zone = .block body) :
    p.Attached body := by
  induction hsits with
  | sentence parent _ =>
      cases hzone
      exact hattached.up hp parent
  | global => cases hzone
  | inside parent _ _ ih => exact ih (hattached.up hp parent) hzone

/-- What is `Sighted` has the name. -/
theorem Sighted.name_eq (hp : p.root.Numbered) (hseen : p.Sighted name field depth node) :
    p.name? field = some name := by
  induction hseen with
  | here found => exact name?_of_contribution hp (Scope.mem_of_get? found)
  | above _ _ _ ih => exact ih

section

variable (hp : p.Complete) (hflat : p.Flat) (hfield : p.FieldOf owner field)
include hp hflat hfield

/-- A block on the way to a `Sighted` field does not bind its name: it would be
in the lexical `contribution` of the block. -/
theorem Sighted.not_mayBind (hseen : p.Sighted name field depth node)
    (hblock : p.isKind Kind.isBlock node) {above : NodeId} (hup : p.parent? node = some above)
    (habove : ¬ (p.isModule above ∨ p.isKind Kind.isDescribe above))
    (hname : name ∉ ["", exceptionLocal, previousLocal]) : ¬ p.MayBind node name := by
  have hcode : p.isKind Kind.isCode node :=
    isKind_mono (fun kind hk => by rw [Kind.isCode, hk, Bool.or_true]) hblock
  have hmissing {depth : Nat} {node : NodeId} (hseen : p.Sighted name field depth node)
      (hnode : ¬ (p.isModule node ∨ p.isKind Kind.isDescribe node)) :
      name ∉ p.introducedNames node := by
    cases hseen with
    | here found =>
        exact absurd (introduces_field hp.numbered hflat hfield (Scope.mem_of_get? found)).2 hnode
    | above missing _ _ => exact not_introduced missing
  rintro (hmem | ⟨above', hup', hmem⟩ | hmem)
  · exact hmissing hseen (not_owner_of_isCode hcode) hmem
  · cases hup.symm.trans hup'
    obtain ⟨_, _, -, hup', hseen'⟩ :=
      hseen.up hp.numbered hflat hfield (not_owner_of_isCode hcode)
    cases hup.symm.trans hup'
    exact hmissing hseen' habove hmem
  · exact hname hmem

/-- Containers stand where no field is `Sighted` from. -/
theorem not_sighted_above_container (hcontainer : p.isKind Kind.isContainer node) {above : NodeId}
    (hup : p.parent? node = some above) : ¬ p.Sighted name field depth above := by
  obtain ⟨kind, hkind, htest⟩ := (Option.any_eq_true _ _).1 hcontainer
  obtain ⟨t, htree, rfl⟩ := Option.map_eq_some_iff.1 hkind
  obtain ⟨ht, rfl⟩ := (tree?_eq_some_iff hp.numbered).1 htree
  exact not_sighted_of_isPackage hp hflat hfield (hflat.stands t ht htest _ hup)

end

/-- What holds members (`isHolder`) is an object without a name or a
container. -/
theorem isContainer_of_isHolder (h : p.isKind Kind.isHolder node)
    (hnamed : ¬ p.isKind Kind.isAnonymous node) : p.isKind Kind.isContainer node := by
  obtain ⟨kind, hkind, htest⟩ := (Option.any_eq_true _ _).1 h
  rw [isKind, hkind, Option.any_some] at hnamed ⊢
  exact (Bool.or_eq_true_iff.1 htest).resolve_right hnamed

/-- The `fieldNames` of a module contain what the nodes it inherits from
introduce. -/
theorem mem_fieldNames_of_inherits {module : NodeId} (hmodule : p.isModule module)
    (hinherits : p.inherits module node)
    (found : Scope.get? (p.contribution .inherited node) name = some field) :
    name ∈ p.fieldNames module := by
  refine fieldNames_subset hinherits ((mem_fieldNames_iff ?_).2 ⟨_, Scope.mem_of_get? found⟩)
  exact isModule_of_mem_hierarchy hmodule (of_decide_eq_true hinherits)

end Program

-- =============================================================== the way

namespace Heap.Zoned

variable {p : Program} {zones : Zoning} {h : Heap} {owner field : NodeId} {name : String}
  {value : ObjectId} {chain : List Link}

section

variable (hz : h.Zoned p zones) (hself : name ≠ "self")
include hz hself

/-- The heap is `Zoned`, so a context does not answer with names that its zone
does not bind (`Binds`). -/
theorem answer?_eq_none (context : ContextId) (hbinds : ¬ p.Binds name (zones context)) :
    h.answer? name (.context context) = none := by
  refine Option.eq_none_iff_forall_ne_some.2 fun found hfound => ?_
  obtain ⟨c, hc, hlocal⟩ := Option.bind_eq_some_iff.1 hfound
  rcases (hz.context hc).names name (by rw [hlocal]; rfl) with hbound | heq
  · exact hbinds hbound
  · exact hself heq

/-- The root context binds names with dots only. -/
theorem not_found_from_root (hdots : '.' ∉ name.toList)
    (hchain : h.Chain (.context rootContext) chain) :
    chain.findSome? (h.answer? name) ≠ some value := by
  intro found
  have hsilent := hz.answer?_eq_none hself rootContext (by rw [hz.root]; exact hdots)
  obtain ⟨next, rest, -, hleads, -, -⟩ := hchain.onward hsilent found
  obtain ⟨c, hc, hparent⟩ := Option.bind_eq_some_iff.1 hleads
  have hhangs := (hz.context hc).hangs
  rw [hz.root] at hhangs
  cases hparent.symm.trans hhangs

end

section

variable (hp : p.Linked) (hflat : p.Flat) (hfield : p.FieldOf owner field)
  (hz : h.Zoned p zones) (hdots : '.' ∉ name.toList) (hself : name ≠ "self")
include hp hflat hfield hz hdots hself

/-- An object that `HasFields` answers for the fields that are `Sighted` from
what holds a routine; if the field is not its own, the search goes on to the
code that the object is written in. -/
theorem finds_field_of_object {id : ObjectId} {o : Object} (ho : h.object? id = some o)
    (hfieldsSet : p.HasFields h id) {holder : NodeId} (hholder : p.isKind Kind.isHolder holder)
    (hinherits : p.inherits o.module holder) (hattached : p.Attached holder) {depth : Nat}
    (hseen : p.Sighted name field depth holder) (hchain : h.Chain (.object id) chain)
    (found : chain.findSome? (h.answer? name) = some value)
    (hrest : ∀ {context : ContextId} {body : NodeId} {less : Nat} {rest : List Link}, less < depth →
      zones context = .block body → p.isKind Kind.isBlock body → p.Attached body →
      p.Sighted name field less body → h.Chain (.context context) rest →
      rest.findSome? (h.answer? name) = some value → h.FindsField p owner name value rest) :
    h.FindsField p owner name value chain := by
  have hanswer : h.answer? name (.object id) = o.fields.get? name := by
    rw [answer?_eq hself, slot?, ho, Option.bind_some]
  have hmodule {module : NodeId} (hanonymous : p.isKind Kind.isAnonymous module) :
      p.isModule module := by
    refine Program.isKind_mono (fun kind hkind => ?_) hanonymous
    cases kind <;> first | rfl | cases hkind
  -- without the field the search goes on from the object
  have hpast (hmissing : o.fields.get? name = none) : ∃ rest, chain = .object id :: rest
      ∧ h.Chain (.context o.parent) rest ∧ rest.findSome? (h.answer? name) = some value := by
    obtain ⟨next, rest, heq, hleads, hnext, hfound⟩ :=
      hchain.onward (hanswer.trans hmissing) found
    obtain ⟨o', ho', rfl⟩ := Option.map_eq_some_iff.1 hleads
    cases ho.symm.trans ho'
    exact ⟨rest, heq, hnext, hfound⟩
  cases hseen with
  | here hintroduced =>
      have howner := (Program.introduces_field hp.complete.numbered hflat hfield
        (Scope.mem_of_get? hintroduced)).1
      cases hfields : o.fields.get? name with
      | some answer =>
          obtain ⟨rfl, rest, rfl⟩ := hchain.ends (hanswer.trans hfields) found
          exact ⟨[], id, o, rest, rfl, List.forall_mem_nil _, ho, hfields,
            Program.inherits_trans hinherits howner⟩
      | none =>
          by_cases hanonymous : p.isKind Kind.isAnonymous o.module
          · obtain ⟨o', ho', hall⟩ := hfieldsSet
            cases ho.symm.trans ho'
            have hsome := hall hanonymous name (Program.mem_fieldNames_of_inherits
              (hmodule hanonymous) hinherits hintroduced)
            rw [hfields] at hsome
            cases hsome
          · obtain ⟨rest, -, hnext, hfound⟩ := hpast hfields
            rw [(hz.object ho).named hanonymous] at hnext
            exact absurd hfound (hz.not_found_from_root hself hdots hnext)
  | above missing up seen =>
      by_cases hanonymous : p.isKind Kind.isAnonymous holder
      · -- an object without a name is only what it is itself
        cases Program.eq_of_inherits_anonymous hp hinherits hanonymous
        have hfields : o.fields.get? name = none := by
          refine Option.not_isSome_iff_eq_none.1 fun hsome => ?_
          exact Program.not_mem_fieldNames (hmodule hanonymous) missing
            ((hz.object ho).fields hanonymous name hsome)
        obtain ⟨rest, rfl, hnext, hfound⟩ := hpast hfields
        have hsits := hattached.sits hp.complete.numbered ((hz.object ho).sited hanonymous)
        obtain ⟨body, less, hle, hzone, hblock, hseen⟩ :=
          hsits.sighted hp.complete hflat hfield up seen
        exact .cons (hanswer.trans hfields) (hrest (Nat.lt_succ_of_le hle) hzone hblock
          (hsits.attached hp.complete.numbered hattached hzone) hseen hnext hfound)
      · have hcontainer := Program.isContainer_of_isHolder hholder hanonymous
        exact absurd seen
          (Program.not_sighted_above_container hp.complete hflat hfield hcontainer up)

/-- From the context of a block the search for a field that is `Sighted` there
ends at the field (`FindsField`). The induction is over the depth of the
sighting; each block on the way is silent by `not_mayBind`. -/
theorem finds_field (hf : h.FieldsSet p) (hname : name ∉ ["", exceptionLocal, previousLocal])
    {depth : Nat} {context : ContextId} {body : NodeId} (hzone : zones context = .block body)
    (hblock : p.isKind Kind.isBlock body) (hattached : p.Attached body)
    (hseen : p.Sighted name field depth body) (hchain : h.Chain (.context context) chain)
    (found : chain.findSome? (h.answer? name) = some value) :
    h.FindsField p owner name value chain := by
  have hnumbered := hp.complete.numbered
  -- the nodes that are left on the way to the field become fewer
  induction depth using Nat.strong_induction_on generalizing context body chain with
  | _ depth ih =>
      have hcode : p.isKind Kind.isCode body :=
        Program.isKind_mono (fun kind hk => by rw [Kind.isCode, hk, Bool.or_true]) hblock
      obtain ⟨less, above, rfl, hup, habove⟩ :=
        hseen.up hnumbered hflat hfield (Program.not_owner_of_isCode hcode)
      obtain ⟨c, hc⟩ := hchain.exists_context found
      obtain ⟨hanchored, -⟩ := hzone ▸ (hz.context hc).hangs
      -- the context does not answer, and the search goes on to where it hangs from
      have hgoes (hnot : ¬ (p.isModule above ∨ p.isKind Kind.isDescribe above)) :
          ∃ link rest, h.answer? name (.context context) = none ∧ c.parent = some link
            ∧ chain = .context context :: rest ∧ h.Chain link rest
            ∧ rest.findSome? (h.answer? name) = some value := by
        have hsilent := hz.answer?_eq_none hself context (by
          rw [hzone]
          exact hseen.not_mayBind hp.complete hflat hfield hblock hup hnot hname)
        obtain ⟨link, rest, heq, hleads, hnext, hfound⟩ := hchain.onward hsilent found
        obtain ⟨c', hc', hparent⟩ := Option.bind_eq_some_iff.1 hleads
        cases hc.symm.trans hc'
        exact ⟨link, rest, hsilent, hparent, heq, hnext, hfound⟩
      have hroutine (hr : p.isKind Kind.isRoutine above) :
          ¬ (p.isModule above ∨ p.isKind Kind.isDescribe above) := by
        refine Program.not_owner_of_isKind (fun kind hkind => ?_) hr
        cases kind <;> first | exact ⟨rfl, rfl⟩ | cases hkind
      cases hlink : c.parent with
      | none => rw [hlink] at hanchored; cases hanchored
      | some link =>
          rw [hlink] at hanchored
          cases hanchored with
          | owned parent routine above' holder known inherits =>
              cases hup.symm.trans parent
              obtain ⟨link, rest, hsilent, hparent, rfl, hnext, hfound⟩ := hgoes (hroutine routine)
              cases hlink.symm.trans hparent
              obtain ⟨least, _, rfl, hup', hseen'⟩ :=
                habove.up hnumbered hflat hfield (hroutine routine)
              cases above'.symm.trans hup'
              refine .cons hsilent (finds_field_of_object hp hflat hfield hz hdots hself known
                (hf.parent hc hlink) holder inherits ((hattached.up hnumbered hup).up hnumbered
                above') hseen' hnext hfound fun hlt hzone hblock hattached hseen hchain found => ?_)
              exact ih _ (by omega) hzone hblock hattached hseen hchain found
          | nested sited =>
              have hsits := hattached.sits hnumbered sited
              obtain ⟨above', hup', hcode'⟩ := hsits.parent
              cases hup.symm.trans hup'
              obtain ⟨link, rest, hsilent, hparent, rfl, hnext, hfound⟩ :=
                hgoes (Program.not_owner_of_isCode hcode')
              cases hlink.symm.trans hparent
              obtain ⟨body', least, hle, hzone', hblock', hseen'⟩ :=
                hsits.sighted hp.complete hflat hfield hup habove
              exact .cons hsilent (ih least (by omega) hzone' hblock'
                (hsits.attached hnumbered hattached hzone') hseen' hnext hfound)
          | outermost parent routine plain =>
              cases hup.symm.trans parent
              obtain ⟨link, rest, -, hparent, -, hnext, hfound⟩ := hgoes (hroutine routine)
              cases hlink.symm.trans hparent
              exact absurd hfound (hz.not_found_from_root hself hdots hnext)

end

end Heap.Zoned

-- ============================================================ references

/-- A reference to a field `ReadsAs` the name of the field. -/
theorem Program.ReadsAs.field {p : Program} {owner field node : NodeId} {name read : String}
    (hreads : p.ReadsAs node read)
    (hkind : p.kind? node = some (.reference name (some field))) (hfield : p.FieldOf owner field)
    (hname : p.name? field = some name) : read = name := by
  obtain ⟨t, htree, hvalue⟩ := hreads
  have htarget : t.kind = .reference name (some field) := by
    rw [kind?, htree] at hkind
    exact Option.some.inj hkind
  obtain ⟨kind, hfieldKind, hisField⟩ := (Option.any_eq_true _ _).1 hfield.isField
  cases kind with
  | field own isConst initial =>
      rw [valueName, linkedTarget, htarget] at hvalue
      simp only [Kind.target?, bind, Except.bind, globalName?, hfieldKind] at hvalue
      cases hvalue
      rw [name?, hfieldKind] at hname
      exact Option.some.inj hname
  | _ => cases hisField

namespace Engine

variable {e : Engine} {m m' : Machine} {f : Frame} {rest : List Frame}

/-- In a `Traced` state a note about a reference is one about a `load`, sited
where its frame runs. -/
theorem Traced.reference_noted (he : e.LinkedWithCore) {j : Journal} (h : e.Traced True j m)
    (hframes : m.frames = f :: rest) {i : Instruction} (hi : f.code[f.pc]? = some i)
    {node : NodeId} (hnote : (j f.context)[f.pc]? = some (.reference node)) :
    ∃ zones read, m.heap.Zoned e.program zones ∧ i = .load read ∧ e.program.ReadsAs node read
      ∧ e.program.Sited (zones f.context) node := by
  obtain ⟨zones, hbelow, htop⟩ := h.laidOut he
  rw [hframes] at htop
  obtain ⟨-, -, hstands⟩ := htop f rfl
  have hdrop : f.code.drop f.pc = i :: f.code.drop (f.pc + 1) := by
    obtain ⟨hlt, rfl⟩ := List.getElem?_eq_some_iff.1 hi
    exact List.drop_eq_getElem_cons hlt
  -- the journal has notes for the frame, and the next is about the reference
  have hnoted {note : Note} {notes : List Note} (hreads : j.Reads f.context f.pc (note :: notes)) :
      note = .reference node := by
    rcases hreads.head with hnone | hsome
    · rw [hnone] at hnote
      cases hnote
    · exact Option.some.inj (hsome.symm.trans hnote)
  rcases hstands with (hcode | ⟨notes, hlaid, hreads⟩) | ⟨_, _, _, _, notes, -, -, hreads, -⟩
  · rw [hcode] at hi
    cases hi
  · rw [hdrop] at hlaid
    generalize f.code.drop (f.pc + 1) = code, hzone : zones f.context = zone at hlaid
    cases hlaid with
    | reference reads sited _ =>
        cases hnoted hreads
        exact ⟨zones, _, hbelow.heap, rfl, reads, hzone ▸ sited⟩
    | _ => cases hnoted hreads
  · cases hnoted hreads

/-- A frame that goes on with one more operand has executed an
instruction. -/
theorem exists_instruction {value : ObjectId} (hframes : m.frames = f :: rest)
    (does : e.step m = .ok () m') (pushes : m'.frames = f.next.push value :: rest) :
    ∃ i, f.code[f.pc]? = some i := by
  have hsteps := step_steps (e := e) hframes
  rw [does] at hsteps
  cases hsteps with
  | done _ => exact absurd pushes.symm (List.cons_ne_self _ _)
  | next hi _ => exact ⟨_, hi⟩
  | leaves hi _ _ => exact ⟨_, hi⟩
  | raises hi _ _ _ => exact ⟨_, hi⟩

/-- A `load` that leaves a value has found it by `lookup`. -/
theorem lookup_of_step {name : String} {value : ObjectId} (hframes : m.frames = f :: rest)
    (hload : f.code[f.pc]? = some (.load name)) (does : e.step m = .ok () m')
    (pushes : m'.frames = f.next.push value :: rest) :
    m.heap.lookup f.context name = some value := by
  have hsteps := step_steps (e := e) hframes
  rw [does] at hsteps
  cases hsteps with
  | done ended => cases hload.symm.trans ended
  | next hi does =>
      cases hload.symm.trans hi
      cases does with
      | load found =>
          have hoperands := congrArg Frame.operands (List.cons.inj pushes).1
          cases (List.cons.inj hoperands).1
          exact found
  | leaves hi does _ =>
      cases hload.symm.trans hi
      cases does
  | @raises _ fault raisedValue m₁ m₂ _ hi does raised ends =>
      cases hload.symm.trans hi
      cases does with
      | fault _ _ tail =>
          -- an exception leaves fewer frames than there were
          have htail : m₂.frames.tail = rest := by cases raised <;> exact tail
          cases ends with
          | caught unwinds =>
              have hfewer := unwind_length_le .exception m₂.frames.tail
              rw [unwinds, htail] at hfewer
              have hlength := congrArg List.length pushes
              simp only [List.length_cons] at hfewer hlength
              omega

end Engine

open Engine Program in
/-- A reference to a field, in code that runs where it stands (`Attached`),
reads the field. Whatever its `load` finds is a field of an object whose module
inherits from the one that declares it, and no context or object that the search
meets before has the name. -/
theorem field_references_read_fields {p : Program} {maxFrames : Nat} {e : Engine} (hp : p.Linked)
    (hcreate : create p Natives.core maxFrames = .ok e) (hflat : p.Flat)
    (hnames : ∀ name ∈ ["self", "", exceptionLocal, previousLocal], p.Avoids name)
    {j : Journal} {m : Machine} (htraced : e.Traced True j m) {f : Frame} {rest : List Frame}
    (hframes : m.frames = f :: rest) {node owner field : NodeId} {name : String}
    (hnote : (j f.context)[f.pc]? = some (.reference node))
    (hkind : p.kind? node = some (.reference name (some field))) (hdots : '.' ∉ name.toList)
    (hfield : p.FieldOf owner field) (hattached : p.Attached node) {value : ObjectId}
    {m' : Machine} (does : e.step m = .ok () m')
    (pushes : m'.frames = f.next.push value :: rest) :
    ∃ id o, m.heap.Reads f.context name (.object id) ∧ m.heap.object? id = some o
      ∧ o.fields.get? name = some value ∧ p.inherits o.module owner := by
  obtain ⟨rfl, he⟩ := linkedWithCore_of_create hp (hnames _ (by simp)) hcreate
  have hnumbered := hp.complete.numbered
  obtain ⟨i, hi⟩ := exists_instruction hframes does pushes
  obtain ⟨zones, read, hz, rfl, hreads, hsited⟩ := htraced.reference_noted he hframes hi hnote
  -- what the linker saw around the reference
  have hsits := hattached.sits hnumbered hsited
  obtain ⟨above, hup, hcode⟩ := hsits.parent
  obtain ⟨depth, hseen⟩ := hp.sighted hflat hfield hkind hdots hup hcode
  have hname : e.program.name? field = some name := hseen.name_eq hnumbered
  have havoids {other : String}
      (hmem : other ∈ ["self", "", exceptionLocal, previousLocal]) : name ≠ other := by
    rintro rfl
    obtain ⟨kind, hfieldKind, hown⟩ := Option.bind_eq_some_iff.1 hname
    exact (hnames name hmem).kind? hfieldKind hown
  obtain ⟨body, less, -, hzone, hblock, hseen⟩ :=
    hsits.sighted hp.complete hflat hfield hup hseen
  -- what the machine finds
  obtain rfl := hreads.field hkind hfield hname
  have hfound := lookup_of_step hframes hi does pushes
  have hlawful : e.natives.Lawful := he.natives ▸ Natives.core_lawful
  obtain ⟨rank, hrank⟩ := ((htraced.visited hlawful).built hlawful).linksKnown_and_ranked.2
  obtain ⟨chain, hchain⟩ := hrank.exists_chain (.context f.context)
  have hlookup := hchain.lookup_eq hrank read
  have hreserved : read ∉ ["", exceptionLocal, previousLocal] :=
    fun hmem => havoids (List.mem_cons_of_mem _ hmem) rfl
  obtain ⟨before, id, o, after, rfl, hbefore, ho, hvalue, hinherits⟩ :=
    hz.finds_field hp hflat hfield hdots (havoids List.mem_cons_self)
      (htraced.fieldsSet he).1.heap hreserved hzone hblock
      (hsits.attached hnumbered hattached hzone) hseen hchain (hlookup.symm.trans hfound)
  have hslot : m.heap.slot? read (.object id) = some value := by
    rw [Heap.slot?, ho, Option.bind_some, hvalue]
  exact ⟨id, o, ⟨before, after, hchain, hbefore, by rw [hslot]; rfl, hslot.trans hfound.symm⟩, ho,
    hvalue, hinherits⟩

-- ============================================================== examples

/-- Whether the next instruction, if it is an `init`, initializes an object as
what it is. -/
def Machine.isProper (m : Machine) : Bool :=
  match m.frames with
  | [] => true
  | f :: _ =>
    match f.code[f.pc]?, f.operands with
    | some (.init _ start true), receiver :: _ =>
      (m.heap.object? receiver).all fun o => o.module == start
    | _, _ => true

theorem Machine.proper_of_isProper {m : Machine} (h : m.isProper) : m.Proper := by
  intro f rest arity start receiver others o hframes hi top ho
  simp only [isProper, hframes, hi, top, ho, Option.all_some, beq_iff_eq] at h
  exact h

/-- The machine a number of steps later, if every state before `isProper` and
has a frame below the running one. -/
def Engine.regularAfter (e : Engine) : Nat → Machine → Option Machine
  | 0, m => some m
  | n + 1, m =>
    if m.isProper && decide (1 < m.frames.length) then
      match e.step m with
      | .ok _ m' => e.regularAfter n m'
      | .error _ _ => none
    else none

theorem Engine.Traced.regularAfter {e : Engine} {j : Journal} {n : Nat} {m m' : Machine}
    (h : e.Traced True j m) (hn : e.regularAfter n m = some m') : ∃ j', e.Traced True j' m' := by
  induction n generalizing j m with
  | zero =>
      cases hn
      exact ⟨j, h⟩
  | succ n ih =>
      rw [Engine.regularAfter] at hn
      split at hn
      · next hregular =>
        rw [Bool.and_eq_true, decide_eq_true_iff] at hregular
        split at hn
        · next hstep =>
          exact ih (h.step hregular.2 (fun _ => Machine.proper_of_isProper hregular.1) hstep) hn
        · cases hn
      · cases hn

instance Program.decidableDetached (p : Program) (node : NodeId) : Decidable (p.Detached node) :=
  decidable_of_iff ((p.parent? node).any fun above => (p.kind? above).any fun kind =>
    decide (node ∈ kind.detached.map Tree.identity)
      || kind.isVariable && ((p.parent? above).bind p.kind?).any Kind.isDescribe) (by
    simp only [Detached, Option.any_eq_true, Bool.or_eq_true, Bool.and_eq_true, decide_eq_true_iff]
    constructor
    · rintro ⟨above, hup, kind, hkind, h⟩
      exact ⟨above, kind, hup, hkind, h⟩
    · rintro ⟨above, kind, hup, hkind, h⟩
      exact ⟨above, hup, kind, hkind, h⟩)

namespace Box

open Build

/-- A class with a constructor that passes a closure on to another one. The
closure names a field; a variable of the constructor has the same name. -/
def trees (reference : String → NodeId → Tree) : List Tree :=
  [Sample.library [],
   classNamed "Box"
    [field "x" (boolean true), bareField "kept",
     constructor ["block"] [.of (.assignment (reference "kept" 12) (reference "block" 14))],
     constructorCalling [] false [closure [] [reference "x" 10]] [var "x" (boolean false)],
     method "call" []
      [answer (send (closure [] [send (reference "kept" 12) "apply" []]) "apply" [])]],
   program "main" [send (.of (.newInstance (reference "Box" 9) [])) "call" []]]

def forest : List Tree := trees fun name _ => reference name

def engine : Engine :=
  Sample.engineOf (trees fun name target => .of (.reference name (some target)))

def program : Program := engine.program

theorem linked : program.Linked :=
  .link (fun _ hnone => by cases hnone) (by decide +kernel)
    (show Program.link none forest = .ok program by cbv)

theorem created : Engine.create program Natives.core 8 = .ok engine := rfl

theorem flat : program.Flat := ⟨by decide +kernel, by decide +kernel⟩

theorem avoids : ∀ name ∈ ["self", "", exceptionLocal, previousLocal], program.Avoids name := by
  unfold Program.Avoids
  decide +kernel

/-- The box is made, and asked to call what it has kept. -/
def heap : Heap where
  objects := engine.initialHeap.objects ++
    #[{ id := 4, module := 9, fields := [("x", .true), ("kept", 5)] },
      { id := 5, module := 21, parent := 2, answersSelf := false },
      { id := 6, module := 34, parent := 5, answersSelf := false }]
  contexts := #[{ parent := none }, { parent := some (.context 0) },
    { parent := some (.object 4), locals := [("self", 4), ("x", .false)] },
    { parent := some (.object 5), locals := [("self", 5)] },
    { parent := some (.object 4), locals := [("self", 4), ("block", 5)] },
    { parent := some (.object 4) },
    { parent := some (.object 6), locals := [("self", 6)] }]

/-- The frame of the program. -/
def main : Frame where
  code := [.instantiate 9 none, .init 0 9 true, .call "call" 0 none, .interrupt .result]
  context := 1
  pc := 3
  resume := [.return]

/-- The frame of the box. -/
def calling (pc : Nat) (operands : List ObjectId) : Frame where
  code := [.instantiate 34 none, .init 0 34 true, .call "apply" 0 none, .interrupt .return,
    .push .void, .interrupt .return]
  context := 5
  pc := pc
  operands := operands

/-- The frame of the closure that the box makes. -/
def asking (pc : Nat) (operands : List ObjectId) : Frame where
  code := [.load "kept", .call "apply" 0 none, .interrupt .return, .push .void,
    .interrupt .return]
  context := 7
  pc := pc
  operands := operands

/-- The frame of the closure that the box has kept. -/
def reading (pc : Nat) (operands : List ObjectId) : Frame where
  code := [.load "x", .interrupt .return, .push .void, .interrupt .return]
  context := 8
  pc := pc
  operands := operands

def ready : Machine := { heap, frames := [calling 2 [6], main, holderFrame 1] }

/-- The state in which the field is to be read, or has been read. -/
def asked (pc : Nat) (operands : List ObjectId) : Machine where
  heap := (heap.newContext (.object 6)).2
  frames := [asking pc operands, (calling 3 []).resuming [.return], main, holderFrame 1]

/-- The same, of the closure in the argument. -/
def read (pc : Nat) (operands : List ObjectId) : Machine where
  heap := ((heap.newContext (.object 6)).2.newContext (.object 5)).2
  frames := [reading pc operands, (asking 2 []).resuming [.return],
    (calling 3 []).resuming [.return], main, holderFrame 1]

theorem ready_traced : ∃ j, engine.Traced True j ready := by
  have hinitial : engine.Traced True _ _ := .initial
  have hmain : program.tree? 40 = some _ := rfl
  have hentered := hinitial.block rfl (Program.tree?_mem hmain) rfl rfl .globals rfl
  exact hentered.regularAfter (n := 32) (by cbv)

theorem asked_traced :
    ∃ j, engine.Traced True j (asked 0 []) ∧ (j 7)[0]? = some (.reference 39) := by
  obtain ⟨j, h⟩ := ready_traced
  exact ⟨_, h.step (by decide) (fun _ => Machine.proper_of_isProper rfl) (by cbv), by cbv⟩

theorem asked_step : engine.step (asked 0 []) = .ok () (asked 1 [5]) := by cbv

theorem read_traced :
    ∃ j, engine.Traced True j (read 0 []) ∧ (j 8)[0]? = some (.reference 25) := by
  obtain ⟨j, h, -⟩ := asked_traced
  have hasked := h.step (by decide) (fun _ => Machine.proper_of_isProper rfl) asked_step
  exact ⟨_, hasked.step (by decide) (fun _ => Machine.proper_of_isProper rfl) (by cbv), by cbv⟩

theorem read_step : engine.step (read 0 []) = .ok () (read 1 [.false]) := by cbv

theorem fieldOf_kept : program.FieldOf 9 12 :=
  ⟨by decide +kernel, by decide +kernel, by decide +kernel⟩

theorem fieldOf_x : program.FieldOf 9 10 :=
  ⟨by decide +kernel, by decide +kernel, by decide +kernel⟩

theorem attached : program.Attached 39 := by
  unfold Program.Attached
  decide +kernel

/-- The closure in the argument `Reads` the variable before the field. -/
theorem reads_local : (read 0 []).heap.Reads 8 "x" (.context 2) := by
  refine ⟨[.context 8, .object 5], [.object 4, .context 0], ?_, ?_, rfl, by cbv⟩
  · exact .cons rfl (.cons rfl (.cons rfl (.cons rfl (.last rfl))))
  · decide

end Box

open Engine Program in
/-- A closure of the box asks it for what it has kept. -/
theorem box_reads_what_it_kept :
    ∃ j, Box.engine.Traced True j (Box.asked 0 []) ∧ (j 7)[0]? = some (.reference 39)
      ∧ Box.program.Attached 39 ∧ Box.engine.step (Box.asked 0 []) = .ok () (Box.asked 1 [5])
      ∧ ∃ id o, (Box.asked 0 []).heap.Reads 7 "kept" (.object id)
        ∧ (Box.asked 0 []).heap.object? id = some o ∧ o.fields.get? "kept" = some 5
        ∧ Box.program.inherits o.module 9 := by
  obtain ⟨j, htraced, hnote⟩ := Box.asked_traced
  have hkind : Box.program.kind? 39 = some (.reference "kept" (some 12)) := rfl
  exact ⟨j, htraced, hnote, Box.attached, Box.asked_step,
    field_references_read_fields Box.linked Box.created Box.flat Box.avoids htraced rfl hnote hkind
      (by decide) Box.fieldOf_kept Box.attached Box.asked_step rfl⟩

open Engine Program in
/-- The closure that is kept stands in the argument of a base call, which is
the only part around it that is detached. It is run with the linker's word
that it reads a field, and reads a variable of the constructor. -/
theorem argument_reads_local :
    Box.program.Linked ∧ create Box.program Natives.core 8 = .ok Box.engine ∧ Box.program.Flat
      ∧ (∀ name ∈ ["self", "", exceptionLocal, previousLocal], Box.program.Avoids name)
      ∧ Box.program.kind? 25 = some (.reference "x" (some 10)) ∧ Box.program.FieldOf 9 10
      ∧ Box.program.Sits (.block 23) 25 ∧ Box.program.parent? 23 = some 22
      ∧ Box.program.isKind Kind.isMethod 22
      ∧ (∀ above ∈ 25 :: Box.program.ancestors 25, Box.program.Detached above →
        (Box.program.parent? above).any (Box.program.isKind Kind.isConstructor))
      ∧ ∃ j, Box.engine.Traced True j (Box.read 0 []) ∧ (j 8)[0]? = some (.reference 25)
        ∧ Box.engine.step (Box.read 0 []) = .ok () (Box.read 1 [.false])
        ∧ (Box.read 0 []).heap.Reads 8 "x" (.context 2)
        ∧ ((Box.read 0 []).heap.object? 4).bind (·.fields.get? "x") = some .true := by
  obtain ⟨j, htraced, hnote⟩ := Box.read_traced
  have hreturned : Box.program.parent? 25 = some 24 := rfl
  exact ⟨Box.linked, Box.created, Box.flat, Box.avoids, rfl, Box.fieldOf_x,
    .inside hreturned rfl (.sentence rfl rfl), rfl, rfl, by decide +kernel, j, htraced, hnote,
    Box.read_step, Box.reads_local, rfl⟩

end ObjectMachine
