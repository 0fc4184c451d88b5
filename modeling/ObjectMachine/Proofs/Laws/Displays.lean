/-
Texts of collections.

The text of a collection is made of the texts of its elements. Collections
can be changed, so one may be inside itself, and then its text goes on for
ever: nothing remembers where it has been. An object has a text exactly if
none of the collections inside it is inside itself (`display?_isSome_iff`).

Only adding an element can bring that about, and only where what is added to
is inside what is added (`Heap.Ties`). An evaluation in which this has not
happened has a text for every object, and one in which it has happened never
has again (`display_ends_unless_tied`).
-/
import Mathlib
import ObjectMachine.Proofs.Laws.Scopes

namespace ObjectMachine

open Relation

namespace Heap

/-- An object is an element of a collection, the `inner` part of another object.
The objects that every heap starts with are shown by name, whatever they
hold. -/
def Element (h : Heap) (element id : ObjectId) : Prop :=
  ObjectId.void < id
    ∧ ∃ elements, (h.object? id).bind Object.inner = some (.collection elements)
      ∧ element ∈ elements

/-- A collection gets an `Element` that it is inside of, or that it is
itself. -/
def Ties (h h' : Heap) : Prop :=
  ∃ id element elements, ObjectId.void < id
    ∧ (h.object? id).bind Object.inner = some (.collection elements)
    ∧ ReflTransGen h.Element id element
    ∧ h' = h.updateObject id fun o =>
        { o with inner := some (.collection (elements ++ [element])) }

variable {h h' : Heap} {id : ObjectId}

-- =============================================================== nesting

theorem Element.lt_size {element : ObjectId} (held : h.Element element id) : id < h.size := by
  obtain ⟨-, elements, hinner, -⟩ := held
  obtain ⟨o, ho, -⟩ := Option.bind_eq_some_iff.1 hinner
  exact lt_size_of_object? ho

theorem not_transGen_of_acc (hacc : Acc h.Element id) : ¬ TransGen h.Element id id := by
  have htrans : Acc (TransGen h.Element) id := acc_transGen_iff.2 hacc
  clear hacc
  induction htrans with
  | intro x _ ih => exact fun hcycle => ih x hcycle hcycle

/-- A heap is finite, so there is no end to what is inside an object only if a
collection inside it is inside itself. -/
theorem acc_of_untied (h : Heap)
    (huntied : ∀ c, ReflTransGen h.Element c id → ¬ TransGen h.Element c c) :
    Acc h.Element id := by
  -- what is inside is either without elements or one of the objects there are
  let Inside := { c : ObjectId // c < h.size ∧ ReflTransGen h.Element c id }
  let Within (a b : Inside) : Prop := TransGen h.Element a.1 b.1
  have hfinite : Finite Inside :=
    Set.Finite.subset (Set.finite_lt_nat h.size) fun c hc => hc.1
  have htrans : IsTrans Inside Within := ⟨fun _ _ _ hab hbc => hab.trans hbc⟩
  have hirrefl : Std.Irrefl Within := ⟨fun c => huntied c.1 c.2.2⟩
  have hwf : WellFounded Within := Finite.wellFounded_of_trans_of_irrefl Within
  have hinside (c : Inside) : Acc h.Element c.1 := by
    induction c using hwf.induction with
    | _ c ih =>
        refine ⟨_, fun a ha => ?_⟩
        by_cases hsize : a < h.size
        · exact ih ⟨a, hsize, .head ha c.2.2⟩ (.single ha)
        · exact ⟨_, fun b hb => absurd hb.lt_size hsize⟩
  by_cases hsize : id < h.size
  · exact hinside ⟨id, hsize, .refl⟩
  · exact ⟨_, fun b hb => absurd hb.lt_size hsize⟩

theorem acc_element_iff :
    Acc h.Element id ↔ ∀ c, ReflTransGen h.Element c id → ¬ TransGen h.Element c c := by
  refine ⟨fun hacc c inside => not_transGen_of_acc ?_, acc_of_untied h⟩
  induction inside using ReflTransGen.head_induction_on with
  | refl => exact hacc
  | head held _ ih => exact ih.inv held

end Heap

-- ================================================================= texts

theorem mapM_isSome_iff {α β : Type} {f : α → Option β} {l : List α} :
    (l.mapM f).isSome ↔ ∀ a ∈ l, (f a).isSome := by
  induction l with
  | nil => simp
  | cons a rest ih =>
      rw [List.mapM_cons, List.forall_mem_cons, ← ih]
      cases f a with
      | none => simp
      | some b => cases rest.mapM f <;> simp

namespace World

variable {w : World} {h : Heap} {id : ObjectId}

/-- A text of `display?` was made of texts inside that there are. -/
theorem acc_of_display? {text : String} (hsome : w.display? h id = some text) :
    Acc h.Element id := by
  refine display?.partial_correctness w h (fun id _ => Acc h.Element id) ?_ id text hsome
  intro inner ih id text htext
  refine ⟨_, fun element held => ?_⟩
  obtain ⟨hid, elements, hinner, hmem⟩ := held
  obtain ⟨o, ho, hcollection⟩ := Option.bind_eq_some_iff.1 hinner
  rw [if_neg (Nat.not_le.2 hid), ho] at htext
  dsimp only at htext
  rw [hcollection] at htext
  obtain ⟨items, hitems, -⟩ := Option.bind_eq_some_iff.1 htext
  have hall := mapM_isSome_iff.1 (Option.isSome_of_eq_some hitems)
  obtain ⟨item, hitem⟩ := Option.isSome_iff_exists.1 (hall element hmem)
  exact ih element item hitem

theorem display?_of_acc (w : World) (hacc : Acc h.Element id) : (w.display? h id).isSome := by
  induction hacc with
  | intro id _ ih =>
      rw [display?]
      split
      · rfl
      · next hid =>
        split
        · rfl
        · next o ho =>
          split
          · rfl
          · rfl
          · next elements hinner =>
            have hall : ∀ a ∈ elements, (w.display? h a).isSome := fun a ha =>
              ih a ⟨Nat.not_le.1 hid, elements, by rw [ho, Option.bind_some, hinner], ha⟩
            obtain ⟨items, hitems⟩ := Option.isSome_iff_exists.1 (mapM_isSome_iff.2 hall)
            rw [hitems]
            rfl
          · rfl

/-- `display?` ends unless a collection inside the object is inside itself. -/
theorem display?_isSome_iff : (w.display? h id).isSome
    ↔ ∀ c, ReflTransGen h.Element c id → ¬ TransGen h.Element c c := by
  rw [← Heap.acc_element_iff]
  refine ⟨fun hsome => ?_, display?_of_acc w⟩
  obtain ⟨text, htext⟩ := Option.isSome_iff_exists.1 hsome
  exact acc_of_display? htext

end World

-- =============================================================== changes

namespace Heap

variable {h h' : Heap}

/-- A heap that is `Closed` has nothing inside that has a new object inside. -/
theorem Closed.not_within {a : ObjectId} (hc : h.Closed) (ha : a < h.size) :
    ¬ ReflTransGen h.Element h.size a := by
  intro within
  rcases ReflTransGen.cases_head within with heq | ⟨c, ⟨-, elements, hinner, hmem⟩, -⟩
  · exact Nat.lt_irrefl _ (heq ▸ ha)
  · obtain ⟨o, ho, hcollection⟩ := Option.bind_eq_some_iff.1 hinner
    have hid : h.size ∈ o.ids := by
      rw [Object.ids, hcollection]
      exact List.mem_append_right _ hmem
    exact Nat.lt_irrefl _ ((hc.object ho).1 _ hid)

/-- One object may get elements that it is not inside of, and `Element` stays
well founded. -/
theorem acc_of_new (hall : ∀ c, Acc h.Element c) {id : ObjectId}
    (hnew : ∀ {a b}, h'.Element a b → h.Element a b ∨ b = id ∧ ¬ ReflTransGen h.Element id a)
    (c : ObjectId) : Acc h'.Element c := by
  -- first what does not have the object inside, where nothing is new
  have houtside {c : ObjectId} (hout : ¬ ReflTransGen h.Element id c) : Acc h'.Element c := by
    induction hall c with
    | intro c _ ih =>
        refine ⟨_, fun a ha => ?_⟩
        rcases hnew ha with hold | ⟨rfl, -⟩
        · exact ih a hold fun hin => hout (hin.tail hold)
        · exact absurd .refl hout
  induction hall c with
  | intro c _ ih =>
      refine ⟨_, fun a ha => ?_⟩
      rcases hnew ha with hold | ⟨-, hout⟩
      · exact ih a hold
      · exact houtside hout

/-- `Element` depends on the `inner` part of objects only. -/
theorem element_of_inner (hinner : ∀ id, (h'.object? id).bind Object.inner
    = (h.object? id).bind Object.inner) {a b : ObjectId} (held : h'.Element a b) :
    h.Element a b := by
  rwa [Element, ← hinner]

theorem element_of_intern {key : String} {module : NodeId} {inner : Inner}
    (hinner : ∀ elements, inner ≠ .collection elements) {a b : ObjectId}
    (held : (h.intern key module inner).2.Element a b) : h.Element a b := by
  unfold Heap.intern at held
  split at held
  · exact held
  · obtain ⟨hid, elements, hb, hmem⟩ := held
    have hobject : (h.allocate { module, inner := some inner }).2.object? b = _ :=
      object?_allocate ..
    change ((h.allocate { module, inner := some inner }).2.object? b).bind _ = _ at hb
    rw [hobject] at hb
    split at hb
    · cases hb
      exact absurd rfl (hinner elements)
    · exact ⟨hid, elements, hb, hmem⟩

/-- After an `Edit` that ties nothing, an `Element` was there before, or it was
put into an object that was not inside of it. -/
theorem Edit.element (edit : Edit h h') (hc : h.Closed) (huntied : ¬ h.Ties h') :
    ∃ id, ∀ {a b}, h'.Element a b → h.Element a b ∨ b = id ∧ ¬ ReflTransGen h.Element id a := by
  cases edit with
  | @allocate module elements parent answersSelf known scope =>
      refine ⟨h.size, fun {a b} held => ?_⟩
      obtain ⟨hid, inside, hb, hmem⟩ := held
      rw [object?_allocate] at hb
      split at hb
      · next heq =>
        cases elements with
        | none => cases hb
        | some elements =>
            cases hb
            exact .inr ⟨heq, hc.not_within (known a hmem)⟩
      · exact .inl ⟨hid, inside, hb, hmem⟩
  | number value module =>
      refine ⟨h.size, fun held => .inl (element_of_intern ?_ held)⟩
      exact fun _ => nofun
  | string value module =>
      refine ⟨h.size, fun held => .inl (element_of_intern ?_ held)⟩
      exact fun _ => nofun
  | newContext known => exact ⟨h.size, fun held => .inl held⟩
  | declare known => exact ⟨h.size, fun held => .inl held⟩
  | @putField id name value known =>
      refine ⟨h.size, fun held => .inl (element_of_inner (fun id' => ?_) held)⟩
      rw [Heap.putField, object?_updateObject]
      split
      · cases h.object? id' <;> rfl
      · rfl
  | @extend id element elements present known =>
      refine ⟨id, fun {a b} held => ?_⟩
      obtain ⟨hid, inside, hb, hmem⟩ := held
      rw [object?_updateObject] at hb
      split at hb
      · next heq =>
        subst heq
        obtain ⟨o, ho, hinner⟩ := Option.bind_eq_some_iff.1 present
        rw [ho] at hb
        cases hb
        rcases List.mem_append.1 hmem with hold | hnew
        · exact .inl ⟨hid, elements, present, hold⟩
        · rw [List.mem_singleton.1 hnew]
          exact .inr ⟨rfl, fun within => huntied ⟨_, _, _, hid, present, within, rfl⟩⟩
      · exact .inl ⟨hid, inside, hb, hmem⟩

theorem Edit.change (edit : Edit h h') : h.Change (· <+: ·) h' := by
  cases edit with
  | allocate _ _ => exact .allocate ..
  | number value module => exact .number ..
  | string value module => exact .string ..
  | newContext _ => exact .newContext _
  | declare _ => exact .declare ..
  | putField _ => exact .putField ..
  | extend held _ => exact .relist held (List.prefix_append ..)

/-- `Grows` keeps every `Element`. -/
theorem Grows.element {a b : ObjectId} (grows : h.Grows h') (held : h.Element a b) :
    h'.Element a b := by
  obtain ⟨hid, elements, hinner, hmem⟩ := held
  obtain ⟨o, ho, hcollection⟩ := Option.bind_eq_some_iff.1 hinner
  obtain ⟨o', ho', hgrows⟩ := grows.object ho
  obtain ⟨elements', hcollection', hprefix⟩ := hgrows.collection _ hcollection
  exact ⟨hid, elements', by rw [ho', Option.bind_some, hcollection'], hprefix.subset hmem⟩

theorem Reaches.grows (edits : h.Reaches h') : h.Grows h' := by
  induction edits with
  | refl => exact .refl h
  | tail _ edit ih => exact ih.trans edit.change.grows

/-- What `Ties` has tied stays a cycle of `Element`. -/
theorem Ties.cycle {h₁ h₂ : Heap} (ties : h₁.Ties h₂) (edits : h₂.Reaches h) :
    ∃ id, TransGen h.Element id id := by
  obtain ⟨id, element, elements, hid, hinner, within, rfl⟩ := ties
  obtain ⟨o, ho, hcollection⟩ := Option.bind_eq_some_iff.1 hinner
  have hextends : h₁.Grows (h₁.updateObject id fun o =>
      { o with inner := some (.collection (elements ++ [element])) }) :=
    (Change.relist hinner (List.prefix_append elements [element])).grows
  have hgrows := hextends.trans edits.grows
  have hwithin : ReflTransGen h.Element id element :=
    ReflTransGen.mono (fun _ _ held => hgrows.element held) _ _ within
  refine ⟨id, TransGen.tail' hwithin (edits.grows.element ⟨hid, elements ++ [element], ?_, ?_⟩)⟩
  · rw [object?_updateObject, if_pos rfl, ho]
    rfl
  · exact List.mem_append_right _ (List.mem_singleton.2 rfl)

/-- By induction over the edits: until something is tied, `Element` is well
founded. -/
theorem Reaches.acc (edits : h.Reaches h') (hc : h.Closed) (hall : ∀ c, Acc h.Element c)
    (huntied : ¬ ∃ h₁ h₂, h.Reaches h₁ ∧ h₁.Ties h₂ ∧ h₂.Reaches h') (c : ObjectId) :
    Acc h'.Element c := by
  induction edits generalizing c with
  | refl => exact hall c
  | @tail h₁ h₂ edits edit ih =>
      have hacc := ih fun ⟨k, k', hk, ties, hk'⟩ => huntied ⟨k, k', hk, ties, hk'.tail edit⟩
      obtain ⟨id, hnew⟩ := edit.element (Reaches.closed edits hc) fun ties =>
        huntied ⟨h₁, h₂, edits, ties, .refl⟩
      exact acc_of_new hacc hnew c

/-- In the `initial` heap nothing is inside of anything. -/
theorem initial_acc (nullModule booleanModule voidModule : NodeId) (c : ObjectId) :
    Acc (initial nullModule booleanModule voidModule).Element c := by
  refine ⟨_, fun a held => ?_⟩
  obtain ⟨-, elements, hinner, -⟩ := held
  obtain ⟨o, ho, hcollection⟩ := Option.bind_eq_some_iff.1 hinner
  have hmem := Array.mem_of_getElem? ho
  simp only [initial, List.mem_toArray, List.mem_cons, List.not_mem_nil, or_false] at hmem
  rcases hmem with rfl | rfl | rfl | rfl <;> cases hcollection

end Heap

theorem Engine.Visited.reaches {e : Engine} (he : e.natives.Lawful) {m : Machine}
    (h : e.Visited m) : e.initialHeap.Reaches m.heap :=
  h.of_keeps he (I := fun m => e.initialHeap.Reaches m.heap)
    (Keeps.of_edit he fun _ edits edit => edits.tail edit) .refl

/-- `runProgram` that has a value has come to a `Visited` state. -/
theorem Engine.visited_of_value {e : Engine} (he : e.natives.Lawful) {steps₀ steps : Nat}
    {name : String} {value : ObjectId} {m m' : Machine} (hstart : e.start steps₀ = .ok () m)
    (hrun : e.runProgram steps name m = .ok value m') : e.Visited m' := by
  obtain ⟨hmax, hidle, hvisited⟩ := start_keeps he Visited.keeps ⟨_, .initial⟩ hstart
  exact ((runProgram_keeps he hmax Visited.keeps hidle hvisited steps name).of_ok hrun).kept

/-- In a `Visited` state, `display?` of an object ends exactly if no collection
that is inside it, at any depth, is inside itself. Every object has a text
exactly if, on the way to that state, no step `Ties` a collection to an element
that it is inside of. -/
theorem display_ends_unless_tied {e : Engine} (he : e.natives.Lawful) {m : Machine}
    (hvisited : e.Visited m) :
    (∀ id, (e.display? m.heap id).isSome
      ↔ ∀ c, ReflTransGen m.heap.Element c id → ¬ TransGen m.heap.Element c c)
    ∧ ((∀ id, (e.display? m.heap id).isSome)
      ↔ ¬ ∃ h₁ h₂, e.initialHeap.Reaches h₁ ∧ h₁.Ties h₂ ∧ h₂.Reaches m.heap) := by
  refine ⟨fun id => World.display?_isSome_iff, ?_, ?_⟩
  · rintro hall ⟨h₁, h₂, -, ties, edits⟩
    obtain ⟨id, hcycle⟩ := ties.cycle edits
    exact World.display?_isSome_iff.1 (hall id) id .refl hcycle
  · intro huntied id
    exact World.display?_of_acc _ ((hvisited.reaches he).acc (Engine.initialHeap_closed _)
      (Heap.initial_acc _ _ _) huntied id)

namespace Knot

open Build

/-- A reference that leads to a node. -/
def leading (name : String) (target : NodeId) : Tree := .of (.reference name (some target))

/-- A program that adds a list to itself. Its value is the list. -/
def forest : List Tree :=
  [Sample.library [nativeMethod "add" ["element"]],
   program "main"
    [var "list" (.of (.literal (.collection (leading "wollok.lang.List" 8) []))),
     send (leading "list" 13) "add" [leading "list" 13],
     leading "list" 13]]

def engine : Engine := Sample.engineOf forest

theorem starts : engine.start 10 = .ok () { heap := engine.initialHeap } := rfl

/-- The heap in the end. -/
def heap : Heap :=
  (((engine.initialHeap.newContext (.context 0)).2.allocate
    { module := 8, inner := some (.collection []) }).2.declare 1 "list" 4).updateObject 4
      fun o => { o with inner := some (.collection [4]) }

theorem runs : engine.runProgram 20 "main" { heap := engine.initialHeap } = .ok 4 { heap } := by
  cbv

theorem visited : engine.Visited { heap } :=
  Engine.visited_of_value Natives.core_lawful starts runs

theorem element_of_itself : heap.Element 4 4 :=
  ⟨by decide, [4], rfl, List.mem_singleton.2 rfl⟩

end Knot

open Engine in
/-- On the way to the end of that program a list was tied. -/
theorem knot_was_tied :
    Knot.engine.natives.Lawful ∧ Knot.engine.Visited { heap := Knot.heap }
      ∧ ∃ h₁ h₂, Knot.engine.initialHeap.Reaches h₁ ∧ h₁.Ties h₂ ∧ h₂.Reaches Knot.heap := by
  obtain ⟨hends, hall⟩ := display_ends_unless_tied Natives.core_lawful Knot.visited
  refine ⟨Natives.core_lawful, Knot.visited, ?_⟩
  by_contra huntied
  exact (hends 4).1 (hall.2 huntied 4) 4 .refl (.single Knot.element_of_itself)

open Engine in
/-- The value of that program has no text. -/
theorem knot_has_no_text :
    create Knot.engine.program Natives.core 8 = .ok Knot.engine
      ∧ Knot.engine.runProgram 20 "main" { heap := Knot.engine.initialHeap }
        = .ok 4 { heap := Knot.heap }
      ∧ Knot.engine.Visited { heap := Knot.heap }
      ∧ Knot.engine.display? Knot.heap 4 = none := by
  refine ⟨rfl, Knot.runs, Knot.visited, ?_⟩
  rw [← Option.not_isSome_iff_eq_none, World.display?_isSome_iff]
  exact fun huntied => huntied 4 .refl (.single Knot.element_of_itself)

end ObjectMachine
