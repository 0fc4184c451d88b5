/-
Operands that are known to be one object.

While code runs on behalf of an object, that object is on the operand stack
every now and then: `self` has been loaded, or it has been duplicated. Marks
say of each operand of a frame whether it is known to be the object. `Tracks`
follows them through code, instruction by instruction, and asks something of
two kinds of instructions on the way (`Demands`): of calls that go to `super`,
and of returns. All others may do what they like.

Nested code starts without knowledge. It is said of every instruction whether
it is in nested code, as it is not the same who returns.

What is asked of the code of a tree comes down to the nodes whose code is part
of it (`Tree.inline`): the bodies of methods and the initial values of fields
are not, even if they are below it.
-/
import Mathlib
import ObjectMachine.Proofs.Code.Compiled

namespace ObjectMachine

-- ==================================================== nodes in one piece

theorem Kind.inlined_map {α β : Type} (f : α → β) (kind : Kind α) :
    (kind.map f).inlined = kind.inlined.map f := by
  cases kind with
  | literal value => cases value <;> simp [Kind.map, Literal.map, Kind.inlined]
  | ifElse condition thenBody elseBody => cases elseBody <;> simp [Kind.map, Kind.inlined]
  | tryCatch body catches always => cases always <;> simp [Kind.map, Kind.inlined]
  | varDecl name constant value => cases value <;> simp [Kind.map, Kind.inlined]
  | field name constant value => cases value <;> simp [Kind.map, Kind.inlined]
  | constructor parameters baseCall body => cases baseCall <;> simp [Kind.map, Kind.inlined]
  | returnStmt value => cases value <;> simp [Kind.map, Kind.inlined]
  | _ => simp [Kind.map, Kind.inlined]

namespace Tree

/-- The nodes whose code is part of the code of a tree: its `inlined` children,
and theirs. -/
def inline : Tree → List Tree :=
  fold fun t below => t :: below.inlined.flatten

theorem inline_eq (t : Tree) : t.inline = t :: t.kind.inlined.flatMap inline := by
  rw [inline, fold_eq, Kind.inlined_map, List.flatMap]

theorem mem_inline_self (t : Tree) : t ∈ t.inline := by
  rw [inline_eq]
  exact List.mem_cons_self

theorem mem_inline_of_mem {t c s : Tree} (hc : c ∈ t.kind.inlined) (hs : s ∈ c.inline) :
    s ∈ t.inline := by
  rw [inline_eq]
  exact List.mem_cons_of_mem _ (List.mem_flatMap.2 ⟨c, hc, hs⟩)

theorem mem_preorder_of_mem_inline {t s : Tree} (h : s ∈ t.inline) : s ∈ t.preorder := by
  induction t using Tree.ofChildren with
  | h t ih =>
      rw [inline_eq] at h
      rcases List.mem_cons.1 h with rfl | h
      · exact mem_preorder_self _
      · obtain ⟨c, hc, hs⟩ := List.mem_flatMap.1 h
        have hchild : c ∈ t.children := Kind.mem_children_of_mem_inlined hc
        exact mem_preorder_of_child hchild (ih c hchild hs)

end Tree

-- ================================================================ demands

/-- What is asked of calls that go to `super` (`delegates`), given the marks,
and of returns (`returns`), given whether they are in nested code. -/
structure Demands where
  delegates : List Bool → String → Nat → NodeId → Prop := fun _ _ _ _ => True
  returns : Bool → List Bool → Prop := fun _ _ => True

/-- An instruction does what `D` asks of it. -/
def Demands.Met (D : Demands) (block : Bool) (marks : List Bool) : Instruction → Prop
  | .call message arity (some start) => D.delegates marks message arity start
  | .interrupt .return => D.returns block marks
  | _ => True

/-- The marks after a straight instruction. `bySelf` says whether `self` is
the object in question. -/
def Instruction.remark (bySelf : Bool) (marks : List Bool) (i : Instruction) : List Bool :=
  match i with
  | .load name => (bySelf && name == "self") :: marks
  | .dup => marks.take 1 ++ marks
  | i => List.replicate (i.effect?.getD (0, 0)).2 false ++ marks.drop (i.effect?.getD (0, 0)).1

/-- An instruction that leaves nothing that is known: any but `load` and
`dup`. -/
def Instruction.isBlind : Instruction → Bool
  | .load _ | .dup => false
  | _ => true

theorem Instruction.remark_of_isBlind {i : Instruction} {takes leaves : Nat}
    (effect : i.effect? = some (takes, leaves)) (blind : i.isBlind) (bySelf : Bool)
    (marks : List Bool) :
    i.remark bySelf marks = List.replicate leaves false ++ marks.drop takes := by
  unfold remark
  split
  · cases blind
  · cases blind
  · rw [effect, Option.getD_some]

/-- Code whose instructions are `Met`, from certain marks on. Where it can come
to its end it has the marks `final` there. -/
inductive Tracks (D : Demands) (bySelf : Bool) : Bool → Option (List Bool) → List Bool → Code → Prop
  | done {block : Bool} {marks : List Bool} : Tracks D bySelf block (some marks) marks []
  | next {block : Bool} {final : Option (List Bool)} {marks : List Bool} {i : Instruction}
      {rest : Code} {takes leaves : Nat} (effect : i.effect? = some (takes, leaves))
      (enough : takes ≤ marks.length) (met : D.Met block marks i)
      (tail : Tracks D bySelf block final (i.remark bySelf marks) rest) :
      Tracks D bySelf block final marks (i :: rest)
  | jump {block : Bool} {final : Option (List Bool)} {mark : Bool} {marks : List Bool} {count : Nat}
      {rest : Code} (inside : count ≤ rest.length) (stay : Tracks D bySelf block final marks rest)
      (taken : Tracks D bySelf block final marks (rest.drop count)) :
      Tracks D bySelf block final (mark :: marks) (.conditionalJump count :: rest)
  | ifThenElse {block : Bool} {final : Option (List Bool)} {mark : Bool} {marks : List Bool}
      {thenBranch elseBranch rest : Code} (yes : Tracks D bySelf true none [] thenBranch)
      (no : Tracks D bySelf true none [] elseBranch)
      (tail : Tracks D bySelf block final (false :: marks) rest) :
      Tracks D bySelf block final (mark :: marks) (.ifThenElse thenBranch elseBranch :: rest)
  | tryCatchAlways {block : Bool} {final : Option (List Bool)} {marks : List Bool}
      {body handler always rest : Code} (inner : Tracks D bySelf true none [] body)
      (caught : Tracks D bySelf true none [false] handler)
      (last : Tracks D bySelf true none [false] always)
      (tail : Tracks D bySelf block final (false :: marks) rest) :
      Tracks D bySelf block final marks (.tryCatchAlways body handler always :: rest)
  | interrupt {block : Bool} {final : Option (List Bool)} {mark : Bool} {marks : List Bool}
      {kind : Interruption} {rest : Code} (met : D.Met block (mark :: marks) (.interrupt kind)) :
      Tracks D bySelf block final (mark :: marks) (.interrupt kind :: rest)
  | resume {final : Option (List Bool)} {mark : Bool} {marks : List Bool} {rest : Code} :
      Tracks D bySelf true final (mark :: marks) (.resumeInterruption :: rest)

/-- By `remark`, a straight instruction replaces the marks of what it takes by
those of what it leaves. -/
theorem Instruction.exists_remark {i : Instruction} {takes leaves : Nat}
    (effect : i.effect? = some (takes, leaves)) (bySelf : Bool) {own : List Bool}
    (hown : own.length = takes) (marks : List Bool) :
    ∃ left : List Bool, left.length = leaves ∧ i.remark bySelf (own ++ marks) = left ++ marks := by
  unfold remark
  split
  · next name =>
    cases effect
    obtain rfl := List.length_eq_zero_iff.1 hown
    exact ⟨[_], rfl, rfl⟩
  · cases effect
    obtain ⟨mark, rfl⟩ := List.length_eq_one_iff.1 hown
    exact ⟨[mark, mark], rfl, rfl⟩
  · rw [effect, Option.getD_some, ← hown, List.drop_left]
    exact ⟨_, List.length_replicate .., rfl⟩

-- ========================================================= pieces of code

/-- Code that turns `a` operands into `b` on top of whatever there is, of which
nothing need be known: it `Tracks` from any marks. -/
def Stacks (D : Demands) (bySelf : Bool) (a b : Nat) (code : Code) : Prop :=
  ∀ ⦃block : Bool⦄ ⦃final : Option (List Bool)⦄ ⦃marks : List Bool⦄ ⦃more : Code⦄
    (own : List Bool), own.length = a →
    (∀ left : List Bool, left.length = b → Tracks D bySelf block final (left ++ marks) more) →
    Tracks D bySelf block final (own ++ marks) (code ++ more)

section

variable {D : Demands} {bySelf : Bool} {code more : Code} {a b c : Nat}

theorem Stacks.nil (k : Nat) : Stacks D bySelf k k [] := fun _ _ _ _ own hown h => h own hown

theorem Stacks.append (first : Stacks D bySelf a b code) (second : Stacks D bySelf b c more) :
    Stacks D bySelf a c (code ++ more) := by
  intro block final marks rest own hown hrest
  rw [List.append_assoc]
  exact first own hown fun left hleft => second left hleft hrest

theorem Stacks.lift (below : Stacks D bySelf a b code) (k : Nat) :
    Stacks D bySelf (a + k) (b + k) code := by
  intro block final marks more own hown hmore
  have htake : (own.take a).length = a := List.length_take_of_le (hown ▸ Nat.le_add_right a k)
  rw [← List.take_append_drop a own, List.append_assoc]
  refine below _ htake fun left hleft => ?_
  rw [← List.append_assoc]
  refine hmore _ ?_
  rw [List.length_append, hleft, List.length_drop, hown, Nat.add_sub_cancel_left]

theorem Stacks.single {i : Instruction} (effect : i.effect? = some (a, b))
    (met : ∀ block marks, D.Met block marks i) : Stacks D bySelf a b [i] := by
  intro block final marks more own hown hmore
  obtain ⟨left, hleft, hremark⟩ := Instruction.exists_remark effect bySelf hown marks
  refine .next effect ?_ (met block _) ?_
  · rw [List.length_append, hown]
    exact Nat.le_add_right _ _
  · rw [hremark]
    exact hmore left hleft

/-- After an `interrupt` nothing is executed, so it may leave any depth. -/
theorem Stacks.leave {kind : Interruption}
    (met : ∀ block marks, D.Met block marks (.interrupt kind)) (k : Nat) :
    Stacks D bySelf 1 k [.interrupt kind] := by
  intro block final marks more own hown _
  obtain ⟨mark, rfl⟩ := List.length_eq_one_iff.1 hown
  exact .interrupt (met block (mark :: marks))

/-- `Code.guarded` skips code unless the boolean on top is true. -/
theorem Stacks.guarded (h : Stacks D bySelf 0 0 code) :
    Stacks D bySelf 1 0 (Code.guarded code) := by
  intro block final marks more own hown hmore
  obtain ⟨mark, rfl⟩ := List.length_eq_one_iff.1 hown
  refine .jump ?_ (h [] rfl hmore) ?_
  · show code.length ≤ (code ++ more).length
    rw [List.length_append]
    exact Nat.le_add_right _ _
  · show Tracks D bySelf block final marks ((code ++ more).drop code.length)
    rw [List.drop_left]
    exact hmore [] rfl

/-- Nested code ends in an `interrupt` that hands back what it leaves. -/
theorem Stacks.nested (h : Stacks D bySelf 0 1 code) :
    Tracks D bySelf true none [] (code ++ [.interrupt .result]) := by
  refine h [] rfl fun own hown => ?_
  obtain ⟨mark, rfl⟩ := List.length_eq_one_iff.1 hown
  exact .interrupt trivial

/-- Code that drops the operand it finds and goes on. -/
theorem Tracks.pop {block : Bool} {final : Option (List Bool)} {mark : Bool} {marks : List Bool}
    (h : Tracks D bySelf block final marks code) :
    Tracks D bySelf block final (mark :: marks) (.pop :: code) :=
  .next (show _ = some (1, 0) from rfl) (Nat.succ_le_succ (Nat.zero_le _)) trivial h

theorem Tracks.store {block : Bool} {final : Option (List Bool)} {mark : Bool} {marks : List Bool}
    (name : String) (lookup : Bool) (h : Tracks D bySelf block final marks code) :
    Tracks D bySelf block final (mark :: marks) (.store name lookup :: code) :=
  .next (show _ = some (1, 0) from rfl) (Nat.succ_le_succ (Nat.zero_le _)) trivial h

theorem Tracks.load {block : Bool} {final : Option (List Bool)} {marks : List Bool} (name : String)
    (h : ∀ mark, Tracks D bySelf block final (mark :: marks) code) :
    Tracks D bySelf block final marks (.load name :: code) :=
  .next (show _ = some (0, 1) from rfl) (Nat.zero_le _) trivial (h _)

end

-- ============================================== sentences, expressions

namespace Program

/-- A node whose own instructions do what `D` asks of them: what it sends to
`super`, and what it returns. -/
def Admits (p : Program) (D : Demands) (bySelf : Bool) (t : Tree) : Prop :=
  match t.kind with
  | .superSend args => ∀ message owner, p.superMethod t.identity = .ok (message, owner) →
      ∀ own marks, own.length = args.length →
        D.delegates (own ++ bySelf :: marks) message args.length owner
  | .returnStmt _ => ∀ block marks, D.returns block marks
  | _ => True

/-- A tree whose `inline` nodes all do what `D` asks of them (`Admits`). -/
def AdmitsAll (p : Program) (D : Demands) (bySelf : Bool) (t : Tree) : Prop :=
  ∀ s ∈ t.inline, p.Admits D bySelf s

variable {p : Program} {D : Demands} {bySelf : Bool}

theorem AdmitsAll.part {t c : Tree} (h : p.AdmitsAll D bySelf t) (hc : c ∈ t.kind.inlined) :
    p.AdmitsAll D bySelf c :=
  fun s hs => h s (Tree.mem_inline_of_mem hc hs)

theorem AdmitsAll.own {t : Tree} (h : p.AdmitsAll D bySelf t) : p.Admits D bySelf t :=
  h t (Tree.mem_inline_self t)

end Program

/-- The placement of demands: all nodes are `AdmitsAll`, in whichever zone. -/
def Demands.placement (D : Demands) (bySelf : Bool) (p : Program) : Placement where
  Stands _ t := p.AdmitsAll D bySelf t
  Opens t := p.AdmitsAll D bySelf t
  Declares _ _ := True
  part h _ hc := h.part hc
  detached h hc := h.part (Kind.mem_inlined_of_mem_detached hc)
  opens h := h
  sentence {t c sentences} h hkind hc := h.part (by rwa [hkind])
  declares _ _ _ _ _ := trivial

section

variable {p : Program} {D : Demands} {bySelf : Bool}

theorem Demands.met_of_isPlain {i : Instruction} (h : i.isPlain) (block : Bool)
    (marks : List Bool) : D.Met block marks i := by
  unfold Demands.Met
  split
  · cases h
  · cases h
  · trivial

theorem Stacks.construct (module : NodeId) (arity : Nat) :
    Stacks D bySelf arity 1 [.instantiate module none, .init arity module true] := by
  have hnew : Stacks D bySelf 0 1 [.instantiate module none] := .single rfl fun _ _ => trivial
  have hinit : Stacks D bySelf (arity + 1) 1 [.init arity module true] :=
    .single rfl fun _ _ => trivial
  have hmade := hnew.lift arity
  rw [Nat.zero_add, Nat.add_comm] at hmade
  exact hmade.append hinit

/-- A call that goes to `super`: the first operand is `self`, and the
arguments are on top of it. -/
theorem Stacks.superSend {args : Code} {n : Nat} (h : Stacks D bySelf 0 n args) {message : String}
    {owner : NodeId} (met : ∀ own marks : List Bool, own.length = n →
      D.delegates (own ++ bySelf :: marks) message n owner) :
    Stacks D bySelf 0 1
      ([Instruction.load "self"] ++ args ++ [Instruction.call message n (some owner)]) := by
  intro block final marks more own hown hmore
  obtain rfl := List.length_eq_zero_iff.1 hown
  rw [List.nil_append, List.append_assoc, List.append_assoc]
  refine .next (show _ = some (0, 1) from rfl) (Nat.zero_le _) trivial ?_
  rw [Instruction.remark, beq_self_eq_true, Bool.and_true]
  refine h [] rfl fun own hown => ?_
  have hcount : (own ++ [bySelf]).length = n + 1 := by
    rw [List.length_append, hown, List.length_singleton]
  refine .next (show _ = some (n + 1, 1) from rfl) ?_ (met own marks hown) ?_
  · rw [List.length_append, hown]
    exact Nat.add_le_add_left (Nat.succ_le_succ (Nat.zero_le _)) _
  · rw [Instruction.remark_of_isBlind rfl rfl, ← List.singleton_append, ← List.append_assoc,
      List.drop_left' hcount]
    exact hmore [false] rfl

/-- `Compiled` code `Stacks`: only `superSend` and `leave` have something to
show for `D`. -/
theorem Compiled.stacks {zone : Zone} {a b : Nat} {code : Code} {notes : List Note}
    (h : Compiled p (D.placement bySelf p) zone a b code notes) : Stacks D bySelf a b code := by
  induction h with
  | nil k => exact .nil k
  | append _ _ ih1 ih2 => exact ih1.append ih2
  | lift _ k ih => exact ih.lift k
  | plain effect plain => exact .single effect (Demands.met_of_isPlain plain)
  | push reserved => exact .single rfl fun _ _ => trivial
  | reference stands reads => exact .single rfl fun _ _ => trivial
  | declare declares => exact .single rfl fun _ _ => trivial
  | assign stands kind writes => exact .single rfl fun _ _ => trivial
  | value names effect => exact .single effect fun _ _ => trivial
  | construct names arity => exact .construct _ arity
  | object stands arity => exact .construct _ arity
  | setUp named arity => exact .single rfl fun _ _ => trivial
  | @delegate body start _ arity =>
      have hself : Stacks D bySelf 0 1 [.load "self"] := .single rfl fun _ _ => trivial
      have hinit : Stacks D bySelf (arity + 1) 1 [.init arity start false] :=
        .single rfl fun _ _ => trivial
      have hloaded := hself.lift arity
      rw [Nat.zero_add, Nat.add_comm] at hloaded
      exact hloaded.append hinit
  | superSend stands kind method _ ih =>
      have hown := stands.own
      rw [Program.Admits, kind] at hown
      exact ih.superSend (hown _ _ method)
  | leave stands kind k =>
      have hown := stands.own
      rw [Program.Admits, kind] at hown
      have hmet : ∀ block marks, D.Met block marks (.interrupt .return) := hown
      exact .leave hmet k
  | raise k =>
      have hmet : ∀ block marks, D.Met block marks (.interrupt .exception) := fun _ _ => trivial
      exact .leave hmet k
  | ifThenElse stands kind _ _ ih1 ih2 =>
      intro block final marks more own hown hmore
      obtain ⟨mark, rfl⟩ := List.length_eq_one_iff.1 hown
      exact .ifThenElse ih1.nested ih2.nested (hmore [false] rfl)
  | tryCatchAlways stands kind _ _ _ ih1 ih2 ih3 =>
      intro block final marks more own hown hmore
      obtain rfl := List.length_eq_zero_iff.1 hown
      refine .tryCatchAlways ih1.nested ?_ ?_ (hmore [false] rfl)
      · rw [List.append_assoc, List.singleton_append]
        refine .store exceptionLocal false (ih2 [] rfl fun left hleft => ?_)
        obtain rfl := List.length_eq_zero_iff.1 hleft
        exact .load exceptionLocal fun mark => .interrupt trivial
      · rw [List.append_assoc, List.singleton_append]
        refine .store previousLocal false (ih3 [] rfl fun left hleft => ?_)
        obtain ⟨mark, rfl⟩ := List.length_eq_one_iff.1 hleft
        exact .pop (.load previousLocal fun mark => .resume)
  | handler stands kind among clauseKind _ ih =>
      have hload : Stacks D bySelf 0 1 [.load exceptionLocal] := .single rfl fun _ _ => trivial
      have hstore (name : String) : Stacks D bySelf 1 0 [.store name false] :=
        .single rfl fun _ _ => trivial
      have hmet : ∀ block marks, D.Met block marks (.interrupt .result) := fun _ _ => trivial
      exact ((hload.append (hstore _)).append ih).append (.leave hmet 0)
  | guarded _ ih => exact ih.guarded

end

-- ======================================================== named arguments

namespace Program

variable {p : Program} {D : Demands} {bySelf : Bool}

/-- One field of the object on the stack is set, and nothing else is known of
that object than before. -/
theorem setField_tracks {value more : Code} (h : Stacks D bySelf 0 1 value) (name : String)
    {block : Bool} {final : Option (List Bool)} {mark : Bool} {marks : List Bool}
    (hmore : Tracks D bySelf block final (mark :: marks) more) :
    Tracks D bySelf block final (mark :: marks)
      ([Instruction.dup] ++ value ++ [.set name] ++ more) := by
  rw [List.append_assoc, List.append_assoc, List.singleton_append]
  refine .next (show _ = some (1, 2) from rfl) (Nat.succ_le_succ (Nat.zero_le _)) trivial ?_
  refine h [] rfl fun own hown => .next (show _ = some (2, 0) from rfl) ?_ trivial ?_
  · rw [List.length_append, hown]
    exact Nat.add_le_add_left (Nat.succ_le_succ (Nat.zero_le _)) 1
  · obtain ⟨first, rfl⟩ := List.length_eq_one_iff.1 hown
    exact hmore

/-- Nor is it once the object is told that it is complete. -/
theorem initialized_tracks {more : Code} {block : Bool} {final : Option (List Bool)} {mark : Bool}
    {marks : List Bool} (hmore : Tracks D bySelf block final (mark :: marks) more) :
    Tracks D bySelf block final (mark :: marks)
      ([Instruction.dup, .call "initialize" 0 none, .pop] ++ more) := by
  refine .next (show _ = some (1, 2) from rfl) (Nat.succ_le_succ (Nat.zero_le _)) trivial ?_
  refine .next (show _ = some (1, 1) from rfl) (Nat.succ_le_succ (Nat.zero_le _)) trivial ?_
  exact .pop hmore

/-- `namedArgumentsCode` leaves the object that the arguments are for where it
is. -/
theorem namedArgumentsCode_tracks :
    ∀ (ts : List Tree) {code more : Code} {block : Bool} {final : Option (List Bool)} {mark : Bool}
      {marks : List Bool}, (∀ t ∈ ts, p.AdmitsAll D bySelf t) →
      p.namedArgumentsCode ts = .ok code → Tracks D bySelf block final (mark :: marks) more →
      Tracks D bySelf block final (mark :: marks) (code ++ more)
  | [], code, more, block, final, mark, marks, ha, h, hmore => by
      simp only [namedArgumentsCode, pure_ok_iff] at h
      subst h
      exact hmore
  | .node id span kind :: rest, code, more, block, final, mark, marks, ha, h, hmore => by
      have hresta : ∀ t ∈ rest, p.AdmitsAll D bySelf t :=
        fun t ht => ha t (List.mem_cons_of_mem _ ht)
      cases kind with
      | namedArgument name value =>
          simp only [namedArgumentsCode, bind_ok_iff, pure_ok_iff] at h
          obtain ⟨valueCode, hvalue, restCode, hrest, rfl⟩ := h
          have hadmits : p.AdmitsAll D bySelf value :=
            (ha _ List.mem_cons_self).part List.mem_cons_self
          have hcompiled : Compiled p (D.placement bySelf p) .loose 0 1 valueCode _ :=
            expressionCode_compiled value hadmits hvalue
          rw [List.append_assoc _ restCode]
          exact setField_tracks hcompiled.stacks name
            (namedArgumentsCode_tracks rest hresta hrest hmore)
      | _ =>
          simp only [namedArgumentsCode] at h
          exact namedArgumentsCode_tracks rest hresta h hmore
termination_by structural ts => ts

-- ==================================================== units of a program

/-- `methodCode` returns `void` if nothing else is returned. -/
theorem methodCode_tracks {method : NodeId} {code : Code}
    (ha : ∀ name parameters body native,
      p.kind? method = some (.method name parameters (some body) native) →
      p.AdmitsAll D bySelf body)
    (hreturns : ∀ marks, D.returns false marks) (h : p.methodCode method = .ok code) :
    Tracks D bySelf false none [] code := by
  obtain ⟨name, parameters, body, native, bodyCode, hkind, hbody, rfl⟩ := methodCode_parts h
  have hadmits := ha name parameters body native hkind
  have hcompiled : Compiled p (D.placement bySelf p) (.block body.identity) 0 1 bodyCode _ :=
    blockCode_compiled body hadmits hbody
  refine hcompiled.stacks [] rfl fun left _ => ?_
  have hvoid : Stacks D bySelf 0 1 [.push .void] := .single rfl fun _ _ => trivial
  refine hvoid [] rfl fun own hown => ?_
  obtain ⟨mark, rfl⟩ := List.length_eq_one_iff.1 hown
  exact .interrupt (hreturns _)

/-- The trees whose code `initCode` runs, fields first. -/
def initTrees (p : Program) (start : NodeId) (constructor : Option NodeId) : List Tree :=
  p.initializedFields start ++ (constructor.bind p.tree?).toList

/-- `initCode` returns `self` if nothing else is returned. -/
theorem initCode_tracks {start : NodeId} {constructor : Option NodeId} {code : Code}
    (ha : ∀ t ∈ p.initTrees start constructor, p.AdmitsAll D bySelf t)
    (hreturns : ∀ marks, D.returns false (bySelf :: marks))
    (h : p.initCode start constructor true = .ok code) : Tracks D bySelf false none [] code := by
  have hctor {id : NodeId} {parameters : List Tree} {baseCall : Option (BaseCall Tree)}
      {body : Tree} (hid : id ∈ constructor)
      (hkind : p.kind? id = some (.constructor parameters baseCall body)) :
      ∀ c ∈ (Kind.constructor parameters baseCall body).inlined, p.AdmitsAll D bySelf c := by
    obtain ⟨t, htree, hk⟩ := Option.map_eq_some_iff.1 hkind
    have hadmits := ha t (List.mem_append_right _ (by simp [Option.mem_def.1 hid, htree]))
    rw [← hk]
    exact fun c hc => hadmits.part hc
  have hplacement : (D.placement bySelf p).Constructs p start constructor := {
    fields := fun field hfield c hc => (ha field (List.mem_append_left _ hfield)).part hc
    args := fun id hid {parameters baseCall body} hkind c hc =>
      hctor hid hkind c (List.mem_append_left _ hc)
    body := fun id hid {parameters baseCall body} hkind =>
      hctor hid hkind body (List.mem_append_right _ List.mem_cons_self) }
  obtain ⟨inner, notes, hinner, rfl, -⟩ := initCode_compiled hplacement h
  refine hinner.stacks [] rfl fun own hown => ?_
  refine .next (show _ = some (0, 1) from rfl) (Nat.zero_le _) trivial ?_
  rw [Instruction.remark, beq_self_eq_true, Bool.and_true]
  exact .interrupt (hreturns _)

end Program

end ObjectMachine
