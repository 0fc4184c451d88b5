/-
The root frame of a region.

A frame that is to execute some of its code, with other code to follow, is
the root of a region (`Terms.within`). As long as the region is not left it
is the lowest frame in it, and runs or waits (`Stacked.root_frame`); what
the region says of it are statements about that one frame.
-/
import Mathlib
import ObjectMachine.Proofs.Machine.Trace

namespace ObjectMachine

section

variable {R : Rules} {root : Terms} {bottom : List Frame}

/-- A root that may come to the end of its code (`final`) is no always block or
handler that has yet to start, so in the region it is on top or `Waits`. -/
theorem Supports.root_frame {t : Terms} {frames : List Frame} (hfinal : root.final ≠ none)
    (h : Supports R root bottom t frames) :
    (t = root ∧ frames = bottom)
    ∨ ∃ above g kind, frames = above ++ g :: bottom ∧ Waits R.binds kind root g := by
  -- A root with the terms of a frame that the machine started could not end.
  have hopen : ∀ role : Role, Terms.closed role ≠ root := by
    rintro role rfl
    exact hfinal rfl
  induction h with
  | root => exact .inl ⟨rfl, rfl⟩
  | call waits under ih =>
      rcases ih with ⟨rfl, rfl⟩ | ⟨above, g, kind, rfl, hwaits⟩
      · exact .inr ⟨[], _, _, rfl, waits⟩
      · exact .inr ⟨_ :: above, g, kind, rfl, hwaits⟩
  | nested block waits under ih =>
      rcases ih with ⟨rfl, rfl⟩ | ⟨above, g, kind, rfl, hwaits⟩
      · exact .inr ⟨[], _, _, rfl, waits⟩
      · exact .inr ⟨_ :: above, g, kind, rfl, hwaits⟩
  | always last scope under ih =>
      rcases ih with ⟨hroot, -⟩ | ⟨above, g, kind, rfl, hwaits⟩
      · exact absurd hroot (hopen _)
      · exact .inr ⟨_ :: above, g, kind, rfl, hwaits⟩
  | handler caught under ih =>
      rcases ih with ⟨hroot, -⟩ | ⟨above, g, kind, rfl, hwaits⟩
      · exact absurd hroot (hopen _)
      · exact .inr ⟨_ :: above, g, kind, rfl, hwaits⟩

/-- The root of a region is `Running`, or `Waits` for the frames above it. -/
theorem Stacked.root_frame {frames : List Frame} (hfinal : root.final ≠ none)
    (h : Stacked R root bottom frames) :
    (∃ g, frames = g :: bottom ∧ Running R.binds root g)
    ∨ ∃ above g kind, above ≠ [] ∧ frames = above ++ g :: bottom ∧ Waits R.binds kind root g := by
  cases h with
  | @running t f below runs under =>
      rcases under.root_frame hfinal with ⟨rfl, rfl⟩ | ⟨above, g, kind, rfl, hwaits⟩
      · exact .inl ⟨f, rfl, runs⟩
      · exact .inr ⟨f :: above, g, kind, List.cons_ne_nil _ _, rfl, hwaits⟩
  | entered last scope under =>
      rcases under.root_frame hfinal with ⟨rfl, -⟩ | ⟨above, g, kind, rfl, hwaits⟩
      · exact absurd rfl hfinal
      · exact .inr ⟨_ :: above, g, kind, List.cons_ne_nil _ _, rfl, hwaits⟩

/-- A `Running` root that is at the end of its code has as many operands of its
own as `final` says. -/
theorem Running.at_end {binds : String → Prop} {t : Terms} {f : Frame} (h : Running binds t f)
    (hend : f.code.drop f.pc = t.after) :
    ∃ own, f.operands = own ++ t.floor ∧ t.final = some own.length := by
  obtain ⟨todo, own, hdrop, hops, hruns⟩ := h.left
  obtain rfl : todo = [] := by simpa using hdrop.symm.trans hend
  exact ⟨own, hops, hruns.final_of_nil⟩

/-- A frame that `Waits` keeps its `floor`: it runs again whatever value it
gets, so none of the floor is that value. -/
theorem Waits.floor {binds : String → Prop} {kind : Interruption} {t : Terms} {f : Frame}
    (h : Waits binds kind t f) : t.floor <:+ f.operands := by
  obtain ⟨todo, own, -, hops, -⟩ := (h.runs (t.floor.headD 0 + 1)).left
  cases own with
  | nil =>
      have hhead := congrArg (fun l => l.headD 0) hops
      exact absurd hhead (Nat.succ_ne_self _)
  | cons value own => exact ⟨own, (List.cons.inj hops).2.symm⟩

end

/-- The frame on top of `rest` has `code` left to execute. -/
def Machine.LeftWith (m : Machine) (code : Code) (rest : List Frame) : Prop :=
  ∃ g, m.frames = g :: rest ∧ g.code.drop g.pc = code

/-- A frame that is `LeftWith` no code is left by its next step. -/
theorem Machine.LeftWith.step {e : Engine} {m m' : Machine} {rest : List Frame}
    (h : m.LeftWith [] rest) (hstep : e.step m = .ok () m') : m'.frames = rest := by
  obtain ⟨g, hframes, hend⟩ := h
  have hnone : g.code[g.pc]? = none := List.getElem?_eq_none (List.drop_eq_nil_iff.1 hend)
  simp only [Engine.step, hframes, hnone] at hstep
  cases hstep
  rfl

/-- A frame that is on the stack all along was not `LeftWith` no code before. -/
theorem Engine.During.not_ended {e : Engine} {m m' : Machine} {rest : List Frame} {n : Nat}
    (hin : e.During (n + 1) m fun s => rest.length < s.frames.length)
    (hrun : e.after n m = some m') : e.During n m fun s => ¬ s.LeftWith [] rest := by
  intro k hk s hs hend
  obtain ⟨s₁, hs₁⟩ := after_of_le (Nat.succ_le_of_lt hk) hrun
  obtain ⟨s', hs', hstep⟩ := after_succ.1 hs₁
  cases hs.symm.trans hs'
  have hlen : rest.length < s₁.frames.length := hin (k + 1) (Nat.succ_lt_succ hk) s₁ hs₁
  rw [hend.step hstep] at hlen
  exact Nat.lt_irrefl _ hlen

/-- What holds `During` a run holds during the rest of it. -/
theorem Engine.During.later {e : Engine} {m s : Machine} {P : Machine → Prop} {k n r : Nat}
    (h : e.During n m P) (hs : e.after k m = some s) (hle : k + r ≤ n) : e.During r s P :=
  fun j hj s' hs' =>
    h (k + j) ((Nat.add_lt_add_left hj k).trans_le hle) s' ((after_add k j hs).trans hs')

/-- The terms of a frame that is to execute some of its code, up to
`after`, for one value. -/
def Terms.within (f : Frame) (after : Code) : Terms where
  role := .method
  final := some 1
  floor := f.operands
  after := after
  origin := some f

/-- A frame that starts to execute code for one value is `Running` under
`Terms.within`. -/
theorem Running.within {binds : String → Prop} {code after : Code} {f : Frame}
    (h : Runs binds .method (some 1) code 0) (hresume : f.resume = [])
    (hstart : f.code.drop f.pc = code ++ after) : Running binds (.within f after) f where
  resume := hresume
  origin o ho := by
    cases ho
    exact ⟨rfl, rfl, rfl⟩
  pending hrole := nomatch hrole
  left := ⟨code, [], hstart, rfl, h⟩

/-- A frame that gets to the end of its code has been at every place where a
part of it ends, with the values of that part. -/
theorem Engine.passes {e : Engine} (he : e.Disciplined Rules.free.binds) {code more after : Code}
    {count : Nat} (hcode : Runs Rules.free.binds .method (some count) code 0) {m m' : Machine}
    {f : Frame} {rest : List Frame} (hframes : m.frames = f :: rest) (hresume : f.resume = [])
    (hstart : f.code.drop f.pc = code ++ more) (hmore : after.length < more.length) {n : Nat}
    (hrun : e.after n m = some m')
    (hstays : e.During (n + 1) m fun s => rest.length < s.frames.length)
    (hend : m'.LeftWith after rest) :
    ∃ k s g own, k ≤ n ∧ e.after k m = some s ∧ s.frames = g :: rest ∧ g.code.drop g.pc = more
      ∧ g.code = f.code ∧ g.resume = [] ∧ g.operands = own ++ f.operands ∧ own.length = count := by
  let t : Terms := { role := .method, final := some count, floor := f.operands, after := more
                     origin := some f }
  have hfinal : t.final ≠ none := Option.some_ne_none _
  have hregion : Stacked .free t rest m.frames := by
    rw [hframes]
    refine .running ⟨hresume, fun o ho => ?_, fun hrole => ?_, code, [], hstart, rfl, hcode⟩ .root
    · cases ho
      exact ⟨rfl, rfl, rfl⟩
    · cases hrole
  have hstacked {k : Nat} {s : Machine} (hk : k ≤ n) (hs : e.after k m = some s)
      (hlive : e.During k m fun s => ¬ Finished t rest s.frames) : Stacked .free t rest s.frames :=
    (hregion.after (S := False) he (fun _ _ => trivial) (fun h => h.elim) hs
      (hstays.mono (Nat.succ_le_succ hk)) hlive).1
  -- The frame on top of `rest` is the root, not one that waits.
  have hroot {s : Machine} {g : Frame} (hs : Stacked .free t rest s.frames)
      (hg : s.frames = g :: rest) : Running Rules.free.binds t g := by
    rcases hs.root_frame hfinal with ⟨g', hg', hruns⟩ | ⟨above, g', _, habove, hg', -⟩
    · cases hg.symm.trans hg'
      exact hruns
    · have hlength := congrArg List.length (hg.symm.trans hg')
      have hpos := List.length_pos_of_ne_nil habove
      simp only [List.length_append, List.length_cons] at hlength
      omega
  by_cases hpassed : ∃ k, k ≤ n ∧ ∃ s, e.after k m = some s ∧ Finished t rest s.frames
  · classical
    obtain ⟨hk, s, hs, hfinished⟩ := Nat.find_spec hpassed
    have hregion' := hstacked hk hs fun j hj s' hs' hfinished' =>
      Nat.find_min hpassed hj ⟨hj.le.trans hk, s', hs', hfinished'⟩
    obtain ⟨-, g, hg, hdrop⟩ := hfinished
    have hruns := hroot hregion' hg
    obtain ⟨own, hops, hcount⟩ := hruns.at_end hdrop
    exact ⟨_, s, g, own, hk, hs, hg, hdrop, (hruns.origin f rfl).1, hruns.resume, hops,
      (Option.some.inj hcount).symm⟩
  · obtain ⟨g, hg, hdrop⟩ := hend
    have hregion' := hstacked le_rfl hrun fun j hj s' hs' hfinished' =>
      hpassed ⟨j, hj.le, s', hs', hfinished'⟩
    obtain ⟨todo, own, hleft, -⟩ := (hroot hregion' hg).left
    have hlength := congrArg List.length (hdrop.symm.trans hleft)
    rw [List.length_append] at hlength
    exact absurd hlength (Nat.ne_of_lt (hmore.trans_le (Nat.le_add_left _ _)))

end ObjectMachine
