/-
Compiled code and the operands of the frame that runs it.

Sentences are run by a frame that has other operands already and other code
to follow. While it runs them, whatever they call or start on the way, it
never takes from those operands; at their end it has one operand more. The
frame is the root of a region whose floor are the operands it had.
-/
import Mathlib
import ObjectMachine.Proofs.Laws.Safety
import ObjectMachine.Proofs.Machine.Roots

namespace ObjectMachine

/-- While a frame is in the sentences it has started to run, and on the
stack, its operands end with those that it had before; at the end of the
sentences there is one value on top of them. -/
theorem sentences_balance {e : Engine} (hnatives : e.natives = Natives.core)
    {sentences : List Tree} {code after : Code}
    (hcode : e.program.sentencesCode sentences = .ok code) {m m' : Machine} {f : Frame}
    {rest : List Frame} (hframes : m.frames = f :: rest) (hresume : f.resume = [])
    (hstart : f.code.drop f.pc = code ++ after) {n : Nat} (hrun : e.after n m = some m')
    (hstays : e.During (n + 1) m fun m => rest.length < m.frames.length)
    (hbefore : after ≠ [] → e.During n m fun m => ¬ m.LeftWith after rest) :
    ∃ above g, m'.frames = above ++ g :: rest
      ∧ g.code = f.code ∧ g.context = f.context ∧ g.pending = f.pending
      ∧ f.operands <:+ g.operands
      ∧ (m'.LeftWith after rest → above = [] ∧ ∃ value, g.operands = value :: f.operands) := by
  have he : e.Disciplined Rules.free.binds := .of_natives (hnatives ▸ Natives.core_lawful)
  have hemits := Program.sentencesCode_emits he.lawful (fun _ _ _ _ _ _ => trivial) hcode
  have hregion : Stacked .free (.within f after) rest m.frames := by
    rw [hframes]
    exact .running (.within ((hemits .method).runs 0) hresume hstart) .root
  have hlive : e.During n m fun m => ¬ m.LeftWith after rest := by
    by_cases hafter : after = []
    · exact hafter ▸ hstays.not_ended hrun
    · exact hbefore hafter
  obtain ⟨hstacked, -, -⟩ := Stacked.after (S := False) he (fun _ _ => trivial) (fun h => h.elim)
    hregion hrun hstays (fun k hk m₁ h₁ hend => hlive k hk m₁ h₁ hend.2)
  rcases hstacked.root_frame (Option.some_ne_none _) with
    ⟨g, hg, hruns⟩ | ⟨above, g, kind, habove, hg, hwaits⟩
  · obtain ⟨hc, hx, hp⟩ := hruns.origin f rfl
    obtain ⟨todo, own, -, hops, -⟩ := hruns.left
    refine ⟨[], g, hg, hc, hx, hp, ⟨own, hops.symm⟩, fun hend => ⟨rfl, ?_⟩⟩
    obtain ⟨g', hg', hdrop⟩ := hend
    cases hg.symm.trans hg'
    obtain ⟨own, hops, hlen⟩ := hruns.at_end hdrop
    obtain ⟨value, rfl⟩ := List.length_eq_one_iff.1 (Option.some.inj hlen).symm
    exact ⟨value, hops⟩
  · obtain ⟨hc, hx, hp⟩ := (hwaits.runs 0).origin f rfl
    refine ⟨above, g, hg, hc, hx, hp, hwaits.floor, fun hend => ?_⟩
    obtain ⟨g', hg', -⟩ := hend
    have hlen := congrArg List.length (hg.symm.trans hg')
    simp only [List.length_append, List.length_cons] at hlen
    exact absurd (List.length_eq_zero_iff.1 (by omega)) habove

namespace Sample

/-- A sentence, and a second one with a body and an always block. -/
def sentences : List Tree :=
  [Build.boolean false, Build.tryAlways [Build.boolean true] [] [Build.null]]

/-- The sentences, to be run by a frame that has an operand already. -/
def machine (code : Code) : Machine where
  heap := engine.initialHeap
  frames := [{ code, context := rootContext, operands := [ObjectId.null] }]

end Sample

/-- Ten steps lead to the end of the sentences, with their value on top of
the operand that was there. -/
theorem sample_sentences_balance :
    ∃ code m', Sample.program.sentencesCode Sample.sentences = .ok code
      ∧ Sample.engine.after 10 (Sample.machine code) = some m' ∧ m'.LeftWith [] []
      ∧ ∃ g value, m'.frames = [g] ∧ g.operands = [value, ObjectId.null] := by
  obtain ⟨code, hcode⟩ : ∃ code, Sample.program.sentencesCode Sample.sentences = .ok code :=
    ⟨_, rfl⟩
  have hsteps : ∃ m', Sample.engine.after 10 (Sample.machine code) = some m'
      ∧ m'.LeftWith [] [] := by
    cases hcode
    exact ⟨_, rfl, _, rfl, rfl⟩
  have hstays : Sample.engine.During 11 (Sample.machine code) fun m => 0 < m.frames.length := by
    cases hcode
    intro k hk m hm
    interval_cases k <;> cases hm <;> exact Nat.succ_pos _
  obtain ⟨m', hrun, hend⟩ := hsteps
  have hstart : code.drop 0 = code ++ [] := (List.append_nil code).symm
  obtain ⟨above, g, hframes, -, -, -, -, hvalue⟩ := sentences_balance rfl hcode
    (m := Sample.machine code) rfl rfl hstart hrun hstays fun h => absurd rfl h
  obtain ⟨rfl, value, hops⟩ := hvalue hend
  exact ⟨code, m', hcode, hrun, hend, g, value, hframes, hops⟩

end ObjectMachine
