/-
Upper-casing of texts, character by character and independent of language
and position. A character may become several.
-/
import ObjectMachine.Text.CaseTable

namespace ObjectMachine.Text

/-- The upper-case form of one character; a character without one stands
for itself. -/
def upperChar (c : Char) : List Char :=
  let n := c.toNat
  match upperSequences.lookup n with
  | some codes => codes.map Char.ofNat
  | none =>
    match upperRuns.find? fun (first, last, step, _) =>
        first ≤ n && n ≤ last && (n - first) % step == 0 with
    | some (first, _, _, upper) => [Char.ofNat (upper + (n - first))]
    | none => [c]

/-- The upper-case form of a text. -/
def uppercase (s : String) : String :=
  String.ofList (s.toList.flatMap upperChar)

end ObjectMachine.Text
