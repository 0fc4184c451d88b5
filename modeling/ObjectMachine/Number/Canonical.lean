/-
Numbers as programs see them. Two numbers are the same value when they
agree to five decimal places, so every number is rounded there before it
is stored, and the rounded text is its key. Whole numbers are shown
without decimals.
-/
import ObjectMachine.Number.Reading
import ObjectMachine.Number.Shortest

namespace ObjectMachine.Number

/-- Decimal places to which numbers are told apart. -/
def decimals : Nat := 5

/-- The stored form of a number: rounded to `decimals` places, with a
single zero. -/
def canonical (x : Float) : Float :=
  let rounded := (read? (fixedText decimals x)).getD x
  if rounded == 0.0 then 0.0 else rounded

/-- The key under which a number is shared. -/
def key (x : Float) : String :=
  "N!" ++ fixedText decimals (canonical x)

/-- The text of a number in messages and in printed lines. -/
def display (x : Float) : String :=
  if isWhole x then fixedText 0 x else shortestText x

end ObjectMachine.Number
