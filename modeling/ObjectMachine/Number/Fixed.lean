/-
Decimal text with a fixed number of places. The exact binary value is
scaled to whole units of the last place and rounded once, a half going to
the even neighbour, so digits of huge values are exact and no second
rounding can creep in.
-/
import ObjectMachine.Number.Exact

namespace ObjectMachine.Number

/-- Rounds `num / den` to a natural number, an exact half to the even
neighbour. -/
def roundHalfEven (num den : Nat) : Nat :=
  let floor := num / den
  let rest := num % den
  if 2 * rest < den then floor
  else if 2 * rest = den then floor + floor % 2
  else floor + 1

/-- A digit string of at least `width` digits, zeros in front. -/
def paddedDigits (width n : Nat) : String :=
  let digits := toString n
  String.ofList (List.replicate (width - digits.length) '0') ++ digits

/-- The spelling of `n` units of the `places`-th decimal place. -/
def placedDigits (places n : Nat) : String :=
  if places = 0 then toString n
  else toString (n / Nat.pow 10 places) ++ "." ++ paddedDigits places (n % Nat.pow 10 places)

/-- The spelling of the values that have no digits. -/
def infinityText (negative : Bool) : String :=
  if negative then "-inf" else "inf"

/-- A float with exactly `places` decimals. The sign is kept even when
every digit rounds to zero. -/
def fixedText (places : Nat) (x : Float) : String :=
  match Exact.ofFloat x with
  | .notANumber => "NaN"
  | .infinite negative => infinityText negative
  | .finite negative m q =>
    let (num, den) := fractionOf m q
    let digits := placedDigits places (roundHalfEven (num * Nat.pow 10 places) den)
    if negative then "-" ++ digits else digits

end ObjectMachine.Number
