/-
The shortest decimal text of a float: the fewest digits that read back to
the same value and, among those, the digits nearest to it.

Every real in the interval around a float that reaches halfway to its two
neighbours reads back as that float; the end points do so when the mantissa
is even. `shortestDigits` walks the decimal grids from coarse to fine and
stops at the first one with a point inside the interval. Of one grid only
the two points around the value can be the nearest hit; a `Tie` says which
of them is taken when both are equally near.
-/
import ObjectMachine.Number.Fixed

namespace ObjectMachine.Number

/-- The interval of reals that read back as one float, in units of
`1 / denominator`. -/
structure Interval where
  value : Nat
  below : Nat
  above : Nat
  denominator : Nat
  closed : Bool

/-- The interval around `m · 2^q`. Below a power of two the next float is
only half as far away, except at the bottom of the range. -/
def Interval.around (mantissa : Nat) (exponent : Int) : Interval :=
  let (unit, denominator) := fractionOf 1 (exponent - 2)
  let narrow := mantissa = Nat.pow 2 52 ∧ exponent ≠ -1074
  { value := 4 * mantissa * unit
    below := (if narrow then 1 else 2) * unit
    above := 2 * unit
    denominator
    closed := mantissa % 2 == 0 }

/-- Where a value halfway between two decimals goes: to the larger one, or
to the one with the even last digit. -/
inductive Tie where
  | up
  | even
deriving Repr, DecidableEq

/-- Chooses between `floor` and `floor + 1`. -/
def Tie.choose (floor : Nat) : Tie → Nat
  | .up => floor + 1
  | .even => floor + floor % 2

/-- The multiple of `10^place` nearest to the value, if one lies in the
interval. -/
def Interval.onGrid? (i : Interval) (tie : Tie) (place : Int) : Option Nat :=
  let (scale, cell) := match place with
    | .ofNat p => (1, i.denominator * Nat.pow 10 p)
    | .negSucc p => (Nat.pow 10 (p + 1), i.denominator)
  let value := i.value * scale
  let floor := value / cell
  let rest := value % cell
  let inside (gap reach : Nat) : Bool := gap < reach || (i.closed && gap == reach)
  let down := inside rest (i.below * scale)
  let up := inside (cell - rest) (i.above * scale)
  if down && up then
    match compare (2 * rest) cell with
    | .lt => some floor
    | .eq => some (tie.choose floor)
    | .gt => some (floor + 1)
  else if down then some floor
  else if up then some (floor + 1)
  else none

/-- Searches the grids `10^place`, `10^(place - 1)`, … for the first hit. -/
def Interval.coarsest (i : Interval) (tie : Tie) : Nat → Int → Nat × Int
  | 0, place => (i.value, place)
  | fuel + 1, place =>
    match i.onGrid? tie place with
    | some digits => (digits, place)
    | none => i.coarsest tie fuel (place - 1)

/-- A decimal place that is coarser than the first digit of `m · 2^q`:
`30103 / 100000` is just above the decimal logarithm of two. -/
def leadingPlace (mantissa : Nat) (exponent : Int) : Int :=
  ((mantissa.log2 : Int) + exponent + 1) * 30103 / 100000 + 1

/-- Digits `d` and place `p` such that `d · 10^p` is the shortest decimal
that reads back as `m · 2^q`. Seventeen digits always suffice, and the
search starts at most a few places above the first of them. -/
def shortestDigits (tie : Tie) (mantissa : Nat) (exponent : Int) : Nat × Int :=
  if mantissa = 0 then (0, 0)
  else (Interval.around mantissa exponent).coarsest tie 24 (leadingPlace mantissa exponent)

/-- The number `d · 10^p` written out in full, never with an exponent. -/
def positional (digits : Nat) (place : Int) : String :=
  match place with
  | .ofNat p => toString (digits * Nat.pow 10 p)
  | .negSucc p => placedDigits (p + 1) digits

/-- The shortest text of a float. Whole values have no decimal point,
negative zero keeps its sign, and ties go up. -/
def shortestText (x : Float) : String :=
  match Exact.ofFloat x with
  | .notANumber => "NaN"
  | .infinite negative => infinityText negative
  | .finite negative m q =>
    let (digits, place) := shortestDigits .up m q
    let text := positional digits place
    if negative then "-" ++ text else text

end ObjectMachine.Number
