/-
Floats seen exactly. A finite float is a whole number of units in a power
of two, so every question about its decimal text (digits, rounding,
remainders) is a question about natural numbers. The text modules beside
this one never look at a float again once it has been taken apart here.
-/

namespace ObjectMachine.Number

/-- What a float stands for: `finite s m q` is `m · 2^q`, negated when `s`
holds. Zero keeps its sign. -/
inductive Exact where
  | notANumber
  | infinite (negative : Bool)
  | finite (negative : Bool) (mantissa : Nat) (exponent : Int)
deriving Repr, DecidableEq

/-- Takes a float apart: one sign bit, eleven exponent bits, fifty-two
fraction bits. Exponent zero is the subnormal range, the largest exponent
holds the infinities and the values that are no number. -/
def Exact.ofFloat (x : Float) : Exact :=
  let bits := x.toBits.toNat
  let negative := bits / Nat.pow 2 63 == 1
  let exponent : Nat := bits / Nat.pow 2 52 % Nat.pow 2 11
  let fraction := bits % Nat.pow 2 52
  if exponent = 2047 then
    if fraction = 0 then .infinite negative else .notANumber
  else if exponent = 0 then
    .finite negative fraction (-1074)
  else
    .finite negative (fraction + Nat.pow 2 52) (Int.ofNat exponent - 1075)

/-- The number `m · 2^q` as a fraction of natural numbers. -/
def fractionOf (mantissa : Nat) (exponent : Int) : Nat × Nat :=
  match exponent with
  | .ofNat e => (mantissa * Nat.pow 2 e, 1)
  | .negSucc e => (mantissa, Nat.pow 2 (e + 1))

/-- The float nearest to `± m · 2^q`; exact whenever that value is a float. -/
def ofScaled (negative : Bool) (mantissa : Nat) (exponent : Int) : Float :=
  let magnitude := match exponent with
    | .ofNat e => Float.ofScientific (mantissa * Nat.pow 2 e) false 0
    | .negSucc e => Float.ofScientific (mantissa * Nat.pow 5 (e + 1)) true (e + 1)
  if negative then -magnitude else magnitude

/-- A finite float without fractional part. -/
def isWhole (x : Float) : Bool :=
  match Exact.ofFloat x with
  | .finite _ m q => let (num, den) := fractionOf m q; num % den == 0
  | _ => false

/-- The natural number a float stands for, if it is one. Negative zero
counts as zero. -/
def natural? (x : Float) : Option Nat :=
  match Exact.ofFloat x with
  | .finite negative m q =>
    let (num, den) := fractionOf m q
    if num % den = 0 ∧ (negative = false ∨ m = 0) then some (num / den) else none
  | _ => none

/-- The remainder of division truncated toward zero. It has the sign of the
dividend, and it is always a float, so nothing is rounded. -/
def remainder (x y : Float) : Float :=
  match Exact.ofFloat x, Exact.ofFloat y with
  | .finite s m q, .finite _ n r =>
    let low := min q r
    let a := m * Nat.pow 2 (q - low).toNat
    let b := n * Nat.pow 2 (r - low).toNat
    if b = 0 then 0.0 / 0.0 else ofScaled s (a % b) low
  | .finite .., .infinite _ => x
  | _, _ => 0.0 / 0.0

end ObjectMachine.Number
