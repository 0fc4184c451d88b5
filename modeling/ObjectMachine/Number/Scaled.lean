/-
Decimals read by scaling. The leading digits of a numeral, as many as a
word of 64 bits holds, become a float, and a product or a quotient with a
power of ten puts the point where it belongs. Each step rounds on its own,
so the outcome can lie a little off the float nearest to the numeral.
Number literals are read this way; `ofDecimal` rounds once, to the nearest.
-/
import ObjectMachine.Number.Reading

namespace ObjectMachine.Number

/-- The decimal `significand · 10^exponent`. -/
structure Decimal where
  significand : Nat
  exponent : Int
deriving Repr, DecidableEq

/-- The least number that a word of 64 bits does not hold. -/
def wordBound : Nat := Nat.pow 2 64

/-- Appends digits to a number for as long as the result fits in a word.
Also says how many were appended. -/
def appendDigits (n : Nat) : List Char → Nat × Nat
  | [] => (n, 0)
  | c :: rest =>
    let longer := 10 * n + (c.toNat - '0'.toNat)
    if longer < wordBound then
      let (m, count) := appendDigits longer rest
      (m, count + 1)
    else (n, 0)

/-- The decimal that digits around a point and a power of ten write down.
Whole digits that no longer fit count as zeros, and digits of the fraction
that no longer fit do not count. -/
def Decimal.ofDigits (whole fraction : List Char) (exponent : Int) : Decimal :=
  let (n, kept) := appendDigits 0 whole
  let (significand, places) := appendDigits n fraction
  { significand, exponent := exponent + (whole.length - kept : Nat) - places }

/-- The largest power of ten that is a float. -/
def largestPower : Nat := 308

/-- The float nearest to a power of ten. -/
def powerOfTen (n : Nat) : Float := Float.ofScientific 1 false n

/-- The float that scaling makes of a decimal. Beyond the largest power of
ten all but zero is infinite. Quotients beyond it take two steps; a word
divided by the largest power twice is already zero, so there is no third. -/
def Decimal.scaled (d : Decimal) : Float :=
  let x := Float.ofScientific d.significand false 0
  match d.exponent with
  | .ofNat n =>
    if n ≤ largestPower then x * powerOfTen n
    else if d.significand = 0 then 0.0
    else 1.0 / 0.0
  | .negSucc n =>
    let places := n + 1
    if places ≤ largestPower then x / powerOfTen places
    else if places ≤ 2 * largestPower then
      x / powerOfTen largestPower / powerOfTen (places - largestPower)
    else 0.0

end ObjectMachine.Number
