/-
Reading decimal text. A numeral is a sign, digits with an optional point,
and an optional power of ten; the result is the float nearest to what it
denotes. The words for infinity and for no number are read in any case.
-/
import ObjectMachine.Number.Fixed

namespace ObjectMachine.Number

/-- The value of a run of decimal digits. -/
def digitsValue (digits : List Char) : Nat :=
  digits.foldl (fun n c => 10 * n + (c.toNat - '0'.toNat)) 0

/-- The float nearest to `± mantissa · 10^exponent`. Powers of ten that put
a value far outside the range of floats are not computed. -/
def ofDecimal (negative : Bool) (mantissa : Nat) (exponent : Int) : Float :=
  let magnitude :=
    if mantissa = 0 then 0.0
    else if (mantissa.log2 : Int) / 4 + exponent > 400 then 1.0 / 0.0
    else if (mantissa.log2 : Int) + exponent < -400 then 0.0
    else match exponent with
      | .ofNat e => Float.ofScientific mantissa false e
      | .negSucc e => Float.ofScientific mantissa true (e + 1)
  if negative then -magnitude else magnitude

/-- Splits a sign off the front of a numeral; a missing sign is positive. -/
def takeSign : List Char → Bool × List Char
  | '-' :: rest => (true, rest)
  | '+' :: rest => (false, rest)
  | rest => (false, rest)

/-- The exponent part of a numeral, which must use up all that is left. -/
def readExponent? : List Char → Option Int
  | [] => some 0
  | c :: rest =>
    if c = 'e' ∨ c = 'E' then
      let (negative, digits) := takeSign rest
      if digits ≠ [] ∧ digits.all Char.isDigit then
        let value := digitsValue digits
        some (if negative then -(value : Int) else value)
      else none
    else none

/-- Digits with an optional point, then an optional exponent. At least one
digit must stand on either side of the point. -/
def readUnsigned? (negative : Bool) (text : List Char) : Option Float :=
  let whole := text.takeWhile Char.isDigit
  let (fraction, rest) := match text.dropWhile Char.isDigit with
    | '.' :: rest => (rest.takeWhile Char.isDigit, rest.dropWhile Char.isDigit)
    | rest => ([], rest)
  if whole = [] ∧ fraction = [] then none
  else (readExponent? rest).map fun exponent =>
    ofDecimal negative (digitsValue (whole ++ fraction)) (exponent - fraction.length)

/-- The float a text denotes, if it is a numeral or one of the words for
the values without digits. -/
def read? (text : String) : Option Float :=
  let (negative, rest) := takeSign text.toList
  match String.ofList (rest.map Char.toLower) with
  | "inf" | "infinity" => some (if negative then -1.0 / 0.0 else 1.0 / 0.0)
  | "nan" => some (0.0 / 0.0)
  | _ => readUnsigned? negative rest

end ObjectMachine.Number
