/-
JSON values as text. Everything outside ASCII controls stands as it is.
-/
import ObjectMachine.Json.Basic
import ObjectMachine.Number.Shortest

namespace ObjectMachine.Json

/-- One character of a string literal. -/
def escapeChar (c : Char) : String :=
  if c = '"' then "\\\""
  else if c = '\\' then "\\\\"
  else if c = '\n' then "\\n"
  else if c = '\r' then "\\r"
  else if c = '\t' then "\\t"
  else if c.toNat < 0x20 then "\\u" ++ hexDigits c.toNat
  else c.toString
where
  /-- Four hexadecimal digits. -/
  hexDigits (n : Nat) : String :=
    let digits := Nat.toDigits 16 n
    String.ofList (List.replicate (4 - digits.length) '0' ++ digits)

/-- A string literal. -/
def renderText (s : String) : String :=
  "\"" ++ String.join (s.toList.map escapeChar) ++ "\""

/-- The digits of `d · 10^p` with a point after the first one, if there are
more, and the power of ten that belongs to it. -/
def renderScientific (digits : Nat) (place : Int) : String :=
  match (toString digits).toList with
  | [] => ""
  | first :: rest =>
    let fraction := if rest = [] then "" else "." ++ String.ofList rest
    first.toString ++ fraction ++ "e" ++ toString (place + rest.length)

/-- The number `d · 10^p`. From one hundred-thousandth up to 10^16 it is
written out, with a point even when it is whole; all others take a power of
ten. -/
def renderDecimal (digits : Nat) (place : Int) : String :=
  let point := place + (toString digits).length
  if -5 < point ∧ point ≤ 16 then
    if 0 ≤ place then Number.positional digits place ++ ".0" else Number.positional digits place
  else renderScientific digits place

/-- A decimal number: the fewest digits that denote it, an even last digit
where two are equally near. The values without digits have no number
literal and become `null`. -/
def renderReal (x : Float) : String :=
  match Number.Exact.ofFloat x with
  | .finite negative m q =>
    let (digits, place) := Number.shortestDigits .even m q
    let text := renderDecimal digits place
    if negative then "-" ++ text else text
  | _ => "null"

mutual

/-- The text of a value, without any blanks. A string that denotes no text
becomes the empty string. -/
def render : Json → String
  | .null => "null"
  | .bool value => if value then "true" else "false"
  | .int value => toString value
  | .real value => renderReal value
  | .text value => renderText (value.getD "")
  | .array items => "[" ++ String.intercalate "," (renderItems items) ++ "]"
  | .object members => "\x7b" ++ String.intercalate "," (renderMembers members) ++ "\x7d"

def renderItems : List Json → List String
  | [] => []
  | item :: rest => render item :: renderItems rest

def renderMembers : List (Option String × Json) → List String
  | [] => []
  | (key, value) :: rest => (renderText (key.getD "") ++ ":" ++ render value) :: renderMembers rest

end

end ObjectMachine.Json
