/-
Texts in quotes, as listings of code show them: quotes and backslashes are
escaped, the common controls have short forms, and every other character
that would not be seen is written by its code point.
-/
import ObjectMachine.Text.EscapeTable

namespace ObjectMachine.Text

/-- A character that is not shown as it is. -/
def isHidden (c : Char) : Bool :=
  hiddenRuns.any fun (first, last) => first ≤ c.toNat && c.toNat ≤ last

/-- One character inside quotes. -/
def escapeChar (c : Char) : String :=
  if c = '\x00' then "\\0"
  else if c = '\t' then "\\t"
  else if c = '\r' then "\\r"
  else if c = '\n' then "\\n"
  else if c = '"' then "\\\""
  else if c = '\\' then "\\\\"
  else if isHidden c then
    "\\u\x7b" ++ String.ofList (Nat.toDigits 16 c.toNat) ++ "\x7d"
  else c.toString

/-- A text between double quotes. -/
def quoted (s : String) : String :=
  "\"" ++ String.join (s.toList.map escapeChar) ++ "\""

end ObjectMachine.Text
