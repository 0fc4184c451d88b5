/-
JSON values. Object members keep their order and may repeat; whole
numbers stay apart from decimal ones, because identities are read from the
former only. A string literal is kept even when it denotes no text (an
escape may name half of a surrogate pair): whether that matters depends on
whether anyone reads it.
-/

namespace ObjectMachine

inductive Json where
  | null
  | bool (value : Bool)
  | int (value : Int)
  | real (value : Float)
  | text (value : Option String)
  | array (items : List Json)
  | object (members : List (Option String × Json))
deriving Inhabited

namespace Json

/-- A string value. -/
def str (s : String) : Json := .text (some s)

/-- A whole number that counts or names something. -/
def nat (n : Nat) : Json := .int n

/-- An object with the given members, in this order. -/
def record (members : List (String × Json)) : Json :=
  .object (members.map fun (key, value) => (some key, value))

/-- An optional value, `null` when absent. -/
def option (f : α → Json) : Option α → Json
  | some a => f a
  | none => .null

/-- A list of values. -/
def list (f : α → Json) (items : List α) : Json := .array (items.map f)

mutual

/-- How many arrays and objects stand inside one another, at most. -/
def depth : Json → Nat
  | .array items => itemsDepth items + 1
  | .object members => membersDepth members + 1
  | _ => 0

def itemsDepth : List Json → Nat
  | [] => 0
  | item :: rest => max (depth item) (itemsDepth rest)

def membersDepth : List (Option String × Json) → Nat
  | [] => 0
  | (_, value) :: rest => max (depth value) (membersDepth rest)

end

end Json

end ObjectMachine
