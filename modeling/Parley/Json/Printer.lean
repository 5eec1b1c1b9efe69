import Parley.Json.Value

/-!
# Compact text of a value

No blanks anywhere. In a string the quote, the backslash and the characters below U+0020 are
escaped, with a short escape where there is one; every other character stands for itself.
-/

namespace Parley.Json

/-- One lowercase hexadecimal digit. -/
def hexDigit (n : Nat) : Char :=
  if n < 10 then Char.ofNat (48 + n) else Char.ofNat (87 + n)

/-- A character inside a quoted string. -/
def escaped (c : Char) : List Char :=
  if c = '"' then ['\\', '"']
  else if c = '\\' then ['\\', '\\']
  else if c.toNat = 8 then ['\\', 'b']
  else if c = '\t' then ['\\', 't']
  else if c = '\n' then ['\\', 'n']
  else if c.toNat = 12 then ['\\', 'f']
  else if c = '\r' then ['\\', 'r']
  else if c.toNat < 32 then
    ['\\', 'u', '0', '0', hexDigit (c.toNat / 16), hexDigit (c.toNat % 16)]
  else [c]

/-- A quoted string. -/
def quoted (s : String) : List Char := '"' :: (s.toList.flatMap escaped ++ ['"'])

mutual

/-- The compact text of a value. -/
def chars : Json → List Char
  | .null => ['n', 'u', 'l', 'l']
  | .bool true => ['t', 'r', 'u', 'e']
  | .bool false => ['f', 'a', 'l', 's', 'e']
  | .number n => n.text
  | .string s => quoted s
  | .array items => '[' :: (charsItems items ++ [']'])
  | .object members => '{' :: (charsMembers members ++ ['}'])

/-- The items of an array, with commas between them. -/
def charsItems : List Json → List Char
  | [] => []
  | [v] => chars v
  | v :: rest => chars v ++ ',' :: charsItems rest

/-- The members of an object, with commas between them. -/
def charsMembers : List (String × Json) → List Char
  | [] => []
  | [(k, v)] => quoted k ++ ':' :: chars v
  | (k, v) :: rest => quoted k ++ ':' :: (chars v ++ ',' :: charsMembers rest)

end

/-- The compact text of a value, as a string. -/
def render (v : Json) : String := String.ofList v.chars

end Parley.Json
