import Parley.Text.Invisible

/-!
# Strings as shown in a report

A report about a string shows it in double quotes, and shows every character of it: quotes,
backslashes and the common controls by a short escape, characters without a glyph by their code
point, as in `\u{1b}`.
-/

namespace Parley.Text

/-- A natural number in lowercase hexadecimal digits. -/
def hexDigits (n : Nat) : List Char := Nat.toDigits 16 n

/-- One character as a report shows it. -/
def inspectedChar (c : Char) : List Char :=
  if c = '"' then ['\\', '"']
  else if c = '\\' then ['\\', '\\']
  else if c = '\n' then ['\\', 'n']
  else if c = '\r' then ['\\', 'r']
  else if c = '\t' then ['\\', 't']
  else if c.toNat = 0 then ['\\', '0']
  else if isInvisible c then ['\\', 'u', '{'] ++ hexDigits c.toNat ++ ['}']
  else [c]

/-- A string as a report shows it. -/
def inspected (s : String) : String :=
  String.ofList ('"' :: (s.toList.flatMap inspectedChar ++ ['"']))

end Parley.Text
