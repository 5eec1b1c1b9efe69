import Parley.Json.Document

/-!
# Quoted strings

A string is taken by `readChars` and skimmed by `skimChars`; both start behind the opening quote
and return what follows the closing one. They agree on where a string ends. Taking it also asks that
every escaped code unit above U+D7FF that belongs to a surrogate pair has its partner.
-/

namespace Parley.Json

/-- The value of a hexadecimal digit. -/
def hexValue? (c : Char) : Option Nat :=
  if '0' ≤ c ∧ c ≤ '9' then some (c.toNat - 48)
  else if 'a' ≤ c ∧ c ≤ 'f' then some (c.toNat - 87)
  else if 'A' ≤ c ∧ c ≤ 'F' then some (c.toNat - 55)
  else none

/-- The length of a text in bytes. -/
def byteLength (cs : List Char) : Nat := cs.foldr (fun c n => c.utf8Size + n) 0

/-- The four hexadecimal digits of a code unit. With fewer than four bytes left, the text is cut
off; otherwise a digit is wrong. -/
def codeUnit (cs : List Char) : Except Fault (Nat × List Char) :=
  let fault : Fault := if byteLength (cs.take 4) < 4 then .ended .string else .badEscape
  match cs with
  | a :: b :: c :: d :: rest =>
    match hexValue? a, hexValue? b, hexValue? c, hexValue? d with
    | some a, some b, some c, some d => .ok (((a * 16 + b) * 16 + c) * 16 + d, rest)
    | _, _, _, _ => .error fault
  | _ => .error fault

/-- The character of a one-letter escape. -/
def shortEscape? (c : Char) : Option Char :=
  match c with
  | '"' => some '"'
  | '\\' => some '\\'
  | '/' => some '/'
  | 'b' => some (Char.ofNat 8)
  | 'f' => some (Char.ofNat 12)
  | 'n' => some '\n'
  | 'r' => some '\r'
  | 't' => some '\t'
  | _ => none

/-- The second half of a surrogate pair, behind its first half. -/
def secondHalf (first : Nat) : List Char → Except Fault (Char × List Char)
  | [] => .error (.ended .string)
  | ['\\'] => .error (.ended .string)
  | '\\' :: 'u' :: rest => do
    let (second, rest) ← codeUnit rest
    if 0xDC00 ≤ second ∧ second ≤ 0xDFFF then
      return (Char.ofNat (0x10000 + (first - 0xD800) * 0x400 + (second - 0xDC00)), rest)
    else .error .loneSurrogate
  | _ => .error .halfPair

/-- The character that an escape stands for, from behind the backslash. -/
def readEscape : List Char → Except Fault (Char × List Char)
  | [] => .error (.ended .string)
  | 'u' :: rest => do
    let (unit, rest) ← codeUnit rest
    if 0xDC00 ≤ unit ∧ unit ≤ 0xDFFF then .error .loneSurrogate
    else if 0xD800 ≤ unit ∧ unit ≤ 0xDBFF then secondHalf unit rest
    else return (Char.ofNat unit, rest)
  | c :: rest =>
    match shortEscape? c with
    | some e => .ok (e, rest)
    | none => .error .badEscape

/-- Skim an escape, from behind the backslash. -/
def skimEscape : List Char → Except Fault (List Char)
  | [] => .error (.ended .string)
  | 'u' :: rest => (codeUnit rest).map (·.2)
  | c :: rest => if (shortEscape? c).isSome then .ok rest else .error .badEscape

/-- Take a string. Every step uses up a character, so the length of the text is enough `fuel`. -/
def readChars : Nat → List Char → Except Fault (List Char × List Char)
  | 0, _ => .error (.ended .string)
  | _ + 1, [] => .error (.ended .string)
  | fuel + 1, c :: rest =>
    if c = '"' then .ok ([], rest)
    else if c = '\\' then do
      let (e, rest) ← readEscape rest
      let (cs, rest) ← readChars fuel rest
      return (e :: cs, rest)
    else if c.toNat < 32 then .error .controlCharacter
    else do
      let (cs, rest) ← readChars fuel rest
      return (c :: cs, rest)

/-- Skim a string, as `readChars`. -/
def skimChars : Nat → List Char → Except Fault (List Char)
  | 0, _ => .error (.ended .string)
  | _ + 1, [] => .error (.ended .string)
  | fuel + 1, c :: rest =>
    if c = '"' then .ok rest
    else if c = '\\' then do
      let rest ← skimEscape rest
      skimChars fuel rest
    else if c.toNat < 32 then .error .controlCharacter
    else skimChars fuel rest

/-- Read a string, from behind the opening quote. -/
def readQuoted (fuel : Nat) (cs : List Char) : Quoted × Option (List Char) :=
  let taken := (readChars fuel cs).map fun r => String.ofList r.1
  match skimChars fuel cs with
  | .ok rest => (⟨taken, .ok ()⟩, some rest)
  | .error f => (⟨taken, .error f⟩, none)

end Parley.Json
