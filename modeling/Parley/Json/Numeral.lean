import Parley.Json.Document

/-!
# Numerals

A numeral is scanned into its parts first and evaluated afterwards. An integer between `-2 ^ 63`
and `2 ^ 64 - 1` is kept as one; every other numeral, `-0` among them, denotes a double. The digits
of a double are gathered into a significand below `2 ^ 64`, and the significand is scaled by a power
of ten in double arithmetic. A numeral whose double would be infinite is out of range.
-/

namespace Parley.Json

/-- The parts of a numeral, each as its digits. -/
structure Numeral where
  negative : Bool
  whole : List Char
  fraction : Option (List Char)
  /-- The sign and the digits of the exponent. -/
  exponent : Option (Bool × List Char)

namespace Numeral

/-- At least one digit, and what follows the digits. -/
def scanDigits : List Char → Except Fault (List Char × List Char)
  | [] => .error (.ended .value)
  | c :: rest =>
    if c.isDigit then .ok ((c :: rest).takeWhile Char.isDigit, (c :: rest).dropWhile Char.isDigit)
    else .error .badNumber

/-- The digits in front of the point. A zero at their head stands alone. -/
def scanWhole : List Char → Except Fault (List Char × List Char)
  | '0' :: c :: rest => if c.isDigit then .error .badNumber else .ok (['0'], c :: rest)
  | cs => scanDigits cs

/-- The digits behind the point, if there is a point. -/
def scanFraction : List Char → Except Fault (Option (List Char) × List Char)
  | '.' :: rest => do
    let (digits, rest) ← scanDigits rest
    return (some digits, rest)
  | cs => .ok (none, cs)

/-- The sign in front of an exponent's digits. -/
def scanSign : List Char → Bool × List Char
  | '-' :: rest => (true, rest)
  | '+' :: rest => (false, rest)
  | cs => (false, cs)

/-- The exponent, if there is one. -/
def scanExponent : List Char → Except Fault (Option (Bool × List Char) × List Char)
  | c :: rest =>
    if c = 'e' ∨ c = 'E' then do
      let (negative, rest) := scanSign rest
      let (digits, rest) ← scanDigits rest
      return (some (negative, digits), rest)
    else .ok (none, c :: rest)
  | [] => .ok (none, [])

/-- The minus sign in front of a numeral. -/
def scanMinus : List Char → Bool × List Char
  | '-' :: rest => (true, rest)
  | cs => (false, cs)

/-- Scan a numeral. -/
def scan (cs : List Char) : Except Fault (Numeral × List Char) := do
  let (negative, cs) := scanMinus cs
  let (whole, cs) ← scanWhole cs
  let (fraction, cs) ← scanFraction cs
  let (exponent, cs) ← scanExponent cs
  return (⟨negative, whole, fraction, exponent⟩, cs)

/-- The value of a decimal digit. -/
def digitValue (c : Char) : Nat := c.toNat - 48

/-- Append digits to a significand as long as it stays below `2 ^ 64`, and count the digits that
are left over. -/
def gather (significand : Nat) : List Char → Nat × Nat
  | [] => (significand, 0)
  | c :: rest =>
    let next := 10 * significand + digitValue c
    if next < Nat.pow 2 64 then gather next rest else (significand, rest.length + 1)

/-- Divide by ten to the `-exponent`, in steps of `10 ^ 308`. Three steps bring every significand
down to zero. -/
def shrink : Nat → Float → Int → Float
  | 0, x, _ => x
  | steps + 1, x, exponent =>
    if x == 0.0 then x
    else if exponent < -308 then shrink steps (x / Float.ofScientific 1 false 308) (exponent + 308)
    else x / Float.ofScientific 1 false exponent.natAbs

/-- A significand times a power of ten, or nothing if that is too large for a double. -/
def scaled? (significand : Nat) (exponent : Int) : Option Float :=
  let x := (UInt64.ofNat significand).toFloat
  if exponent < 0 then some (shrink 4 x exponent)
  else if 308 < exponent then if x == 0.0 then some x else none
  else
    let y := x * Float.ofScientific 1 false exponent.natAbs
    if y.isInf then none else some y

/-- The exponent that a numeral spells out. -/
def exponentValue : Option (Bool × List Char) → Int
  | none => 0
  | some (negative, digits) =>
    let n := digits.foldl (fun n c => 10 * n + digitValue c) 0
    if negative then -n else n

/-- The double that a numeral denotes. -/
def double? (n : Numeral) : Option Float := do
  let (significand, dropped) := gather 0 n.whole
  let fraction := n.fraction.getD []
  let (significand, unused) := gather significand fraction
  let exponent := (dropped : Int) - ((fraction.length - unused : Nat) : Int)
  let x ← scaled? significand (exponent + exponentValue n.exponent)
  return if n.negative then -x else x

/-- The integer that a numeral denotes, if it denotes one. -/
def int? (n : Numeral) : Option Int :=
  match n.fraction, n.exponent, gather 0 n.whole with
  | none, none, (significand, 0) =>
    if n.negative then
      if significand = 0 ∨ Nat.pow 2 63 < significand then none else some (-(significand : Int))
    else some significand
  | _, _, _ => none

/-- The number that a numeral denotes. -/
def value (n : Numeral) : Except Fault Number :=
  match n.int? with
  | some i => .ok (.int i)
  | none =>
    match n.double? with
    | some x => .ok (.double x)
    | none => .error .numberRange

end Numeral

/-- Read a numeral. A numeral that the end of the text cuts off is truncated for the one who takes
it and a bad number for the one who skims it. -/
def readNumeral (cs : List Char) : Doc × Option (List Char) :=
  match Numeral.scan cs with
  | .ok (n, rest) => (.number n.value (.ok ()), some rest)
  | .error f => (.number (.error f) (.error .badNumber), none)

end Parley.Json
