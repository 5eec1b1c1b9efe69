import Parley.Decimal.Shortest

/-!
# Numbers of a document

A number is an integer or a double. Which of the two a numeral denotes is the reader's decision
(`Json/Numeral`); here is how each is written. An integer is its digits. A double is its shortest
decimal, positional from `10 ^ -5` up to `10 ^ 16` and with an exponent elsewhere, and always
recognisable as a double: `100.0`, `0.00001`, `1e+16`, `5e-7`.
-/

namespace Parley.Json

open Parley.Decimal

/-- A number as a document holds it. -/
inductive Number where
  | int (value : Int)
  | double (value : Float)

/-- The integers that a numeral can denote; the text of any other integer denotes a double. -/
def Number.InRange (i : Int) : Prop := -(Nat.pow 2 63 : Int) ≤ i ∧ i < (Nat.pow 2 64 : Int)

instance (i : Int) : Decidable (Number.InRange i) := by unfold Number.InRange; infer_instance

/-- Write a shortest decimal. `point` is where the decimal point stands, counted from the first
digit. -/
def decimalText (d : Scientific) : List Char :=
  let digits := digitsOf d.digits
  let point : Int := digits.length + d.exponent
  if 0 ≤ d.exponent ∧ point ≤ 16 then
    digits ++ List.replicate d.exponent.toNat '0' ++ ['.', '0']
  else if 0 < point ∧ point ≤ 16 then
    digits.take point.toNat ++ '.' :: digits.drop point.toNat
  else if -5 < point ∧ point ≤ 0 then
    '0' :: '.' :: List.replicate (-point).toNat '0' ++ digits
  else
    let sign := if point - 1 < 0 then '-' else '+'
    let fraction := if digits.length = 1 then [] else '.' :: digits.tail
    digits.take 1 ++ fraction ++ 'e' :: sign :: digitsOf (point - 1).natAbs

/-- The text of a finite double. Both zeros keep their sign. -/
def doubleText (x : Float) : List Char :=
  let bits := x.toBits
  let sign := if bits.toNat < Nat.pow 2 63 then [] else ['-']
  if bits.toNat % Nat.pow 2 63 = 0 then sign ++ ['0', '.', '0']
  else sign ++ decimalText (Binary.ofBits bits).shortest

/-- The text of a number. -/
def Number.text : Number → List Char
  | .int i => integerText i
  | .double x => doubleText x

end Parley.Json
