/-!
# The shortest decimal that reads back

A finite double stands for an interval of reals: those that round to it. Its shortest decimal is
the point of that interval which lies on the coarsest grid of multiples of a power of ten. Of two
points on that grid the nearer one is taken, and of two equally near ones the even one.

All arithmetic is exact and on natural numbers. The interval is measured in quarters of the gap
between neighbouring doubles, so that its ends, half a gap away (a quarter on the near side of a
power of two), are whole numbers.
-/

namespace Parley.Decimal

/-- A positive double as `mantissa * 2 ^ exponent`. -/
structure Binary where
  mantissa : Nat
  exponent : Int
  /-- The neighbour below is half as far away as the one above, as at a power of two. -/
  narrow : Bool

/-- Split the bits of a double; the sign is left to the caller. -/
def Binary.ofBits (bits : UInt64) : Binary :=
  let fraction : Nat := bits.toNat % Nat.pow 2 52
  let biased : Nat := (bits.toNat / Nat.pow 2 52) % Nat.pow 2 11
  if biased = 0 then ⟨fraction, -1074, false⟩
  else ⟨Nat.pow 2 52 + fraction, (biased : Int) - 1075, fraction == 0 && biased > 1⟩

/-- The lower end of the interval, in quarters of `2 ^ exponent`. -/
def Binary.lower (b : Binary) : Nat := 4 * b.mantissa - if b.narrow then 1 else 2

/-- The upper end of the interval, in quarters of `2 ^ exponent`. -/
def Binary.upper (b : Binary) : Nat := 4 * b.mantissa + 2

/-- Numerator and denominator of a quarter of `2 ^ exponent` in units of `10 ^ grid`. -/
def Binary.scale (b : Binary) (grid : Int) : Nat × Nat :=
  let quarter := b.exponent - 2
  (Nat.pow 2 quarter.toNat * Nat.pow 10 (-grid).toNat,
    Nat.pow 2 (-quarter).toNat * Nat.pow 10 grid.toNat)

/-- The point `digits * 10 ^ grid` rounds to `b`. The ends of the interval belong to it exactly
when the mantissa is even. -/
def Binary.holds (b : Binary) (grid : Int) (digits : Nat) : Bool :=
  let (num, den) := b.scale grid
  if b.mantissa % 2 = 0 then
    b.lower * num ≤ digits * den && digits * den ≤ b.upper * num
  else
    b.lower * num < digits * den && digits * den < b.upper * num

/-- The point of the grid that stands for `b`, if the grid has one: only the two neighbours of
the exact value can be. -/
def Binary.onGrid? (b : Binary) (grid : Int) : Option Nat :=
  let (num, den) := b.scale grid
  let below := 4 * b.mantissa * num / den
  match b.holds grid below, b.holds grid (below + 1) with
  | true, false => some below
  | false, true => some (below + 1)
  | false, false => none
  | true, true =>
    let exact := 2 * (4 * b.mantissa * num)
    let middle := (2 * below + 1) * den
    if exact < middle then some below
    else if middle < exact then some (below + 1)
    else if below % 2 = 0 then some below else some (below + 1)

/-- The number `digits * 10 ^ exponent`. -/
structure Scientific where
  digits : Nat
  exponent : Int

/-- Try `steps` grids from `10 ^ grid` on, each ten times finer than the one before. -/
def Binary.firstGrid? (b : Binary) : Nat → Int → Option Scientific
  | 0, _ => none
  | steps + 1, grid =>
    match b.onGrid? grid with
    | some digits => some ⟨digits, grid⟩
    | none => b.firstGrid? steps (grid - 1)

/-- The shortest decimal of a positive double. No double needs a grid coarser than `10 ^ 309` or
finer than `10 ^ -343`, so the search ends with an answer. -/
def Binary.shortest (b : Binary) : Scientific :=
  (b.firstGrid? 660 310).getD ⟨0, 0⟩

/-- The decimal digits of a natural number, most significant first. -/
def digitsOf (n : Nat) : List Char :=
  if n < 10 then [Char.ofNat (48 + n)]
  else digitsOf (n / 10) ++ [Char.ofNat (48 + n % 10)]
termination_by n

/-- The text of an integer: a minus sign where it is negative, then its digits. -/
def integerText (i : Int) : List Char :=
  if i < 0 then '-' :: digitsOf i.natAbs else digitsOf i.natAbs

end Parley.Decimal
