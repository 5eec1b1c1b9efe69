/-!
# Socket addresses

The address that a service listens on, read and written in the usual notation: `0.0.0.0:3000`,
`[2001:db8::1]:80`. An IPv6 address is written with its longest run of zero groups left out, the
first one where several are longest, and a run of one group is not left out. The number of its zone
follows it, as in `[fe80::1%5]:80`, unless it is zero, which stands for no zone.
-/

namespace Parley

/-- An address of a host. An IPv6 address is of a zone, of which zero stands for none. -/
inductive Ip where
  | v4 (a b c d : Nat)
  | v6 (groups : List Nat) (zone : Nat)
  deriving DecidableEq, Repr

/-- An address of a host and a port on it. -/
structure Address where
  ip : Ip
  port : Nat
  deriving DecidableEq, Repr

namespace Address

/-! ## Writing -/

/-- A run of zero groups: where it begins and how long it is. -/
structure ZeroRun where
  start : Nat
  length : Nat

/-- The longest run of zeros, the first one of several. `place` is the place of the first group and
`current` the run that ends in front of it. -/
def longestRun (place : Nat) (current best : ZeroRun) : List Nat → ZeroRun
  | [] => if best.length < current.length then current else best
  | 0 :: rest => longestRun (place + 1) ⟨current.start, current.length + 1⟩ best rest
  | _ :: rest =>
    longestRun (place + 1) ⟨place + 1, 0⟩ (if best.length < current.length then current else best) rest

/-- Groups in hexadecimal digits, with colons between them. -/
def groupsText (groups : List Nat) : String :=
  String.intercalate ":" (groups.map fun g => String.ofList (Nat.toDigits 16 g))

/-- The four numbers of an IPv4 address. -/
def v4Text (a b c d : Nat) : String :=
  String.intercalate "." ([a, b, c, d].map Nat.repr)

/-- The text of an IPv6 address. One that stands for an IPv4 address ends in it. -/
def v6Text (groups : List Nat) : String :=
  match groups with
  | [0, 0, 0, 0, 0, 0xFFFF, g, h] => "::ffff:" ++ v4Text (g / 256) (g % 256) (h / 256) (h % 256)
  | _ =>
    let run := longestRun 0 ⟨0, 0⟩ ⟨0, 0⟩ groups
    if 1 < run.length then
      groupsText (groups.take run.start) ++ "::" ++
        groupsText (groups.drop (run.start + run.length))
    else groupsText groups

/-- A zone, as it follows an IPv6 address. -/
def zoneText (zone : Nat) : String := if zone = 0 then "" else "%" ++ Nat.repr zone

/-- The text of an address. -/
def text (a : Address) : String :=
  match a.ip with
  | .v4 p q r s => v4Text p q r s ++ ":" ++ Nat.repr a.port
  | .v6 groups zone => "[" ++ v6Text groups ++ zoneText zone ++ "]:" ++ Nat.repr a.port

/-! ## Reading -/

/-- Split at every occurrence of a character. -/
def split (mark : Char) : List Char → List (List Char)
  | [] => [[]]
  | c :: rest =>
    if c = mark then [] :: split mark rest
    else
      match split mark rest with
      | [] => [[c]]
      | part :: parts => (c :: part) :: parts

/-- The value of decimal digits. -/
def decimal? (cs : List Char) : Option Nat :=
  if cs.isEmpty ∨ ¬ cs.all Char.isDigit then none
  else some (cs.foldl (fun n c => 10 * n + (c.toNat - 48)) 0)

/-- A number of an IPv4 address: at most 255, and without zeros in front. -/
def octet? (cs : List Char) : Option Nat := do
  let n ← decimal? cs
  if n ≤ 255 ∧ (cs.length = 1 ∨ cs.head? ≠ some '0') then some n else none

/-- An IPv4 address. -/
def v4? (cs : List Char) : Option (Nat × Nat × Nat × Nat) :=
  match (split '.' cs).mapM octet? with
  | some [a, b, c, d] => some (a, b, c, d)
  | _ => none

/-- The value of a hexadecimal digit. -/
def hexDigit? (c : Char) : Option Nat :=
  if c.isDigit then some (c.toNat - 48)
  else if 'a' ≤ c ∧ c ≤ 'f' then some (c.toNat - 87)
  else if 'A' ≤ c ∧ c ≤ 'F' then some (c.toNat - 55)
  else none

/-- A group of an IPv6 address: one to four hexadecimal digits. -/
def group? (cs : List Char) : Option Nat := do
  let digits ← cs.mapM hexDigit?
  if cs.isEmpty ∨ 4 < cs.length then none else some (digits.foldl (fun n d => 16 * n + d) 0)

/-- Groups with colons between them. The last two may be written as an IPv4 address where `tail`
says so. -/
def groups? (tail : Bool) (cs : List Char) : Option (List Nat) :=
  if cs.isEmpty then some []
  else
    let parts := split ':' cs
    match tail, parts.getLast?.bind v4? with
    | true, some (a, b, c, d) => do
      let front ← parts.dropLast.mapM group?
      some (front ++ [256 * a + b, 256 * c + d])
    | _, _ => parts.mapM group?

/-- The text in front of the first double colon and the text behind it. -/
def splitGap : List Char → Option (List Char × List Char)
  | ':' :: ':' :: rest => some ([], rest)
  | c :: rest => (splitGap rest).map fun (front, back) => (c :: front, back)
  | [] => none

/-- An IPv6 address. -/
def v6? (cs : List Char) : Option (List Nat) :=
  match splitGap cs with
  | none => do
    let groups ← groups? true cs
    if groups.length = 8 then some groups else none
  | some (front, back) => do
    let front ← groups? false front
    let back ← groups? true back
    if front.length + back.length ≤ 7 then
      some (front ++ List.replicate (8 - front.length - back.length) 0 ++ back)
    else none

/-- A zone behind its mark, which has thirty-two bits. Nothing stands for no zone. -/
def zone? : List Char → Option Nat
  | [] => some 0
  | _ :: cs => do
    let n ← decimal? cs
    if n < 4294967296 then some n else none

/-- A port. -/
def port? (cs : List Char) : Option Nat := do
  let n ← decimal? cs
  if n < 65536 then some n else none

/-- The text up to the last occurrence of a character and the text behind it. -/
def splitLast (mark : Char) (cs : List Char) : Option (List Char × List Char) :=
  let back := cs.reverse.takeWhile (· ≠ mark)
  if back.length < cs.length then
    some (cs.take (cs.length - back.length - 1), back.reverse)
  else none

/-- Read an address. -/
def ofText? (s : String) : Option Address := do
  let (host, port) ← splitLast ':' s.toList
  let port ← port? port
  match host with
  | '[' :: rest => do
    if rest.getLast? ≠ some ']' then none
    let inner := rest.dropLast
    let groups ← v6? (inner.takeWhile (· ≠ '%'))
    let zone ← zone? (inner.dropWhile (· ≠ '%'))
    some ⟨.v6 groups zone, port⟩
  | _ => do
    let (a, b, c, d) ← v4? host
    some ⟨.v4 a b c d, port⟩

end Address

end Parley
