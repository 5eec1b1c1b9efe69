import Parley.Json.Reader
import Parley.Shape.Mismatch

/-!
# Reading a shape off a document

The readers here walk over a `Doc` from left to right and stop at the first thing that is wrong:
a fault of the text or a mismatch of the shape, whichever comes first. A member that nobody asks
for is skimmed.

The content of a choice can stand in front of its tag. It is then set aside as a value and read
afterwards; `Medium` tells its reader so.

A record can be written as an object or as the sequence of its fields. A choice whose tag stands
beside its content is an object with the two members `event` and `data`, in either order, or the
sequence of tag and content.
-/

namespace Parley.Shape

open Parley.Json

/-- Why a shape could not be read. -/
inductive ReadError where
  | fault (fault : Fault)
  | mismatch (mismatch : Mismatch)

/-- The outcome of reading a shape. -/
abbrev Reading (α : Type) := Except ReadError α

/-- A fault of the text ends the reading. -/
def ofText {α : Type} : Except Fault α → Reading α
  | .ok a => .ok a
  | .error f => .error (.fault f)

/-- A mismatch ends the reading. -/
def refuse {α : Type} (m : Mismatch) : Reading α := .error (.mismatch m)

/-- The text is no document here. -/
def faulty {α : Type} (f : Fault) : Reading α := .error (.fault f)

/-- Where a document is read from. -/
inductive Medium where
  /-- From the text itself. -/
  | text
  /-- From a value that was set aside. -/
  | aside
  deriving DecidableEq, Repr

/-- Something of another type stands here. Words, numbers and strings are read before they are
refused, so a fault in them comes first; arrays and objects are refused at their bracket. -/
def wrongType {α : Type} (expected : Expected) : Doc → Reading α
  | .null => refuse (.invalidType .null expected)
  | .bool b => refuse (.invalidType (.bool b) expected)
  | .number taken _ => do
    let n ← ofText taken
    refuse (.invalidType (.number n) expected)
  | .string text => do
    let s ← ofText text.taken
    refuse (.invalidType (.string s) expected)
  | .array _ _ => refuse (.invalidType .sequence expected)
  | .object _ _ => refuse (.invalidType .map expected)
  | .unread f _ => .error (.fault f)

/-! ## Single values -/

/-- A string. -/
def string : Doc → Reading String
  | .string text => ofText text.taken
  | d => wrongType .string d

/-- An integer of sixteen bits without sign. -/
def u16 : Doc → Reading UInt16
  | .number (.ok (.int i)) _ =>
    if 0 ≤ i ∧ i < 65536 then .ok (UInt16.ofNat i.toNat)
    else refuse (.invalidValue (.number (.int i)) .u16)
  | d => wrongType .u16 d

/-- A value that may be `null`. -/
def optional {α : Type} (shape : Doc → Reading α) : Doc → Reading (Option α)
  | .null => .ok none
  | d => (shape d).map some

/-- Nothing but `null`. -/
def unit : Doc → Reading Unit
  | .null => .ok ()
  | d => wrongType .unit d

/-- A sequence of strings. -/
def strings : Doc → Reading (List String)
  | .array items stop => do
    let texts ← items.mapM string
    ofText (Doc.stopped stop)
    return texts
  | d => wrongType .sequence d

/-! ## Names of variants -/

/-- One of the known names. -/
def known (names : List String) (name : String) : Reading String :=
  if name ∈ names then .ok name else refuse (.unknownVariant name names)

/-- A name where only a string can stand. -/
def identifier (names : List String) : Doc → Reading String
  | .string text => do
    let name ← ofText text.taken
    known names name
  | d => wrongType .variantName d

/-- A variant without content: its name, or an object whose only member is its name with `null`.
Anything else is refused as if it were no document. -/
def variant (names : List String) : Doc → Reading String
  | .string text => do
    let name ← ofText text.taken
    known names name
  | .object ((k, d) :: rest) stop => do
    let name ← ofText k.taken
    let name ← known names name
    unit d
    if rest.isEmpty then
      ofText (Doc.stopped stop)
      return name
    else faulty .noValue
  | .unread f false => faulty f
  | _ => faulty .noValue

/-! ## Records -/

/-- Read the members of an object one after another. -/
def foldMembers {σ : Type} (step : σ → String → Doc → Reading σ) (stop : Option Fault) :
    σ → List (Quoted × Doc) → Reading σ
  | s, [] => do
    ofText (Doc.stopped stop)
    return s
  | s, (k, d) :: rest => do
    let k ← ofText k.taken
    let s ← step s k d
    foldMembers step stop s rest

/-- Skip a member that nobody asks for. -/
def skip {σ : Type} (s : σ) (d : Doc) : Reading σ := do
  ofText d.skim
  return s

/-- A field is given once. The second time it is refused before its value is read. -/
def once {α : Type} (name : String) (seen : Option α) (shape : Doc → Reading α) (d : Doc) :
    Reading (Option α) :=
  match seen with
  | some _ => refuse (.duplicateField name)
  | none => (shape d).map some

/-- A field that has to be given. -/
def required {α : Type} (name : String) : Option α → Reading α
  | some a => .ok a
  | none => refuse (.missingField name)

/-- The items of a sequence that are still to be read. -/
structure Cursor where
  items : List Doc
  stop : Option Fault

/-- The next item, unless the sequence ends here. -/
def Cursor.next? (c : Cursor) : Reading (Option (Doc × Cursor)) :=
  match c.items with
  | d :: rest => .ok (some (d, ⟨rest, c.stop⟩))
  | [] => do
    ofText (Doc.stopped c.stop)
    return none

/-- The sequence has to end here. -/
def Cursor.finish (c : Cursor) : Reading Unit :=
  if c.items.isEmpty then ofText (Doc.stopped c.stop) else faulty .trailingText

/-- The next item, which has to be there. -/
def Cursor.expect {α : Type} (c : Cursor) (length : Nat) (expected : Expected)
    (shape : Doc → Reading α) : Reading (α × Cursor) := do
  match ← c.next? with
  | none => refuse (.invalidLength length expected)
  | some (d, c) => do
    let a ← shape d
    return (a, c)

/-- The next item, or a default if the sequence ends here. -/
def Cursor.expectOr {α : Type} (c : Cursor) (default : α) (shape : Doc → Reading α) :
    Reading (α × Cursor) := do
  match ← c.next? with
  | none => return (default, c)
  | some (d, c) => do
    let a ← shape d
    return (a, c)

/-! ## A choice whose tag stands beside its content -/

/-- The two members of such a choice. -/
inductive Half where
  | tag
  | content

/-- The key of each member. -/
def Half.key : Half → String
  | .tag => "event"
  | .content => "data"

/-- The first of the two members that comes next, and the members behind it. -/
def nextHalf? (stop : Option Fault) :
    List (Quoted × Doc) → Reading (Option (Half × Doc × List (Quoted × Doc)))
  | [] => do
    ofText (Doc.stopped stop)
    return none
  | (k, d) :: rest => do
    let k ← ofText k.taken
    if k = Half.tag.key then return some (.tag, d, rest)
    else if k = Half.content.key then return some (.content, d, rest)
    else do
      ofText d.skim
      nextHalf? stop rest

/-- Neither of the two members may follow any more. -/
def noMoreHalves (stop : Option Fault) (members : List (Quoted × Doc)) : Reading Unit := do
  match ← nextHalf? stop members with
  | none => return ()
  | some (half, _) => refuse (.duplicateField half.key)

/-- Read a choice. `content` reads the content of the variant of the given name. Content that
comes before its tag is set aside as a value and read when the tag is known. -/
def tagBeside {α : Type} (name : String) (names : List String)
    (content : Medium → String → Doc → Reading α) : Doc → Reading α
  | .object members stop => do
    match ← nextHalf? stop members with
    | none => refuse (.missingField Half.tag.key)
    | some (.tag, d, rest) => do
      let tag ← variant names d
      match ← nextHalf? stop rest with
      | none => refuse (.missingField Half.content.key)
      | some (.tag, _) => refuse (.duplicateField Half.tag.key)
      | some (.content, d, rest) => do
        let a ← content .text tag d
        noMoreHalves stop rest
        return a
    | some (.content, d, rest) => do
      let aside ← ofText (d.take (nestingLimit - 1))
      match ← nextHalf? stop rest with
      | none => refuse (.missingField Half.tag.key)
      | some (.content, _) => refuse (.duplicateField Half.content.key)
      | some (.tag, d, rest) => do
        let tag ← variant names d
        let a ← content .aside tag (Doc.ofJson aside)
        noMoreHalves stop rest
        return a
  | .array items stop => do
    let (tag, c) ← Cursor.expect ⟨items, stop⟩ 0 (.tagBeside name) (identifier names)
    let (a, c) ← c.expect 1 (.tagBeside name) (content .text tag)
    c.finish
    return a
  | d => wrongType (.tagBeside name) d

/-! ## Whole texts -/

/-- Read a shape off a whole text, behind which only blanks may follow. -/
def ofString {α : Type} (shape : Doc → Reading α) (text : String) : Reading α := do
  let t := Text.read text
  let a ← shape t.root
  if t.trailing then faulty .trailingText else return a

end Parley.Shape
