import Parley.Json.Reader
import Parley.Shape.Reading

/-!
# Free values

Where any value may stand, a value can also be *given* as its own text: an object whose first key is
`givenKey` and whose only member is a string stands for the value that the string denotes. The text
is a whole text of its own, so its nesting is counted afresh, and values may be given in it again.
What is wrong with it is a mismatch of the document around it, not a fault of that document's text.

Under any later key the name has no such meaning, and it has none where a value is skimmed or set
aside; what was set aside is looked through when it is read.
-/

namespace Parley.Shape

open Parley.Json

/-- The key under which a value is given as its text. -/
def givenKey : String := "$serde_json::private::RawValue"

/-- What stands under the first key of an object, if that key is `givenKey`, and the members behind
it. -/
def given? : List (Quoted × Doc) → Option (Doc × List (Quoted × Doc))
  | (k, d) :: rest =>
    match k.taken with
    | .ok key => if key = givenKey then some (d, rest) else none
    | .error _ => none
  | [] => none

/-- A string that holds the text of a value. -/
def valueText : Doc → Reading String
  | .string text => ofText text.taken
  | d => wrongType .valueText d

/-- The object has to end behind the text of a value. -/
def endGiven (medium : Medium) (rest : List (Quoted × Doc)) (stop : Option Fault) : Reading Unit :=
  match medium, rest, stop with
  | .aside, rest, _ =>
    if rest.isEmpty then .ok () else refuse (.invalidLength (rest.length + 1) (.members 1))
  | .text, _ :: _, _ => faulty .trailingComma
  | .text, [], some .noMemberEnd => faulty .trailingText
  | .text, [], stop => ofText (Doc.stopped stop)

mutual

/-- Read a value, at most `levels` arrays and objects deep. `given` reads the text of a value. -/
def valueWith (given : String → Reading Json) (medium : Medium) (levels : Nat) :
    Doc → Reading Json
  | .null => .ok .null
  | .bool b => .ok (.bool b)
  | .number taken _ => ofText (taken.map .number)
  | .string text => ofText (text.taken.map .string)
  | .array items stop =>
    match levels with
    | 0 => faulty .nesting
    | levels + 1 => do
      let items ← valuesWith given medium levels items
      ofText (Doc.stopped stop)
      return .array items
  | .object members stop =>
    match levels with
    | 0 => faulty .nesting
    | levels + 1 =>
      match given? members with
      | some (d, rest) => do
        let text ← valueText d
        let v ← given text
        endGiven medium rest stop
        return v
      | none => do
        let members ← membersWith given medium levels members
        ofText (Doc.stopped stop)
        return .object members
  | .unread f _ => faulty f

/-- Read the items of an array. -/
def valuesWith (given : String → Reading Json) (medium : Medium) (levels : Nat) :
    List Doc → Reading (List Json)
  | [] => .ok []
  | d :: rest => do
    let v ← valueWith given medium levels d
    let vs ← valuesWith given medium levels rest
    return v :: vs

/-- Read the members of an object. -/
def membersWith (given : String → Reading Json) (medium : Medium) (levels : Nat) :
    List (Quoted × Doc) → Reading (List (String × Json))
  | [] => .ok []
  | (k, d) :: rest => do
    let k ← ofText k.taken
    let v ← valueWith given medium levels d
    let ms ← membersWith given medium levels rest
    return (k, v) :: ms

end

/-- Read the text of a value. Texts stand inside one another at most `depth` times. -/
def givenValue : Nat → String → Reading Json
  | 0, _ => refuse (.valueText (.ended .value))
  | depth + 1, text =>
    match ofString (valueWith (givenValue depth) .text nestingLimit) text with
    | .error (.fault f) => refuse (.valueText f)
    | r => r

/-- Any value, in canonical form. A text inside a text is shorter than it by its quotes at least, so
the length of a text bounds how often texts stand inside one another in it. -/
def value (medium : Medium) (levels : Nat) (d : Doc) : Reading Json := do
  let v ← valueWith (fun text => givenValue (text.length + 1) text) medium levels d
  return v.canonical

/-- The value that a whole text denotes, in canonical form. -/
def parse (text : String) : Reading Json := ofString (value .text nestingLimit) text

end Parley.Shape
