import Parley.Json.Fault
import Parley.Json.Value

/-!
# Documents as far as they can be read

A text is read once, from left to right, into a `Doc`: a tree that holds what stands in the text up
to the first place where the text stops being a document, and the fault found there. What a caller
wants from the text is decided afterwards, by walking over the tree in the same order. So a caller
that finds the wrong shape early reports the shape, and one that gets as far as the fault reports
the fault, without reading the text again.

A part of a document can be *taken* or *skimmed*. A part is skimmed when nobody asks for it, and
skimming is more lenient: it does not mind a number too large for a double, half of a surrogate
pair, or deep nesting. Numbers and strings therefore hold both outcomes.
-/

namespace Parley.Json

/-- A string as far as it can be read. -/
structure Quoted where
  taken : Except Fault String
  skimmed : Except Fault Unit

/-- No string can be read here. -/
def Quoted.broken (f : Fault) : Quoted := ⟨.error f, .error f⟩

/-- A string without faults. -/
def Quoted.ofString (s : String) : Quoted := ⟨.ok s, .ok ()⟩

/-- A document as far as it can be read. -/
inductive Doc where
  | null
  | bool (value : Bool)
  | number (taken : Except Fault Number) (skimmed : Except Fault Unit)
  | string (text : Quoted)
  /-- The items that were begun, and the fault behind them if the closing bracket is missing. -/
  | array (items : List Doc) (stop : Option Fault)
  /-- The members that were begun, and the fault behind them if the closing brace is missing. -/
  | object (members : List (Quoted × Doc)) (stop : Option Fault)
  /-- No value can be read here. `begun` says that some text stands here. -/
  | unread (fault : Fault) (begun : Bool)

namespace Doc

/-- Turn the fault behind the last part of a document into an outcome. -/
def stopped : Option Fault → Except Fault Unit
  | none => .ok ()
  | some f => .error f

mutual

/-- Skim a part of a document: find its first fault, if it has one. -/
def skim : Doc → Except Fault Unit
  | .null | .bool _ => .ok ()
  | .number _ skimmed => skimmed
  | .string text => text.skimmed
  | .array items stop => do skimItems items; stopped stop
  | .object members stop => do skimMembers members; stopped stop
  | .unread f _ => .error f

/-- Skim the items of an array. -/
def skimItems : List Doc → Except Fault Unit
  | [] => .ok ()
  | d :: rest => do skim d; skimItems rest

/-- Skim the members of an object. -/
def skimMembers : List (Quoted × Doc) → Except Fault Unit
  | [] => .ok ()
  | (k, d) :: rest => do k.skimmed; skim d; skimMembers rest

end

mutual

/-- Take a value as it is written, at most `levels` arrays and objects deep. Members keep their
order. -/
def take (levels : Nat) : Doc → Except Fault Json
  | .null => .ok .null
  | .bool b => .ok (.bool b)
  | .number taken _ => taken.map .number
  | .string text => text.taken.map .string
  | .array items stop =>
    match levels with
    | 0 => .error .nesting
    | levels + 1 => do
      let items ← takeItems levels items
      stopped stop
      return .array items
  | .object members stop =>
    match levels with
    | 0 => .error .nesting
    | levels + 1 => do
      let members ← takeMembers levels members
      stopped stop
      return .object members
  | .unread f _ => .error f

/-- Take the items of an array. -/
def takeItems (levels : Nat) : List Doc → Except Fault (List Json)
  | [] => .ok []
  | d :: rest => do
    let v ← take levels d
    let vs ← takeItems levels rest
    return v :: vs

/-- Take the members of an object. -/
def takeMembers (levels : Nat) : List (Quoted × Doc) → Except Fault (List (String × Json))
  | [] => .ok []
  | (k, d) :: rest => do
    let k ← k.taken
    let v ← take levels d
    let ms ← takeMembers levels rest
    return (k, v) :: ms

end

mutual

/-- A value as a document without faults. -/
def ofJson : Json → Doc
  | .null => .null
  | .bool b => .bool b
  | .number n => .number (.ok n) (.ok ())
  | .string s => .string (.ofString s)
  | .array items => .array (ofItems items) none
  | .object members => .object (ofMembers members) none

/-- The items of an array. -/
def ofItems : List Json → List Doc
  | [] => []
  | v :: rest => ofJson v :: ofItems rest

/-- The members of an object. -/
def ofMembers : List (String × Json) → List (Quoted × Doc)
  | [] => []
  | (k, v) :: rest => (.ofString k, ofJson v) :: ofMembers rest

end

end Doc

/-- How many arrays and objects may stand inside one another, the outermost included. -/
def nestingLimit : Nat := 127

/-- A whole text: its document, and whether anything but blanks follows. -/
structure Text where
  root : Doc
  trailing : Bool

end Parley.Json
