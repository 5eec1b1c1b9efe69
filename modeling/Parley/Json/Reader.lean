import Parley.Json.Numeral
import Parley.Json.Quoted

/-!
# Reading a text

`Text.read` turns a text into a document. Every reading function returns the part of the document
it read and, unless a fault stopped it, the text that follows. Blanks are space, tab, line feed and
carriage return.
-/

namespace Parley.Json

/-- The four blank characters. -/
def isBlank (c : Char) : Bool := c = ' ' || c = '\t' || c = '\n' || c = '\r'

/-- The text from its first character on that is not blank. -/
def skipBlanks (cs : List Char) : List Char := cs.dropWhile isBlank

/-- Read the rest of one of the three words of the language. -/
def readWord (word : List Char) (doc : Doc) (cs : List Char) : Doc × Option (List Char) :=
  match word, cs with
  | [], cs => (doc, some cs)
  | _ :: _, [] => (.unread (.ended .value) true, none)
  | w :: word, c :: cs => if w = c then readWord word doc cs else (.unread .noWord true, none)

/-- The parts of an array or object that were begun, the fault behind them, and the text that
follows. -/
structure Parts (α : Type) where
  items : List α
  stop : Option Fault
  rest : Option (List Char)

/-- A member that cannot be read because of its key. -/
def brokenMember (f : Fault) : Parts (Quoted × Doc) :=
  ⟨[(.broken f, .unread f false)], some f, none⟩

mutual

/-- Read a value. No call is more than two deep for each character of the text, so twice the length
of the text is enough `fuel`. -/
def readValue : Nat → List Char → Doc × Option (List Char)
  | 0, _ => (.unread (.ended .value) false, none)
  | fuel + 1, cs =>
    match skipBlanks cs with
    | [] => (.unread (.ended .value) false, none)
    | c :: rest =>
      if c = 'n' then readWord ['u', 'l', 'l'] .null rest
      else if c = 't' then readWord ['r', 'u', 'e'] (.bool true) rest
      else if c = 'f' then readWord ['a', 'l', 's', 'e'] (.bool false) rest
      else if c = '"' then
        let (text, rest) := readQuoted fuel rest
        (.string text, rest)
      else if c = '-' ∨ c.isDigit then readNumeral (c :: rest)
      else if c = '[' then
        match skipBlanks rest with
        | [] => (.array [] (some (.ended .array)), none)
        | ']' :: rest => (.array [] none, some rest)
        | rest =>
          let parts := readItems fuel rest
          (.array parts.items parts.stop, parts.rest)
      else if c = '{' then
        match skipBlanks rest with
        | '}' :: rest => (.object [] none, some rest)
        | rest =>
          let parts := readMembers fuel (.ended .object) rest
          (.object parts.items parts.stop, parts.rest)
      else (.unread .noValue false, none)

/-- Read the items of an array, from where the next item has to stand. -/
def readItems : Nat → List Char → Parts Doc
  | 0, _ => ⟨[], some (.ended .array), none⟩
  | fuel + 1, cs =>
    match readValue fuel cs with
    | (d, none) => ⟨[d], some .noItemEnd, none⟩
    | (d, some rest) =>
      match skipBlanks rest with
      | ']' :: rest => ⟨[d], none, some rest⟩
      | ',' :: rest =>
        match skipBlanks rest with
        | ']' :: _ => ⟨[d, .unread .trailingComma false], some .trailingComma, none⟩
        | rest =>
          let parts := readItems fuel rest
          ⟨d :: parts.items, parts.stop, parts.rest⟩
      | [] => ⟨[d], some (.ended .array), none⟩
      | _ => ⟨[d], some .noItemEnd, none⟩

/-- Read the members of an object, from where the next key has to stand. If the text ends there,
`cut` is the fault. -/
def readMembers : Nat → Fault → List Char → Parts (Quoted × Doc)
  | 0, cut, _ => brokenMember cut
  | fuel + 1, cut, cs =>
    match cs with
    | [] => brokenMember cut
    | '"' :: rest =>
      match readQuoted fuel rest with
      | (k, none) => ⟨[(k, .unread (.ended .string) false)], some (.ended .string), none⟩
      | (k, some rest) =>
        match skipBlanks rest with
        | ':' :: rest =>
          match readValue fuel rest with
          | (d, none) => ⟨[(k, d)], some .noMemberEnd, none⟩
          | (d, some rest) =>
            match skipBlanks rest with
            | '}' :: rest => ⟨[(k, d)], none, some rest⟩
            | ',' :: rest =>
              let parts :=
                match skipBlanks rest with
                | '}' :: _ => brokenMember .trailingComma
                | rest => readMembers fuel (.ended .value) rest
              ⟨(k, d) :: parts.items, parts.stop, parts.rest⟩
            | [] => ⟨[(k, d)], some (.ended .object), none⟩
            | _ => ⟨[(k, d)], some .noMemberEnd, none⟩
        | [] => ⟨[(k, .unread (.ended .object) false)], some (.ended .object), none⟩
        | _ => ⟨[(k, .unread .noColon false)], some .noColon, none⟩
    | _ => brokenMember .noKey

end

/-- Read a whole text. -/
def Text.read (text : String) : Text :=
  let cs := text.toList
  match readValue (2 * cs.length + 2) cs with
  | (root, none) => ⟨root, false⟩
  | (root, some rest) => ⟨root, !(skipBlanks rest).isEmpty⟩

end Parley.Json
