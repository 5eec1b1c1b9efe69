/-!
# Faults of a text

Why a text is no document. A fault names the first place where the text departs from the grammar,
and `Fault.message` is the one place where its wording is decided. A text that ends too early is
told from one that goes wrong: more text could still make a document of it.
-/

namespace Parley.Json

/-- The parts of a document that the end of a text can cut off. -/
inductive Part where
  | array
  | object
  | string
  | value
  deriving DecidableEq, Repr

/-- Why a text is no document. -/
inductive Fault where
  /-- The text ends inside a part. -/
  | ended (inside : Part)
  /-- No value begins here. -/
  | noValue
  /-- A word begins here that is not one of the three. -/
  | noWord
  /-- A colon has to follow a key. -/
  | noColon
  /-- A comma or the closing bracket has to follow an item. -/
  | noItemEnd
  /-- A comma or the closing brace has to follow a member. -/
  | noMemberEnd
  /-- Only a string can be a key. -/
  | noKey
  /-- Nothing follows a comma, or something that may not. -/
  | trailingComma
  /-- More text follows where none may. -/
  | trailingText
  /-- The digits of a number are missing or begin with a zero too many. -/
  | badNumber
  /-- The number is too large for a double. -/
  | numberRange
  /-- A control character stands in a string. -/
  | controlCharacter
  /-- A backslash is followed by nothing it can stand in front of. -/
  | badEscape
  /-- The second half of a surrogate pair has no first half, or the first half has no second. -/
  | loneSurrogate
  /-- The first half of a surrogate pair is not followed by an escape. -/
  | halfPair
  /-- Too many arrays and objects stand inside one another. -/
  | nesting
  deriving DecidableEq, Repr

namespace Fault

/-- The text ends too early. -/
def truncated : Fault → Bool
  | .ended _ => true
  | _ => false

/-- The wording of a fault. -/
def message : Fault → String
  | .ended .array => "EOF while parsing a list"
  | .ended .object => "EOF while parsing an object"
  | .ended .string => "EOF while parsing a string"
  | .ended .value => "EOF while parsing a value"
  | .noValue => "expected value"
  | .noWord => "expected ident"
  | .noColon => "expected `:`"
  | .noItemEnd => "expected `,` or `]`"
  | .noMemberEnd => "expected `,` or `\x7d`"
  | .noKey => "key must be a string"
  | .trailingComma => "trailing comma"
  | .trailingText => "trailing characters"
  | .badNumber => "invalid number"
  | .numberRange => "number out of range"
  | .controlCharacter => "control character (\\u0000-\\u001F) found while parsing a string"
  | .badEscape => "invalid escape"
  | .loneSurrogate => "lone leading surrogate in hex escape"
  | .halfPair => "unexpected end of hex escape"
  | .nesting => "recursion limit exceeded"

end Fault

end Parley.Json
