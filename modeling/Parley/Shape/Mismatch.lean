import Parley.Json.Fault
import Parley.Json.Number
import Parley.Text.Inspected

/-!
# Mismatches

A well-formed document can still have the wrong shape. A `Mismatch` says in what way, and
`Mismatch.message` is the one place where its wording is decided.
-/

namespace Parley.Shape

open Parley.Json Parley.Text

/-- What stands in the document. -/
inductive Found where
  | null
  | bool (value : Bool)
  | number (value : Number)
  | string (value : String)
  | sequence
  | map

/-- What should stand there. -/
inductive Expected where
  | string
  | u16
  | unit
  | sequence
  /-- The name of a variant. -/
  | variantName
  /-- A record, given by its name. -/
  | record (name : String)
  /-- A record written as a sequence of its fields. -/
  | recordItems (name : String) (count : Nat)
  /-- The fields of a variant. -/
  | variant (owner name : String)
  /-- The fields of a variant written as a sequence. -/
  | variantItems (owner name : String) (count : Nat)
  /-- A choice whose tag stands beside its content. -/
  | tagBeside (name : String)
  /-- A choice whose tag stands inside its content. -/
  | tagInside (name : String)
  /-- A sequence that ends after so many items. -/
  | items (count : Nat)
  /-- A map that ends after so many members. -/
  | members (count : Nat)
  /-- A string that holds the text of a value. -/
  | valueText

/-- How a well-formed document misses a shape. -/
inductive Mismatch where
  | invalidType (found : Found) (expected : Expected)
  | invalidValue (found : Found) (expected : Expected)
  | invalidLength (length : Nat) (expected : Expected)
  | unknownVariant (name : String) (known : List String)
  | missingField (name : String)
  | duplicateField (name : String)
  /-- The text that is given in place of a value is no document. -/
  | valueText (fault : Fault)

/-- A word or text as code. -/
def code (s : String) : String := "`" ++ s ++ "`"

/-- The text of what was found. -/
def Found.text : Found → String
  | .null => "null"
  | .bool b => "boolean " ++ code (if b then "true" else "false")
  | .number (.int i) => "integer " ++ code (String.ofList (Number.int i).text)
  | .number (.double x) => "floating point " ++ code (String.ofList (Number.double x).text)
  | .string s => "string " ++ inspected s
  | .sequence => "sequence"
  | .map => "map"

/-- A number of elements in words. -/
def elements (count : Nat) : String :=
  String.ofList (Decimal.digitsOf count) ++ (if count = 1 then " element" else " elements")

/-- The text of what was expected. -/
def Expected.text : Expected → String
  | .string => "a string"
  | .u16 => "u16"
  | .unit => "unit"
  | .sequence => "a sequence"
  | .variantName => "variant identifier"
  | .record name => "struct " ++ name
  | .recordItems name count => "struct " ++ name ++ " with " ++ elements count
  | .variant owner name => "struct variant " ++ owner ++ "::" ++ name
  | .variantItems owner name count =>
    "struct variant " ++ owner ++ "::" ++ name ++ " with " ++ elements count
  | .tagBeside name => "adjacently tagged enum " ++ name
  | .tagInside name => "internally tagged enum " ++ name
  | .items count => elements count ++ " in sequence"
  | .members count => elements count ++ " in map"
  | .valueText => "raw value"

/-- A list of alternatives in words. -/
def alternatives : List String → String
  | [] => "there are no variants"
  | [a] => "expected " ++ code a
  | [a, b] => "expected " ++ code a ++ " or " ++ code b
  | names => "expected one of " ++ String.intercalate ", " (names.map code)

/-- The text of a mismatch. -/
def Mismatch.message : Mismatch → String
  | .invalidType found expected => "invalid type: " ++ found.text ++ ", expected " ++ expected.text
  | .invalidValue found expected =>
    "invalid value: " ++ found.text ++ ", expected " ++ expected.text
  | .invalidLength length expected =>
    "invalid length " ++ String.ofList (Decimal.digitsOf length) ++ ", expected " ++ expected.text
  | .unknownVariant name known => "unknown variant " ++ code name ++ ", " ++ alternatives known
  | .missingField name => "missing field " ++ code name
  | .duplicateField name => "duplicate field " ++ code name
  | .valueText fault => fault.message

end Parley.Shape
