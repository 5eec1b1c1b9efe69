import Parley.Json.Number

/-!
# Document values

A `Json` value keeps the members of an object in the order in which they are listed, repeated keys
included. Its *canonical* form lists every key once, with the value it was given last, in the order
of the keys' bytes. Free payloads travel in canonical form.
-/

namespace Parley

/-- A document value. -/
inductive Json where
  | null
  | bool (value : Bool)
  | number (value : Json.Number)
  | string (value : String)
  | array (items : List Json)
  | object (members : List (String × Json))

namespace Json

/-- Put a member into a list sorted by key, unless the key is there already. Strings compare by
code points, which is also the order of their bytes. -/
def insertNew (key : String) (value : Json) : List (String × Json) → List (String × Json)
  | [] => [(key, value)]
  | (k, v) :: rest =>
    if key < k then (key, value) :: (k, v) :: rest
    else if key = k then (k, v) :: rest
    else (k, v) :: insertNew key value rest

mutual

/-- The canonical form of a value. -/
def canonical : Json → Json
  | .array items => .array (canonicalItems items)
  | .object members => .object (canonicalMembers members)
  | v => v

/-- The canonical forms of the items of an array. -/
def canonicalItems : List Json → List Json
  | [] => []
  | v :: rest => canonical v :: canonicalItems rest

/-- The members of an object, sorted. The last member of a key is met first, because the list is
worked off from its end, so it is the one that stays. -/
def canonicalMembers : List (String × Json) → List (String × Json)
  | [] => []
  | (k, v) :: rest => insertNew k (canonical v) (canonicalMembers rest)

end

/-- The value of a member, if the object has it. -/
def member? (key : String) : Json → Option Json
  | .object members => (members.find? fun m => m.1 == key).map (·.2)
  | _ => none

end Json

end Parley
