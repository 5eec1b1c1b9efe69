import Parley.Failure
import Parley.Signal.Description

/-!
# Negotiation messages

The payload of a message between two peers. It is read off a value, not off a text: the relay and
the receiver have the value in hand. An object names its kind in the member `type`; a sequence names
it in its first item. A value without a known kind is refused for its kind, whatever else is wrong
with it.
-/

namespace Parley

open Parley.Json Parley.Shape

/-- What one peer tells another about their connection. -/
inductive Message where
  | offer (sdp : String)
  | answer (sdp : String)
  | candidate (candidate : Candidate)
  deriving DecidableEq, Repr

namespace Message

/-- The kinds of messages. -/
inductive Kind where
  | offer
  | answer
  | candidate
  deriving DecidableEq, Repr

/-- The name of a kind. -/
def Kind.name : Kind → String
  | .offer => "offer"
  | .answer => "answer"
  | .candidate => "candidate"

/-- The names of the kinds. -/
def Kind.names : List String := [Kind.offer.name, Kind.answer.name, Kind.candidate.name]

/-- The kind of a name from `names`. -/
def Kind.ofName (name : String) : Kind :=
  if name = Kind.answer.name then .answer
  else if name = Kind.candidate.name then .candidate
  else .offer

/-- The kind of a message. -/
def kind : Message → Kind
  | .offer _ => .offer
  | .answer _ => .answer
  | .candidate _ => .candidate

/-- The message that carries a session description. -/
def ofDescription (d : Description) : Message :=
  match d.kind with
  | .offer => .offer d.sdp
  | .answer => .answer d.sdp

/-- A message as a document, its kind first. -/
def toJson (m : Message) : Json :=
  let fields :=
    match m with
    | .offer sdp | .answer sdp => [("sdp", .string sdp)]
    | .candidate c => c.members
  .object (("type", .string m.kind.name) :: fields)

/-- A message as a payload. -/
def toPayload (m : Message) : Json := m.toJson.canonical

/-- The message with a session description's text. -/
def ofSdp (kind : Kind) (sdp : String) : Message :=
  match kind with
  | .answer => .answer sdp
  | _ => .offer sdp

/-- Read one member of an offer or answer. -/
def sdpStep (seen : Option String) (key : String) (d : Doc) : Reading (Option String) :=
  if key = "sdp" then once key seen string d else skip seen d

/-- Read a message of a kind off the members of an object. -/
def ofMembers (kind : Kind) (members : List (Quoted × Doc)) : Reading Message :=
  match kind with
  | .candidate => (Candidate.ofMembers members none).map .candidate
  | kind => do
    let sdp ← foldMembers sdpStep none none members
    let sdp ← required "sdp" sdp
    return ofSdp kind sdp

/-- The sequence has to end after `count` items. -/
def endAfter (count : Nat) (c : Cursor) : Reading Unit :=
  if c.items.isEmpty then .ok ()
  else refuse (.invalidLength (count + c.items.length) (.items count))

/-- The name of a variant in a report. -/
def Kind.title : Kind → String
  | .offer => "Offer"
  | .answer => "Answer"
  | .candidate => "Candidate"

/-- Read a message of a kind off the items of a sequence. -/
def ofItems (kind : Kind) (items : List Doc) : Reading Message :=
  match kind with
  | .candidate => do
    let (found, c) ← Candidate.ofItems ⟨items, none⟩
    endAfter 3 c
    return .candidate found
  | kind => do
    let (sdp, c) ← Cursor.expect ⟨items, none⟩ 0 (.variantItems "NegotiationMessage" kind.title 1)
      string
    endAfter 1 c
    return ofSdp kind sdp

/-- Read a kind off the value that names it. -/
def kindOf (v : Json) : Reading Kind :=
  (identifier Kind.names (Doc.ofJson v)).map Kind.ofName

/-- Read a message off a value. -/
def ofJson : Json → Reading Message
  | .object members =>
    match (Json.object members).member? "type" with
    | none => refuse (.missingField "type")
    | some v => do
      let kind ← kindOf v
      ofMembers kind (Doc.ofMembers (members.filter fun m => m.1 != "type"))
  | .array [] => refuse (.missingField "type")
  | .array (v :: rest) => do
    let kind ← kindOf v
    ofItems kind (Doc.ofItems rest)
  | v => wrongType (.tagInside "NegotiationMessage") (Doc.ofJson v)

/-- Read a message off a payload. -/
def parse (v : Json) : Except Failure Message :=
  match ofJson v with
  | .ok m => .ok m
  | .error (.mismatch m) => .error (.invalidMessage m.message)
  | .error (.fault _) => .error (.invalidMessage "")

end Message

end Parley
