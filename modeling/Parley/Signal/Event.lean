import Parley.Id
import Parley.Shape.Value
import Parley.Signal.Message

/-!
# Events

The relay and its peers exchange events, each one an object with the name of the event in `event`
and its fields in `data`. The payload of a message is any value; it is kept in canonical form.
-/

namespace Parley

open Parley.Json Parley.Shape

/-- How deep the payload of a message may nest: the event and its fields take two levels. -/
def payloadLevels : Nat := nestingLimit - 2

/-- An event and its fields as a document. -/
def eventJson (name : String) (fields : List (String × Json)) : Json :=
  .object [("event", .string name), ("data", .object fields)]

/-! ## Fields of an event -/

/-- The fields of an event that were read so far. -/
structure EventFields where
  room : Option RoomId
  peer : Option PeerId
  data : Option Json

/-- Which fields an event has besides its room. -/
structure EventShape where
  /-- The key of the peer, if the event names one. -/
  peerKey : Option String
  /-- The event has a payload. -/
  payload : Bool

/-- Read one member of an event. -/
def EventFields.step (medium : Medium) (shape : EventShape) (f : EventFields) (key : String)
    (d : Doc) : Reading EventFields :=
  if key = "roomId" then do
    let room ← once key f.room (fun d => (string d).map RoomId.mk) d
    return { f with room }
  else if shape.peerKey = some key then do
    let peer ← once key f.peer (fun d => (string d).map PeerId.mk) d
    return { f with peer }
  else if shape.payload ∧ key = "data" then do
    let data ← once key f.data (value medium payloadLevels) d
    return { f with data }
  else skip f d

/-- Read the fields of an event, which have to stand in an object. -/
def readFields (medium : Medium) (owner title : String) (shape : EventShape) :
    Doc → Reading EventFields
  | .object members stop =>
    foldMembers (EventFields.step medium shape) stop ⟨none, none, none⟩ members
  | d => wrongType (.variant owner title) d

/-! ## Events of a client -/

/-- What a peer tells the relay. -/
inductive ClientEvent where
  | join (room : RoomId)
  | leave (room : RoomId)
  | message (room : RoomId) (data : Json)

namespace ClientEvent

/-- The names of the events. -/
def names : List String := ["join", "leave", "message"]

/-- An event as a document. -/
def toJson : ClientEvent → Json
  | .join room => eventJson "join" [("roomId", .string room.text)]
  | .leave room => eventJson "leave" [("roomId", .string room.text)]
  | .message room data => eventJson "message" [("roomId", .string room.text), ("data", data)]

/-- The text of an event. -/
def wire (e : ClientEvent) : String := e.toJson.render

/-- Read the content of the event of a name. -/
def content (medium : Medium) (name : String) (d : Doc) : Reading ClientEvent :=
  if name = "join" then do
    let f ← readFields medium "ClientEvent" "Join" ⟨none, false⟩ d
    let room ← required "roomId" f.room
    return .join room
  else if name = "leave" then do
    let f ← readFields medium "ClientEvent" "Leave" ⟨none, false⟩ d
    let room ← required "roomId" f.room
    return .leave room
  else do
    let f ← readFields medium "ClientEvent" "Message" ⟨none, true⟩ d
    let room ← required "roomId" f.room
    let data ← required "data" f.data
    return .message room data

/-- Read an event. -/
def ofDoc (d : Doc) : Reading ClientEvent := tagBeside "ClientEvent" names content d

/-- Read the text of an event. -/
def ofWire (text : String) : Reading ClientEvent := ofString ofDoc text

end ClientEvent

/-! ## Events of the relay -/

/-- What the relay tells a peer. -/
inductive ServerEvent where
  /-- The peer is a member now; sent to the peer itself. -/
  | joined (room : RoomId) (peer : PeerId)
  /-- Another peer became a member; sent to those that were members already. -/
  | otherJoin (room : RoomId) (peer : PeerId)
  /-- The room is at capacity and the peer is no member. -/
  | full (room : RoomId) (peer : PeerId)
  /-- The peer left of its own accord; sent to the peer itself. -/
  | leaved (room : RoomId) (peer : PeerId)
  /-- A member left; sent to those that remain. -/
  | bye (room : RoomId) (peer : PeerId)
  /-- A message of another member. -/
  | message (room : RoomId) (sender : PeerId) (data : Json)

namespace ServerEvent

/-- The name of an event. -/
def name : ServerEvent → String
  | .joined .. => "joined"
  | .otherJoin .. => "other_join"
  | .full .. => "full"
  | .leaved .. => "leaved"
  | .bye .. => "bye"
  | .message .. => "message"

/-- The names of the events. -/
def names : List String := ["joined", "other_join", "full", "leaved", "bye", "message"]

/-- The room that an event is about. -/
def room : ServerEvent → RoomId
  | .joined room _ | .otherJoin room _ | .full room _ | .leaved room _ | .bye room _ => room
  | .message room _ _ => room

/-- An event as a document. -/
def toJson (e : ServerEvent) : Json :=
  eventJson e.name <|
    match e with
    | .joined room peer | .otherJoin room peer | .full room peer | .leaved room peer
    | .bye room peer => [("roomId", .string room.text), ("peerId", .string peer.text)]
    | .message room sender data =>
      [("roomId", .string room.text), ("from", .string sender.text), ("data", data)]

/-- The text of an event. -/
def wire (e : ServerEvent) : String := e.toJson.render

/-- Read the content of an event about a room and a peer. -/
def aboutPeer (medium : Medium) (title : String) (event : RoomId → PeerId → ServerEvent)
    (d : Doc) : Reading ServerEvent := do
  let f ← readFields medium "ServerEvent" title ⟨some "peerId", false⟩ d
  let room ← required "roomId" f.room
  let peer ← required "peerId" f.peer
  return event room peer

/-- Read the content of the event of a name. -/
def content (medium : Medium) (name : String) (d : Doc) : Reading ServerEvent :=
  if name = "joined" then aboutPeer medium "Joined" .joined d
  else if name = "other_join" then aboutPeer medium "OtherJoin" .otherJoin d
  else if name = "full" then aboutPeer medium "Full" .full d
  else if name = "leaved" then aboutPeer medium "Leaved" .leaved d
  else if name = "bye" then aboutPeer medium "Bye" .bye d
  else do
    let f ← readFields medium "ServerEvent" "Message" ⟨some "from", true⟩ d
    let room ← required "roomId" f.room
    let sender ← required "from" f.peer
    let data ← required "data" f.data
    return .message room sender data

/-- Read an event. -/
def ofDoc (d : Doc) : Reading ServerEvent := tagBeside "ServerEvent" names content d

/-- Read the text of an event. -/
def ofWire (text : String) : Reading ServerEvent := ofString ofDoc text

end ServerEvent

end Parley
