import Parley.Json.Printer
import Parley.Shape.Reading

/-!
# Session descriptions, candidates and servers

The three records that peers exchange about a connection. A session description is an SDP text with
its role; the text is never looked into. A candidate may be spelled with the older member names
`id` and `label`; it is always written with `sdpMid` and `sdpMLineIndex`.
-/

namespace Parley

open Parley.Json Parley.Shape

/-! ## Session descriptions -/

/-- The role of a session description. -/
inductive SdpKind where
  | offer
  | answer
  deriving DecidableEq, Repr

/-- The name of a role. -/
def SdpKind.name : SdpKind → String
  | .offer => "offer"
  | .answer => "answer"

/-- The names of the roles. -/
def SdpKind.names : List String := [SdpKind.offer.name, SdpKind.answer.name]

/-- The role of a name from `names`. -/
def SdpKind.ofName (name : String) : SdpKind :=
  if name = SdpKind.answer.name then .answer else .offer

/-- Read a role. -/
def SdpKind.ofDoc (d : Doc) : Reading SdpKind := (variant SdpKind.names d).map SdpKind.ofName

/-- A session description. -/
structure Description where
  kind : SdpKind
  sdp : String
  deriving DecidableEq, Repr

/-- A session description as a document. -/
def Description.toJson (d : Description) : Json :=
  .object [("type", .string d.kind.name), ("sdp", .string d.sdp)]

namespace Description

/-- The fields that were read so far. -/
structure Fields where
  kind : Option SdpKind
  sdp : Option String

/-- Read one member. -/
def Fields.step (f : Fields) (key : String) (d : Doc) : Reading Fields :=
  if key = "type" then do
    let kind ← once key f.kind SdpKind.ofDoc d
    return { f with kind }
  else if key = "sdp" then do
    let sdp ← once key f.sdp string d
    return { f with sdp }
  else skip f d

/-- Read a session description. -/
def ofDoc : Doc → Reading Description
  | .object members stop => do
    let f ← foldMembers Fields.step stop ⟨none, none⟩ members
    let kind ← required "type" f.kind
    let sdp ← required "sdp" f.sdp
    return ⟨kind, sdp⟩
  | .array items stop => do
    let expected : Expected := .recordItems "SessionDescription" 2
    let (kind, c) ← Cursor.expect ⟨items, stop⟩ 0 expected SdpKind.ofDoc
    let (sdp, c) ← c.expect 1 expected string
    c.finish
    return ⟨kind, sdp⟩
  | d => wrongType (.record "SessionDescription") d

end Description

/-! ## Candidates -/

/-- A network candidate of a peer. -/
structure Candidate where
  candidate : String
  mid : Option String
  lineIndex : Option UInt16
  deriving DecidableEq, Repr

/-- A text that may be missing. -/
def optionalText : Option String → Json
  | none => .null
  | some s => .string s

/-- A number of sixteen bits that may be missing. -/
def optionalU16 : Option UInt16 → Json
  | none => .null
  | some n => .number (.int n.toNat)

namespace Candidate

/-- The members of a candidate. -/
def members (c : Candidate) : List (String × Json) :=
  [("candidate", .string c.candidate), ("sdpMid", optionalText c.mid),
    ("sdpMLineIndex", optionalU16 c.lineIndex)]

/-- A candidate as a document. -/
def toJson (c : Candidate) : Json := .object c.members

/-- The fields that were read so far. -/
structure Fields where
  candidate : Option String
  mid : Option (Option String)
  lineIndex : Option (Option UInt16)

/-- Read one member. Both spellings of a field are the same field. -/
def Fields.step (f : Fields) (key : String) (d : Doc) : Reading Fields :=
  if key = "candidate" then do
    let candidate ← once "candidate" f.candidate string d
    return { f with candidate }
  else if key = "sdpMid" ∨ key = "id" then do
    let mid ← once "sdpMid" f.mid (optional string) d
    return { f with mid }
  else if key = "sdpMLineIndex" ∨ key = "label" then do
    let lineIndex ← once "sdpMLineIndex" f.lineIndex (optional u16) d
    return { f with lineIndex }
  else skip f d

/-- Read a candidate off the members of an object. -/
def ofMembers (members : List (Quoted × Doc)) (stop : Option Fault) : Reading Candidate := do
  let f ← foldMembers Fields.step stop ⟨none, none, none⟩ members
  let candidate ← required "candidate" f.candidate
  return ⟨candidate, f.mid.getD none, f.lineIndex.getD none⟩

/-- Read a candidate off the items of a sequence, and return the items behind it. -/
def ofItems (c : Cursor) : Reading (Candidate × Cursor) := do
  let (candidate, c) ← c.expect 0 (.recordItems "IceCandidate" 3) string
  let (mid, c) ← c.expectOr none (optional string)
  let (lineIndex, c) ← c.expectOr none (optional u16)
  return (⟨candidate, mid, lineIndex⟩, c)

/-- Read a candidate. -/
def ofDoc : Doc → Reading Candidate
  | .object members stop => ofMembers members stop
  | .array items stop => do
    let (candidate, c) ← ofItems ⟨items, stop⟩
    c.finish
    return candidate
  | d => wrongType (.record "IceCandidate") d

end Candidate

/-! ## Servers -/

/-- A server that helps peers to find candidates. -/
structure IceServer where
  urls : List String
  username : Option String
  credential : Option String
  deriving DecidableEq, Repr

namespace IceServer

/-- A STUN server, which asks for no credentials. -/
def stun (urls : List String) : IceServer := ⟨urls, none, none⟩

/-- The STUN servers of a client that names none. -/
def default : IceServer :=
  stun ["stun:stun.l.google.com:19302", "stun:stun1.l.google.com:19302",
    "stun:stun2.l.google.com:19302", "stun:stun3.l.google.com:19302"]

/-- A server as a document. -/
def toJson (s : IceServer) : Json :=
  .object [("urls", .array (s.urls.map .string)), ("username", optionalText s.username),
    ("credential", optionalText s.credential)]

/-- The fields that were read so far. -/
structure Fields where
  urls : Option (List String)
  username : Option (Option String)
  credential : Option (Option String)

/-- Read one member. -/
def Fields.step (f : Fields) (key : String) (d : Doc) : Reading Fields :=
  if key = "urls" then do
    let urls ← once key f.urls strings d
    return { f with urls }
  else if key = "username" then do
    let username ← once key f.username (optional string) d
    return { f with username }
  else if key = "credential" then do
    let credential ← once key f.credential (optional string) d
    return { f with credential }
  else skip f d

/-- Read a server. -/
def ofDoc : Doc → Reading IceServer
  | .object members stop => do
    let f ← foldMembers Fields.step stop ⟨none, none, none⟩ members
    let urls ← required "urls" f.urls
    return ⟨urls, f.username.getD none, f.credential.getD none⟩
  | .array items stop => do
    let expected : Expected := .recordItems "IceServerConfig" 3
    let (urls, c) ← Cursor.expect ⟨items, stop⟩ 0 expected strings
    let (username, c) ← c.expect 1 expected (optional string)
    let (credential, c) ← c.expect 2 expected (optional string)
    c.finish
    return ⟨urls, username, credential⟩
  | d => wrongType (.record "IceServerConfig") d

end IceServer

end Parley
