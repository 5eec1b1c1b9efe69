import Parley.Session.Rig

/-!
# A client on a socket

A session whose link is a socket. The events it sends go out as text frames; text frames that come
in and can be read are delivered to it. When the session closes its link, the socket is closed, and
when the socket is gone, the session learns that its link is lost.
-/

namespace Parley

/-- A session and its socket. -/
structure Client where
  rig : Rig
  connected : Bool

/-- What the client does to its socket. -/
inductive ClientFrame where
  | text (content : String)
  | closed

/-- What the relay's side does to the socket. -/
inductive RelayAction where
  | text (content : String)
  | binary
  /-- The socket is closed, or just gone. -/
  | hangUp

namespace Client

/-- Connect, and start a session on the rig. -/
def connect (room : RoomId) (bench : Bench) : Client := ⟨.start room .fresh bench, true⟩

/-- The relay's side acts, if there still is a connection. -/
def receive? (c : Client) (a : RelayAction) : Option Client :=
  if !c.connected then none
  else
    match a with
    | .text content =>
      match ServerEvent.ofWire content with
      | .ok e => some { c with rig := (c.rig.run (.weakDeliver e)).2 }
      | .error _ => some c
    | .binary => some c
    | .hangUp => some ⟨(c.rig.run .linkLost).2, false⟩

/-- Write out what the session has sent, and close the socket if the session closed its link. -/
def flush (c : Client) : List ClientFrame × Client :=
  let (events, rig) := c.rig.sent
  let texts := events.map fun e => ClientFrame.text e.wire
  if !c.connected then ([], ⟨rig, false⟩)
  else if rig.runner.actor.link.isOpen then (texts, ⟨rig, true⟩)
  else (texts ++ [.closed], ⟨(rig.run .linkLost).2, false⟩)

end Client

end Parley
