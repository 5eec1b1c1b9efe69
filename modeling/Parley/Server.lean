import Parley.Hub

/-!
# The relay on sockets

Each connection gets a name and a line when it is accepted. A text frame is read as an event of the
client; a frame that is no event is dropped and the connection stays, and so do frames that are not
text. Whatever ends a connection, the hub is told that the peer is gone. Frames go out only to
connections that are still there.
-/

namespace Parley

/-- A connection that was accepted. -/
structure Connection where
  peer : PeerId
  /-- The number of the peer's line. -/
  line : Nat
  isOpen : Bool

/-- A frame that a peer sends. -/
inductive Frame where
  | text (content : String)
  | binary
  | ping

/-- A hub and its connections, in the order in which they were accepted. -/
structure Server where
  hub : Hub
  connections : List Connection

namespace Server

/-- A server without connections. -/
def empty (capacity : Nat) : Server := ⟨.empty capacity, []⟩

/-- The open connection of a peer. -/
def find? (s : Server) (p : PeerId) : Option Connection :=
  s.connections.find? fun c => c.peer = p && c.isOpen

/-- Accept a connection. -/
def accept (s : Server) (p : PeerId) : Server :=
  let (line, hub) := s.hub.connect p
  ⟨hub, s.connections ++ [⟨p, line, true⟩]⟩

/-- A frame arrives. -/
def receive (s : Server) (p : PeerId) (f : Frame) : Server :=
  match s.find? p, f with
  | some _, .text content =>
    match ClientEvent.ofWire content with
    | .ok e => { s with hub := s.hub.handle (.signal p e) }
    | .error _ => s
  | _, _ => s

/-- A connection ends. -/
def drop (s : Server) (p : PeerId) : Server :=
  match s.find? p with
  | none => s
  | some _ =>
    let connections :=
      s.connections.map fun c => if c.peer = p then { c with isOpen := false } else c
    ⟨s.hub.disconnect p, connections⟩

/-- The peers that are still connected. -/
def openPeers (s : Server) : List PeerId := (s.connections.filter (·.isOpen)).map (·.peer)

/-- Write out what is queued for the connections from here on. -/
def flushFrom (b : Switchboard) : List Connection → List (PeerId × List String) × Switchboard
  | [] => ([], b)
  | c :: rest =>
    if c.isOpen then
      let (events, line) := (b.lines[c.line]?.getD .fresh).drain
      let (later, b) := flushFrom { b with lines := b.lines.set c.line line } rest
      ((c.peer, events.map ServerEvent.wire) :: later, b)
    else flushFrom b rest

/-- Write out everything that is queued: for each open connection the frames it gets. -/
def flush (s : Server) : List (PeerId × List String) × Server :=
  let (frames, board) := flushFrom s.hub.board s.connections
  (frames, { s with hub := { s.hub with board } })

end Server

end Parley
