import Parley.Link
import Parley.Signal.Event
import Parley.Table

/-!
# The switchboard

The switchboard knows the connected peers and has a line to each of them, a link that the
connection's writer drains. A peer that is registered again gets a new line, and the old one ends.
Events for a peer without a line, or whose line nobody drains, are lost.
-/

namespace Parley

/-- The lines that were ever handed out, and which of them leads to which peer now. -/
structure Switchboard where
  lines : List (Link ServerEvent)
  peers : Table PeerId Nat

namespace Switchboard

/-- A switchboard without peers. -/
def empty : Switchboard := ⟨[], .empty⟩

/-- End the line that leads to a peer. -/
def hangUp (b : Switchboard) (p : PeerId) : Switchboard :=
  match b.peers.get? p with
  | some line => { b with lines := b.lines.modify line Link.close }
  | none => b

/-- Register a peer, and return the number of its line. -/
def add (b : Switchboard) (p : PeerId) : Nat × Switchboard :=
  let b := b.hangUp p
  (b.lines.length, ⟨b.lines ++ [.fresh], b.peers.set p b.lines.length⟩)

/-- Forget a peer. -/
def remove (b : Switchboard) (p : PeerId) : Switchboard :=
  let b := b.hangUp p
  { b with peers := b.peers.erase p }

/-- Send an event to a peer. -/
def emit (b : Switchboard) (p : PeerId) (e : ServerEvent) : Switchboard :=
  match b.peers.get? p with
  | some line => { b with lines := b.lines.modify line (·.push e) }
  | none => b

/-- The peer is registered. -/
def isConnected (b : Switchboard) (p : PeerId) : Bool := b.peers.contains p

/-- The number of registered peers. -/
def peerCount (b : Switchboard) : Nat := b.peers.size

/-- Look for the next event on a line, and take it if there is one. -/
def receive (b : Switchboard) (line : Nat) : Received ServerEvent × Switchboard :=
  match b.lines[line]? with
  | some l => (l.receive.1, { b with lines := b.lines.set line l.receive.2 })
  | none => (.dropped, b)

/-- Give up the receiving end of a line. -/
def dropReceiver (b : Switchboard) (line : Nat) : Switchboard :=
  { b with lines := b.lines.modify line Link.dropReceiver }

end Switchboard

/-! ## Receiving ends -/

/-- A switchboard together with the receiving ends that are still held, one for each peer. -/
structure Exchange where
  board : Switchboard
  held : Table PeerId Nat

namespace Exchange

/-- A switchboard without peers. -/
def empty : Exchange := ⟨.empty, .empty⟩

/-- Register a peer and hold its line in place of the old one, which is given up. -/
def add (x : Exchange) (p : PeerId) : Exchange :=
  let board :=
    match x.held.get? p with
    | some line => x.board.dropReceiver line
    | none => x.board
  let (line, board) := board.add p
  ⟨board, x.held.set p line⟩

/-- Give up the line of a peer. -/
def dropReceiver (x : Exchange) (p : PeerId) : Bool × Exchange :=
  match x.held.get? p with
  | some line => (true, ⟨x.board.dropReceiver line, x.held.erase p⟩)
  | none => (false, x)

/-- Look for the next event on the line of a peer. -/
def receive (x : Exchange) (p : PeerId) : Received ServerEvent × Exchange :=
  match x.held.get? p with
  | some line =>
    let (received, board) := x.board.receive line
    (received, { x with board })
  | none => (.dropped, x)

end Exchange

end Parley
