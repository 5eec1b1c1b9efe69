import Parley.Relay
import Parley.Switchboard

/-!
# The hub

The relay as a service: the registry of rooms and the switchboard to the connected peers. What the
work on an event emits goes out over the switchboard.
-/

namespace Parley

/-- The rooms and the lines of a running relay. -/
structure Hub where
  registry : Registry
  board : Switchboard

namespace Hub

/-- A hub without rooms and peers. -/
def empty (capacity : Nat) : Hub := ⟨.empty capacity, .empty⟩

/-- Send events out. -/
def emitAll (b : Switchboard) (es : List Emission) : Switchboard :=
  es.foldl (fun b e => b.emit e.recipient e.event) b

/-- Handle an event. -/
def handle (h : Hub) (e : TransportEvent) : Hub :=
  let (registry, emissions) := h.registry.handle e
  ⟨registry, emitAll h.board emissions⟩

/-- Accept a connection, and return the number of its line. -/
def connect (h : Hub) (p : PeerId) : Nat × Hub :=
  let (line, board) := h.board.add p
  (line, { h with board })

/-- A connection is gone: the peer is forgotten first, so that it hears nothing of its own leave. -/
def disconnect (h : Hub) (p : PeerId) : Hub :=
  { h with board := h.board.remove p }.handle (.disconnected p)

end Hub

end Parley
