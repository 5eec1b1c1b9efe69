import Parley.Id
import Parley.Signal.Description

/-!
# States of a session

A session takes its peer through one room. Its state says how far it has got, and its snapshot is
everything that an observer can see of it.
-/

namespace Parley

/-- How far a session has got. -/
inductive SessionState where
  /-- In no room; a join may be on its way. -/
  | init
  /-- A member of the room, bound to nobody yet. -/
  | joined
  /-- Bound to a counterpart and negotiating with it. -/
  | connected
  /-- The counterpart left, and the engine is gone until somebody else joins. -/
  | unbound
  /-- Finished for good. -/
  | leaved
  deriving DecidableEq, Repr

namespace SessionState

/-- The peer is a member of the room. -/
def inRoom : SessionState → Bool
  | .joined | .connected | .unbound => true
  | .init | .leaved => false

/-- The word for a state. -/
def display : SessionState → String
  | .init => "init"
  | .joined => "joined"
  | .connected => "joined_conn"
  | .unbound => "joined_unbind"
  | .leaved => "leaved"

/-- All states. -/
def all : List SessionState := [.init, .joined, .connected, .unbound, .leaved]

/-- The state of a word. -/
def ofDisplay? (word : String) : Option SessionState := all.find? fun s => s.display = word

end SessionState

/-- What an observer sees of a session. -/
structure Snapshot where
  state : SessionState
  room : RoomId
  peer : Option PeerId
  counterpart : Option PeerId
  localDescription : Option Description
  remoteDescription : Option Description
  deriving DecidableEq, Repr

/-- What an observer sees before the session has done anything. -/
def Snapshot.new (room : RoomId) : Snapshot := ⟨.init, room, none, none, none, none⟩

end Parley
