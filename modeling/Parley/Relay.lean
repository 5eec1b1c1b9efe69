import Parley.Room.Registry
import Parley.Signal.Event

/-!
# The relay

The relay answers what peers ask for by calling the registry and emitting events to peers. Each
call and each emit is one action; between two of them other connections may act. So the work on one
event is a `Job`, a program of single actions, and `Job.run` is what becomes of it when nobody else
acts in between.

A peer is in one room at most: a join first leaves the room the peer is in. Of a message, only
members send and only payloads that can be read are passed on, unchanged, to every other member.
-/

namespace Parley

/-- What a connection reports to the relay. -/
inductive TransportEvent where
  | signal (peer : PeerId) (event : ClientEvent)
  /-- The connection is gone. -/
  | disconnected (peer : PeerId)

/-- An event for a peer. -/
structure Emission where
  recipient : PeerId
  event : ServerEvent

/-- The work on an event, action by action. -/
inductive Job where
  | done
  | roomOf (peer : PeerId) (next : Option RoomId → Job)
  | join (room : RoomId) (peer : PeerId) (next : JoinOutcome → Job)
  | leave (room : RoomId) (peer : PeerId) (next : LeaveOutcome → Job)
  | isMember (room : RoomId) (peer : PeerId) (next : Bool → Job)
  | members (room : RoomId) (next : List PeerId → Job)
  | emit (emission : Emission) (next : Job)

namespace Job

/-- The next action: the job after it, the registry after it, and the event it emits. -/
def step? (g : Registry) : Job → Option (Job × Registry × Option Emission)
  | .done => none
  | .roomOf p next => some (next (g.roomOf? p), g, none)
  | .join r p next => some (next (g.join r p).1, (g.join r p).2, none)
  | .leave r p next => some (next (g.leave r p).1, (g.leave r p).2, none)
  | .isMember r p next => some (next (g.isMember r p), g, none)
  | .members r next => some (next (g.members r), g, none)
  | .emit e next => some (next, g, some e)

/-- Do the whole job at once: the registry after it and the events it emits. -/
def run (g : Registry) : Job → Registry × List Emission
  | .done => (g, [])
  | .roomOf p next => (next (g.roomOf? p)).run g
  | .join r p next => (next (g.join r p).1).run (g.join r p).2
  | .leave r p next => (next (g.leave r p).1).run (g.leave r p).2
  | .isMember r p next => (next (g.isMember r p)).run g
  | .members r next => (next (g.members r)).run g
  | .emit e next => ((next.run g).1, e :: (next.run g).2)

/-- Emit an event to each of the recipients but the sender. -/
def fanOut (recipients : List PeerId) (sender : PeerId) (event : ServerEvent) (next : Job) : Job :=
  (recipients.filter (· ≠ sender)).foldr (fun p job => .emit ⟨p, event⟩ job) next

/-- Let a peer leave a room: tell those who remain, and the peer itself if it `asked` to leave. -/
def depart (p : PeerId) (r : RoomId) (asked : Bool) (next : Job) : Job :=
  .leave r p fun outcome =>
    let rest := if asked then .emit ⟨p, .leaved r p⟩ next else next
    if outcome.wasMember then fanOut outcome.remaining p (.bye r p) rest else rest

/-- Let a peer into a room and tell everybody. -/
def enter (p : PeerId) (r : RoomId) : Job :=
  .join r p fun outcome =>
    match outcome with
    | .full => .emit ⟨p, .full r p⟩ .done
    | .alreadyMember _ => .emit ⟨p, .joined r p⟩ .done
    | .joined _ existing => .emit ⟨p, .joined r p⟩ (fanOut existing p (.otherJoin r p) .done)

/-- A peer asks for a room. -/
def ofJoin (p : PeerId) (r : RoomId) : Job :=
  .roomOf p fun current =>
    match current with
    | some c => if c ≠ r then depart p c true (enter p r) else enter p r
    | none => enter p r

/-- A peer has a message for the other members of a room. -/
def ofMessage (p : PeerId) (r : RoomId) (data : Json) : Job :=
  .isMember r p fun member =>
    if member then
      match Message.parse data with
      | .ok _ => .members r fun recipients => fanOut recipients p (.message r p data) .done
      | .error _ => .done
    else .done

/-- A peer is gone. -/
def ofDisconnect (p : PeerId) : Job :=
  .roomOf p fun current =>
    match current with
    | some c => depart p c false .done
    | none => .done

/-- The work on an event. -/
def ofEvent : TransportEvent → Job
  | .signal p (.join r) => ofJoin p r
  | .signal p (.leave r) => depart p r true .done
  | .signal p (.message r data) => ofMessage p r data
  | .disconnected p => ofDisconnect p

end Job

/-- Handle an event. -/
def Registry.handle (g : Registry) (e : TransportEvent) : Registry × List Emission :=
  (Job.ofEvent e).run g

end Parley
