import Parley.Hub

/-!
# The hub at work

Every connection of the hub has an attendant, and the attendants work side by side. An attendant
works on the events of its connection one after another, action by action: each action is one call
to the registry or one event that goes out to one peer. Between two actions of one attendant the
others may do theirs.

When a connection is gone, nothing is begun for it any more, but the work on an event that was begun
goes on. Meanwhile the farewell takes place: the peer is forgotten, and then, as for any other
event, the work on its disconnect is done action by action.

Here nobody receives what goes out, so a line holds all that was ever sent over it. `Hub.handle` is
what becomes of an event when one attendant does all its work on it and no other acts in between.
-/

namespace Parley

/-- Do one action of a job. -/
def Hub.act (h : Hub) (j : Job) : Option (Job × Hub) :=
  (j.step? h.registry).map fun (next, registry, emitted) =>
    (next, ⟨registry, Hub.emitAll h.board emitted.toList⟩)

/-- How far the end of a connection has got. -/
inductive Farewell where
  /-- The connection stands. -/
  | notYet
  /-- The connection is gone, and the hub still knows the peer. -/
  | begun
  /-- The peer is forgotten. Its disconnect is worked on. -/
  | departing (job : Job)

/-- The attendant of a connection. -/
structure Attendant where
  peer : PeerId
  /-- The number of the peer's line. -/
  line : Nat
  /-- Events that wait for their turn. -/
  waiting : List ClientEvent
  /-- What is left of the work on the current event. -/
  job : Job
  farewell : Farewell

namespace Attendant

/-- Do the next action on the current event, or begin the next event. -/
def work (h : Hub) (x : Attendant) : Attendant × Hub :=
  match h.act x.job with
  | some (job, h) => ({ x with job }, h)
  | none =>
    match x.farewell, x.waiting with
    | .notYet, e :: rest => ({ x with waiting := rest, job := .ofEvent (.signal x.peer e) }, h)
    | _, _ => (x, h)

/-- The connection is gone. -/
def hangUp (x : Attendant) : Attendant :=
  match x.farewell with
  | .notYet => { x with farewell := .begun }
  | _ => x

/-- Do the next action of the farewell. -/
def takeLeave (h : Hub) (x : Attendant) : Attendant × Hub :=
  match x.farewell with
  | .notYet => (x, h)
  | .begun =>
    ({ x with farewell := .departing (.ofEvent (.disconnected x.peer)) },
      { h with board := h.board.remove x.peer })
  | .departing job =>
    match h.act job with
    | some (job, h) => ({ x with farewell := .departing job }, h)
    | none => (x, h)

/-- The farewell is over and no work is left. -/
def isGone (x : Attendant) : Bool :=
  match x.farewell, x.job with
  | .departing .done, .done => true
  | _, _ => false

end Attendant

/-- A hub and its attendants, in the order in which their connections were accepted. -/
structure Staff where
  hub : Hub
  attendants : List Attendant

namespace Staff

/-- A hub without connections. -/
def empty (capacity : Nat) : Staff := ⟨.empty capacity, []⟩

/-- Accept a connection over which these events will come. -/
def accept (s : Staff) (p : PeerId) (events : List ClientEvent) : Staff :=
  let (line, hub) := s.hub.connect p
  ⟨hub, s.attendants ++ [⟨p, line, events, .done, .notYet⟩]⟩

/-- Let an attendant act on the hub. -/
def turn (s : Staff) (i : Nat) (act : Hub → Attendant → Attendant × Hub) : Staff :=
  match s.attendants[i]? with
  | none => s
  | some x =>
    let (x, hub) := act s.hub x
    ⟨hub, s.attendants.set i x⟩

/-- An attendant works on the events of its connection. -/
def work (s : Staff) (i : Nat) : Staff := s.turn i Attendant.work

/-- A connection is gone. -/
def hangUp (s : Staff) (i : Nat) : Staff := s.turn i fun h x => (x.hangUp, h)

/-- The farewell of a connection goes on. -/
def takeLeave (s : Staff) (i : Nat) : Staff := s.turn i Attendant.takeLeave

/-- What can happen at a hub. -/
inductive Move where
  /-- A peer connects. A name that was used before is not used again. -/
  | accept (peer : PeerId) (events : List ClientEvent)
  | work (attendant : Nat)
  | hangUp (attendant : Nat)
  | takeLeave (attendant : Nat)

/-- Something happens at a hub. -/
def move (s : Staff) : Move → Staff
  | .accept p events => if s.attendants.any (·.peer = p) then s else s.accept p events
  | .work i => s.work i
  | .hangUp i => s.hangUp i
  | .takeLeave i => s.takeLeave i

/-- One thing after another happens at a hub. -/
def run (s : Staff) (moves : List Move) : Staff := moves.foldl move s

end Staff

end Parley
