import Parley.Room.Shared

/-!
# A crowd of callers

Any number of callers share a registry, each with a list of calls to make one after another. A
schedule says whose turn it is; `Crowd.run` follows it. The state after each turn is a function of
the schedule, so a call extends from the turn in which its caller had answered all calls before it
to the turn in which its own answer appears.

A rush is a crowd that takes turns around, with many peers asking for the same room at once.
-/

namespace Parley

/-- A caller. -/
structure Caller where
  /-- The calls to make. The first one may have begun. -/
  calls : List RoomCall
  /-- How far the first call has got. -/
  phase : Phase
  /-- The answers so far, the oldest first. -/
  answers : List RoomAnswer
  deriving DecidableEq, Repr

namespace Caller

/-- A caller that has made no call yet. -/
def new (calls : List RoomCall) : Caller := ⟨calls, .seeking, []⟩

/-- Have a turn. -/
def turn (g : SharedRegistry) (x : Caller) : Caller × SharedRegistry :=
  match x.calls with
  | [] => (x, g)
  | c :: rest =>
    match g.turn c x.phase with
    | (.going phase, g) => ({ x with phase }, g)
    | (.returned answer, g) => (⟨rest, .seeking, x.answers ++ [answer]⟩, g)

end Caller

/-- Callers that share a registry. -/
structure Crowd where
  registry : SharedRegistry
  callers : List Caller

namespace Crowd

/-- Callers with their calls before an empty registry. -/
def new (capacity : Nat) (calls : List (List RoomCall)) : Crowd :=
  ⟨.empty capacity, calls.map .new⟩

/-- A caller has a turn. -/
def turn (c : Crowd) (i : Nat) : Crowd :=
  match c.callers[i]? with
  | none => c
  | some x =>
    let (x, registry) := x.turn c.registry
    ⟨registry, c.callers.set i x⟩

/-- The callers have turns as the schedule says. -/
def run (c : Crowd) (schedule : List Nat) : Crowd := schedule.foldl turn c

/-- All calls have returned. -/
def isDone (c : Crowd) : Bool := c.callers.all (·.calls.isEmpty)

/-- All answers, caller by caller. -/
def answers (c : Crowd) : List RoomAnswer := c.callers.flatMap (·.answers)

/-- Callers have a turn each, in the order of the list. -/
def sweep (g : SharedRegistry) : List Caller → List Caller × SharedRegistry
  | [] => ([], g)
  | x :: rest =>
    let (x, g) := x.turn g
    let (rest, g) := sweep g rest
    (x :: rest, g)

/-- Every caller has a turn. -/
def round (c : Crowd) : Crowd :=
  let (callers, registry) := sweep c.registry c.callers
  ⟨registry, callers⟩

/-- Rounds until all calls have returned; at most so many. -/
def rounds : Nat → Crowd → Crowd
  | 0, c => c
  | n + 1, c => if c.isDone then c else rounds n c.round

/-- Let the callers take turns around until all calls have returned. A call can only be held up by a
leave that empties the room it holds, and that leave returns in the next round; so among four rounds
there is always one in which a call returns. -/
def finish (c : Crowd) : Crowd := rounds (4 * (c.callers.flatMap (·.calls)).length) c

end Crowd

/-! ## A rush on one room -/

/-- What a rush on a room comes to. -/
structure Rush where
  /-- How many peers found the room full. -/
  full : Nat
  members : Nat
  /-- How often more members than the capacity were seen while peers came and went. -/
  overCapacity : Nat
  /-- What is left after all have gone. -/
  membersLeft : Nat
  roomsLeft : Nat

/-- The calls of a peer that joins a room, counts the members and leaves again, so many times. -/
def comeAndGo (r : RoomId) (p : PeerId) : Nat → List RoomCall
  | 0 => []
  | times + 1 => .join r p :: .memberCount r :: .leave r p :: comeAndGo r p times

/-- Let peers rush on a room of a new registry, and let them come and go in another one. -/
def Rush.of (capacity : Nat) (r : RoomId) (peers : List PeerId) (times : Nat) : Rush :=
  let joined := (Crowd.new capacity (peers.map fun p => [.join r p])).finish
  let gone := (Crowd.new capacity (peers.map fun p => comeAndGo r p times)).finish
  let exceeds (a : RoomAnswer) : Bool :=
    match a with
    | .memberCount count => max capacity 1 < count
    | _ => false
  { full := joined.answers.count (.join .full)
    members := joined.registry.view.memberCount r
    overCapacity := gone.answers.countP exceeds
    membersLeft := gone.registry.view.memberCount r
    roomsLeft := gone.registry.rooms.size }

end Parley
