import Parley.Room.Registry

/-!
# Rooms shared by many callers

The registry as callers that run side by side use it. Every room is an object of its own. A table
leads from a name to an object, and a caller that has looked an object up holds on to it, whatever
becomes of the table meanwhile.

A call is made in turns, and between two turns of one caller the others may have theirs. The first
turn looks the object up; a join opens a new one where there is none. The second turn does the work
on the object, which nobody else can touch during it. A leave that has emptied the object retires it
and takes it off the table in a third turn. A join that comes upon a retired object looks again: so
no two objects of one name ever have members at the same time.

`Registry.call` is what a call comes to when the caller is alone, and `SharedRegistry.view` is the
registry that such a caller would find.
-/

namespace Parley

/-- A call to the registry. -/
inductive RoomCall where
  | join (room : RoomId) (peer : PeerId)
  | leave (room : RoomId) (peer : PeerId)
  | memberCount (room : RoomId)
  | members (room : RoomId)
  deriving DecidableEq, Repr

/-- What a call returns. -/
inductive RoomAnswer where
  | join (outcome : JoinOutcome)
  | leave (outcome : LeaveOutcome)
  | memberCount (count : Nat)
  | members (peers : List PeerId)
  deriving DecidableEq, Repr

/-- The room that a call is about. -/
def RoomCall.room : RoomCall → RoomId
  | .join r _ | .leave r _ | .memberCount r | .members r => r

/-- Make a call while nobody else does. -/
def Registry.call (g : Registry) : RoomCall → RoomAnswer × Registry
  | .join r p => (.join (g.join r p).1, (g.join r p).2)
  | .leave r p => (.leave (g.leave r p).1, (g.leave r p).2)
  | .memberCount r => (.memberCount (g.memberCount r), g)
  | .members r => (.members (g.members r), g)

/-- Rooms are numbered in the order in which they were opened. -/
abbrev RoomNumber := Nat

/-- The rooms and where each peer is, for callers that run side by side. -/
structure SharedRegistry where
  /-- Every room that was ever opened, with its name. -/
  objects : List (RoomId × Room)
  /-- The object that a name leads to. -/
  rooms : Table RoomId RoomNumber
  whereabouts : Table PeerId RoomId
  capacity : Nat

/-- How far a call has got. -/
inductive Phase where
  /-- The object has to be looked up. -/
  | seeking
  /-- The object was looked up, and nothing was done on it. -/
  | holding (object : RoomNumber)
  /-- The object was emptied and retired, and may still be on the table. -/
  | clearing (object : RoomNumber) (outcome : LeaveOutcome)
  deriving DecidableEq, Repr

/-- What a turn leads to. -/
inductive Progress where
  | going (phase : Phase)
  | returned (answer : RoomAnswer)
  deriving DecidableEq, Repr

namespace SharedRegistry

/-- A registry without rooms. Every room has space for one peer at least. -/
def empty (capacity : Nat) : SharedRegistry := ⟨[], .empty, .empty, max capacity 1⟩

/-- The room that an object is. -/
def room? (g : SharedRegistry) (object : RoomNumber) : Option Room :=
  (g.objects[object]?).map (·.2)

/-- Change the room that an object is. -/
def modify (g : SharedRegistry) (object : RoomNumber) (f : Room → Room) : SharedRegistry :=
  { g with objects := g.objects.modify object fun x => (x.1, f x.2) }

/-- The registry that a caller would find if all others stopped: the rooms on the table that have
members. An object without members is as good as forgotten. -/
def view (g : SharedRegistry) : Registry :=
  let inUse (entry : RoomId × RoomNumber) : Option (RoomId × Room) :=
    (g.room? entry.2).bind fun room => if room.isEmpty then none else some (entry.1, room)
  ⟨⟨g.rooms.pairs.filterMap inUse⟩, g.whereabouts, g.capacity⟩

/-- Open a room under a name that leads to none. -/
def openRoom (g : SharedRegistry) (r : RoomId) : RoomNumber × SharedRegistry :=
  (g.objects.length,
    { g with
      objects := g.objects ++ [(r, .empty g.capacity)], rooms := g.rooms.set r g.objects.length })

/-- Look the object of a call up. Where there is none, a join opens a new room, and there is nothing
to do for the other calls. -/
def seek (g : SharedRegistry) (c : RoomCall) : Progress × SharedRegistry :=
  match g.rooms.get? c.room with
  | some object => (.going (.holding object), g)
  | none =>
    match c with
    | .join r _ => (.going (.holding (g.openRoom r).1), (g.openRoom r).2)
    | .leave _ _ => (.returned (.leave ⟨[], false⟩), g)
    | .memberCount _ => (.returned (.memberCount 0), g)
    | .members _ => (.returned (.members []), g)

/-- Join a room that was looked up. -/
def joinHeld (g : SharedRegistry) (object : RoomNumber) (room : Room) (r : RoomId) (p : PeerId) :
    Progress × SharedRegistry :=
  if room.retired then (.going .seeking, g)
  else if room.contains p then (.returned (.join (.alreadyMember room.size)), g)
  else if room.isFull then (.returned (.join .full), g)
  else
    (.returned (.join (.joined (room.insert p).size room.members)),
      { g.modify object (·.insert p) with whereabouts := g.whereabouts.set p r })

/-- Leave a room that was looked up. -/
def leaveHeld (g : SharedRegistry) (object : RoomNumber) (room : Room) (r : RoomId) (p : PeerId) :
    Progress × SharedRegistry :=
  let wasMember := room.contains p
  let left := room.remove p
  let outcome : LeaveOutcome := ⟨left.members, wasMember⟩
  let whereabouts :=
    if wasMember ∧ g.whereabouts.get? p = some r then g.whereabouts.erase p else g.whereabouts
  let g := { g.modify object (·.remove p) with whereabouts }
  if left.isEmpty ∧ !left.retired then
    (.going (.clearing object outcome), g.modify object Room.retire)
  else (.returned (.leave outcome), g)

/-- Do the work of a call on the object that was looked up. -/
def work (g : SharedRegistry) (object : RoomNumber) (room : Room) :
    RoomCall → Progress × SharedRegistry
  | .join r p => g.joinHeld object room r p
  | .leave r p => g.leaveHeld object room r p
  | .memberCount _ => (.returned (.memberCount room.size), g)
  | .members _ => (.returned (.members room.members), g)

/-- Take an object off the table, unless its name leads to another one by now. -/
def clear (g : SharedRegistry) (r : RoomId) (object : RoomNumber) : SharedRegistry :=
  if g.rooms.get? r = some object then { g with rooms := g.rooms.erase r } else g

/-- Have a turn with a call. -/
def turn (g : SharedRegistry) (c : RoomCall) : Phase → Progress × SharedRegistry
  | .seeking => g.seek c
  | .holding object =>
    match g.room? object with
    | some room => g.work object room c
    | none => (.going .seeking, g)
  | .clearing object outcome => (.returned (.leave outcome), g.clear c.room object)

end SharedRegistry

end Parley
