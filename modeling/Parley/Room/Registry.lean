import Parley.Id
import Parley.Table

/-!
# Rooms and their members

A room lists its members in the order in which they joined, up to its capacity. The registry keeps
the rooms that have members, and for each peer the room it joined last. A peer that moves to another
room has to leave the old one first; the registry does not do it for the peer.
-/

namespace Parley

/-! ## One room -/

/-- A room. -/
structure Room where
  members : List PeerId
  capacity : Nat
  /-- The room was emptied and is about to be forgotten. -/
  retired : Bool
  deriving DecidableEq, Repr

namespace Room

/-- A room without members. -/
def empty (capacity : Nat) : Room := ⟨[], capacity, false⟩

/-- The number of members. -/
def size (r : Room) : Nat := r.members.length

/-- Nobody is in the room. -/
def isEmpty (r : Room) : Bool := r.members.isEmpty

/-- Nobody can join any more. -/
def isFull (r : Room) : Bool := r.capacity ≤ r.size

/-- The peer is a member. -/
def contains (r : Room) (p : PeerId) : Bool := p ∈ r.members

/-- Add a member, behind the others. -/
def insert (r : Room) (p : PeerId) : Room := { r with members := r.members ++ [p] }

/-- Remove a member. -/
def remove (r : Room) (p : PeerId) : Room := { r with members := r.members.filter (· ≠ p) }

/-- Nobody may join this room any more; a later join gets a room of its own. -/
def retire (r : Room) : Room := { r with retired := true }

end Room

/-! ## All rooms -/

/-- The rooms and where each peer is. -/
structure Registry where
  rooms : Table RoomId Room
  whereabouts : Table PeerId RoomId
  capacity : Nat

/-- What became of a join. -/
inductive JoinOutcome where
  /-- The peer is a member now, one of `count`; `existing` were there before. -/
  | joined (count : Nat) (existing : List PeerId)
  /-- The peer was a member already. -/
  | alreadyMember (count : Nat)
  /-- The room is at capacity. -/
  | full
  deriving DecidableEq, Repr

/-- What became of a leave. -/
structure LeaveOutcome where
  remaining : List PeerId
  wasMember : Bool
  deriving DecidableEq, Repr

namespace Registry

/-- A registry without rooms. Every room has space for one peer at least. -/
def empty (capacity : Nat) : Registry := ⟨.empty, .empty, max capacity 1⟩

/-- The room of a name, a new one if there is none. A retired room is as good as forgotten. -/
def roomOrNew (g : Registry) (r : RoomId) : Room :=
  match g.rooms.get? r with
  | some room => if room.retired then .empty g.capacity else room
  | none => .empty g.capacity

/-- Let a peer join a room. -/
def join (g : Registry) (r : RoomId) (p : PeerId) : JoinOutcome × Registry :=
  let room := g.roomOrNew r
  if room.contains p then (.alreadyMember room.size, g)
  else if room.isFull then (.full, g)
  else
    (.joined (room.insert p).size room.members,
      { g with rooms := g.rooms.set r (room.insert p), whereabouts := g.whereabouts.set p r })

/-- Let a peer leave a room. The room is forgotten when nobody is left in it. -/
def leave (g : Registry) (r : RoomId) (p : PeerId) : LeaveOutcome × Registry :=
  match g.rooms.get? r with
  | none => (⟨[], false⟩, g)
  | some room =>
    let wasMember := room.contains p
    let room := room.remove p
    let whereabouts :=
      if wasMember ∧ g.whereabouts.get? p = some r then g.whereabouts.erase p else g.whereabouts
    let rooms := if room.isEmpty then g.rooms.erase r else g.rooms.set r room
    (⟨room.members, wasMember⟩, { g with rooms, whereabouts })

/-- The members of a room, in the order in which they joined. -/
def members (g : Registry) (r : RoomId) : List PeerId :=
  match g.rooms.get? r with
  | none => []
  | some room => room.members

/-- The number of members of a room. -/
def memberCount (g : Registry) (r : RoomId) : Nat := (g.members r).length

/-- The peer is a member of the room. -/
def isMember (g : Registry) (r : RoomId) (p : PeerId) : Bool := p ∈ g.members r

/-- The room that a peer is in. -/
def roomOf? (g : Registry) (p : PeerId) : Option RoomId := g.whereabouts.get? p

/-- The number of rooms. -/
def roomCount (g : Registry) : Nat := g.rooms.size

end Registry

end Parley
