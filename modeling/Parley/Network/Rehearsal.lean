import Parley.Network
import Parley.Session.Rig

/-!
# A network on rigs

A network whose sessions all have collaborators that do as they are told. Nothing moves between the
sessions and the hub by itself, but whenever something reaches a session, it runs until nothing is
left to do.
-/

namespace Parley

/-- A network and the collaborators of each of its sessions. -/
structure Rehearsal where
  network : Network
  benches : Table PeerId Bench

namespace Rehearsal

/-- A network without sessions. -/
def empty (capacity : Nat) : Rehearsal := ⟨.empty capacity, .empty⟩

/-- The participant of a name and its collaborators. -/
def find? (h : Rehearsal) (p : PeerId) : Option (Participant × Bench) := do
  let x ← h.network.find? p
  let b ← h.benches.get? p
  return (x, b)

/-- The rig of a participant. -/
def rig? (h : Rehearsal) (p : PeerId) : Option Rig :=
  (h.find? p).map fun (x, b) => ⟨x.runner, b⟩

/-- Put back the rig of a participant. -/
def update (h : Rehearsal) (p : PeerId) (rig : Rig) : Rehearsal :=
  match h.network.find? p with
  | none => h
  | some x => ⟨h.network.update { x with runner := rig.runner }, h.benches.set p rig.bench⟩

/-- Let a session run until nothing is left to do. -/
def settle (h : Rehearsal) (p : PeerId) : Rehearsal :=
  match h.rig? p with
  | none => h
  | some rig => h.update p rig.settle

/-- Connect a peer and start its session. -/
def connect (h : Rehearsal) (p : PeerId) (room : RoomId) (bench : Bench) : Rehearsal :=
  let rig := Rig.start room .fresh bench
  ⟨h.network.connect p rig.runner, h.benches.set p rig.bench⟩

/-- Break off a connection. -/
def disconnect (h : Rehearsal) (x : Participant) : Rehearsal :=
  settle { h with network := h.network.disconnect x } x.peer

/-- Hand the next event of a session to the hub, or end its connection. -/
def up (h : Rehearsal) (p : PeerId) : Option Network.Transfer × Rehearsal :=
  let (move, network) := h.network.up p
  (move, settle { h with network } p)

/-- Hand the next event of a peer's line to its session. -/
def down (h : Rehearsal) (p : PeerId) : Option Network.Transfer × Rehearsal :=
  let (move, network) := h.network.down p
  (move, settle { h with network } p)

/-- Repeat a move as long as something moves, at most so many times. -/
def repeatMove (move : Rehearsal → Option Network.Transfer × Rehearsal) :
    Nat → Rehearsal → List Network.Transfer × Rehearsal
  | 0, h => ([], h)
  | times + 1, h =>
    match move h with
    | (none, h) => ([], h)
    | (some m, h) =>
      let (ms, h) := repeatMove move times h
      (m :: ms, h)

/-- Everything up for a peer: what it has sent, and the end of its connection. -/
def allUp (h : Rehearsal) (p : PeerId) : List Network.Transfer × Rehearsal :=
  let queued := (h.network.find? p).elim 0 fun x => x.runner.actor.link.queue.length
  repeatMove (·.up p) (queued + 1) h

/-- Everything down for a peer. -/
def allDown (h : Rehearsal) (p : PeerId) : List Network.Transfer × Rehearsal :=
  let queue (x : Participant) : Nat :=
    (h.network.hub.board.lines[x.line]?).elim 0 (·.queue.length)
  repeatMove (·.down p) ((h.network.find? p).elim 0 queue) h

/-- One pass over the peers: for each, everything up and then everything down. -/
def pass (h : Rehearsal) : List PeerId → List Network.Transfer × Rehearsal
  | [] => ([], h)
  | p :: rest =>
    let (ups, h) := h.allUp p
    let (downs, h) := h.allDown p
    let (later, h) := pass h rest
    (ups ++ downs ++ later, h)

/-- Passes until one moves nothing, at most so many. -/
def passes : Nat → Rehearsal → List Network.Transfer × Rehearsal
  | 0, h => ([], h)
  | times + 1, h =>
    match h.pass (h.network.participants.map (·.peer)) with
    | ([], h) => ([], h)
    | (moves, h) =>
      let (later, h) := passes times h
      (moves ++ later, h)

/-- How much is waiting anywhere in the network. -/
def load (h : Rehearsal) : Nat :=
  (h.network.participants.flatMap (·.runner.actor.link.queue)).length +
  (h.network.participants.flatMap (·.runner.actor.backlog)).length +
  (h.network.hub.board.lines.flatMap (·.queue)).length

/-- Let everything move until nothing does. What a pass hands over is answered in the next one, and
a chain of answers is short: join, announcement, offer, answer. A member that departs sets inputs
free that waited in a backlog, each of them the head of another chain; so the load bounds how many
passes there can be. -/
def run (h : Rehearsal) : List Network.Transfer × Rehearsal :=
  passes (8 * h.load + 8 * h.network.participants.length + 8) h

/-- Command a session. -/
def command (h : Rehearsal) (p : PeerId) (c : Rig.Command) : Option (Rig.Reply × Rehearsal) := do
  let rig ← h.rig? p
  let (reply, rig) := rig.run c
  return (reply, h.update p rig)

/-- What can be seen of a participant. -/
structure Report where
  participant : Participant
  /-- The calls since the last report. -/
  calls : List String
  memberOf : Option RoomId

/-- What can be seen of each participant of a list. -/
def reportEach (h : Rehearsal) : List Participant → List Report × Rehearsal
  | [] => ([], h)
  | x :: rest =>
    let memberOf := h.network.hub.registry.roomOf? x.peer
    match h.benches.get? x.peer with
    | none =>
      let (later, h) := reportEach h rest
      (⟨x, [], memberOf⟩ :: later, h)
    | some bench =>
      let (calls, rig) := Rig.calls ⟨x.runner, bench⟩
      let (later, h) := reportEach { h with benches := h.benches.set x.peer rig.bench } rest
      (⟨x, calls, memberOf⟩ :: later, h)

/-- What can be seen of all participants. -/
def report (h : Rehearsal) : List Report × Rehearsal := h.reportEach h.network.participants

end Rehearsal

end Parley
