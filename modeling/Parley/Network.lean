import Parley.Hub
import Parley.Session.Runner

/-!
# A network of sessions

One hub and any number of sessions, each with a queue to the hub and a line back. `up` hands the
next event of a session to the hub, `down` hands the next event of a line to its session's inbox. A
connection ends when its session has closed the link and everything it sent was handed over, or when
the transport breaks it off. What is still on the line of an ended connection can be handed over.

`Network.Move` lists these moves and those of the sessions themselves.
-/

namespace Parley

/-- A session and its connection. -/
structure Participant where
  peer : PeerId
  runner : Runner
  /-- The number of the peer's line. -/
  line : Nat
  connected : Bool

/-- Put an input into the inbox of a session. -/
def Participant.push (x : Participant) (i : SessionInput) : Participant :=
  { x with runner := x.runner.push i }

/-- A hub and the sessions that were ever connected to it, in the order of their connecting. -/
structure Network where
  hub : Hub
  participants : List Participant

namespace Network

/-- A network without sessions. -/
def empty (capacity : Nat) : Network := ⟨.empty capacity, []⟩

/-- Something that was handed over. -/
inductive Transfer where
  | up (peer : PeerId) (event : ClientEvent)
  | down (peer : PeerId) (event : ServerEvent)
  /-- The connection ended because its session had closed the link. -/
  | closed (peer : PeerId)

/-- The participant of a name. -/
def find? (n : Network) (p : PeerId) : Option Participant :=
  n.participants.find? fun x => x.peer = p

/-- Replace a participant. -/
def update (n : Network) (x : Participant) : Network :=
  { n with participants := n.participants.map fun y => if y.peer = x.peer then x else y }

/-- Connect a peer with its session. -/
def connect (n : Network) (p : PeerId) (runner : Runner) : Network :=
  let (line, hub) := n.hub.connect p
  ⟨hub, n.participants ++ [⟨p, runner, line, true⟩]⟩

/-- End a connection: the hub forgets the peer, and the session is told that its link is lost. -/
def disconnect (n : Network) (x : Participant) : Network :=
  if x.connected then
    { n with hub := n.hub.disconnect x.peer }.update
      { x.push .linkLost with connected := false }
  else n

/-- Hand the next event of a session to the hub, or end its connection. -/
def up (n : Network) (p : PeerId) : Option Transfer × Network :=
  match n.find? p with
  | none => (none, n)
  | some x =>
    if !x.connected then (none, n)
    else
      match x.runner.actor.link.receive with
      | (.value e, link) =>
        let n := n.update { x with runner := x.runner.onLink fun _ => link }
        (some (.up p e), { n with hub := n.hub.handle (.signal p e) })
      | (.ended, _) => (some (.closed p), n.disconnect x)
      | _ => (none, n)

/-- Hand the next event of a peer's line to its session. -/
def down (n : Network) (p : PeerId) : Option Transfer × Network :=
  match n.find? p with
  | none => (none, n)
  | some x =>
    match n.hub.board.receive x.line with
    | (.value e, board) =>
      let n := { n with hub := { n.hub with board } }
      (some (.down p e), n.update (x.push (.server e)))
    | _ => (none, n)

/-! ## Moves -/

/-- What can happen in a network. -/
inductive Move where
  /-- A peer connects and starts a session. A name that was used before is not used again. -/
  | connect (peer : PeerId) (room : RoomId)
  | up (peer : PeerId)
  | down (peer : PeerId)
  /-- The transport breaks off a connection. -/
  | disconnect (peer : PeerId)
  /-- A session or its user does something. -/
  | act (peer : PeerId) (act : Runner.Act)

/-- Something happens in a network. -/
def move (a : PeerId → Answers) (n : Network) : Move → Network
  | .connect p room => if (n.find? p).isSome then n else n.connect p (.start (a p) room .fresh)
  | .up p => (n.up p).2
  | .down p => (n.down p).2
  | .disconnect p => (n.find? p).elim n n.disconnect
  | .act p m => (n.find? p).elim n fun x => n.update { x with runner := x.runner.act (a p) m }

/-- One thing after another happens in a network. -/
def run (a : PeerId → Answers) (n : Network) (moves : List Move) : Network :=
  moves.foldl (move a) n

/-- The states that a network can get into, one move after another. -/
inductive Reachable (a : PeerId → Answers) (capacity : Nat) : Network → Prop where
  | empty : Reachable a capacity (empty capacity)
  | move {n : Network} (m : Move) : Reachable a capacity n → Reachable a capacity (n.move a m)

/-- What a run leads to is reachable. -/
theorem Reachable.run {a : PeerId → Answers} {capacity : Nat} {n : Network}
    (h : Reachable a capacity n) (moves : List Move) : Reachable a capacity (n.run a moves) := by
  induction moves generalizing n with
  | nil => exact h
  | cons m rest ih => exact ih (h.move m)

end Network

end Parley
