import Parley.Session.Actor

/-!
# A running session

A session runs on its own. Inputs come in through the handle to it and queue up in its inbox; the
creations it began finish whenever they do; the session handles one input or one completion at a
time. It ends when it has left for good, or when the handle is gone and its inbox is empty. Whatever
arrives after that is lost.

`Runner.Act` lists what a session and its user can do, and `Runner.Move` adds what its surroundings
can do. Each is a function of the state, so `Runner.run` follows any list of moves. How the
collaborators answer is fixed by one `Answers` for a whole run, which is no restriction: no two
requests of a run have the same requests before them.
-/

namespace Parley

/-- A session, what waits for it, and whether it still runs. -/
structure Runner where
  actor : Actor
  inbox : List SessionInput
  /-- Creations that finished and were not handled yet. -/
  results : List Completion
  /-- Somebody holds a handle to the session. -/
  handle : Bool
  /-- The session has ended. -/
  finished : Bool

namespace Runner

/-- Start a session on a link: it asks to join at once. -/
def start (a : Answers) (room : RoomId) (link : Link ClientEvent) : Runner :=
  ⟨(Actor.new room link).enterRoom a, [], [], true, false⟩

/-- What an observer sees. -/
def snapshot (p : Runner) : Snapshot := p.actor.snapshot

/-- Put an input into the inbox. There is a way to the inbox as long as there is a handle. -/
def push (p : Runner) (i : SessionInput) : Runner :=
  if p.finished || !p.handle then p else { p with inbox := p.inbox ++ [i] }

/-- The sink of an engine reports something, stamped with the generation of the engine. -/
def report (p : Runner) (e : EngineId) (event : EngineEvent) : Runner :=
  match p.actor.engines[e]? with
  | some generation => p.push (.engine generation event)
  | none => p

/-- A creation finishes. -/
def finishCreation (p : Runner) (index : Nat) (result : Option Description) : Runner :=
  match p.actor.creations[index]? with
  | none => p
  | some c =>
    let actor := { p.actor with creations := p.actor.creations.eraseIdx index }
    let results := if p.finished then [] else p.results ++ [⟨c.generation, c.kind, result⟩]
    { p with actor, results }

/-- The session ends once it has left for good. -/
def endIfLeaved (p : Runner) : Runner :=
  if p.actor.state = .leaved then { p with inbox := [], results := [], finished := true } else p

/-- Handle the next input. -/
def takeInput (a : Answers) (p : Runner) : Runner :=
  match p.inbox with
  | i :: rest =>
    if p.finished then p else endIfLeaved { p with actor := p.actor.handleInput a i, inbox := rest }
  | [] => p

/-- Handle the next completion. -/
def takeResult (a : Answers) (p : Runner) : Runner :=
  match p.results with
  | c :: rest =>
    if p.finished then p else endIfLeaved { p with actor := p.actor.complete a c, results := rest }
  | [] => p

/-- Something happens to the link from outside: an event is received, or the link is closed. -/
def onLink (p : Runner) (f : Link ClientEvent → Link ClientEvent) : Runner :=
  { p with actor := { p.actor with link := f p.actor.link } }

/-- The last handle is dropped. -/
def dropHandle (p : Runner) : Runner := { p with handle := false }

/-- Nobody can drive the session any more: it leaves. -/
def shutdown (p : Runner) : Runner :=
  if p.handle || !p.inbox.isEmpty || p.finished then p
  else endIfLeaved { p with actor := p.actor.shutdown }

/-! ## Moves -/

/-- What a session and its user can do. -/
inductive Act where
  | leave
  | exit
  | rejoin
  | linkLost
  | dropHandle
  | report (engine : EngineId) (event : EngineEvent)
  | finishCreation (index : Nat) (result : Option Description)
  | takeInput
  | takeResult
  | shutdown

/-- What can happen to a session. -/
inductive Move where
  | act (act : Act)
  /-- An event of the relay comes in. -/
  | deliver (event : ServerEvent)
  /-- What the session has sent is received, one event at a time. -/
  | receive
  /-- The link is closed from outside. -/
  | closeLink
  /-- The receiving end of the link goes away. -/
  | dropReceiver

/-- A session or its user does something. -/
def act (a : Answers) (p : Runner) : Act → Runner
  | .leave => p.push .leave
  | .exit => p.push .exit
  | .rejoin => p.push .rejoin
  | .linkLost => p.push .linkLost
  | .dropHandle => p.dropHandle
  | .report e event => p.report e event
  | .finishCreation index result => p.finishCreation index result
  | .takeInput => p.takeInput a
  | .takeResult => p.takeResult a
  | .shutdown => p.shutdown

/-- Something happens to a session. -/
def move (a : Answers) (p : Runner) : Move → Runner
  | .act m => p.act a m
  | .deliver e => p.push (.server e)
  | .receive => p.onLink fun l => l.receive.2
  | .closeLink => p.onLink Link.close
  | .dropReceiver => p.onLink Link.dropReceiver

/-- One thing after another happens to a session. -/
def run (a : Answers) (p : Runner) (moves : List Move) : Runner := moves.foldl (move a) p

/-- The states that a session can get into, one move after another. -/
inductive Reachable (a : Answers) (room : RoomId) : Runner → Prop where
  | start (link : Link ClientEvent) : Reachable a room (start a room link)
  | move {p : Runner} (m : Move) : Reachable a room p → Reachable a room (p.move a m)

/-- What a run leads to is reachable. -/
theorem Reachable.run {a : Answers} {room : RoomId} {p : Runner} (h : Reachable a room p)
    (moves : List Move) : Reachable a room (p.run a moves) := by
  induction moves generalizing p with
  | nil => exact h
  | cons m rest ih => exact ih (h.move m)

end Runner

end Parley
