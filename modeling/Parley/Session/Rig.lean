import Parley.Session.Runner

/-!
# A session on a rig

The rig drives a single session with collaborators that do as they are told. Each kind of request
can be made to fail, and while the rig is on hold, the creations that begin wait until they are
released one by one. A created description is numbered by its engine and by how many descriptions
that engine has created before, as in `offer-0.1`.

After each command the rig lets the session run until nothing is left to do, so a command and all
its consequences are one step.
-/

namespace Parley

/-- The kinds of requests that can be made to fail. -/
inductive Mishap where
  | acquireMedia
  | acquireEngine
  | addTrack
  | offer
  | answer
  | setLocal
  | setRemote
  | addCandidate
  | close
  deriving DecidableEq, Repr

/-- The word for a mishap. -/
def Mishap.name : Mishap → String
  | .acquireMedia => "acquire_media"
  | .acquireEngine => "acquire_engine"
  | .addTrack => "add_track"
  | .offer => "offer"
  | .answer => "answer"
  | .setLocal => "set_local"
  | .setRemote => "set_remote"
  | .addCandidate => "add_candidate"
  | .close => "close"

/-- All mishaps. -/
def Mishap.all : List Mishap :=
  [.acquireMedia, .acquireEngine, .addTrack, .offer, .answer, .setLocal, .setRemote, .addCandidate,
    .close]

/-- The mishap of a word. -/
def Mishap.ofName? (name : String) : Option Mishap := Mishap.all.find? fun m => m.name = name

/-- The mishap that makes a request fail. -/
def Request.mishap? : Request → Option Mishap
  | .acquireMedia => some .acquireMedia
  | .acquireEngine _ => some .acquireEngine
  | .addTrack _ _ => some .addTrack
  | .create _ .offer => some .offer
  | .create _ .answer => some .answer
  | .setLocal _ _ => some .setLocal
  | .setRemote _ _ => some .setRemote
  | .addCandidate _ _ => some .addCandidate
  | .closeEngine _ => some .close
  | .send _ | .closeLink | .releaseMedia | .remoteTrack _ => none

/-- The text of a request to the media or an engine; what goes to the link has none. -/
def Request.call? : Request → Option String
  | .send _ | .closeLink => none
  | .acquireMedia => some "acquire_media"
  | .releaseMedia => some "release_media"
  | .remoteTrack t => some ("remote_track:" ++ t.id ++ ":" ++ t.stream ++ ":" ++ t.kind)
  | .acquireEngine g => some ("acquire_engine:gen" ++ Nat.repr g)
  | .addTrack e t => some (Nat.repr e ++ ":add_track:t" ++ Nat.repr t)
  | .create e kind => some (Nat.repr e ++ ":create_" ++ kind.name)
  | .setLocal e d => some (Nat.repr e ++ ":set_local:" ++ d.kind.name ++ ":" ++ d.sdp)
  | .setRemote e d => some (Nat.repr e ++ ":set_remote:" ++ d.kind.name ++ ":" ++ d.sdp)
  | .addCandidate e c => some (Nat.repr e ++ ":add_candidate:" ++ c.toJson.render)
  | .closeEngine e => some (Nat.repr e ++ ":close")

/-- What the collaborators are told to do, and what they have done. -/
structure Bench where
  /-- What fails at the moment. -/
  mishaps : List Mishap
  /-- How many tracks an acquisition of media yields. -/
  tracks : Nat
  /-- Creations wait until they are released. -/
  hold : Bool
  /-- How many creations wait. They come first in the session's list of creations. -/
  waiting : Nat
  /-- The engine of each description that was created. -/
  created : List EngineId
  /-- How many requests were reported. -/
  reported : Nat

namespace Bench

/-- Collaborators that have done nothing yet. -/
def new (mishaps : List Mishap) (tracks : Nat) (hold : Bool) : Bench :=
  ⟨mishaps, tracks, hold, 0, [], 0⟩

/-- How the collaborators answer. -/
def answers (b : Bench) : Answers where
  grants _ request := request.mishap?.all (· ∉ b.mishaps)
  trackCount _ := b.tracks

/-- What becomes of a creation that finishes now. -/
def describe (b : Bench) (c : Creation) : Option Description × Bench :=
  if b.answers.grants [] (.create c.engine c.kind) then
    let created := b.created ++ [c.engine]
    let number := created.count c.engine
    (some ⟨c.kind, c.kind.name ++ "-" ++ Nat.repr c.engine ++ "." ++ Nat.repr number⟩,
      { b with created })
  else (none, b)

end Bench

/-- A session with its collaborators. -/
structure Rig where
  runner : Runner
  bench : Bench

namespace Rig

/-- Let a creation finish. -/
def finishCreation (r : Rig) (index : Nat) : Rig :=
  match r.runner.actor.creations[index]? with
  | none => r
  | some c =>
    let (result, bench) := r.bench.describe c
    ⟨r.runner.finishCreation index result, bench⟩

/-- One thing that is left to do: finish a creation that does not wait, handle a completion or an
input, or shut down. -/
def settleOnce? (r : Rig) : Option Rig :=
  let p := r.runner
  if !r.bench.hold && r.bench.waiting < p.actor.creations.length then
    some (r.finishCreation r.bench.waiting)
  else if p.finished then none
  else if !p.results.isEmpty then some { r with runner := p.takeResult r.bench.answers }
  else if !p.inbox.isEmpty then some { r with runner := p.takeInput r.bench.answers }
  else if !p.handle then some { r with runner := p.shutdown }
  else none

/-- Do what is left to do, at most so many things. -/
def settleUpTo : Nat → Rig → Rig
  | 0, r => r
  | n + 1, r =>
    match r.settleOnce? with
    | some r => settleUpTo n r
    | none => r

/-- Do all that is left to do. An input is handled, begins at most one creation, and that is
finished and handled; so four things for each input are enough. -/
def settle (r : Rig) : Rig :=
  let p := r.runner
  let inputs := p.inbox.length + p.actor.backlog.length
  let r := settleUpTo (4 * inputs + 4 * p.actor.creations.length + p.results.length + 4) r
  if r.bench.hold then
    { r with bench := { r.bench with waiting := r.runner.actor.creations.length } }
  else r

/-- Start a session on a link. -/
def start (room : RoomId) (link : Link ClientEvent) (bench : Bench) : Rig :=
  settle ⟨.start bench.answers room link, bench⟩

/-- What an observer is told when it waits for a state. -/
inductive Awaited where
  | reached
  | pending
  | ended
  deriving DecidableEq, Repr

/-- What the rig can be told to do. -/
inductive Command where
  | deliver (event : ServerEvent)
  /-- Deliver through a handle that does not keep the session alive. -/
  | weakDeliver (event : ServerEvent)
  | leave
  | exit
  | rejoin
  | linkLost
  | dropHandle
  | report (engine : EngineId) (event : EngineEvent)
  | fail (what : Mishap) (on : Bool)
  | tracks (count : Nat)
  | hold (on : Bool)
  | release (index : Nat)
  | state
  | wait (state : SessionState)
  | closeLink
  | dropReceiver

/-- What the rig replies. -/
inductive Reply where
  | ok
  /-- The session's handle is gone, and the command needs it. -/
  | noHandle
  /-- The engine was not acquired yet. -/
  | noEngine
  /-- Whether there was a creation to release. -/
  | released (found : Bool)
  /-- Whether a weak handle led to the session before its handle was dropped, and after. -/
  | dropped (before after : Bool)
  | nothingToDrop
  | state (state : SessionState)
  | awaited (outcome : Awaited)

/-- Put an input into the session's inbox through its handle, if there is one. -/
def input (r : Rig) (i : SessionInput) : Reply × Rig :=
  if r.runner.handle then (.ok, { r with runner := r.runner.push i }.settle) else (.noHandle, r)

/-- What an observer is told who waits for a state. -/
def await (r : Rig) (s : SessionState) : Awaited :=
  if r.runner.actor.state = s then .reached
  else if r.runner.finished then .ended
  else .pending

/-- Do something to the session's link from outside. -/
def onLink (r : Rig) (f : Link ClientEvent → Link ClientEvent) : Rig :=
  { r with runner := r.runner.onLink f }

/-- Change what the collaborators are told to do. -/
def instruct (r : Rig) (f : Bench → Bench) : Reply × Rig := (.ok, { r with bench := f r.bench })

/-- Obey a command and let the session run until nothing is left to do. -/
def run (r : Rig) : Command → Reply × Rig
  | .deliver event | .weakDeliver event => r.input (.server event)
  | .leave => r.input .leave
  | .exit => r.input .exit
  | .rejoin => r.input .rejoin
  | .linkLost => r.input .linkLost
  | .dropHandle =>
    if r.runner.handle then
      (.dropped true false, { r with runner := r.runner.dropHandle }.settle)
    else (.nothingToDrop, r)
  | .report engine event =>
    if engine < r.runner.actor.engines.length then
      (.ok, { r with runner := r.runner.report engine event }.settle)
    else (.noEngine, r)
  | .fail what on =>
    r.instruct fun b =>
      let others := b.mishaps.filter (· ≠ what)
      { b with mishaps := if on then what :: others else others }
  | .tracks count => r.instruct fun b => { b with tracks := count }
  | .hold on => r.instruct fun b => { b with hold := on }
  | .release index =>
    if index < r.bench.waiting then
      let r := r.finishCreation index
      let bench := { r.bench with waiting := r.bench.waiting - 1 }
      (.released true, { r with bench }.settle)
    else (.released false, r)
  | .state => if r.runner.handle then (.state r.runner.actor.state, r) else (.noHandle, r)
  | .wait s => if r.runner.handle then (.awaited (r.await s), r) else (.noHandle, r)
  | .closeLink => (.ok, r.onLink Link.close)
  | .dropReceiver => (.ok, r.onLink Link.dropReceiver)

/-- The calls since the last report. -/
def calls (r : Rig) : List String × Rig :=
  let record := r.runner.actor.record
  ((record.drop r.bench.reported).filterMap Request.call?,
    { r with bench := { r.bench with reported := record.length } })

/-- The events that reached the link and were not received yet. -/
def sent (r : Rig) : List ClientEvent × Rig :=
  (r.runner.actor.link.queue, r.onLink fun l => l.drain.2)

end Rig

end Parley
