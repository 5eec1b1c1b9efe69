import Parley.Link
import Parley.Session.Input
import Parley.Session.State

/-!
# The session

A session joins a room, binds one counterpart, exchanges offer, answer and candidates with it, and
tears the negotiation down when the counterpart leaves. It works through its collaborators: the link
to the relay, a source of local media, and the engines that do the negotiating. What it asks of them
is its `Request`s, all of which are kept in order in its record; whether they are granted is up to
the `Answers`, which may depend on everything that was asked before.

Creating an offer or answer takes time. Meanwhile the session is pending, and inputs that do not
preempt wait in the backlog. Whatever is created is stamped with the session's generation, which
moves on whenever an engine is acquired or released, so that what a released engine still reports is
recognised and dropped.
-/

namespace Parley

/-- Engines are numbered in the order in which they were acquired. -/
abbrev EngineId := Nat

/-- Local tracks are numbered in the order in which they were acquired. -/
abbrev TrackId := Nat

/-- What a session asks of its collaborators. -/
inductive Request where
  /-- Hand an event to the link. -/
  | send (event : ClientEvent)
  | closeLink
  | acquireMedia
  | releaseMedia
  /-- Tell the media about a remote track. -/
  | remoteTrack (track : RemoteTrack)
  | acquireEngine (generation : Nat)
  | addTrack (engine : EngineId) (track : TrackId)
  /-- Begin to create an offer or answer. -/
  | create (engine : EngineId) (kind : SdpKind)
  | setLocal (engine : EngineId) (description : Description)
  | setRemote (engine : EngineId) (description : Description)
  | addCandidate (engine : EngineId) (candidate : Candidate)
  | closeEngine (engine : EngineId)

/-- How the collaborators answer. -/
structure Answers where
  /-- Whether a request is granted, given the requests before it. -/
  grants : List Request → Request → Bool
  /-- How many tracks an acquisition of media yields, given the requests before it. -/
  trackCount : List Request → Nat

/-- An offer or answer that is being created. -/
structure Creation where
  engine : EngineId
  generation : Nat
  kind : SdpKind
  deriving DecidableEq, Repr

/-- What became of a creation. -/
structure Completion where
  generation : Nat
  kind : SdpKind
  /-- The description, unless the creation failed. -/
  result : Option Description
  deriving DecidableEq, Repr

/-- What a session knows. -/
structure Session where
  room : RoomId
  peer : Option PeerId
  state : SessionState
  counterpart : Option PeerId
  localDescription : Option Description
  remoteDescription : Option Description
  /-- A join was sent and its reply has not come yet. -/
  joinRequested : Bool
  /-- Replies that are still to come for joins that were given up by a leave. -/
  staleReplies : Nat
  engine : Option EngineId
  generation : Nat
  tracks : List TrackId
  /-- What is being created on the current engine. -/
  pending : Option SdpKind
  /-- Inputs that wait for the pending step, in order. -/
  backlog : List SessionInput

/-- A session with what it works through. -/
structure Actor extends Session where
  link : Link ClientEvent
  /-- All requests so far, the oldest first. -/
  record : List Request
  /-- The generation in which each engine was acquired. -/
  engines : List Nat
  /-- How many tracks were acquired so far. -/
  trackTotal : Nat
  /-- The creations that have not finished. -/
  creations : List Creation

namespace Session

/-- A session that has done nothing yet. -/
def new (room : RoomId) : Session :=
  { room, peer := none, state := .init, counterpart := none, localDescription := none
    remoteDescription := none, joinRequested := false, staleReplies := 0, engine := none
    generation := 0, tracks := [], pending := none, backlog := [] }

/-- What an observer sees. -/
def snapshot (s : Session) : Snapshot :=
  ⟨s.state, s.room, s.peer, s.counterpart, s.localDescription, s.remoteDescription⟩

/-- A negotiation has begun: something is pending or a description is set. -/
def hasNegotiated (s : Session) : Bool :=
  s.pending.isSome || s.localDescription.isSome || s.remoteDescription.isSome

end Session

namespace Actor

/-- A session that has done nothing yet, on a link. -/
def new (room : RoomId) (link : Link ClientEvent) : Actor :=
  { Session.new room with link, record := [], engines := [], trackTotal := 0, creations := [] }

/-! ## Requests -/

/-- Put a request on record. -/
def note (s : Actor) (r : Request) : Actor := { s with record := s.record ++ [r] }

/-- Hand an event to the link. If the link is closed, the event is lost. -/
def send (s : Actor) (e : ClientEvent) : Actor :=
  { s.note (.send e) with link := s.link.push e }

/-- Close the link. -/
def closeLink (s : Actor) : Actor := { s.note .closeLink with link := s.link.close }

/-- Send a message to the other members of the room. -/
def sendMessage (s : Actor) (m : Message) : Actor := s.send (.message s.room m.toPayload)

/-- Acquire an engine and attach the local tracks to it. A track that the engine refuses is left
out. The generation moves on even if there is no engine to be had. -/
def acquireEngine (a : Answers) (s : Actor) : Bool × Actor :=
  let s := { s with generation := s.generation + 1 }
  let request := Request.acquireEngine s.generation
  let granted := a.grants s.record request
  let s := s.note request
  if granted then
    let e : EngineId := s.engines.length
    let s := { s with engines := s.engines ++ [s.generation] }
    let s := s.tracks.foldl (fun s t => s.note (.addTrack e t)) s
    (true, { s with engine := some e })
  else (false, s)

/-- End the negotiation and release the engine. Its close counts even if it reports a failure. -/
def releaseEngine (s : Actor) : Actor :=
  let held := s.engine
  let s :=
    { s with
      generation := s.generation + 1, pending := none, counterpart := none
      localDescription := none, remoteDescription := none, engine := none }
  match held with
  | some e => s.note (.closeEngine e)
  | none => s

/-- Release the local media. -/
def releaseMedia (s : Actor) : Actor := { s with tracks := [] }.note .releaseMedia

/-- Begin to create an offer or answer on the current engine. -/
def startStep (kind : SdpKind) (s : Actor) : Actor :=
  match s.engine with
  | none => s
  | some e =>
    { s.note (.create e kind) with
      pending := some kind, creations := s.creations ++ [⟨e, s.generation, kind⟩] }

/-- Acquire media and ask the relay to join. Without media there is no join. -/
def enterRoom (a : Answers) (s : Actor) : Actor :=
  let granted := a.grants s.record .acquireMedia
  let count := a.trackCount s.record
  let s := s.note .acquireMedia
  if granted then
    let tracks := (List.range count).map (s.trackTotal + ·)
    let s := { s with tracks, trackTotal := s.trackTotal + count }
    { s.send (.join s.room) with joinRequested := true }
  else s

/-! ## Events of the relay -/

/-- Every join has exactly one reply, and replies come in order; so the next replies belong to the
joins that were given up. -/
def consumeStaleReply (s : Actor) : Bool × Actor :=
  if s.staleReplies = 0 then (false, s)
  else (true, { s with staleReplies := s.staleReplies - 1 })

/-- The relay let the peer in. -/
def onJoined (a : Answers) (p : PeerId) (s : Actor) : Actor :=
  let (stale, s) := s.consumeStaleReply
  if stale then s
  else if s.state ≠ .init ∨ !s.joinRequested then s
  else
    let s := { s with joinRequested := false, peer := some p }
    { (s.acquireEngine a).2 with state := .joined }

/-- Bind a newcomer and begin an offer to it. -/
def offerTo (p : PeerId) (s : Actor) : Actor :=
  { s with counterpart := some p, state := .connected }.startStep .offer

/-- Another peer joined. It is offered a connection, unless one to somebody else has begun. -/
def onOtherJoin (a : Answers) (p : PeerId) (s : Actor) : Actor :=
  if !s.state.inRoom then s
  else if s.counterpart.any (· ≠ p) && s.hasNegotiated then s
  else if s.engine.isSome then s.offerTo p
  else
    match s.acquireEngine a with
    | (true, s) => s.offerTo p
    | (false, s) => s

/-- A member left. It matters if it was the counterpart, or if there was none. -/
def onBye (p : PeerId) (s : Actor) : Actor :=
  if !s.state.inRoom then s
  else if s.counterpart.any (· ≠ p) then s
  else { s.releaseEngine with state := .unbound }

/-- Give everything back and close the link. -/
def tearDown (s : Actor) : Actor :=
  { ({ s with joinRequested := false, backlog := [] }.releaseEngine).releaseMedia.closeLink with
    state := .leaved }

/-- The room is full. -/
def onFull (s : Actor) : Actor :=
  let (stale, s) := s.consumeStaleReply
  if stale then s else s.tearDown

/-- A member sent a message. Without a counterpart, the sender of an offer or answer that the engine
accepts becomes the counterpart. -/
def onMessage (a : Answers) (sender : PeerId) (data : Json) (s : Actor) : Actor :=
  match Message.parse data with
  | .error _ => s
  | .ok message =>
    if s.counterpart.any (· ≠ sender) then s
    else
      match s.engine with
      | none => s
      | some e =>
        match message with
        | .offer sdp =>
          let offer : Description := ⟨.offer, sdp⟩
          let request := Request.setRemote e offer
          let granted := a.grants s.record request
          let s := s.note request
          if granted then
            { s with counterpart := some sender, remoteDescription := some offer }.startStep .answer
          else s
        | .answer sdp =>
          let answer : Description := ⟨.answer, sdp⟩
          let request := Request.setRemote e answer
          let granted := a.grants s.record request
          let s := s.note request
          if granted then
            { s with
              counterpart := some (s.counterpart.getD sender), remoteDescription := some answer }
          else s
        | .candidate c => s.note (.addCandidate e c)

/-- An event of the relay. Events about other rooms are ignored. -/
def onServer (a : Answers) (event : ServerEvent) (s : Actor) : Actor :=
  if event.room ≠ s.room then s
  else
    match event with
    | .joined _ p => s.onJoined a p
    | .otherJoin _ p => s.onOtherJoin a p
    | .full _ _ => s.onFull
    | .bye _ p => s.onBye p
    | .leaved _ _ => s
    | .message _ sender data => s.onMessage a sender data

/-! ## Other inputs -/

/-- An engine reports something. Only the current engine is heard. -/
def onEngine (generation : Nat) (event : EngineEvent) (s : Actor) : Actor :=
  if generation ≠ s.generation ∨ s.engine.isNone then s
  else
    match event with
    | .localCandidate c => s.sendMessage (.candidate c)
    | .remoteTrack t => s.note (.remoteTrack t)

/-- Leave the room, for good on `exit`. A reply that is on its way will be stale when it comes. -/
def leave (exit : Bool) (s : Actor) : Actor :=
  if s.state = .leaved then s
  else
    let s := s.send (.leave s.room)
    let s :=
      if s.joinRequested then { s with joinRequested := false, staleReplies := s.staleReplies + 1 }
      else s
    let s := ({ s with backlog := [] }.releaseEngine).releaseMedia
    let s := { s with peer := none }
    if exit then { s.closeLink with state := .leaved } else { s with state := .init }

/-- Ask to join again. -/
def rejoin (a : Answers) (s : Actor) : Actor :=
  if s.state ≠ .init then s
  else if !s.link.isOpen then s
  else s.enterRoom a

/-- The link is gone. -/
def onLinkLost (s : Actor) : Actor := if s.state = .leaved then s else s.tearDown

/-- Handle an input whose turn it is. -/
def dispatch (a : Answers) (s : Actor) : SessionInput → Actor
  | .server event => s.onServer a event
  | .engine generation event => s.onEngine generation event
  | .leave => s.leave false
  | .exit => s.leave true
  | .rejoin => s.rejoin a
  | .linkLost => s.onLinkLost

/-! ## Turns -/

/-- Handle inputs from the backlog until something is pending, at most so many of them. -/
def drainUpTo (a : Answers) : Nat → Actor → Actor
  | 0, s => s
  | n + 1, s =>
    if s.pending.isSome then s
    else
      match s.backlog with
      | [] => s
      | i :: rest => drainUpTo a n ({ s with backlog := rest }.dispatch a i)

/-- Handle inputs from the backlog until something is pending. Handling one adds none, so the
length of the backlog is enough. -/
def drain (a : Answers) (s : Actor) : Actor := drainUpTo a s.backlog.length s

/-- An input arrives. -/
def handleInput (a : Answers) (s : Actor) (i : SessionInput) : Actor :=
  if s.pending.isSome && !i.preempts then { s with backlog := s.backlog ++ [i] }
  else (s.dispatch a i).drain a

/-- Apply a description that was created, and send it. -/
def applyLocal (a : Answers) (d : Description) (s : Actor) : Actor :=
  match s.engine with
  | none => s
  | some e =>
    let request := Request.setLocal e d
    let granted := a.grants s.record request
    let s := s.note request
    if granted then { s with localDescription := some d }.sendMessage (.ofDescription d) else s

/-- A creation has finished. One of an earlier generation is dropped. -/
def complete (a : Answers) (s : Actor) (c : Completion) : Actor :=
  if c.generation ≠ s.generation then s
  else
    let s := { s with pending := none }
    let s :=
      match c.result with
      | some d => s.applyLocal a d
      | none => s
    s.drain a

/-- Nobody can drive the session any more. -/
def shutdown (s : Actor) : Actor := s.leave true

end Actor

end Parley
