import Parley.Proofs.Link
import Parley.Session.Runner

/-!
# What the operations of a session do

The handlers of a session are put together from a few operations. Here each operation is written
out as one change of the session, so that no later proof has to open it: `acquireEngine_of_granted`
says what comes of asking for an engine, `releaseEngine_eq` what a release leaves behind, and so on.

The handlers are then split once, in `Handled`: an input whose turn it is does one of a few things,
each of them under the condition on which the session does it. Invariants of a session are proved
constructor by constructor.
-/

namespace Parley

/-- Collaborators that grant everything. -/
def Answers.obliging : Answers := ⟨fun _ _ => true, fun _ => 1⟩

namespace Actor

variable {a : Answers} {s t : Actor} {i : SessionInput}

/-! ## Operations -/

theorem foldl_note (f : TrackId → Request) (ts : List TrackId) (s : Actor) :
    ts.foldl (fun s t => s.note (f t)) s = { s with record := s.record ++ ts.map f } := by
  induction ts generalizing s with
  | nil => simp
  | cons t rest ih =>
    rw [List.foldl_cons, ih]
    simp [note]

/-- The session asked for an engine and got none. -/
def denied (s : Actor) : Actor :=
  { s with
    generation := s.generation + 1
    record := s.record ++ [.acquireEngine (s.generation + 1)] }

/-- The session asked for an engine, got it and attached its tracks to it. -/
def equipped (s : Actor) : Actor :=
  { s with
    generation := s.generation + 1
    engines := s.engines ++ [s.generation + 1]
    engine := some s.engines.length
    record := s.record ++
      .acquireEngine (s.generation + 1) :: s.tracks.map (.addTrack s.engines.length) }

/-- An engine is to be had. -/
def grantsEngine (a : Answers) (s : Actor) : Bool :=
  a.grants s.record (.acquireEngine (s.generation + 1))

theorem acquireEngine_of_granted (h : s.grantsEngine a = true) :
    s.acquireEngine a = (true, s.equipped) := by
  unfold grantsEngine at h
  simp only [acquireEngine, foldl_note]
  simp only [note]
  rw [if_pos h]
  simp [equipped]

theorem acquireEngine_of_refused (h : s.grantsEngine a = false) :
    s.acquireEngine a = (false, s.denied) := by
  unfold grantsEngine at h
  simp only [acquireEngine, note]
  rw [if_neg (by simp [h])]
  rfl

/-- The session holds an engine, the one it had or one that it acquires. -/
inductive Provided (s : Actor) : EngineId → Actor → Prop
  | held {e : EngineId} (engine : s.engine = some e) : Provided s e s
  | acquired (engine : s.engine = none) : Provided s s.engines.length s.equipped

/-- The session offers a connection to a peer. -/
def offering (s : Actor) (e : EngineId) (p : PeerId) : Actor :=
  { s with
    counterpart := some p, state := .connected, pending := some .offer
    record := s.record ++ [.create e .offer]
    creations := s.creations ++ [⟨e, s.generation, .offer⟩] }

/-- The session took an offer and answers it. -/
def answering (s : Actor) (e : EngineId) (p : PeerId) (sdp : String) : Actor :=
  { s with
    counterpart := some p, remoteDescription := some ⟨.offer, sdp⟩, pending := some .answer
    record := s.record ++ [.setRemote e ⟨.offer, sdp⟩, .create e .answer]
    creations := s.creations ++ [⟨e, s.generation, .answer⟩] }

/-- The session took an answer. -/
def answered (s : Actor) (e : EngineId) (p : PeerId) (sdp : String) : Actor :=
  { s with
    counterpart := some (s.counterpart.getD p), remoteDescription := some ⟨.answer, sdp⟩
    record := s.record ++ [.setRemote e ⟨.answer, sdp⟩] }

/-- The session has released its engine and goes on in a state. -/
def released (s : Actor) (state : SessionState) : Actor :=
  { s with
    state, generation := s.generation + 1, pending := none, counterpart := none
    localDescription := none, remoteDescription := none, engine := none
    record := s.record ++ s.engine.toList.map .closeEngine }

/-- The session has given everything back without a word. -/
def tornDown (s : Actor) : Actor :=
  { s.released .leaved with
    joinRequested := false, backlog := [], tracks := [], link := s.link.close
    record := s.record ++ s.engine.toList.map .closeEngine ++ [.releaseMedia, .closeLink] }

/-- The session has left its room, for good on `exit`. -/
def departed (s : Actor) (exit : Bool) : Actor :=
  { s.released (if exit then .leaved else .init) with
    peer := none, joinRequested := false, backlog := [], tracks := []
    staleReplies := s.staleReplies + if s.joinRequested then 1 else 0
    link := if exit then (s.link.push (.leave s.room)).close else s.link.push (.leave s.room)
    record := s.record ++ .send (.leave s.room) :: s.engine.toList.map .closeEngine ++
      .releaseMedia :: if exit then [.closeLink] else [] }

theorem releaseEngine_eq (s : Actor) : s.releaseEngine = s.released s.state := by
  unfold releaseEngine released
  cases h : s.engine <;> simp [note]

theorem offerTo_eq {e : EngineId} (h : s.engine = some e) (p : PeerId) :
    s.offerTo p = s.offering e p := by
  simp only [offerTo, startStep, h, note, offering]

theorem answering_eq {e : EngineId} (h : s.engine = some e) (p : PeerId) (sdp : String) :
    { s.note (.setRemote e ⟨.offer, sdp⟩) with
      counterpart := some p, remoteDescription := some ⟨.offer, sdp⟩ }.startStep .answer =
      s.answering e p sdp := by
  simp [startStep, note, h, answering]

theorem tearDown_eq (s : Actor) : s.tearDown = s.tornDown := by
  unfold tearDown
  rw [releaseEngine_eq]
  simp [releaseMedia, closeLink, note, released, tornDown]

theorem leave_eq (h : s.state ≠ .leaved) (exit : Bool) : s.leave exit = s.departed exit := by
  unfold leave
  rw [if_neg h]
  cases exit <;> cases hj : s.joinRequested <;>
    simp [releaseEngine_eq, releaseMedia, closeLink, send, note, released, departed, hj]

/-- The session asked for media, got so many tracks and asked the relay to join. -/
def joining (s : Actor) (count : Nat) : Actor :=
  { s with
    tracks := (List.range count).map (s.trackTotal + ·), trackTotal := s.trackTotal + count
    joinRequested := true, link := s.link.push (.join s.room)
    record := s.record ++ [.acquireMedia, .send (.join s.room)] }

theorem enterRoom_of_granted (h : a.grants s.record .acquireMedia = true) :
    s.enterRoom a = s.joining (a.trackCount s.record) := by
  unfold enterRoom
  rw [if_pos h]
  simp [note, send, joining]

theorem enterRoom_of_refused (h : a.grants s.record .acquireMedia = false) :
    s.enterRoom a = s.note .acquireMedia := by
  unfold enterRoom
  rw [if_neg (by simp [h])]

theorem enterRoom_cases (a : Answers) (s : Actor) :
    s.enterRoom a = s.note .acquireMedia ∨ s.enterRoom a = s.joining (a.trackCount s.record) := by
  cases answer : a.grants s.record .acquireMedia with
  | true => exact .inr (enterRoom_of_granted answer)
  | false => exact .inl (enterRoom_of_refused answer)

/-- What holds of a session that got no media, and of one that asks to join, holds after it tried to
enter a room. -/
theorem enterRoom_induction {P : Actor → Prop} (unprovided : P (s.note .acquireMedia))
    (asked : P (s.joining (a.trackCount s.record))) : P (s.enterRoom a) := by
  rcases enterRoom_cases a s with entered | entered
  · exact entered ▸ unprovided
  · exact entered ▸ asked

/-- The session set a description that was created and sent it to the others. -/
def published (s : Actor) (e : EngineId) (d : Description) : Actor :=
  { s with
    localDescription := some d
    link := s.link.push (.message s.room (Message.ofDescription d).toPayload)
    record := s.record ++
      [.setLocal e d, .send (.message s.room (Message.ofDescription d).toPayload)] }

theorem sendMessage_eq_published (s : Actor) (e : EngineId) (d : Description) :
    { s.note (.setLocal e d) with localDescription := some d }.sendMessage (.ofDescription d) =
      s.published e d := by
  simp [sendMessage, send, note, published]

/-- What becomes of a session when a description was created. -/
inductive Published (d : Description) (s : Actor) : Actor → Prop
  | nowhere (engine : s.engine = none) : Published d s s
  /-- The engine refused the description. -/
  | refused {e : EngineId} (engine : s.engine = some e) : Published d s (s.note (.setLocal e d))
  | sent {e : EngineId} (engine : s.engine = some e) : Published d s (s.published e d)

theorem applyLocal_published (a : Answers) (d : Description) (s : Actor) :
    Published d s (s.applyLocal a d) := by
  unfold applyLocal
  split
  case h_1 engine => exact .nowhere engine
  case h_2 e engine =>
    dsimp only
    split
    case isTrue =>
      rw [sendMessage_eq_published]
      exact .sent engine
    case isFalse => exact .refused engine

/-- The session after a completion, before it goes on with its backlog. -/
def applied (a : Answers) (s : Actor) (c : Completion) : Actor :=
  match c.result with
  | some d => { s with pending := none }.applyLocal a d
  | none => { s with pending := none }

theorem complete_of_current {c : Completion} (current : c.generation = s.generation) :
    s.complete a c = (s.applied a c).drain a := by
  unfold complete applied
  refine (if_neg (by simpa using current)).trans ?_
  cases c.result <;> rfl

theorem complete_of_old {c : Completion} (old : c.generation ≠ s.generation) :
    s.complete a c = s := by
  unfold complete
  rw [if_pos old]

/-- What holds of a session that is free again, and of one that has published a description then,
holds after a completion. -/
theorem applied_induction {P : Actor → Prop} {c : Completion} (free : P { s with pending := none })
    (published : ∀ d t, c.result = some d → Published d { s with pending := none } t → P t) :
    P (s.applied a c) := by
  unfold applied
  cases result : c.result with
  | none => exact free
  | some d => exact published d _ result (applyLocal_published a d _)

/-! ## Inputs whose turn it is -/

/-- The session is bound to somebody else. -/
def boundElsewhere (s : Actor) (p : PeerId) : Bool := s.counterpart.any (· ≠ p)

/-- A session takes no notice of such an input when its turn comes. -/
def Ignores (s : Actor) : SessionInput → Prop
  | .server event =>
    event.room ≠ s.room ∨
      match event with
      | .joined _ _ => s.staleReplies = 0 ∧ (s.state ≠ .init ∨ s.joinRequested = false)
      | .otherJoin _ p => s.state.inRoom = false ∨ (s.boundElsewhere p ∧ s.hasNegotiated)
      | .full _ _ => False
      | .bye _ p => s.state.inRoom = false ∨ s.boundElsewhere p
      | .leaved _ _ => True
      | .message _ sender data =>
        (∀ m, Message.parse data ≠ .ok m) ∨ s.boundElsewhere sender ∨ s.engine = none
  | .engine generation _ => generation ≠ s.generation ∨ s.engine = none
  | .leave | .exit | .linkLost => s.state = .leaved
  | .rejoin => s.state ≠ .init ∨ s.link.isOpen = false

/-- What becomes of a session when it handles an input whose turn it is. -/
inductive Handled (a : Answers) (s : Actor) : SessionInput → Actor → Prop
  | ignored {i : SessionInput} (h : s.Ignores i) : Handled a s i s
  /-- The reply belongs to a join that was given up. -/
  | staleReply {p : PeerId} {event : ServerEvent}
      (reply : event = .joined s.room p ∨ event = .full s.room p)
      (owed : s.staleReplies ≠ 0) :
      Handled a s (.server event) { s with staleReplies := s.staleReplies - 1 }
  | admitted {p : PeerId} {t : Actor} (fresh : s.staleReplies = 0) (waiting : s.state = .init)
      (asked : s.joinRequested = true)
      (engine : t = { s with joinRequested := false, peer := some p }.equipped ∨
        t = { s with joinRequested := false, peer := some p }.denied)
      (answer : t.engines = s.engines ++ if s.grantsEngine a then [s.generation + 1] else []) :
      Handled a s (.server (.joined s.room p)) { t with state := .joined }
  | offered {p : PeerId} {e : EngineId} {t : Actor} (member : s.state.inRoom = true)
      (free : ¬ (s.boundElsewhere p ∧ s.hasNegotiated)) (engine : s.Provided e t)
      (answer : s.engine = none → s.grantsEngine a = true) :
      Handled a s (.server (.otherJoin s.room p)) (t.offering e p)
  /-- There is no engine to be had for an offer. -/
  | unequipped {p : PeerId} (member : s.state.inRoom = true) (engine : s.engine = none)
      (answer : s.grantsEngine a = false) :
      Handled a s (.server (.otherJoin s.room p)) s.denied
  | unbound {p : PeerId} (member : s.state.inRoom = true) (bound : s.boundElsewhere p = false) :
      Handled a s (.server (.bye s.room p)) (s.released .unbound)
  | dismissed {p : PeerId} (fresh : s.staleReplies = 0) :
      Handled a s (.server (.full s.room p)) s.tornDown
  | lost (running : s.state ≠ .leaved) : Handled a s .linkLost s.tornDown
  | tookOffer {p : PeerId} {data : Json} {sdp : String} {e : EngineId}
      (parsed : Message.parse data = .ok (.offer sdp)) (bound : s.boundElsewhere p = false)
      (engine : s.engine = some e)
      (answer : a.grants s.record (.setRemote e ⟨.offer, sdp⟩) = true) :
      Handled a s (.server (.message s.room p data)) (s.answering e p sdp)
  | tookAnswer {p : PeerId} {data : Json} {sdp : String} {e : EngineId}
      (parsed : Message.parse data = .ok (.answer sdp)) (bound : s.boundElsewhere p = false)
      (engine : s.engine = some e)
      (answer : a.grants s.record (.setRemote e ⟨.answer, sdp⟩) = true) :
      Handled a s (.server (.message s.room p data)) (s.answered e p sdp)
  /-- The engine refused the description of a message. -/
  | refused {p : PeerId} {data : Json} {d : Description} {e : EngineId}
      (parsed : Message.parse data = .ok (.ofDescription d)) (bound : s.boundElsewhere p = false)
      (engine : s.engine = some e) (answer : a.grants s.record (.setRemote e d) = false) :
      Handled a s (.server (.message s.room p data)) (s.note (.setRemote e d))
  | remoteCandidate {p : PeerId} {data : Json} {c : Candidate} {e : EngineId}
      (parsed : Message.parse data = .ok (.candidate c)) (bound : s.boundElsewhere p = false)
      (engine : s.engine = some e) :
      Handled a s (.server (.message s.room p data)) (s.note (.addCandidate e c))
  | localCandidate {c : Candidate} (engine : s.engine ≠ none) :
      Handled a s (.engine s.generation (.localCandidate c)) (s.sendMessage (.candidate c))
  | remoteTrack {t : RemoteTrack} (engine : s.engine ≠ none) :
      Handled a s (.engine s.generation (.remoteTrack t)) (s.note (.remoteTrack t))
  | left {exit : Bool} (running : s.state ≠ .leaved) :
      Handled a s (if exit then .exit else .leave) (s.departed exit)
  /-- There is no media to be had for a join. -/
  | unprovided (waiting : s.state = .init) (reachable : s.link.isOpen = true)
      (answer : a.grants s.record .acquireMedia = false) :
      Handled a s .rejoin (s.note .acquireMedia)
  | rejoined (waiting : s.state = .init) (reachable : s.link.isOpen = true)
      (answer : a.grants s.record .acquireMedia = true) :
      Handled a s .rejoin (s.joining (a.trackCount s.record))

theorem onJoined_handled (a : Answers) (s : Actor) (p : PeerId) :
    Handled a s (.server (.joined s.room p)) (s.onJoined a p) := by
  by_cases fresh : s.staleReplies = 0
  · by_cases waiting : s.state = .init
    · by_cases asked : s.joinRequested = true
      · have h : s.onJoined a p =
            { ({ s with joinRequested := false, peer := some p }.acquireEngine a).2 with
              state := .joined } := by
          simp [onJoined, consumeStaleReply, fresh, waiting, asked]
        rw [h]
        cases granted : s.grantsEngine a with
        | true =>
          rw [acquireEngine_of_granted (by exact granted)]
          exact .admitted fresh waiting asked (.inl rfl) (by rw [granted]; rfl)
        | false =>
          rw [acquireEngine_of_refused (by exact granted)]
          exact .admitted fresh waiting asked (.inr rfl) (by simp [granted, denied])
      · have h : s.onJoined a p = s := by simp [onJoined, consumeStaleReply, fresh, asked]
        rw [h]
        exact .ignored (.inr ⟨fresh, .inr (by simpa using asked)⟩)
    · have h : s.onJoined a p = s := by simp [onJoined, consumeStaleReply, fresh, waiting]
      rw [h]
      exact .ignored (.inr ⟨fresh, .inl waiting⟩)
  · have h : s.onJoined a p = { s with staleReplies := s.staleReplies - 1 } := by
      simp [onJoined, consumeStaleReply, fresh]
    rw [h]
    exact .staleReply (.inl rfl) fresh

theorem onFull_handled (a : Answers) (s : Actor) (p : PeerId) :
    Handled a s (.server (.full s.room p)) s.onFull := by
  by_cases fresh : s.staleReplies = 0
  · have h : s.onFull = s.tornDown := by simp [onFull, consumeStaleReply, fresh, tearDown_eq]
    rw [h]
    exact .dismissed fresh
  · have h : s.onFull = { s with staleReplies := s.staleReplies - 1 } := by
      simp [onFull, consumeStaleReply, fresh]
    rw [h]
    exact .staleReply (.inr rfl) fresh

theorem onOtherJoin_handled (a : Answers) (s : Actor) (p : PeerId) :
    Handled a s (.server (.otherJoin s.room p)) (s.onOtherJoin a p) := by
  unfold onOtherJoin
  split
  case isTrue h => exact .ignored (.inr (.inl (by simpa using h)))
  case isFalse member =>
    have member : s.state.inRoom = true := by simpa using member
    split
    case isTrue h => exact .ignored (.inr (.inr (by simpa [boundElsewhere] using h)))
    case isFalse free =>
      have free : ¬ (s.boundElsewhere p ∧ s.hasNegotiated) := by
        simpa [boundElsewhere] using free
      split
      case isTrue engine =>
        obtain ⟨e, engine⟩ := Option.isSome_iff_exists.mp engine
        rw [offerTo_eq engine]
        exact .offered member free (.held engine) (by simp [engine])
      case isFalse engine =>
        have engine : s.engine = none := by simpa using engine
        cases granted : s.grantsEngine a with
        | true =>
          rw [acquireEngine_of_granted granted]
          show Handled a s _ (s.equipped.offerTo p)
          rw [offerTo_eq (e := s.engines.length) rfl]
          exact .offered member free (.acquired engine) fun _ => granted
        | false =>
          rw [acquireEngine_of_refused granted]
          exact .unequipped member engine granted

theorem onBye_handled (a : Answers) (s : Actor) (p : PeerId) :
    Handled a s (.server (.bye s.room p)) (s.onBye p) := by
  unfold onBye
  split
  case isTrue h => exact .ignored (.inr (.inl (by simpa using h)))
  case isFalse member =>
    split
    case isTrue h => exact .ignored (.inr (.inr h))
    case isFalse free =>
      rw [releaseEngine_eq]
      exact .unbound (by simpa using member) (by simpa [boundElsewhere] using free)

theorem onMessage_handled (a : Answers) (s : Actor) (p : PeerId) (data : Json) :
    Handled a s (.server (.message s.room p data)) (s.onMessage a p data) := by
  unfold onMessage
  split
  case h_1 failure parsed =>
    exact .ignored (.inr (.inl fun m h => by rw [parsed] at h; cases h))
  case h_2 m parsed =>
    split
    case isTrue h => exact .ignored (.inr (.inr (.inl h)))
    case isFalse bound =>
      have bound : s.boundElsewhere p = false := by simpa [boundElsewhere] using bound
      split
      case h_1 engine => exact .ignored (.inr (.inr (.inr engine)))
      case h_2 e engine =>
        cases m with
        | offer sdp =>
          dsimp only
          split
          case isTrue answer =>
            rw [answering_eq engine]
            exact .tookOffer parsed bound engine answer
          case isFalse answer =>
            exact .refused (d := ⟨.offer, sdp⟩) parsed bound engine (by simpa using answer)
        | answer sdp =>
          dsimp only
          split
          case isTrue answer => exact .tookAnswer parsed bound engine answer
          case isFalse answer =>
            exact .refused (d := ⟨.answer, sdp⟩) parsed bound engine (by simpa using answer)
        | candidate c => exact .remoteCandidate parsed bound engine

theorem onServer_handled (a : Answers) (s : Actor) (event : ServerEvent) :
    Handled a s (.server event) (s.onServer a event) := by
  unfold onServer
  split
  case isTrue foreign => exact .ignored (.inl foreign)
  case isFalse own =>
    have own : event.room = s.room := by simpa using own
    cases event with
    | joined r p => cases own; exact onJoined_handled a s p
    | otherJoin r p => cases own; exact onOtherJoin_handled a s p
    | full r p => cases own; exact onFull_handled a s p
    | leaved r p => exact .ignored (.inr trivial)
    | bye r p => cases own; exact onBye_handled a s p
    | message r p data => cases own; exact onMessage_handled a s p data

theorem onEngine_handled (a : Answers) (s : Actor) (g : Nat) (event : EngineEvent) :
    Handled a s (.engine g event) (s.onEngine g event) := by
  unfold onEngine
  split
  case isTrue h => exact .ignored (by simpa [Ignores] using h)
  case isFalse h =>
    simp only [not_or, ne_eq, Decidable.not_not, Bool.not_eq_true, Option.isNone_eq_false_iff,
      Option.isSome_iff_ne_none] at h
    obtain ⟨rfl, engine⟩ := h
    cases event with
    | localCandidate c => exact .localCandidate engine
    | remoteTrack t => exact .remoteTrack engine

theorem leave_handled (a : Answers) (s : Actor) (exit : Bool) :
    Handled a s (if exit then .exit else .leave) (s.leave exit) := by
  by_cases running : s.state = .leaved
  · have h : s.leave exit = s := by simp [leave, running]
    rw [h]
    exact .ignored (by cases exit <;> exact running)
  · rw [leave_eq running]
    exact .left running

theorem rejoin_handled (a : Answers) (s : Actor) : Handled a s .rejoin (s.rejoin a) := by
  unfold rejoin
  split
  case isTrue h => exact .ignored (.inl h)
  case isFalse waiting =>
    have waiting : s.state = .init := by simpa using waiting
    split
    case isTrue h => exact .ignored (.inr (by simpa using h))
    case isFalse reachable =>
      have reachable : s.link.isOpen = true := by simpa using reachable
      cases answer : a.grants s.record .acquireMedia with
      | true =>
        rw [enterRoom_of_granted answer]
        exact .rejoined waiting reachable answer
      | false =>
        rw [enterRoom_of_refused answer]
        exact .unprovided waiting reachable answer

/-- Whatever the input, handling it is one of the things that are named above. -/
theorem dispatch_handled (a : Answers) (s : Actor) (i : SessionInput) :
    Handled a s i (s.dispatch a i) := by
  cases i with
  | server event => exact onServer_handled a s event
  | engine g event => exact onEngine_handled a s g event
  | leave => exact leave_handled a s false
  | exit => exact leave_handled a s true
  | rejoin => exact rejoin_handled a s
  | linkLost =>
    show Handled a s .linkLost (if s.state = .leaved then s else s.tearDown)
    split
    case isTrue h => exact .ignored h
    case isFalse h =>
      rw [tearDown_eq]
      exact .lost h

theorem Handled.room (turn : Handled a s i t) : t.room = s.room := by
  cases turn with
  | admitted _ _ _ engine => rcases engine with rfl | rfl <;> rfl
  | offered _ _ engine => cases engine <;> rfl
  | _ => rfl

/-! ## Turns -/

/-- Handling an input puts none into the backlog. -/
theorem Handled.backlog {a : Answers} {s s' : Actor} {i : SessionInput} (turn : Handled a s i s') :
    s'.backlog = s.backlog ∨ s'.backlog = [] := by
  cases turn with
  | admitted _ _ _ engine => rcases engine with rfl | rfl <;> exact .inl rfl
  | offered _ _ engine => cases engine <;> exact .inl rfl
  | dismissed => exact .inr rfl
  | lost => exact .inr rfl
  | left => exact .inr rfl
  | _ => exact .inl rfl

theorem drainUpTo_of_empty (a : Answers) (n : Nat) (empty : s.backlog = []) :
    drainUpTo a n s = s := by
  cases n with
  | zero => rfl
  | succ n =>
    unfold drainUpTo
    rw [empty]
    exact ite_self s

theorem drainUpTo_of_busy (a : Answers) (n : Nat) (busy : s.pending.isSome = true) :
    drainUpTo a n s = s := by
  cases n with
  | zero => rfl
  | succ n =>
    unfold drainUpTo
    exact if_pos busy

theorem drainUpTo_of_free (a : Answers) (n : Nat) (free : ¬ s.pending.isSome = true)
    {rest : List SessionInput} (waits : s.backlog = i :: rest) :
    drainUpTo a (n + 1) s = drainUpTo a n ({ s with backlog := rest }.dispatch a i) := by
  rw [drainUpTo, if_neg free, waits]

theorem drain_of_empty (a : Answers) (empty : s.backlog = []) : s.drain a = s :=
  drainUpTo_of_empty a _ empty

/-- What every handled input of the backlog keeps, the whole backlog keeps. -/
theorem drainUpTo_induction {a : Answers} {P : Actor → Prop}
    (step : ∀ s i rest, P s → s.pending = none → s.backlog = i :: rest →
      P ({ s with backlog := rest }.dispatch a i)) :
    ∀ n s, P s → P (drainUpTo a n s) := by
  intro n
  induction n with
  | zero => intro s h; exact h
  | succ n ih =>
    intro s h
    unfold drainUpTo
    split
    case isTrue => exact h
    case isFalse free =>
      split
      case h_1 => exact h
      case h_2 i rest hb => exact ih _ (step s i rest h (by simpa using free) hb)

theorem drain_room (a : Answers) (s : Actor) : (s.drain a).room = s.room :=
  drainUpTo_induction (P := fun t => t.room = s.room)
    (fun _ _ _ same _ _ => (dispatch_handled a _ _).room.trans same) _ s rfl

theorem handleInput_room (a : Answers) (s : Actor) (i : SessionInput) :
    (s.handleInput a i).room = s.room := by
  unfold handleInput
  split
  · rfl
  · rw [drain_room]
    exact (dispatch_handled a s i).room

theorem Published.room {d : Description} (published : Published d s t) : t.room = s.room := by
  cases published <;> rfl

theorem complete_room (a : Answers) (s : Actor) (c : Completion) :
    (s.complete a c).room = s.room := by
  by_cases current : c.generation = s.generation
  · rw [complete_of_current current, drain_room]
    exact applied_induction (P := fun t => t.room = s.room) rfl fun _ _ _ published => published.room
  · rw [complete_of_old current]

end Actor

/-! ## Running sessions -/

namespace Runner

@[simp] theorem push_actor (p : Runner) (i : SessionInput) : (p.push i).actor = p.actor := by
  unfold push
  split <;> rfl

@[simp] theorem endIfLeaved_actor (p : Runner) : p.endIfLeaved.actor = p.actor := by
  unfold endIfLeaved
  split <;> rfl

@[simp] theorem endIfLeaved_handle (p : Runner) : p.endIfLeaved.handle = p.handle := by
  unfold endIfLeaved
  split <;> rfl

/-- What waits when a session ends is dropped. -/
theorem endIfLeaved_waiting (p : Runner) :
    p.endIfLeaved.inbox <:+ p.inbox ∧ p.endIfLeaved.results <:+ p.results := by
  unfold endIfLeaved
  split
  · exact ⟨List.nil_suffix, List.nil_suffix⟩
  · exact ⟨List.suffix_rfl, List.suffix_rfl⟩

theorem endIfLeaved_inbox {p : Runner} (running : p.endIfLeaved.finished = false) :
    p.endIfLeaved.inbox = p.inbox := by
  unfold endIfLeaved at running ⊢
  split
  case isTrue left =>
    rw [if_pos left] at running
    cases running
  case isFalse => rfl

/-- Nothing comes into the inbox without a handle, or after the end. -/
theorem push_inbox (p : Runner) (i : SessionInput) :
    (p.push i).inbox = p.inbox ++ if p.handle && !p.finished then [i] else [] := by
  unfold push
  cases p.handle <;> cases p.finished <;> simp

/-- Without a handle there is no way to the inbox. -/
theorem push_of_alone {p : Runner} (alone : p.handle = false) (i : SessionInput) : p.push i = p :=
  if_pos (by simp [alone])

/-- Nothing comes to a session that has ended. -/
theorem push_of_finished {p : Runner} (ended : p.finished = true) (i : SessionInput) :
    p.push i = p :=
  if_pos (by simp [ended])

/-- What becomes of a running session when it or its user does something. -/
inductive Acted (a : Answers) (p : Runner) : Act → Runner → Prop
  | pushed {m : Act} {i : SessionInput} (taken : m ≠ .takeInput) (own : ∀ e, i ≠ .server e) :
      Acted a p m (p.push i)
  | handleDropped : Acted a p .dropHandle p.dropHandle
  /-- There is nothing to report, to finish or to take, or the session does not end yet. -/
  | idle {m : Act} (nothing : m = .takeInput → p.finished = true ∨ p.inbox = []) : Acted a p m p
  | created {index : Nat} {c : Creation} {result : Option Description}
      (begun : p.actor.creations[index]? = some c) :
      Acted a p (.finishCreation index result)
        { p with
          actor := { p.actor with creations := p.actor.creations.eraseIdx index }
          results := if p.finished then [] else p.results ++ [⟨c.generation, c.kind, result⟩] }
  | tookInput {i : SessionInput} {rest : List SessionInput} (next : p.inbox = i :: rest)
      (running : p.finished = false) :
      Acted a p .takeInput (endIfLeaved { p with actor := p.actor.handleInput a i, inbox := rest })
  | tookResult {c : Completion} {rest : List Completion} (next : p.results = c :: rest)
      (running : p.finished = false) :
      Acted a p .takeResult (endIfLeaved { p with actor := p.actor.complete a c, results := rest })
  | abandoned (alone : p.handle = false) (empty : p.inbox = []) (running : p.finished = false) :
      Acted a p .shutdown (endIfLeaved { p with actor := p.actor.leave true })

theorem act_acted (a : Answers) (p : Runner) (m : Act) : Acted a p m (p.act a m) := by
  cases m with
  | leave | exit | rejoin | linkLost => exact .pushed nofun nofun
  | dropHandle => exact .handleDropped
  | report e event =>
    show Acted a p _ (p.report e event)
    unfold report
    split
    · exact .pushed nofun nofun
    · exact .idle nofun
  | finishCreation index result =>
    show Acted a p _ (p.finishCreation index result)
    unfold finishCreation
    split
    case h_1 => exact .idle nofun
    case h_2 begun => exact .created begun
  | takeInput =>
    show Acted a p _ (p.takeInput a)
    unfold takeInput
    split
    case h_1 next =>
      split
      case isTrue ended => exact .idle fun _ => .inl ended
      case isFalse running => exact .tookInput next (by simpa using running)
    case h_2 empty => exact .idle fun _ => .inr empty
  | takeResult =>
    show Acted a p _ (p.takeResult a)
    unfold takeResult
    split
    case h_1 next =>
      split
      case isTrue => exact .idle nofun
      case isFalse running => exact .tookResult next (by simpa using running)
    case h_2 => exact .idle nofun
  | shutdown =>
    show Acted a p _ p.shutdown
    unfold shutdown
    split
    case isTrue => exact .idle nofun
    case isFalse alone =>
      have alone : p.handle = false ∧ p.inbox = [] ∧ p.finished = false := by
        simpa [and_assoc] using alone
      exact .abandoned alone.1 alone.2.1 alone.2.2

theorem Acted.room {a : Answers} {p q : Runner} {m : Act} (done : Acted a p m q) :
    q.actor.room = p.actor.room := by
  cases done with
  | pushed => simp
  | tookInput => simp [Actor.handleInput_room]
  | tookResult => simp [Actor.complete_room]
  | abandoned =>
    simpa using (Actor.leave_handled a p.actor true).room
  | _ => rfl

/-- A handle that is gone does not come back. -/
theorem Acted.alone {a : Answers} {p q : Runner} {m : Act} (done : Acted a p m q)
    (alone : p.handle = false) : q.handle = false := by
  cases done with
  | pushed => rwa [push_of_alone alone]
  | handleDropped => rfl
  | idle | created => exact alone
  | tookInput | tookResult | abandoned => exact (endIfLeaved_handle _).trans alone

theorem start_room (a : Answers) (room : RoomId) (link : Link ClientEvent) :
    (start a room link).actor.room = room := by
  unfold start
  rcases Actor.enterRoom_cases a (Actor.new room link) with entered | entered <;>
  · rw [entered]
    rfl

/-- What a session requests when it starts. -/
theorem start_record (a : Answers) (room : RoomId) (link : Link ClientEvent) :
    ∀ r ∈ (start a room link).actor.record, r = .acquireMedia ∨ r = .send (.join room) := by
  refine Actor.enterRoom_induction
    (P := fun s => ∀ r ∈ s.record, r = .acquireMedia ∨ r = .send (.join room)) ?_ ?_
  · exact fun r mem => .inl (List.mem_singleton.mp mem)
  · exact fun r mem => by simpa [Actor.joining, Actor.new, Session.new] using mem

theorem move_room (a : Answers) (p : Runner) (m : Move) :
    (p.move a m).actor.room = p.actor.room := by
  cases m with
  | act m => exact (act_acted a p m).room
  | deliver e => exact congrArg (·.room) (push_actor p _)
  | _ => rfl

theorem run_room (a : Answers) (p : Runner) (moves : List Move) :
    (p.run a moves).actor.room = p.actor.room := by
  induction moves generalizing p with
  | nil => rfl
  | cons m rest ih => exact (ih (p.move a m)).trans (move_room a p m)

end Runner

end Parley
