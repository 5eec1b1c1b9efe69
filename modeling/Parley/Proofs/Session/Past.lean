import Mathlib.Logic.Basic
import Parley.Proofs.Session.Replies
import Parley.Proofs.Session.Turns

/-!
# Sessions with a past

A session that comes back to its room goes on counting: its engines, its tracks and its generations
are numbered on from those of its earlier life, its record goes on, and it may still pass over
replies to joins of that life. `Actor.after` gives a session such a past. Nothing that the session
does depends on it: what it does with its past is what it does without, given a past
(`Actor.after_handleInput`, `Actor.after_complete`), if its collaborators answer as they do to the
session with the past (`Past.answers`).

Only a reply is handled differently, as long as there is one to be passed over. Then the session
passes over the reply, and that is all (`Sound.handleInput_stale`).
-/

namespace Parley

/-- What a session did and acquired before it began anew. -/
structure Past where
  record : List Request
  /-- The generation in which each engine was acquired. -/
  engines : List Nat
  generation : Nat
  trackTotal : Nat
  /-- Replies to joins that were given up, still to come. -/
  staleReplies : Nat

namespace Past

/-- The number that an engine has after the engines of the past. -/
def engine (past : Past) (e : EngineId) : EngineId := past.engines.length + e

/-- The number that a track has after the tracks of the past. -/
def track (past : Past) (t : TrackId) : TrackId := past.trackTotal + t

/-- The generation that comes so many generations after the past. -/
def stamp (past : Past) (generation : Nat) : Nat := past.generation + generation

def request (past : Past) : Request → Request
  | .acquireEngine g => .acquireEngine (past.stamp g)
  | .addTrack e t => .addTrack (past.engine e) (past.track t)
  | .create e kind => .create (past.engine e) kind
  | .setLocal e d => .setLocal (past.engine e) d
  | .setRemote e d => .setRemote (past.engine e) d
  | .addCandidate e c => .addCandidate (past.engine e) c
  | .closeEngine e => .closeEngine (past.engine e)
  | r => r

def input (past : Past) : SessionInput → SessionInput
  | .engine g event => .engine (past.stamp g) event
  | i => i

def creation (past : Past) (c : Creation) : Creation :=
  ⟨past.engine c.engine, past.stamp c.generation, c.kind⟩

def completion (past : Past) (c : Completion) : Completion :=
  { c with generation := past.stamp c.generation }

/-- How the collaborators of a session answer after the past. -/
def answers (past : Past) (a : Answers) : Answers where
  grants record r := a.grants (past.record ++ record.map past.request) (past.request r)
  trackCount record := a.trackCount (past.record ++ record.map past.request)

@[simp] theorem input_preempts (past : Past) (i : SessionInput) :
    (past.input i).preempts = i.preempts := by
  cases i <;> rfl

@[simp] theorem input_repliesIn (past : Past) (room : RoomId) (i : SessionInput) :
    (past.input i).repliesIn room = i.repliesIn room := by
  cases i <;> rfl

end Past

namespace Actor

variable {a : Answers} {past : Past} {s t : Actor} {i : SessionInput}

/-- The session with a past. -/
def after (past : Past) (s : Actor) : Actor :=
  { s with
    staleReplies := past.staleReplies + s.staleReplies
    engine := s.engine.map past.engine
    generation := past.stamp s.generation
    tracks := s.tracks.map past.track
    backlog := s.backlog.map past.input
    record := past.record ++ s.record.map past.request
    engines := past.engines ++ s.engines.map past.stamp
    trackTotal := past.trackTotal + s.trackTotal
    creations := s.creations.map past.creation }

/-! ## Operations -/

theorem after_note (past : Past) (s : Actor) (r : Request) :
    (s.after past).note (past.request r) = (s.note r).after past := by
  simp [note, after]

theorem after_send (past : Past) (s : Actor) (e : ClientEvent) :
    (s.after past).send e = (s.send e).after past := by
  simp [send, note, after, Past.request]

theorem after_released (past : Past) (s : Actor) (state : SessionState) :
    (s.after past).released state = (s.released state).after past := by
  cases engine : s.engine <;>
    simp [released, after, engine, Past.request, Past.stamp, Nat.add_assoc]

theorem after_releaseEngine (past : Past) (s : Actor) :
    (s.after past).releaseEngine = s.releaseEngine.after past := by
  rw [releaseEngine_eq, releaseEngine_eq]
  exact after_released past s s.state

theorem after_acquireEngine (past : Past) (a : Answers) (s : Actor) :
    (s.after past).acquireEngine a =
      ((s.acquireEngine (past.answers a)).1, (s.acquireEngine (past.answers a)).2.after past) := by
  cases granted : s.grantsEngine (past.answers a) with
  | true =>
    rw [acquireEngine_of_granted granted, acquireEngine_of_granted (s := s.after past) granted]
    simp [equipped, after, Past.request, Past.engine, Past.stamp, Nat.add_assoc]
  | false =>
    rw [acquireEngine_of_refused granted, acquireEngine_of_refused (s := s.after past) granted]
    simp [denied, after, Past.request, Past.stamp, Nat.add_assoc]

theorem after_startStep (past : Past) (kind : SdpKind) (s : Actor) :
    (s.after past).startStep kind = (s.startStep kind).after past := by
  cases engine : s.engine with
  | none => simp [startStep, after, engine]
  | some e => simp [startStep, after, note, engine, Past.request, Past.creation]

theorem after_enterRoom (past : Past) (a : Answers) (s : Actor) :
    (s.after past).enterRoom a = (s.enterRoom (past.answers a)).after past := by
  unfold enterRoom
  dsimp only
  by_cases granted : (past.answers a).grants s.record .acquireMedia = true
  · rw [if_pos granted]
    refine (if_pos granted).trans ?_
    simp [send, note, after, Past.request, Past.answers, Past.track, Nat.add_assoc]
  · rw [if_neg granted]
    refine (if_neg granted).trans ?_
    exact after_note past s .acquireMedia

/-! ## Inputs whose turn it is -/

theorem after_tearDown (past : Past) (s : Actor) :
    (s.after past).tearDown = s.tearDown.after past := by
  rw [tearDown_eq, tearDown_eq]
  unfold tornDown
  rw [after_released]
  cases engine : s.engine <;> simp [released, after, engine, Past.request]

theorem after_leave (past : Past) (exit : Bool) (s : Actor) :
    (s.after past).leave exit = (s.leave exit).after past := by
  by_cases running : s.state = .leaved
  · unfold leave
    rw [if_pos running]
    exact if_pos running
  · rw [leave_eq running, leave_eq (s := s.after past) running]
    unfold departed
    rw [after_released]
    cases exit <;> cases engine : s.engine <;>
      simp [released, after, engine, Past.request, Nat.add_assoc]

theorem after_rejoin (past : Past) (a : Answers) (s : Actor) :
    (s.after past).rejoin a = (s.rejoin (past.answers a)).after past := by
  unfold rejoin
  rw [after_enterRoom, apply_ite (after past), apply_ite (after past)]
  rfl

theorem after_onBye (past : Past) (p : PeerId) (s : Actor) :
    (s.after past).onBye p = (s.onBye p).after past := by
  unfold onBye
  rw [after_releaseEngine, apply_ite (after past), apply_ite (after past)]
  rfl

theorem after_onEngine (past : Past) (g : Nat) (event : EngineEvent) (s : Actor) :
    (s.after past).onEngine (past.stamp g) event = (s.onEngine g event).after past := by
  unfold onEngine
  rw [apply_ite (after past)]
  refine if_congr ?_ rfl ?_
  · simp [after, Past.stamp]
  · cases event with
    | localCandidate c => exact after_send past s _
    | remoteTrack t => exact after_note past s (.remoteTrack t)

theorem after_offerTo (past : Past) (p : PeerId) (s : Actor) :
    (s.after past).offerTo p = (s.offerTo p).after past :=
  after_startStep past .offer { s with counterpart := some p, state := .connected }

theorem after_onOtherJoin (past : Past) (a : Answers) (p : PeerId) (s : Actor) :
    (s.after past).onOtherJoin a p = (s.onOtherJoin (past.answers a) p).after past := by
  have held : (s.after past).engine.isSome = s.engine.isSome := Option.isSome_map
  unfold onOtherJoin
  rw [after_acquireEngine, held, apply_ite (after past), apply_ite (after past),
    apply_ite (after past)]
  refine if_congr Iff.rfl rfl (if_congr Iff.rfl rfl (if_congr Iff.rfl (after_offerTo past p s) ?_))
  obtain ⟨granted, t⟩ := s.acquireEngine (past.answers a)
  cases granted with
  | true => exact after_offerTo past p t
  | false => rfl

theorem after_onMessage (past : Past) (a : Answers) (sender : PeerId) (data : Json) (s : Actor) :
    (s.after past).onMessage a sender data = (s.onMessage (past.answers a) sender data).after past := by
  unfold onMessage
  cases Message.parse data with
  | error _ => rfl
  | ok message =>
    dsimp only
    rw [apply_ite (after past)]
    refine if_congr Iff.rfl rfl ?_
    have held : (s.after past).engine = s.engine.map past.engine := rfl
    cases engine : s.engine with
    | none => rw [held, engine]; rfl
    | some e =>
      rw [held, engine]
      have noted (d : Description) : (s.after past).note (.setRemote (past.engine e) d) =
          (s.note (.setRemote e d)).after past := after_note past s (.setRemote e d)
      cases message with
      | offer sdp =>
        dsimp only [Option.map_some]
        rw [noted, apply_ite (after past), ← after_startStep]
        rfl
      | answer sdp =>
        dsimp only [Option.map_some]
        rw [noted, apply_ite (after past)]
        rfl
      | candidate c => exact after_note past s (.addCandidate e c)

theorem after_consumeStaleReply (none : past.staleReplies = 0) (s : Actor) :
    (s.after past).consumeStaleReply =
      (s.consumeStaleReply.1, s.consumeStaleReply.2.after past) := by
  have count : (s.after past).staleReplies = s.staleReplies := by simp [after, none]
  unfold consumeStaleReply
  rw [count]
  split
  · rfl
  · simp [after, none]

theorem after_onJoined (none : past.staleReplies = 0) (a : Answers) (p : PeerId) (s : Actor) :
    (s.after past).onJoined a p = (s.onJoined (past.answers a) p).after past := by
  unfold onJoined
  rw [after_consumeStaleReply none]
  obtain ⟨stale, s⟩ := s.consumeStaleReply
  have acquired := after_acquireEngine past a { s with joinRequested := false, peer := some p }
  dsimp only
  rw [apply_ite (after past), apply_ite (after past)]
  refine if_congr Iff.rfl rfl (if_congr Iff.rfl rfl ?_)
  exact congrArg (fun r : Bool × Actor => { r.2 with state := .joined }) acquired

theorem after_onFull (none : past.staleReplies = 0) (s : Actor) :
    (s.after past).onFull = s.onFull.after past := by
  unfold onFull
  rw [after_consumeStaleReply none]
  dsimp only
  rw [after_tearDown, apply_ite (after past)]

/-- A session handles an input as it would without its past, unless it has to pass it over. -/
theorem after_dispatch (a : Answers) (s : Actor) (i : SessionInput)
    (due : past.staleReplies = 0 ∨ i.repliesIn s.room = false) :
    (s.after past).dispatch a (past.input i) = (s.dispatch (past.answers a) i).after past := by
  cases i with
  | server event =>
    show (s.after past).onServer a event = (s.onServer (past.answers a) event).after past
    unfold onServer
    rw [apply_ite (after past)]
    by_cases own : event.room = s.room
    · refine if_congr Iff.rfl rfl ?_
      cases event with
      | joined r p =>
        have none : past.staleReplies = 0 := due.resolve_right (by
          obtain rfl : r = s.room := own
          simp [SessionInput.repliesIn])
        exact after_onJoined none a p s
      | otherJoin _ p => exact after_onOtherJoin past a p s
      | full r p =>
        have none : past.staleReplies = 0 := due.resolve_right (by
          obtain rfl : r = s.room := own
          simp [SessionInput.repliesIn])
        exact after_onFull none s
      | bye _ p => exact after_onBye past p s
      | leaved _ _ => rfl
      | message _ sender data => exact after_onMessage past a sender data s
    · exact (if_pos own).trans (if_pos own).symm
  | engine g event => exact after_onEngine past g event s
  | leave => exact after_leave past false s
  | exit => exact after_leave past true s
  | rejoin => exact after_rejoin past a s
  | linkLost =>
    show (if s.state = .leaved then s.after past else (s.after past).tearDown) = _
    rw [after_tearDown, ← apply_ite (after past)]
    rfl

/-! ## Turns -/

theorem after_drainUpTo (none : past.staleReplies = 0) (a : Answers) (n : Nat) (s : Actor) :
    drainUpTo a n (s.after past) = (drainUpTo (past.answers a) n s).after past := by
  induction n generalizing s with
  | zero => rfl
  | succ n ih =>
    by_cases busy : s.pending.isSome = true
    · rw [drainUpTo_of_busy _ _ busy]
      exact drainUpTo_of_busy a _ busy
    · cases waits : s.backlog with
      | nil =>
        rw [drainUpTo_of_empty _ _ waits]
        exact drainUpTo_of_empty a _ (by simp [after, waits])
      | cons i rest =>
        have waits' : (s.after past).backlog =
            past.input i :: ({ s with backlog := rest }.after past).backlog := by
          simp [after, waits]
        rw [drainUpTo_of_free _ n busy waits, drainUpTo_of_free (s := s.after past) a n busy waits',
          ← ih, ← after_dispatch a _ i (.inl none)]
        rfl

/-- While replies are to be passed over, nothing may wait. -/
theorem after_drain (a : Answers) (s : Actor) (due : past.staleReplies = 0 ∨ s.backlog = []) :
    (s.after past).drain a = (s.drain (past.answers a)).after past := by
  rcases due with none | empty
  · have same : (s.after past).backlog.length = s.backlog.length := List.length_map _
    unfold drain
    rw [same]
    exact after_drainUpTo none a _ s
  · rw [drain_of_empty _ empty]
    exact drain_of_empty a (by simp [after, empty])

theorem after_handleInput (a : Answers) (s : Actor) (i : SessionInput)
    (due : past.staleReplies = 0 ∨ (i.repliesIn s.room = false ∧ s.backlog = [])) :
    (s.after past).handleInput a (past.input i) =
      (s.handleInput (past.answers a) i).after past := by
  have dispatched := after_dispatch a s i (due.imp_right And.left)
  unfold handleInput
  rw [dispatched, after_drain, apply_ite (after past), Past.input_preempts]
  · refine if_congr Iff.rfl ?_ rfl
    simp [after]
  · refine due.imp_right fun ⟨_, empty⟩ => ?_
    rcases (dispatch_handled (past.answers a) s i).backlog with same | empty'
    · exact same.trans empty
    · exact empty'

theorem after_applyLocal (past : Past) (a : Answers) (d : Description) (s : Actor) :
    (s.after past).applyLocal a d = (s.applyLocal (past.answers a) d).after past := by
  have held : (s.after past).engine = s.engine.map past.engine := rfl
  unfold applyLocal
  cases engine : s.engine with
  | none => rw [held, engine]; rfl
  | some e =>
    have noted : (s.after past).note (.setLocal (past.engine e) d) =
        (s.note (.setLocal e d)).after past := after_note past s (.setLocal e d)
    rw [held, engine]
    dsimp only [Option.map_some]
    rw [noted, apply_ite (after past)]
    refine if_congr Iff.rfl ?_ rfl
    exact after_send past { s.note (.setLocal e d) with localDescription := some d } _

theorem after_applied (past : Past) (a : Answers) (s : Actor) (c : Completion) :
    (s.after past).applied a (past.completion c) = (s.applied (past.answers a) c).after past := by
  have result : (past.completion c).result = c.result := rfl
  unfold applied
  rw [result]
  cases c.result with
  | none => rfl
  | some d => exact after_applyLocal past a d { s with pending := none }

theorem after_complete (a : Answers) (s : Actor) (c : Completion)
    (due : past.staleReplies = 0 ∨ s.backlog = []) :
    (s.after past).complete a (past.completion c) =
      (s.complete (past.answers a) c).after past := by
  by_cases current : c.generation = s.generation
  · have current' : (past.completion c).generation = (s.after past).generation :=
      congrArg past.stamp current
    rw [complete_of_current current, complete_of_current current', after_applied, after_drain]
    exact due.imp_right fun empty => (applied_backlog _ s c).trans empty
  · have old : (past.completion c).generation ≠ (s.after past).generation := fun same =>
      current (Nat.add_left_cancel same)
    rw [complete_of_old current, complete_of_old old]

end Actor

end Parley
