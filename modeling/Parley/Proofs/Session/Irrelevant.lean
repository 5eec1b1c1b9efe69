import Parley.Proofs.Session.Backlog
import Parley.Proofs.Session.Course
import Parley.Proofs.Session.Renewal

/-!
# Irrelevant events

Events about other rooms, acknowledgements of a leave and messages that cannot be read mean nothing
to a session, whatever it is doing. They are handled all the same: they wait in the inbox and behind
a pending step, and a `bye` or `full` of another room goes past everything that waits. Still a run
in which some of them never come shows the same as the run in which they do (`irrelevant_unseen`).

The two runs go side by side. `Runner.thinned` leaves out of a run the deliveries of the chosen events
and the moves that take them. All the while the two sessions are the same but for irrelevant inputs in
the backlog, and the inbox of the one is that of the other less the chosen events (`Thinner`).
-/

namespace Parley

/-- The event means nothing to a session in the room: it is about another room, acknowledges a leave,
or is a message that cannot be read. -/
def ServerEvent.irrelevant (room : RoomId) (event : ServerEvent) : Bool :=
  decide (event.room ≠ room) ||
    match event with
    | .leaved _ _ => true
    | .message _ _ data => !(Message.parse data).isOk
    | _ => false

/-- The input is an irrelevant event. -/
def SessionInput.irrelevant (room : RoomId) : SessionInput → Bool
  | .server event => event.irrelevant room
  | _ => false

/-! ## Sessions -/

namespace Actor

variable {a : Answers} {room : RoomId} {s : Actor} {i : SessionInput}

/-- The session without irrelevant inputs in its backlog. -/
def pruned (room : RoomId) (s : Actor) : Actor :=
  { s with backlog := s.backlog.filter (!·.irrelevant room) }

/-- An irrelevant input is ignored when its turn comes. -/
theorem dispatch_of_irrelevant (a : Answers) (own : s.room = room)
    (irrelevant : i.irrelevant room = true) : s.dispatch a i = s := by
  cases i with
  | server event =>
    show s.onServer a event = s
    unfold onServer
    split
    case isTrue => rfl
    case isFalse same =>
      have same : event.room = room := by simpa [own] using same
      cases event with
      | leaved _ _ => rfl
      | message r sender data =>
        have unread : (Message.parse data).isOk = false := by
          simpa [SessionInput.irrelevant, ServerEvent.irrelevant, same] using irrelevant
        show s.onMessage a sender data = s
        unfold onMessage
        split
        case h_1 => rfl
        case h_2 _ parsed =>
          rw [parsed] at unread
          cases unread
      | _ => simp [SessionInput.irrelevant, ServerEvent.irrelevant, same] at irrelevant
  | _ => cases irrelevant

theorem pruned_leave (room : RoomId) (exit : Bool) (s : Actor) :
    (s.pruned room).leave exit = (s.leave exit).pruned room := by
  by_cases running : s.state = .leaved
  · unfold leave
    rw [if_pos running]
    exact if_pos running
  · rw [leave_eq running, leave_eq (s := s.pruned room) running]
    rfl

theorem pruned_tearDown (room : RoomId) (s : Actor) :
    (s.pruned room).tearDown = s.tearDown.pruned room := by
  rw [tearDown_eq, tearDown_eq]
  rfl

theorem pruned_onFull (room : RoomId) (s : Actor) :
    (s.pruned room).onFull = s.onFull.pruned room := by
  have stale : (s.pruned room).consumeStaleReply =
      (s.consumeStaleReply.1, s.consumeStaleReply.2.pruned room) := by
    unfold consumeStaleReply
    by_cases fresh : s.staleReplies = 0
    · rw [if_pos fresh]
      exact if_pos fresh
    · rw [if_neg fresh]
      exact if_neg fresh
  unfold onFull
  rw [stale]
  dsimp only
  rw [pruned_tearDown, apply_ite (pruned room)]

theorem pruned_onBye (room : RoomId) (p : PeerId) (s : Actor) :
    (s.pruned room).onBye p = (s.onBye p).pruned room := by
  have released : (s.pruned room).releaseEngine = s.releaseEngine.pruned room := by
    rw [releaseEngine_eq, releaseEngine_eq]
    rfl
  unfold onBye
  rw [released, apply_ite (pruned room), apply_ite (pruned room)]
  rfl

/-- Whatever input it handles, a session does not look at irrelevant inputs that wait. -/
theorem pruned_dispatch (room : RoomId) (a : Answers) (i : SessionInput) (s : Actor) :
    (s.pruned room).dispatch a i = (s.dispatch a i).pruned room := by
  cases later : i.preempts with
  | false =>
    have waits : (s.dispatch a i).backlog = s.backlog :=
      (dispatch_handled a s i).stay (not_quits later)
    have beside (waiting : List SessionInput) :
        (s.beside waiting []).dispatch a i = (s.dispatch a i).beside waiting [] :=
      beside_dispatch a later s
    unfold pruned
    rw [waits]
    exact beside _
  | true =>
    cases i with
    | server event =>
      show (s.pruned room).onServer a event = (s.onServer a event).pruned room
      unfold onServer
      rw [apply_ite (pruned room)]
      refine if_congr Iff.rfl rfl ?_
      cases event with
      | full _ _ => exact pruned_onFull room s
      | bye _ p => exact pruned_onBye room p s
      | joined | otherJoin | leaved | message => cases later
    | leave => exact pruned_leave room false s
    | exit => exact pruned_leave room true s
    | linkLost =>
      show (if s.state = .leaved then s.pruned room else (s.pruned room).tearDown) = _
      rw [pruned_tearDown, ← apply_ite (pruned room)]
      rfl
    | engine | rejoin => cases later

/-- A session passes over irrelevant inputs, and does not look at them before. -/
theorem pruned_filters (a : Answers) (room : RoomId) :
    Filters a (·.room = room) (!·.irrelevant room) (pruned room) where
  pending _ := rfl
  waits _ _ := rfl
  wait _ own := own
  next i own := (dispatch_handled a _ i).room.trans own
  alike i _ _ := pruned_dispatch room a i _
  passed i own other := dispatch_of_irrelevant a own (by simpa using other)

theorem pruned_complete (a : Answers) (own : s.room = room) (c : Completion) :
    (s.pruned room).complete a c = (s.complete a c).pruned room := by
  have kept : (s.applied a c).backlog = s.backlog := applied_backlog a s c
  have same : (s.applied a c).room = room :=
    applied_induction (P := fun t => t.room = room) own fun d t _ published =>
      published.room.trans own
  refine (pruned_filters a room).complete rfl same ?_
  have beside (waiting : List SessionInput) :
      (s.beside waiting []).applied a c = (s.applied a c).beside waiting [] :=
    beside_applied a c s
  unfold pruned
  rw [kept]
  exact beside _

end Actor

/-! ## Inputs and what a session deals with -/

/-- The inputs without the chosen ones that are irrelevant. They are chosen by their places. -/
def SessionInput.thinned (room : RoomId) : (Nat → Bool) → List SessionInput → List SessionInput
  | _, [] => []
  | chosen, i :: rest =>
    let rest := thinned room (fun n => chosen (n + 1)) rest
    if chosen 0 && i.irrelevant room then rest else i :: rest

/-- What a session deals with, less the chosen inputs that are irrelevant. They are chosen by their
places among the inputs. -/
def Stimulus.thinned (room : RoomId) : (Nat → Bool) → List Stimulus → List Stimulus
  | _, [] => []
  | chosen, input i :: rest =>
    let rest := thinned room (fun n => chosen (n + 1)) rest
    if chosen 0 && i.irrelevant room then rest else input i :: rest
  | chosen, x :: rest => x :: thinned room chosen rest

section Thinned

variable {room : RoomId} {chosen : Nat → Bool} {i : SessionInput}

theorem SessionInput.thinned_cons (room : RoomId) (chosen : Nat → Bool) (i : SessionInput)
    (rest : List SessionInput) :
    SessionInput.thinned room chosen (i :: rest) =
      if chosen 0 && i.irrelevant room then
        SessionInput.thinned room (fun n => chosen (n + 1)) rest
      else i :: SessionInput.thinned room (fun n => chosen (n + 1)) rest := rfl

theorem SessionInput.thinned_concat (room : RoomId) (chosen : Nat → Bool) (l : List SessionInput)
    (i : SessionInput) :
    SessionInput.thinned room chosen (l ++ [i]) =
      SessionInput.thinned room chosen l ++
        if chosen l.length && i.irrelevant room then [] else [i] := by
  induction l generalizing chosen with
  | nil => rfl
  | cons j rest ih =>
    rw [List.cons_append, thinned_cons, thinned_cons, ih, List.length_cons]
    split <;> rfl

theorem Stimulus.thinned_cons (room : RoomId) (chosen : Nat → Bool) (i : SessionInput)
    (rest : List Stimulus) :
    Stimulus.thinned room chosen (.input i :: rest) =
      if chosen 0 && i.irrelevant room then Stimulus.thinned room (fun n => chosen (n + 1)) rest
      else .input i :: Stimulus.thinned room (fun n => chosen (n + 1)) rest := rfl

theorem Stimulus.thinned_cons_other {x : Stimulus} (other : ∀ i, x ≠ .input i)
    (rest : List Stimulus) :
    Stimulus.thinned room chosen (x :: rest) = x :: Stimulus.thinned room chosen rest := by
  cases x with
  | input i => exact absurd rfl (other i)
  | _ => rfl

end Thinned

/-! ## Moves -/

namespace Runner

variable {a : Answers} {room : RoomId} {chosen : Nat → Bool} {p q : Runner} {m : Move}

/-- The same move for a session that the chosen events never reach. There is none if the move brings
in or takes one of them, or if nothing happens in it, as in an attempt to end before the inbox is
empty. An event is chosen by its place among the inputs that wait or are to come. -/
def thin (chosen : Nat → Bool) (p : Runner) : Move → Option Move
  | .deliver e =>
    if chosen p.inbox.length && e.irrelevant p.actor.room then none else some (.deliver e)
  | .act .takeInput =>
    if chosen 0 && p.inbox.head?.any (·.irrelevant p.actor.room) then none
    else some (.act .takeInput)
  | .act .shutdown => if p.inbox.isEmpty then some (.act .shutdown) else none
  | m => some m

/-- What is chosen among the inputs that wait or are to come after a move. -/
def chosenAfter (chosen : Nat → Bool) (p : Runner) : Move → Nat → Bool
  | .act .takeInput => if p.inbox.isEmpty then chosen else fun n => chosen (n + 1)
  | _ => chosen

/-- The same run for a session that the chosen events never reach. -/
def thinned (a : Answers) (chosen : Nat → Bool) (p : Runner) : List Move → List Move
  | [] => []
  | m :: rest => (p.thin chosen m).toList ++ (p.move a m).thinned a (p.chosenAfter chosen m) rest

/-- The second session is the first one without the chosen events, but for irrelevant inputs that
wait behind a pending step. -/
structure Thinner (room : RoomId) (chosen : Nat → Bool) (p q : Runner) : Prop where
  own : p.actor.room = room
  actor : q.actor.pruned room = p.actor.pruned room
  inbox : q.inbox = SessionInput.thinned room chosen p.inbox
  results : q.results = p.results
  handle : q.handle = p.handle
  finished : q.finished = p.finished

/-- What the first session does in a move, the second does in a move of its own, unless it is spared
the move. -/
structure Thins (a : Answers) (room : RoomId) (chosen : Nat → Bool) (p : Runner) (m : Move)
    (q : Runner) : Prop where
  thinner : Thinner room (p.chosenAfter chosen m) (p.move a m) (q.run a (p.thin chosen m).toList)
  heeds : ∀ xs, Stimulus.thinned room chosen ((p.heeds m).toList ++ xs) =
    ((p.thin chosen m).bind q.heeds).toList ++ Stimulus.thinned room (p.chosenAfter chosen m) xs

namespace Thinner

/-- What an observer sees is the same. -/
theorem snapshot (h : Thinner room chosen p q) : q.snapshot = p.snapshot :=
  (congrArg (fun s : Actor => s.snapshot) h.actor :)

theorem state (h : Thinner room chosen p q) : q.actor.state = p.actor.state :=
  (congrArg (fun s : Actor => s.state) h.actor :)

theorem own' (h : Thinner room chosen p q) : q.actor.room = room :=
  have same := congrArg (fun s : Actor => s.room) h.actor
  Eq.trans same h.own

theorem endIfLeaved (h : Thinner room chosen p q) :
    Thinner room chosen p.endIfLeaved q.endIfLeaved := by
  unfold Runner.endIfLeaved
  rw [h.state]
  split
  · exact ⟨h.own, h.actor, rfl, rfl, h.handle, rfl⟩
  · exact h

theorem onLink (h : Thinner room chosen p q) (f : Link ClientEvent → Link ClientEvent) :
    Thinner room chosen (p.onLink f) (q.onLink f) where
  own := h.own
  actor := congrArg (fun s : Actor => { s with link := f s.link }) h.actor
  inbox := h.inbox
  results := h.results
  handle := h.handle
  finished := h.finished

/-- Both sessions get the input. -/
theorem push (h : Thinner room chosen p q) {i : SessionInput}
    (kept : (chosen p.inbox.length && i.irrelevant room) = false) :
    Thinner room chosen (p.push i) (q.push i) := by
  have shut : (q.finished || !q.handle) = (p.finished || !p.handle) := by
    rw [h.finished, h.handle]
  unfold Runner.push
  rw [shut]
  split
  · exact h
  · refine ⟨h.own, h.actor, ?_, h.results, h.handle, h.finished⟩
    show q.inbox ++ [i] = SessionInput.thinned room chosen (p.inbox ++ [i])
    rw [SessionInput.thinned_concat, kept, h.inbox]
    rfl

/-- Only the first session gets the input. -/
theorem push_chosen (h : Thinner room chosen p q) {i : SessionInput}
    (spared : (chosen p.inbox.length && i.irrelevant room) = true) :
    Thinner room chosen (p.push i) q := by
  unfold Runner.push
  split
  · exact h
  · refine ⟨h.own, h.actor, ?_, h.results, h.handle, h.finished⟩
    show q.inbox = SessionInput.thinned room chosen (p.inbox ++ [i])
    rw [SessionInput.thinned_concat, spared, h.inbox]
    exact (List.append_nil _).symm

theorem report (h : Thinner room chosen p q) (e : EngineId) (event : EngineEvent) :
    Thinner room chosen (p.report e event) (q.report e event) := by
  have engines : q.actor.engines = p.actor.engines :=
    (congrArg (fun s : Actor => s.engines) h.actor :)
  unfold Runner.report
  rw [engines]
  split
  · exact h.push (by simp [SessionInput.irrelevant])
  · exact h

theorem finishCreation (h : Thinner room chosen p q) (index : Nat) (result : Option Description) :
    Thinner room chosen (p.finishCreation index result) (q.finishCreation index result) := by
  have creations : q.actor.creations = p.actor.creations :=
    (congrArg (fun s : Actor => s.creations) h.actor :)
  have erased := congrArg
    (fun s : Actor => { s with creations := p.actor.creations.eraseIdx index }) h.actor
  unfold Runner.finishCreation
  rw [creations]
  split
  · exact h
  · refine ⟨h.own, erased, h.inbox, ?_, h.handle, h.finished⟩
    show (if q.finished then [] else q.results ++ _) = if p.finished then [] else p.results ++ _
    rw [h.finished, h.results]

end Thinner

namespace Thins

/-- Both sessions do the same, and no input is taken. -/
theorem alike (same : p.thin chosen m = some m) (still : p.chosenAfter chosen m = chosen)
    (heeds : q.heeds m = p.heeds m) (other : ∀ i, p.heeds m ≠ some (.input i))
    (thinner : Thinner room chosen (p.move a m) (q.move a m)) : Thins a room chosen p m q := by
  refine ⟨?_, fun xs => ?_⟩
  · rw [same, still]
    exact thinner
  · rw [same, still]
    show _ = (q.heeds m).toList ++ _
    rw [heeds]
    cases heard : p.heeds m with
    | none => rfl
    | some x => exact Stimulus.thinned_cons_other (fun i is => other i (heard.trans (congrArg _ is))) xs

/-- The second session is spared the move, in which the first deals with nothing. -/
theorem spared (left : p.thin chosen m = none) (still : p.chosenAfter chosen m = chosen)
    (deaf : p.heeds m = none) (thinner : Thinner room chosen (p.move a m) q) :
    Thins a room chosen p m q := by
  refine ⟨?_, fun xs => ?_⟩
  · rw [left, still]
    exact thinner
  · rw [left, still, deaf]
    rfl

end Thins

namespace Thinner

theorem deliver (h : Thinner room chosen p q) (a : Answers) (e : ServerEvent) :
    Thins a room chosen p (.deliver e) q := by
  cases spared : chosen p.inbox.length && e.irrelevant room with
  | true =>
    exact .spared (if_pos (by rw [h.own, spared])) rfl rfl (h.push_chosen (i := .server e) spared)
  | false =>
    exact .alike (if_neg (by rw [h.own, spared]; exact Bool.false_ne_true)) rfl rfl nofun
      (h.push (i := .server e) spared)

theorem takeInput (h : Thinner room chosen p q) (sound : p.Sound) (a : Answers) :
    Thins a room chosen p (.act .takeInput) q := by
  cases next : p.inbox with
  | nil =>
    have next' : q.inbox = [] := by rw [h.inbox, next]; rfl
    obtain ⟨still, deaf⟩ := takeInput_idle (a := a) (.inr next)
    obtain ⟨still', deaf'⟩ := takeInput_idle (a := a) (.inr next')
    refine .alike (by simp [thin, next]) (by simp [chosenAfter, next]) (deaf'.trans deaf.symm)
      (by simp [deaf]) ?_
    show Thinner room chosen (p.takeInput a) (q.takeInput a)
    rw [still, still']
    exact h
  | cons i rest =>
    have running : p.finished = false := sound.running_of_inbox next
    obtain ⟨taken, heard⟩ := takeInput_next (a := a) next running
    have after : p.chosenAfter chosen (.act .takeInput) = fun n => chosen (n + 1) := by
      simp [chosenAfter, next]
    have inbox := h.inbox
    rw [next, SessionInput.thinned_cons] at inbox
    cases spared : chosen 0 && i.irrelevant room with
    | true =>
      have irrelevant : i.irrelevant room = true := (Bool.and_eq_true _ _ ▸ spared).2
      have left : p.thin chosen (.act .takeInput) = none := by simp [thin, next, h.own, spared]
      rw [spared, if_pos rfl] at inbox
      refine ⟨?_, fun xs => ?_⟩
      · rw [left, after]
        show Thinner room _ (p.takeInput a) q
        -- The first session still runs, so this input does not end it.
        have alive : (p.actor.handleInput a i).state = p.actor.state := by
          have same := (Actor.pruned_filters a room).handleInput_still h.own sound.settled
            (i := i) (by simp [irrelevant])
          exact (congrArg (fun s : Actor => s.state) same :)
        have goes : p.takeInput a = { p with actor := p.actor.handleInput a i, inbox := rest } := by
          rw [taken]
          refine if_neg ?_
          show (p.actor.handleInput a i).state ≠ .leaved
          rw [alive]
          exact sound.alive running
        rw [goes]
        refine ⟨(Actor.handleInput_room a p.actor i).trans h.own, ?_, inbox, h.results, h.handle,
          h.finished⟩
        exact h.actor.trans ((Actor.pruned_filters a room).handleInput_still h.own sound.settled
          (by simp [irrelevant])).symm
      · rw [left, after, heard]
        show Stimulus.thinned room chosen (.input i :: xs) = _
        rw [Stimulus.thinned_cons, spared]
        rfl
    | false =>
      have running' : q.finished = false := h.finished.trans running
      rw [spared, if_neg Bool.false_ne_true] at inbox
      obtain ⟨taken', heard'⟩ := takeInput_next (a := a) inbox running'
      have both : p.thin chosen (.act .takeInput) = some (.act .takeInput) := by
        simp [thin, next, h.own, spared]
      refine ⟨?_, fun xs => ?_⟩
      · rw [both, after]
        show Thinner room _ (p.takeInput a) (q.takeInput a)
        rw [taken, taken']
        refine endIfLeaved ⟨(Actor.handleInput_room a p.actor i).trans h.own, ?_, rfl, h.results,
          h.handle, h.finished⟩
        exact (Actor.pruned_filters a room).handleInput_congr h.own' h.own h.actor i
      · rw [both, after, heard]
        show Stimulus.thinned room chosen (.input i :: xs) = (q.heeds (.act .takeInput)).toList ++ _
        rw [heard', Stimulus.thinned_cons, spared]
        rfl

theorem takeResult (h : Thinner room chosen p q) (a : Answers) :
    Thins a room chosen p (.act .takeResult) q := by
  by_cases nothing : p.finished = true ∨ p.results = []
  · obtain ⟨still, deaf⟩ := takeResult_idle (a := a) nothing
    obtain ⟨still', deaf'⟩ := takeResult_idle (p := q) (a := a)
      (by rwa [h.finished, h.results])
    refine .alike rfl rfl (deaf'.trans deaf.symm) (by simp [deaf]) ?_
    show Thinner room chosen (p.takeResult a) (q.takeResult a)
    rw [still, still']
    exact h
  · obtain ⟨running, waits⟩ : p.finished = false ∧ p.results ≠ [] := by simpa using nothing
    obtain ⟨c, rest, next⟩ := List.exists_cons_of_ne_nil waits
    obtain ⟨taken, heard⟩ := takeResult_next (a := a) next running
    obtain ⟨taken', heard'⟩ := takeResult_next (a := a) (h.results.trans next)
      (h.finished.trans running)
    refine .alike rfl rfl (heard'.trans heard.symm) (by simp [heard]) ?_
    show Thinner room chosen (p.takeResult a) (q.takeResult a)
    rw [taken, taken']
    refine endIfLeaved ⟨(Actor.complete_room a p.actor c).trans h.own, ?_, h.inbox, rfl, h.handle,
      h.finished⟩
    show (q.actor.complete a c).pruned room = (p.actor.complete a c).pruned room
    rw [← Actor.pruned_complete a h.own', h.actor, Actor.pruned_complete a h.own]

theorem shutdown (h : Thinner room chosen p q) (a : Answers) :
    Thins a room chosen p (.act .shutdown) q := by
  cases waits : p.inbox with
  | cons i rest =>
    -- The session cannot end yet.
    have still : p.shutdown = p := by simp [Runner.shutdown, waits]
    refine .spared (by simp [thin, waits]) rfl (by simp [heeds, waits]) ?_
    show Thinner room chosen p.shutdown q
    rwa [still]
  | nil =>
    have waits' : q.inbox = [] := by rw [h.inbox, waits]; rfl
    have able : (q.handle || !q.inbox.isEmpty || q.finished) =
        (p.handle || !p.inbox.isEmpty || p.finished) := by
      rw [h.handle, waits, waits', h.finished]
    refine .alike (by simp [thin, waits]) rfl ?_ ?_ ?_
    · show (if (q.handle || !q.inbox.isEmpty || q.finished) = true then none else _) = _
      rw [able]
      rfl
    · intro i
      show (if (p.handle || !p.inbox.isEmpty || p.finished) = true then none else _) ≠ _
      split <;> simp
    · show Thinner room chosen p.shutdown q.shutdown
      unfold Runner.shutdown
      rw [able]
      split
      · exact h
      · refine endIfLeaved ⟨(Actor.leave_handled a p.actor true).room.trans h.own, ?_, h.inbox,
          h.results, h.handle, h.finished⟩
        show (q.actor.leave true).pruned room = (p.actor.leave true).pruned room
        rw [← Actor.pruned_leave, h.actor, Actor.pruned_leave]

/-- Each move of the first session is a move of the second or one that it is spared. -/
theorem step (h : Thinner room chosen p q) (sound : p.Sound) (a : Answers) (m : Move) :
    Thins a room chosen p m q := by
  cases m with
  | deliver e => exact h.deliver a e
  | receive => exact .alike rfl rfl rfl nofun (h.onLink fun l => l.receive.2)
  | closeLink => exact .alike rfl rfl rfl nofun (h.onLink Link.close)
  | dropReceiver => exact .alike rfl rfl rfl nofun (h.onLink Link.dropReceiver)
  | act m =>
    cases m with
    | leave | exit | rejoin | linkLost =>
      exact .alike rfl rfl rfl nofun (h.push (by simp [SessionInput.irrelevant]))
    | dropHandle =>
      exact .alike rfl rfl rfl nofun ⟨h.own, h.actor, h.inbox, h.results, rfl, h.finished⟩
    | report e event => exact .alike rfl rfl rfl nofun (h.report e event)
    | finishCreation index result => exact .alike rfl rfl rfl nofun (h.finishCreation index result)
    | takeInput => exact h.takeInput sound a
    | takeResult => exact h.takeResult a
    | shutdown => exact h.shutdown a

/-! ## Runs -/

/-- The two sessions stay the same but for the chosen events. -/
theorem run (h : Thinner room chosen p q) (sound : p.Sound) (a : Answers) (moves : List Move) :
    ∃ left, Thinner room left (p.run a moves) (q.run a (p.thinned a chosen moves)) := by
  induction moves generalizing p q chosen with
  | nil => exact ⟨chosen, h⟩
  | cons m rest ih =>
    obtain ⟨left, next⟩ := ih (h.step sound a m).thinner (sound.move m)
    refine ⟨left, ?_⟩
    rw [Runner.thinned, run_append]
    exact next

/-- They deal with the same but for the chosen events. -/
theorem heeded (h : Thinner room chosen p q) (sound : p.Sound) (a : Answers) (moves : List Move) :
    q.heeded a (p.thinned a chosen moves) = Stimulus.thinned room chosen (p.heeded a moves) := by
  induction moves generalizing p q chosen with
  | nil => rfl
  | cons m rest ih =>
    have step := h.step sound a m
    have next := ih step.thinner (sound.move m)
    rw [Runner.thinned, Runner.heeded, step.heeds, ← next]
    cases p.thin chosen m <;> rfl

/-- They show the same. -/
theorem snapshots (h : Thinner room chosen p q) (sound : p.Sound) (a : Answers)
    (moves : List Move) :
    (q.snapshots a (p.thinned a chosen moves)).destutter (· ≠ ·) =
      (p.snapshots a moves).destutter (· ≠ ·) := by
  induction moves generalizing p q chosen with
  | nil =>
    show [q.snapshot].destutter _ = [p.snapshot].destutter _
    rw [h.snapshot]
  | cons m rest ih =>
    have thinner := (h.step sound a m).thinner
    have next := ih thinner (sound.move m)
    rw [Runner.thinned]
    cases left : p.thin chosen m with
    | none =>
      -- The first session moves alone, and nothing of it is seen.
      rw [left] at next thinner
      have still : p.snapshot = (p.move a m).snapshot := h.snapshot.symm.trans thinner.snapshot
      rw [Runner.snapshots, destutter_snapshots_same still]
      exact next
    | some m' =>
      rw [left] at next thinner
      show (q.snapshot :: (q.move a m').snapshots a _).destutter _ =
        (p.snapshot :: (p.move a m).snapshots a rest).destutter _
      rw [h.snapshot]
      exact destutter_snapshots_congr p.snapshot thinner.snapshot next

end Thinner

/-- A move is left out or stays as it is. -/
theorem thin_cases (chosen : Nat → Bool) (p : Runner) (m : Move) :
    p.thin chosen m = none ∨ p.thin chosen m = some m := by
  cases m with
  | deliver e => exact ite_eq_or_eq _ _ _
  | act m =>
    cases m with
    | takeInput => exact ite_eq_or_eq _ _ _
    | shutdown => exact (ite_eq_or_eq _ _ _).symm
    | _ => exact .inr rfl
  | _ => exact .inr rfl

theorem thinned_sublist (a : Answers) (chosen : Nat → Bool) (p : Runner) (moves : List Move) :
    (p.thinned a chosen moves).Sublist moves := by
  induction moves generalizing p chosen with
  | nil => exact .refl _
  | cons m rest ih =>
    have one : (p.thin chosen m).toList.Sublist [m] := by
      rcases thin_cases chosen p m with left | kept
      · rw [left]
        exact List.nil_sublist _
      · rw [kept]
        exact .refl _
    exact one.append (ih _ _)

/-- Irrelevant events are never seen: choose any of them, and leave their deliveries out of a run,
with the moves that take them. The session then deals with everything else as before, and what there
is to see of it is the same. -/
theorem irrelevant_unseen (a : Answers) (room : RoomId) (link : Link ClientEvent)
    (chosen : Nat → Bool) (moves : List Move) :
    let p := start a room link
    let moves' := p.thinned a chosen moves
    moves'.Sublist moves ∧
      p.heeded a moves' = Stimulus.thinned room chosen (p.heeded a moves) ∧
      p.seen a moves' = p.seen a moves := by
  intro p moves'
  have alike : Thinner room chosen p p :=
    ⟨start_room a room link, rfl, rfl, rfl, rfl, rfl⟩
  have sound : p.Sound := .start a room link
  refine ⟨thinned_sublist a chosen p moves, alike.heeded sound a moves, ?_⟩
  obtain ⟨left, last⟩ := alike.run sound a moves
  have record : (p.run a moves').actor.record = (p.run a moves).actor.record :=
    (congrArg (fun s : Actor => s.record) last.actor :)
  have link : (p.run a moves').actor.link = (p.run a moves).actor.link :=
    (congrArg (fun s : Actor => s.link) last.actor :)
  unfold seen
  rw [record, link, last.finished, alike.snapshots sound]

/-- A `bye` of another room comes while an offer is being created, and is left out. -/
example :
    let r : RoomId := ⟨"r"⟩
    let hear (e : ServerEvent) : List Move := [.deliver e, .act .takeInput]
    let offering := hear (.joined r ⟨"me"⟩) ++ hear (.otherJoin r ⟨"b"⟩)
    let unbinding := hear (.bye r ⟨"b"⟩)
    (start .obliging r .fresh).thinned .obliging (· == 2)
      (offering ++ hear (.bye ⟨"elsewhere"⟩ ⟨"b"⟩) ++ unbinding) = offering ++ unbinding := by
  rfl

end Runner

end Parley
