import Parley.Proofs.Session.Course

/-!
# The end of a session

A session ends in one of four ways: its user makes it exit, the last handle is dropped and its inbox
is empty, the room it asked for is full, or its link is lost. `Runner.ending?` names the moves in
which this happens, and `Actor.ended` what becomes of the session. No other move ends it, though
it may go on with its backlog for a long time (`Sound.move_goes_on`), and nothing is asked of anybody
after the end (`Over.run`). `clean_end` puts this together for whole runs.
-/

namespace Parley

/-- How a session ends. -/
inductive Ending where
  | exit
  /-- Nobody can drive the session any more. -/
  | abandoned
  | full
  | linkLost
  deriving DecidableEq, Repr

/-- What the session says at the end. -/
def Ending.lastWords (room : RoomId) : Ending → List Request
  | .exit | .abandoned => [.send (.leave room)]
  | .full | .linkLost => []

namespace Request

/-- The request is made to the source of media. -/
def isMedia : Request → Bool
  | .acquireMedia | .releaseMedia | .remoteTrack _ => true
  | _ => false

/-- The event that is handed to the link. -/
def sent? : Request → Option ClientEvent
  | .send e => some e
  | _ => none

end Request

/-! ## Turns -/

namespace Actor

variable {a : Answers} {s t : Actor} {i : SessionInput} {e : Ending}

/-- How an input ends the session, if it does. -/
def ending? (s : Actor) : SessionInput → Option Ending
  | .exit => some .exit
  | .linkLost => some .linkLost
  | .server (.full r _) => if r = s.room ∧ s.staleReplies = 0 then some .full else none
  | _ => none

/-- The session at its end. -/
def ended (s : Actor) : Ending → Actor
  | .exit | .abandoned => s.departed true
  | .full | .linkLost => s.tornDown

theorem ended_record (s : Actor) (e : Ending) :
    (s.ended e).record = s.record ++ e.lastWords s.room ++ s.engine.toList.map .closeEngine ++
      [.releaseMedia, .closeLink] := by
  cases e <;> simp [ended, departed, tornDown, Ending.lastWords]

/-- The input ends the session, whatever waits. -/
theorem handleInput_of_ending (a : Answers) (alive : s.state ≠ .leaved)
    (ends : s.ending? i = some e) : s.handleInput a i = s.ended e := by
  have now : i.preempts = true := by
    cases i with
    | server event => cases event <;> first | rfl | cases ends
    | exit | linkLost => rfl
    | engine | leave | rejoin => cases ends
  have turn : s.dispatch a i = s.ended e := by
    cases i with
    | exit =>
      cases ends
      exact leave_eq alive true
    | linkLost =>
      cases ends
      exact (if_neg alive).trans (tearDown_eq s)
    | server event =>
      cases event with
      | full r p =>
        by_cases here : r = s.room ∧ s.staleReplies = 0
        · obtain ⟨rfl, fresh⟩ := here
          have full : s.ending? (.server (.full s.room p)) = some .full := if_pos ⟨rfl, fresh⟩
          cases ends.symm.trans full
          show s.onServer a (.full s.room p) = s.tornDown
          simp [onServer, ServerEvent.room, onFull, consumeStaleReply, fresh, tearDown_eq]
        · cases ends.symm.trans (if_neg here)
      | _ => cases ends
    | engine | leave | rejoin => cases ends
  have nothing : (s.ended e).backlog = [] := by cases e <;> rfl
  unfold handleInput
  rw [now, turn, drain_of_empty a nothing]
  simp

/-- Any other input leaves the session alive. -/
theorem Handled.alive (turn : Handled a s i t) (alive : s.state ≠ .leaved)
    (goes : s.ending? i = none) : t.state ≠ .leaved := by
  cases turn with
  | ignored | staleReply | unequipped | tookOffer | tookAnswer | refused | remoteCandidate
  | localCandidate | remoteTrack | unprovided | rejoined => exact alive
  | admitted | offered | unbound => exact nofun
  | dismissed fresh => exact absurd ((if_pos ⟨rfl, fresh⟩).symm.trans goes) nofun
  | lost => cases goes
  | @left exit _ =>
    cases exit with
    | true => cases goes
    | false => exact nofun

/-- What waits ends no session. -/
theorem ending?_of_later (later : i.preempts = false) : s.ending? i = none := by
  cases i with
  | server event => cases event <;> first | rfl | cases later
  | engine | rejoin => rfl
  | leave | exit | linkLost => cases later

theorem Sound.drain_alive (h : s.Sound) (a : Answers) (alive : s.state ≠ .leaved) :
    (s.drain a).state ≠ .leaved :=
  h.drain_induction (P := fun t => t.state ≠ .leaved)
    (fun t i rest u sound alive _ waits _ turn =>
      turn.alive alive (ending?_of_later (sound.queued i (by rw [waits]; exact List.mem_cons_self))))
    alive

theorem Sound.handleInput_alive (h : s.Sound) (a : Answers) (alive : s.state ≠ .leaved)
    (goes : s.ending? i = none) : (s.handleInput a i).state ≠ .leaved := by
  unfold Actor.handleInput
  split
  · exact alive
  · exact (h.dispatch a i).drain_alive a ((dispatch_handled a s i).alive alive goes)

theorem Sound.complete_alive {c : Completion} (h : s.Sound)
    (bound : c.generation = s.generation → s.counterpart ≠ none) (a : Answers)
    (alive : s.state ≠ .leaved) : (s.complete a c).state ≠ .leaved := by
  by_cases current : c.generation = s.generation
  · rw [complete_of_current current]
    refine (h.applied (bound current) a c).drain_alive a ?_
    exact applied_induction (P := fun t => t.state ≠ .leaved) alive
      fun _ _ _ published => by cases published <;> exact alive
  · rwa [complete_of_old current]

end Actor

/-! ## Moves -/

namespace Runner

variable {a : Answers} {p q : Runner} {m : Move} {e : Ending}

/-- How the session ends in a move, if it does. -/
def ending? (p : Runner) : Move → Option Ending
  | .act .takeInput => if p.finished then none else p.inbox.head?.bind p.actor.ending?
  | .act .shutdown =>
    if p.handle || !p.inbox.isEmpty || p.finished then none else some .abandoned
  | _ => none

/-- The session takes an input in the move, if there is one. -/
def Move.takesInput : Move → Bool
  | .act .takeInput => true
  | _ => false

/-- At its end the session has given everything back. -/
theorem Sound.move_of_ending (h : p.Sound) (a : Answers) (ends : p.ending? m = some e) :
    p.move a m =
      { p with actor := p.actor.ended e, inbox := [], results := [], finished := true } := by
  have left : (p.actor.ended e).state = .leaved := by cases e <;> rfl
  cases m with
  | act m =>
    cases m with
    | takeInput =>
      cases running : p.finished with
      | true => simp [ending?, running] at ends
      | false =>
        cases next : p.inbox with
        | nil => simp [ending?, next] at ends
        | cons i rest =>
          have ends : p.actor.ending? i = some e := by simpa [ending?, running, next] using ends
          have turn := Actor.handleInput_of_ending a (h.alive running) ends
          show p.takeInput a = _
          unfold takeInput
          rw [next]
          dsimp only
          rw [if_neg (by simp [running]), turn]
          exact if_pos left
    | shutdown =>
      by_cases waits : (p.handle || !p.inbox.isEmpty || p.finished) = true
      · exact absurd ((if_pos waits).symm.trans ends) nofun
      · obtain rfl : Ending.abandoned = e := Option.some.inj ((if_neg waits).symm.trans ends)
        have running : p.finished = false := by
          cases running : p.finished with
          | false => rfl
          | true => simp [running] at waits
        have turn : p.actor.shutdown = p.actor.ended .abandoned :=
          Actor.leave_eq (h.alive running) true
        show p.shutdown = _
        unfold Runner.shutdown
        rw [if_neg waits, turn]
        exact if_pos left
    | _ => cases ends
  | _ => cases ends

/-- In any other move a session that runs goes on. -/
theorem Sound.move_goes_on (h : p.Sound) (a : Answers) (running : p.finished = false)
    (goes : p.ending? m = none) : (p.move a m).finished = false := by
  have pushed (i : SessionInput) : (p.push i).finished = false := by
    unfold Runner.push
    split <;> exact running
  have on {q : Runner} (alive : q.actor.state ≠ .leaved) (running : q.finished = false) :
      q.endIfLeaved.finished = false := by
    unfold Runner.endIfLeaved
    rwa [if_neg alive]
  cases m with
  | deliver event => exact pushed _
  | receive | closeLink | dropReceiver => exact running
  | act m =>
    have done : Acted a p m (p.move a (.act m)) := act_acted a p m
    generalize p.move a (.act m) = q at done
    cases done with
    | pushed => exact pushed _
    | handleDropped | idle | created => exact running
    | @tookInput i rest next =>
      have goes : p.actor.ending? i = none := by simpa [ending?, running, next] using goes
      exact on (h.actor.handleInput_alive a (h.alive running) goes) running
    | tookResult next => exact on (h.actor.complete_alive (h.bound next) a (h.alive running)) running
    | abandoned alone empty => simp [ending?, alone, empty, running] at goes

/-- The session is over, and the second state comes after the first. Nothing was asked of anybody
since, and nothing of what it knows has changed. Only its link and what was being created may have. -/
structure Over (p q : Runner) : Prop where
  finished : q.finished = true
  same : q.actor = { p.actor with link := q.actor.link, creations := q.actor.creations }
  closed : p.actor.link.closed = true → q.actor.link.closed = true
  creations : q.actor.creations ⊆ p.actor.creations

theorem Over.trans {r : Runner} (h : Over p q) (h' : Over q r) : Over p r where
  finished := h'.finished
  same := by rw [h'.same, h.same]
  closed := h'.closed ∘ h.closed
  creations := List.Subset.trans h'.creations h.creations

theorem Over.onLink (ended : p.finished = true) {f : Link ClientEvent → Link ClientEvent}
    (closed : p.actor.link.closed = true → (f p.actor.link).closed = true) : Over p (p.onLink f) :=
  ⟨ended, rfl, closed, List.Subset.refl _⟩

theorem Over.move (ended : p.finished = true) (a : Answers) (m : Move) : Over p (p.move a m) := by
  have still : Over p p := ⟨ended, rfl, id, List.Subset.refl _⟩
  have pushed (i : SessionInput) : Over p (p.push i) := by
    rwa [push_of_finished ended]
  cases m with
  | deliver event => exact pushed _
  | receive =>
    refine .onLink ended (f := fun l => l.receive.2) fun closed => ?_
    rwa [Link.receive_closed]
  | closeLink => exact .onLink ended fun _ => rfl
  | dropReceiver => exact .onLink ended id
  | act m =>
    have done : Acted a p m (p.move a (.act m)) := act_acted a p m
    generalize p.move a (.act m) = q at done
    cases done with
    | pushed => exact pushed _
    | handleDropped => exact ⟨ended, rfl, id, List.Subset.refl _⟩
    | idle => exact still
    | created => exact ⟨ended, rfl, id, List.eraseIdx_subset⟩
    | tookInput _ running | tookResult _ running | abandoned _ _ running =>
      exact absurd (ended.symm.trans running) Bool.false_ne_true.symm

theorem Over.run (ended : p.finished = true) (a : Answers) (moves : List Move) :
    Over p (p.run a moves) := by
  induction moves generalizing p with
  | nil => exact ⟨ended, rfl, id, List.Subset.refl _⟩
  | cons m rest ih =>
    have first := Over.move ended a m
    exact first.trans (ih first.finished)

/-! ## Runs -/

/-- Once there is no handle, nothing comes into the inbox, and what is there is taken. -/
theorem Sound.emptying (h : p.Sound) (a : Answers) (alone : p.handle = false) (m : Move) :
    (p.move a m).handle = false ∧
      (p.move a m).inbox.length ≤ p.inbox.length - if m.takesInput then 1 else 0 := by
  have shut := push_of_alone alone
  have last (q : Runner) (alone : q.handle = false) :
      q.endIfLeaved.handle = false ∧ q.endIfLeaved.inbox.length ≤ q.inbox.length :=
    ⟨q.endIfLeaved_handle.trans alone, q.endIfLeaved_waiting.1.length_le⟩
  cases m with
  | deliver event =>
    show (p.push _).handle = false ∧ (p.push _).inbox.length ≤ _
    rw [shut]
    exact ⟨alone, Nat.le_refl _⟩
  | receive | closeLink | dropReceiver => exact ⟨alone, Nat.le_refl _⟩
  | act m =>
    have done : Acted a p m (p.move a (.act m)) := act_acted a p m
    generalize p.move a (.act m) = q at done
    cases done with
    | pushed taken =>
      have others : Move.takesInput (.act m) = false := by
        cases m with
        | takeInput => exact absurd rfl taken
        | _ => rfl
      rw [shut, others]
      exact ⟨alone, Nat.le_refl _⟩
    | handleDropped => exact ⟨rfl, Nat.le_refl _⟩
    | idle nothing =>
      refine ⟨alone, ?_⟩
      cases m with
      | takeInput =>
        have empty : p.inbox = [] := (nothing rfl).elim (fun ended => (h.emptied ended).1) id
        simp [empty]
      | _ => exact Nat.le_refl _
    | created => exact ⟨alone, Nat.le_refl _⟩
    | @tookInput i rest next running =>
      obtain ⟨alone', fewer⟩ :=
        last { p with actor := p.actor.handleInput a i, inbox := rest } alone
      refine ⟨alone', Nat.le_trans fewer ?_⟩
      simp [next, Move.takesInput]
    | tookResult | abandoned => exact last _ alone

theorem Sound.emptied_by (h : p.Sound) (a : Answers) (alone : p.handle = false)
    (moves : List Move) (enough : p.inbox.length ≤ moves.countP Move.takesInput) :
    (p.run a moves).handle = false ∧ (p.run a moves).inbox = [] := by
  induction moves generalizing p with
  | nil => exact ⟨alone, List.eq_nil_of_length_eq_zero (Nat.le_zero.mp enough)⟩
  | cons m rest ih =>
    obtain ⟨alone', fewer⟩ := h.emptying a alone m
    refine ih (h.move m) alone' ?_
    rw [List.countP_cons] at enough
    omega

/-- A session that ran and has ended did so in one of the moves between. -/
theorem Sound.ended_within (h : p.Sound) (a : Answers) (running : p.finished = false)
    (moves : List Move) (ended : (p.run a moves).finished = true) :
    ∃ first m rest e, moves = first ++ m :: rest ∧ (p.run a first).ending? m = some e := by
  induction moves generalizing p with
  | nil => exact absurd (running.symm.trans ended) nofun
  | cons m rest ih =>
    cases ends : p.ending? m with
    | some e => exact ⟨[], m, rest, e, rfl, ends⟩
    | none =>
      have goes := h.move_goes_on a running ends
      obtain ⟨first, m', rest', e, rfl, ends⟩ := ih (h.move m) goes ended
      exact ⟨m :: first, m', rest', e, rfl, ends⟩

/-- What there is of a session that has ended, and what was asked on its behalf since a state. -/
structure CleanEnd (before : Actor) (e : Ending) (q : Runner) : Prop where
  finished : q.finished = true
  snapshot : q.snapshot.state = .leaved ∧ q.snapshot.counterpart = none ∧
    q.snapshot.localDescription = none ∧ q.snapshot.remoteDescription = none
  nothing_left : q.actor.tracks = [] ∧ q.actor.backlog = [] ∧ q.actor.engine = none
  closed : q.actor.link.closed = true
  record : q.actor.record = before.record ++ e.lastWords before.room ++
    before.engine.toList.map .closeEngine ++ [.releaseMedia, .closeLink]
  /-- The media are released after they were acquired for the last time. -/
  media : (q.actor.record.filter (·.isMedia)).getLast? = some .releaseMedia
  sent : q.actor.record.filterMap (·.sent?) =
    before.record.filterMap (·.sent?) ++ (e.lastWords before.room).filterMap (·.sent?)

/-- A session that ends does so cleanly, and whatever happens then, it stays as it is. -/
theorem Sound.clean (h : p.Sound) (a : Answers) (ends : p.ending? m = some e)
    (rest : List Move) : CleanEnd p.actor e ((p.move a m).run a rest) := by
  have moved := h.move_of_ending a ends
  have sound : (p.move a m).Sound := h.move m
  rw [moved] at sound ⊢
  have later := Over.run (p := { p with
    actor := p.actor.ended e, inbox := [], results := [], finished := true }) rfl a rest
  generalize Runner.run a _ rest = q at later
  have left : (p.actor.ended e).state = .leaved := by cases e <;> rfl
  have free : (p.actor.ended e).engine = none := by cases e <;> rfl
  obtain ⟨alone, -, unset, unset'⟩ := sound.actor.idle free
  obtain ⟨closed, given⟩ := sound.actor.ended left
  have record : q.actor.record = (p.actor.ended e).record := congrArg (·.record) later.same
  rw [Actor.ended_record] at record
  have silent : (p.actor.engine.toList.map Request.closeEngine).filterMap (·.sent?) = [] := by
    cases p.actor.engine <;> rfl
  constructor
  case finished => exact later.finished
  case snapshot =>
    have seen : q.snapshot = (p.actor.ended e).snapshot := congrArg (·.snapshot) later.same
    rw [seen]
    exact ⟨left, alone, unset, unset'⟩
  case nothing_left =>
    rw [later.same]
    refine ⟨given, ?_, free⟩
    show (p.actor.ended e).backlog = []
    cases e <;> rfl
  case closed => exact later.closed closed
  case record => exact record
  case media =>
    rw [record, List.filter_append]
    show (_ ++ [Request.releaseMedia]).getLast? = _
    exact List.getLast?_concat
  case sent =>
    rw [record, List.filterMap_append, List.filterMap_append, List.filterMap_append, silent]
    simp [Request.sent?]

/-- A session ends exactly when it has left for good, and that is in one of the moves that are named
as its end; without a handle it can end as soon as it has taken what waits in its inbox. Then
everything is given back, the last word is that it leaves, if it may speak, and nothing is asked of
anybody ever after. -/
theorem clean_end (a : Answers) (room : RoomId) (link : Link ClientEvent) (moves : List Move) :
    let p := start a room link
    let q := p.run a moves
    (q.finished = true ↔ q.actor.state = .leaved) ∧
      (q.finished = true ↔ ∃ first m rest e, moves = first ++ m :: rest ∧
        (p.run a first).ending? m = some e) ∧
      (q.handle = false → ∀ later, q.inbox.length ≤ later.countP Move.takesInput →
        ((q.run a later).move a (.act .shutdown)).finished = true) ∧
      ∀ first m rest e, moves = first ++ m :: rest → (p.run a first).ending? m = some e →
        CleanEnd (p.run a first).actor e q := by
  intro p q
  have sound : p.Sound := .start a room link
  have clean (first : List Move) (m : Move) (rest : List Move) (e : Ending)
      (split : moves = first ++ m :: rest) (ends : (p.run a first).ending? m = some e) :
      CleanEnd (p.run a first).actor e q := by
    have all : q = ((p.run a first).move a m).run a rest := by
      show p.run a moves = _
      rw [split, run_append]
      rfl
    rw [all]
    exact (sound.run a first).clean a ends rest
  refine ⟨(sound.run a moves).finished, ⟨sound.ended_within a rfl moves, ?_⟩, ?_, clean⟩
  · rintro ⟨first, m, rest, e, split, ends⟩
    exact (clean first m rest e split ends).finished
  · intro alone later enough
    have sound' : (q.run a later).Sound := (sound.run a moves).run a later
    obtain ⟨alone, empty⟩ : (q.run a later).handle = false ∧ (q.run a later).inbox = [] :=
      (sound.run a moves).emptied_by a alone later enough
    cases running : (q.run a later).finished with
    | true => exact (Over.move running a _).finished
    | false =>
      have ends : (q.run a later).ending? (.act .shutdown) = some .abandoned := by
        simp [ending?, alone, empty, running]
      rw [sound'.move_of_ending a ends]

end Runner

end Parley
