import Parley.Proofs.Session.Renewal

/-!
# Sessions that come back

A session that has left its room is at rest: it holds nothing, and whatever its old engines still do
passes it by (`Rested.move`). When it asks to join again, it is the session that is started for the
same room on the same link, with what it did so far as its past (`Rested.renewed`), and from there on
the two go on side by side. `Reachable.renewal` puts this together.
-/

namespace Parley

/-- The move that puts an input into the inbox. Reports of engines come from the engines. -/
def SessionInput.posting : SessionInput → Option (Runner.Move)
  | .server event => some (.deliver event)
  | .engine _ _ => none
  | .leave => some (.act .leave)
  | .exit => some (.act .exit)
  | .rejoin => some (.act .rejoin)
  | .linkLost => some (.act .linkLost)

namespace Runner

variable {a : Answers} {room : RoomId} {p q : Runner} {m : Move} {inputs : List SessionInput}

theorem Reachable.sameRoom (h : Reachable a room p) : p.actor.room = room := by
  induction h with
  | start link => exact start_room a room link
  | move m _ ih => exact (move_room a _ m).trans ih

/-- The reports that wait are those of engines that the session acquired. -/
def Reports (p : Runner) : Prop :=
  ∀ g event, .engine g event ∈ p.inbox → g ∈ p.actor.engines

namespace Reports

theorem push (h : p.Reports) {i : SessionInput}
    (new : ∀ g event, i = .engine g event → g ∈ p.actor.engines) : (p.push i).Reports := by
  intro g event mem
  rw [push_actor]
  unfold Runner.push at mem
  split at mem
  · exact h g event mem
  · rcases List.mem_append.mp mem with mem | mem
    · exact h g event mem
    · exact new g event (List.mem_singleton.mp mem).symm

theorem onward (h : p.Reports) (onward : p.actor.Onward q.actor) (inbox : q.inbox ⊆ p.inbox) :
    q.Reports :=
  fun g event mem => onward.engines.subset (h g event (inbox mem))

theorem acted {m : Act} (h : p.Reports) (a : Answers) : (p.act a m).Reports := by
  have endIfLeaved (q : Runner) : q.endIfLeaved.inbox ⊆ q.inbox := q.endIfLeaved_waiting.1.subset
  have still := List.Subset.refl p.inbox
  cases m with
  | leave | exit | rejoin | linkLost => exact h.push nofun
  | report e event =>
    show (p.report e event).Reports
    unfold report
    split
    case h_1 g known =>
      refine h.push fun g' event' same => ?_
      cases same
      exact List.mem_of_getElem? known
    case h_2 => exact h
  | dropHandle => exact h
  | finishCreation index result =>
    refine h.onward (act_acted a p _).onward ?_
    show (p.finishCreation index result).inbox ⊆ p.inbox
    unfold finishCreation
    split <;> exact still
  | takeInput =>
    refine h.onward (act_acted a p _).onward ?_
    show (p.takeInput a).inbox ⊆ p.inbox
    rcases takeInput_cases a p with ⟨same, -⟩ | ⟨i, rest, next, running⟩
    · exact same.symm ▸ still
    · rw [(takeInput_next (a := a) next running).1, next]
      exact List.Subset.trans (endIfLeaved _) (List.subset_cons_self i rest)
  | takeResult =>
    refine h.onward (act_acted a p _).onward ?_
    show (p.takeResult a).inbox ⊆ p.inbox
    rcases takeResult_cases a p with ⟨same, -⟩ | ⟨c, rest, next, running⟩
    · exact same.symm ▸ still
    · rw [(takeResult_next (a := a) next running).1]
      exact endIfLeaved _
  | shutdown =>
    refine h.onward (act_acted a p _).onward ?_
    show p.shutdown.inbox ⊆ p.inbox
    unfold shutdown
    split
    · exact still
    · exact List.Subset.trans (endIfLeaved _) still

end Reports

theorem Reachable.reports (h : Reachable a room p) : p.Reports := by
  induction h with
  | start link => exact fun _ _ mem => nomatch mem
  | @move p m _ ih =>
    cases m with
    | deliver e => exact ih.push nofun
    | receive | closeLink | dropReceiver => exact ih
    | act m => exact ih.acted a

/-! ## At rest -/

/-- The session is in no room and does not wait to get into one. -/
structure Rested (p : Runner) : Prop where
  outside : p.actor.state = .init
  silent : p.actor.joinRequested = false
  bare : p.actor.tracks = []

/-- The sessions differ in their links and unfinished creations only. -/
def Unmoved (s t : Actor) : Prop := ∃ link creations, t = { s with link, creations }

namespace Rested

/-- A session at rest holds nothing that could be busy. -/
theorem free (h : p.Rested) (sound : p.Sound) :
    p.actor.engine = none ∧ p.actor.pending = none ∧ p.actor.backlog = [] := by
  have engine := sound.actor.resting (.inl h.outside)
  refine ⟨engine, (sound.actor.idle engine).2.1, sound.actor.nothing_waits ?_⟩
  rw [h.outside]
  rfl

/-- What an engine reports is not heard. -/
theorem handleInput_engine (h : p.Rested) (sound : p.Sound) (a : Answers) (g : Nat)
    (event : EngineEvent) : p.actor.handleInput a (.engine g event) = p.actor := by
  obtain ⟨engine, pending, backlog⟩ := h.free sound
  have passed : p.actor.dispatch a (.engine g event) = p.actor := by
    show p.actor.onEngine g event = p.actor
    exact if_pos (.inr (by simp [engine]))
  unfold Actor.handleInput
  rw [if_neg (by simp [pending]), passed]
  exact Actor.drain_of_empty a backlog

/-- What has finished is of no use any more. -/
theorem complete (h : p.Rested) (sound : p.Sound) (a : Answers) (c : Completion) :
    p.actor.complete a c = p.actor := by
  obtain ⟨engine, pending, backlog⟩ := h.free sound
  by_cases current : c.generation = p.actor.generation
  · have same : { p.actor with pending := none } = p.actor := by rw [← pending]
    have applied : p.actor.applied a c = p.actor := by
      unfold Actor.applied
      rw [same]
      cases c.result with
      | none => rfl
      | some d => exact (by unfold Actor.applyLocal; rw [engine])
    rw [Actor.complete_of_current current, applied]
    exact Actor.drain_of_empty a backlog
  · exact Actor.complete_of_old current

/-- What comes from engines and happens to the link passes by a session at rest. -/
theorem unmoved (h : p.Rested) (sound : p.Sound) (a : Answers)
    (aside : ∀ x, p.heeds m = some x → x.aside = true) :
    Unmoved p.actor (p.move a m).actor := by
  have pushed (i : SessionInput) : Unmoved p.actor (p.push i).actor := by
    rw [push_actor]
    exact ⟨_, _, rfl⟩
  have endsNot {q : Runner} (same : q.actor = p.actor) : Unmoved p.actor q.endIfLeaved.actor := by
    rw [endIfLeaved_actor, same]
    exact ⟨_, _, rfl⟩
  cases m with
  | deliver e => exact pushed _
  | receive | closeLink | dropReceiver => exact ⟨_, _, rfl⟩
  | act m =>
    cases m with
    | leave | exit | rejoin | linkLost => exact pushed _
    | dropHandle => exact ⟨_, _, rfl⟩
    | report e event =>
      show Unmoved p.actor (p.report e event).actor
      unfold report
      split
      · exact pushed _
      · exact ⟨_, _, rfl⟩
    | finishCreation index result =>
      show Unmoved p.actor (p.finishCreation index result).actor
      unfold finishCreation
      split <;> exact ⟨_, _, rfl⟩
    | takeInput =>
      show Unmoved p.actor (p.takeInput a).actor
      rcases takeInput_cases a p with ⟨still, -⟩ | ⟨i, rest, next, running⟩
      · rw [still]
        exact ⟨_, _, rfl⟩
      · obtain ⟨taken, heard⟩ := takeInput_next (a := a) next running
        have fromEngine := aside _ heard
        rw [taken]
        cases i with
        | engine g event => exact endsNot (h.handleInput_engine sound a g event)
        | _ => cases fromEngine
    | takeResult =>
      show Unmoved p.actor (p.takeResult a).actor
      rcases takeResult_cases a p with ⟨still, -⟩ | ⟨c, rest, next, running⟩
      · rw [still]
        exact ⟨_, _, rfl⟩
      · rw [(takeResult_next (a := a) next running).1]
        exact endsNot (h.complete sound a c)
    | shutdown =>
      show Unmoved p.actor p.shutdown.actor
      by_cases goes : (p.handle || !p.inbox.isEmpty || p.finished) = true
      · have still : p.shutdown = p := if_pos goes
        rw [still]
        exact ⟨_, _, rfl⟩
      · have heard : p.heeds (.act .shutdown) = some .abandonment := if_neg goes
        cases aside _ heard

/-- So the session stays at rest, and goes on counting on the same replies. -/
theorem run (h : p.Rested) (reachable : Reachable a room p) (moves : List Move)
    (aside : ∀ x ∈ p.heeded a moves, x.aside = true) :
    (p.run a moves).Rested ∧ (p.run a moves).actor.staleReplies = p.actor.staleReplies := by
  induction moves generalizing p with
  | nil => exact ⟨h, rfl⟩
  | cons m rest ih =>
    have here : ∀ x, p.heeds m = some x → x.aside = true := fun x heard =>
      aside x (List.mem_append_left _ (by simp [heard]))
    obtain ⟨link, creations, same⟩ := h.unmoved reachable.sound a here
    have rested : (p.move a m).Rested := by
      constructor <;> rw [same]
      exacts [h.outside, h.silent, h.bare]
    obtain ⟨rested', count⟩ := ih rested (reachable.move m) fun x mem =>
      aside x (List.mem_append_right _ mem)
    refine ⟨rested', count.trans ?_⟩
    rw [same]

/-- All engines of a session at rest are gone, and so are their generations. -/
theorem outlived (h : p.Rested) (reachable : Reachable a room p) :
    p.actor.Outlived p.actor.past.bygone := by
  obtain ⟨engine, -⟩ := h.free reachable.sound
  have past := reachable.generations_past engine
  refine ⟨fun e mem => ⟨List.mem_range.mp mem, by simp [engine]⟩,
    fun g mem => List.mem_range.mp mem, fun e g known => ?_⟩
  obtain ⟨lt, rfl⟩ := List.getElem?_eq_some_iff.mp known
  exact iff_of_true (List.mem_range.mpr (past _ (List.getElem_mem lt))) (List.mem_range.mpr lt)

/-- Without what is left of its engines, the session is one that has done nothing yet, after all
that it did. -/
theorem without_eq (h : p.Rested) (reachable : Reachable a room p) :
    p.actor.without p.actor.past.bygone = (Actor.new room p.actor.link).after p.actor.past := by
  have sound := reachable.sound.actor
  obtain ⟨engine, pending, backlog⟩ := h.free reachable.sound
  obtain ⟨counterpart, -, localDescription, remoteDescription⟩ := sound.idle engine
  have here := reachable.sameRoom
  have gone : p.actor.creations.filter (!p.actor.past.bygone.began ·) = [] := by
    refine List.filter_eq_nil_iff.mpr fun c mem => ?_
    have lt := (List.getElem?_eq_some_iff.mp (reachable.stamped c mem)).1
    simpa [Bygone.began, Past.bygone, Actor.past] using lt
  have outside := h.outside
  have silent := h.silent
  have bare := h.bare
  have apart := sound.apart outside
  unfold Actor.without
  rw [gone, backlog]
  generalize p.actor = s at *
  obtain ⟨⟨⟩⟩ := s
  dsimp only at *
  subst here outside silent bare apart engine pending backlog counterpart localDescription remoteDescription
  simp [Actor.after, Actor.new, Session.new, Actor.past, Past.stamp]

end Rested

/-! ## A new beginning -/

/-- To put an input into the inbox is nothing that the session deals with yet. -/
theorem posting_move {i : SessionInput} (posting : i.posting = some m) (a : Answers) (p : Runner) :
    p.move a m = p.push i ∧ p.heeds m = none := by
  cases i with
  | engine => cases posting
  | _ => cases posting; exact ⟨rfl, rfl⟩

/-- Inputs that are put into the inbox one after another stand there in order. -/
theorem run_posting (inputs : List SessionInput) (own : ∀ i ∈ inputs, i.posting ≠ none)
    (running : p.finished = false) (handle : p.handle = true) :
    p.run a (inputs.filterMap SessionInput.posting) = { p with inbox := p.inbox ++ inputs } := by
  induction inputs generalizing p with
  | nil => simp [run]
  | cons i rest ih =>
    obtain ⟨m, posting⟩ := Option.ne_none_iff_exists'.mp (own i List.mem_cons_self)
    have pushed : p.move a m = { p with inbox := p.inbox ++ [i] } := by
      rw [(posting_move posting a p).1]
      simp [push, running, handle]
    rw [List.filterMap_cons_some posting]
    show (p.move a m).run a _ = _
    rw [pushed, ih (fun j mem => own j (List.mem_cons_of_mem i mem)) (by exact running)
      (by exact handle)]
    simp

/-- Moves in which the session deals with nothing and changes nothing that can be seen. -/
def Unseen (moves : List Move) : Prop :=
  ∀ m ∈ moves, ∀ a (p : Runner), p.heeds m = none ∧ (p.move a m).snapshot = p.snapshot

theorem Unseen.run {moves : List Move} (unseen : Unseen moves) (a : Answers) (p : Runner)
    (rest : List Move) :
    p.heeded a (moves ++ rest) = (p.run a moves).heeded a rest ∧
      (p.snapshots a (moves ++ rest)).destutter (· ≠ ·) =
        ((p.run a moves).snapshots a rest).destutter (· ≠ ·) := by
  induction moves generalizing p with
  | nil => exact ⟨rfl, rfl⟩
  | cons m more ih =>
    obtain ⟨deaf, same⟩ := unseen m List.mem_cons_self a p
    obtain ⟨heeded, shown⟩ := ih (fun m' mem => unseen m' (List.mem_cons_of_mem m mem)) (p.move a m)
    refine ⟨?_, (destutter_snapshots_same same.symm _).trans shown⟩
    show (p.heeds m).toList ++ _ = _
    rw [deaf]
    exact heeded

/-- A session that is started on a link gets to a state in which these inputs wait. -/
theorem start_waiting (a : Answers) (room : RoomId) (link : Link ClientEvent)
    {inputs : List SessionInput} (own : ∀ i ∈ inputs, i.posting ≠ none) (handle : Bool) :
    ∃ opening, Unseen opening ∧
      (start a room link).run a opening = { start a room link with inbox := inputs, handle } := by
  have posted := run_posting (a := a) (p := start a room link) inputs own rfl rfl
  have unseen : Unseen (inputs.filterMap SessionInput.posting) := by
    intro m mem a p
    obtain ⟨i, -, posting⟩ := List.mem_filterMap.mp mem
    obtain ⟨moved, deaf⟩ := posting_move posting a p
    refine ⟨deaf, ?_⟩
    rw [moved]
    exact congrArg (fun s : Actor => s.snapshot) (push_actor p i)
  cases handle with
  | true => exact ⟨_, unseen, posted⟩
  | false =>
    refine ⟨inputs.filterMap SessionInput.posting ++ [.act .dropHandle], ?_, ?_⟩
    · intro m mem a p
      rcases List.mem_append.mp mem with mem | mem
      · exact unseen m mem a p
      · rw [List.mem_singleton.mp mem]
        exact ⟨rfl, rfl⟩
    · unfold run at posted ⊢
      rw [List.foldl_append, posted]
      rfl

/-- No completion that waits is of use to a session at rest. -/
theorem Rested.results_past (h : p.Rested) (reachable : Reachable a room p) :
    p.results.filter (!p.actor.past.bygone.completed ·) = [] := by
  have stamped := reachable.sound.stamped
  obtain ⟨-, pending, -⟩ := h.free reachable.sound
  refine List.filter_eq_nil_iff.mpr fun c mem => ?_
  have there : c.generation ∈ p.actor.unreported p.results :=
    List.mem_append_right _ (List.mem_map_of_mem mem)
  have count := stamped.current
  rw [pending] at count
  have other : c.generation ≠ p.actor.generation := fun same =>
    List.count_eq_zero.mp count (same ▸ there)
  have le := stamped.past _ there
  have lt : c.generation < p.actor.generation := by omega
  simpa [Bygone.completed, Past.bygone, Actor.past] using lt

/-- Nor is any report. -/
theorem Rested.reports_past (h : p.Rested) (reachable : Reachable a room p) {i : SessionInput}
    (mem : i ∈ p.inbox) (other : p.actor.past.bygone.reported i = false) : i.posting ≠ none := by
  cases i with
  | engine g event =>
    obtain ⟨engine, -⟩ := h.free reachable.sound
    have lt := reachable.generations_past engine g (reachable.reports g event mem)
    simp [Bygone.reported, Past.bygone, Actor.past] at other
    omega
  | _ => exact Option.some_ne_none _

theorem new_rejoin (a : Answers) (room : RoomId) {link : Link ClientEvent}
    (connected : link.isOpen = true) :
    (Actor.new room link).handleInput a .rejoin = (Actor.new room link).enterRoom a := by
  have entered : (Actor.new room link).dispatch a .rejoin = (Actor.new room link).enterRoom a := by
    simp [Actor.dispatch, Actor.rejoin, Actor.new, Session.new, connected]
  have empty : ((Actor.new room link).enterRoom a).backlog = [] := by
    rcases Actor.enterRoom_cases a (.new room link) with same | same <;>
    · rw [same]
      rfl
  show ((Actor.new room link).dispatch a .rejoin).drain a = _
  rw [entered, Actor.drain_of_empty a empty]

/-- A session at rest that comes back is the one that is started now, with a past. -/
theorem Rested.renewed (h : p.Rested) (reachable : Reachable a room p)
    {waiting : List SessionInput} (next : p.inbox = .rejoin :: waiting)
    (connected : p.actor.link.isOpen = true) :
    ∃ opening, Unseen opening ∧
      Renewed p.actor.past room ((p.move a (.act .takeInput)).without p.actor.past.bygone)
        ((start (p.actor.past.answers a) room p.actor.link).run (p.actor.past.answers a) opening) := by
  have running : p.finished = false := by
    by_contra ended
    have left := reachable.sound.finished.mp (by simpa using ended)
    rw [h.outside] at left
    cases left
  have actor : (p.actor.handleInput a .rejoin).without p.actor.past.bygone =
      ((Actor.new room p.actor.link).enterRoom (p.actor.past.answers a)).after p.actor.past := by
    rw [← Actor.without_handleInput (h.outlived reachable) a rfl, h.without_eq reachable,
      ← new_rejoin _ room connected]
    exact Actor.after_handleInput a _ .rejoin (.inr ⟨rfl, rfl⟩)
  have outside : (p.actor.handleInput a .rejoin).state = .init := by
    have same := congrArg (fun s : Actor => s.state) actor
    refine Eq.trans same ?_
    rcases Actor.enterRoom_cases (p.actor.past.answers a) (.new room p.actor.link) with same | same <;>
    · rw [same]
      rfl
  have moved : p.move a (.act .takeInput) =
      { p with actor := p.actor.handleInput a .rejoin, inbox := waiting } := by
    refine (takeInput_next next running).1.trans (if_neg ?_)
    rw [outside]
    nofun
  -- What waits and is not left of engines can be put into the inbox of the new session.
  let inputs := passOver (·.repliesIn room) p.actor.past.staleReplies
    (waiting.filter (!p.actor.past.bygone.reported ·))
  have own : ∀ i ∈ inputs, i.posting ≠ none := by
    intro i mem
    obtain ⟨there, other⟩ := List.mem_filter.mp (passOver_subset _ _ _ mem)
    exact h.reports_past reachable (next ▸ List.mem_cons_of_mem _ there) (by simpa using other)
  have same : inputs.map p.actor.past.input = inputs := by
    refine (List.map_congr_left (g := id) fun i mem => ?_).trans (List.map_id inputs)
    cases i with
    | engine => exact absurd rfl (own _ mem)
    | _ => rfl
  obtain ⟨opening, unseen, begun⟩ :=
    start_waiting (p.actor.past.answers a) room p.actor.link own p.handle
  refine ⟨opening, unseen, ?_⟩
  rw [begun, moved]
  refine ⟨?_, same.symm, ?_⟩
  · simp only [Runner.without, after, actor, h.results_past reachable, running]
    rfl
  · exact start_room _ _ _

/-- Whatever the session was doing, it is at rest when it has left. -/
theorem Reachable.rested (h : Reachable a room p) {rest : List SessionInput}
    (next : p.inbox = .leave :: rest) : (p.move a (.act .takeInput)).Rested := by
  have running := h.sound.running_of_inbox next
  have left : p.actor.handleInput a .leave = p.actor.departed false := by
    have departed : p.actor.dispatch a .leave = p.actor.departed false :=
      Actor.leave_eq (h.sound.alive running) false
    unfold Actor.handleInput
    rw [if_neg (by simp [SessionInput.preempts]), departed]
    exact Actor.drain_of_empty a rfl
  have actor : (p.move a (.act .takeInput)).actor = p.actor.departed false := by
    refine (congrArg Runner.actor (takeInput_next next running).1).trans ?_
    rw [endIfLeaved_actor]
    exact left
  constructor <;> rw [actor] <;> rfl

/-- A session that leaves its room and comes back behaves like one that is started for the same room
on the same link when it comes back. Between the two, only its engines and its link may be up to
something. Whatever happens then, the new session can deal with just the same things in the same
order, less what is left of the engines from before, and less the first replies to joins, as many of
them as the session counts on when it has left. And then both are seen to go through the same
states, leave the same on the link, and make the same requests, but for the numbers of engines,
generations and tracks, which go on from those of the past. -/
theorem Reachable.renewal (h : Reachable a room p) {rest waiting : List SessionInput}
    (next : p.inbox = .leave :: rest) (between : List Move)
    (aside : ∀ x ∈ (p.move a (.act .takeInput)).heeded a between, x.aside = true)
    (back : ((p.move a (.act .takeInput)).run a between).inbox = .rejoin :: waiting)
    (connected : ((p.move a (.act .takeInput)).run a between).actor.link.isOpen = true)
    (moves : List Move) :
    let left := p.move a (.act .takeInput)
    let returning := left.run a between
    let old := returning.move a (.act .takeInput)
    let past := returning.actor.past
    let new := Runner.start (past.answers a) room returning.actor.link
    ∃ moves',
      (new.heeded (past.answers a) moves').map (Stimulus.after past) =
        passOver (·.repliesIn room) left.actor.staleReplies
          ((old.heeded a moves).filter (!·.leftOf past.bygone)) ∧
      (old.snapshots a moves).destutter (· ≠ ·) =
        (new.snapshots (past.answers a) moves').destutter (· ≠ ·) ∧
      (old.run a moves).actor.link = (new.run (past.answers a) moves').actor.link ∧
      (old.run a moves).actor.record =
        past.record ++ (new.run (past.answers a) moves').actor.record.map past.request ∧
      (old.run a moves).finished = (new.run (past.answers a) moves').finished := by
  intro left returning old past new
  have leftReachable : Reachable a room left := h.move _
  have reachable : Reachable a room returning := leftReachable.run between
  obtain ⟨rested, count⟩ := (h.rested next).run leftReachable between aside
  obtain ⟨opening, unseen, renewed⟩ := rested.renewed reachable back connected
  have gone : old.actor.Outlived past.bygone := move_outlived (rested.outlived reachable) _
  obtain ⟨moves', k, after, dealt, shown⟩ := renewed.run (reachable.move _) gone moves
  obtain ⟨heeded, seen⟩ := unseen.run (past.answers a) new moves'
  have run : new.run (past.answers a) (opening ++ moves') =
      (new.run (past.answers a) opening).run (past.answers a) moves' := by
    unfold Runner.run
    rw [List.foldl_append]
  have link := congrArg (fun p : Runner => p.actor.link) after.same
  have record := congrArg (fun p : Runner => p.actor.record) after.same
  have finished := congrArg Runner.finished after.same
  refine ⟨opening ++ moves', ?_, shown.trans seen.symm, ?_, ?_, ?_⟩
  · rw [heeded, dealt]
    exact congrArg (passOver _ · _) count
  · rw [run]
    exact link
  · rw [run]
    exact record
  · rw [run]
    exact finished

/-! ### The second return -/

/-- A session is making an offer, another newcomer waits, and it leaves; it comes back, but is about
to leave again before it is let in, and to come back once more. -/
def undecided : Runner :=
  let hear (e : ServerEvent) : List Move := [.deliver e, .act .takeInput]
  let r : RoomId := ⟨"r"⟩
  (start .obliging r .fresh).run .obliging
    (hear (.joined r ⟨"me"⟩) ++ hear (.otherJoin r ⟨"a"⟩) ++ hear (.otherJoin r ⟨"b"⟩) ++
      [.act .leave, .act .takeInput, .act .rejoin, .act .takeInput, .act .leave, .act .rejoin])

/-- The creation of the first visit finishes. -/
def meanwhile : List Move :=
  [.act (.finishCreation 0 (some ⟨.offer, "v=0"⟩)), .act .takeResult]

/-- The session has left, and what it was creating has finished. -/
def outside : Runner := (undecided.move .obliging (.act .takeInput)).run .obliging meanwhile

/-- It has come back. -/
def backAgain : Runner := outside.move .obliging (.act .takeInput)

/-- Both replies come, the first engine reports, and another newcomer is made an offer. -/
def thirdVisit : List Move :=
  let hear (e : ServerEvent) : List Move := [.deliver e, .act .takeInput]
  let r : RoomId := ⟨"r"⟩
  hear (.joined r ⟨"me"⟩) ++ hear (.joined r ⟨"me"⟩) ++ straggle 0 ++ hear (.otherJoin r ⟨"c"⟩) ++
    [.act (.finishCreation 0 (some ⟨.offer, "v=1"⟩)), .act .takeResult]

theorem renewal_thirdVisit :
    let r : RoomId := ⟨"r"⟩
    let past := outside.actor.past
    let a := past.answers .obliging
    let new := start a r outside.actor.link
    undecided.inbox = [.leave, .rejoin] ∧ past.staleReplies = 1 ∧ past.engines = [1] ∧
      ∃ moves',
        (new.heeded a moves').map (Stimulus.after past) =
          [.input (.server (.joined r ⟨"me"⟩)), .input (.server (.otherJoin r ⟨"c"⟩)),
            .completion ⟨4, .offer, some ⟨.offer, "v=1"⟩⟩] ∧
        (backAgain.run .obliging thirdVisit).actor.link = (new.run a moves').actor.link ∧
        (backAgain.run .obliging thirdVisit).actor.record =
          past.record ++ (new.run a moves').actor.record.map past.request := by
  have reachable : Reachable .obliging ⟨"r"⟩ undecided := (Reachable.start .fresh).run _
  have quiet : (undecided.move .obliging (.act .takeInput)).heeded .obliging meanwhile =
      [.completion ⟨1, .offer, some ⟨.offer, "v=0"⟩⟩] := rfl
  have heard : backAgain.heeded .obliging thirdVisit =
      [.input (.server (.joined ⟨"r"⟩ ⟨"me"⟩)), .input (.server (.joined ⟨"r"⟩ ⟨"me"⟩)),
        .input (.engine 1 (.localCandidate ⟨"candidate", none, none⟩)),
        .input (.server (.otherJoin ⟨"r"⟩ ⟨"c"⟩)),
        .completion ⟨4, .offer, some ⟨.offer, "v=1"⟩⟩] := rfl
  have gone : outside.actor.past.bygone = ⟨[0], [0, 1, 2]⟩ := rfl
  have count : (undecided.move .obliging (.act .takeInput)).actor.staleReplies = 1 := rfl
  have asked : undecided.inbox = .leave :: [.rejoin] := rfl
  have back : outside.inbox = .rejoin :: [] := rfl
  have aside : ∀ x ∈ (undecided.move .obliging (.act .takeInput)).heeded .obliging meanwhile,
      x.aside = true := by
    rw [quiet]
    exact fun x mem => List.mem_singleton.mp mem ▸ rfl
  refine ⟨asked, rfl, rfl, ?_⟩
  obtain ⟨moves', dealt, -, link, record, -⟩ :=
    Reachable.renewal reachable asked meanwhile aside back rfl thirdVisit
  refine ⟨moves', Eq.trans dealt ?_, link, record⟩
  -- The reply to the join of the second visit is passed over, and so is all of the first engine.
  show passOver _ _ ((backAgain.heeded .obliging thirdVisit).filter
    (!·.leftOf outside.actor.past.bygone)) = _
  rw [heard, gone, count]
  rfl

end Runner

end Parley
