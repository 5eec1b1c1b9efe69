import Parley.Proofs.Session.Counterpart

/-!
# What a failure leaves of a session

The collaborators of a session may refuse what it asks of them (`Deed.Refused`), and a creation may
come to nothing (`Deed.Fruitless`). `Deed.Withstands` says what is left of a failure in a
negotiation: that the session has asked, and that its step is over, so that what waits has its turn.
In particular the next newcomer is made an offer as if there had been none (`Withstands.next`).

What is requested in a deed, and with which answer, is told by `Handled` and `Concluded`; a request
that is refused is the first one that a session makes in its deed (`Refuses.first`).
-/

namespace Parley

variable {a : Answers}

/-- One of the requests that come behind a record is refused. -/
def Refuses (a : Answers) (record requests : List Request) (r : Request) : Prop :=
  ∃ before after, requests = before ++ r :: after ∧ a.grants (record ++ before) r = false

namespace Deed

/-- A request of the deed is refused. -/
def Refused (a : Answers) (d : Deed) (r : Request) : Prop :=
  Refuses a d.before.record (d.requests a) r

/-- The pending step comes to nothing: the creation failed, or the engine refuses what was
created. -/
def Fruitless (a : Answers) (d : Deed) : Prop :=
  ∃ s c, d = .finish s c ∧ (c.result = none ∨ ∃ e desc, d.Refused a (.setLocal e desc))

/-- What a session does about a failure, and what it does next. -/
structure Withstands (a : Answers) (d : Deed) (future : List Deed) : Prop where
  /-- The engine refuses what a message says. All is as before, but that it was asked. -/
  message : ∀ r, r.given? ≠ none → d.Refused a r →
    d.requests a = [r] ∧ d.after a = { d.before with record := d.before.record ++ [r] }
  /-- There is no engine for a newcomer. All is as before, but that the generation moves on. -/
  newcomer : ∀ x g, d.Welcomes x → d.Refused a (.acquireEngine g) →
    d.requests a = [.acquireEngine g] ∧
      d.after a = { d.before with
        generation := d.before.generation + 1
        record := d.before.record ++ [.acquireEngine g] }
  /-- A creation comes to nothing. Nothing is sent, and all is as before, but that nothing is
  pending any more. -/
  creation : d.Fruitless a → (∀ event, .send event ∉ d.requests a) ∧
    d.after a = { d.before with pending := none, record := d.before.record ++ d.requests a }
  /-- Then the backlog has its turns, and the first of them finds the session like that. -/
  backlog : d.Fruitless a → ∃ later,
    future = (Actor.drainTurns a d.before.backlog.length (d.after a)).map .turn ++ later
  first : d.Fruitless a → ∀ i rest, d.before.backlog = i :: rest →
    ∃ later, future = .turn ⟨{ d.after a with backlog := rest }, i⟩ :: later
  /-- While no description is set, a newcomer is made an offer on the engine that there is. -/
  next : ∀ x e, d.Welcomes x → d.before.engine = some e → d.before.localDescription = none →
    d.before.remoteDescription = none →
      d.after a = d.before.offering e x ∧ d.requests a = [.create e .offer]

end Deed

/-! ## Single deeds -/

/-- Of several requests, the one that is refused can only be the first. -/
theorem Refuses.first {record rest : List Request} {r r' : Request}
    (h : Refuses a record (r :: rest) r') (other : r' ∉ rest) :
    r' = r ∧ a.grants record r' = false := by
  obtain ⟨before, after, split, refused⟩ := h
  rcases before with _ | ⟨first, before⟩
  · obtain ⟨rfl, -⟩ := List.cons.inj split
    exact ⟨rfl, by rwa [List.append_nil] at refused⟩
  · obtain ⟨-, rfl⟩ := List.cons.inj split
    exact absurd (by simp) other

theorem not_refuses_nil {record : List Request} {r : Request} : ¬ Refuses a record [] r := by
  rintro ⟨before, after, split, -⟩
  simp at split

namespace Actor

variable {s t : Actor} {i : SessionInput} {r : Request} {x : PeerId} {e : EngineId}

/-- If the engine refuses what a message says, the session has asked and that is all. -/
theorem Handled.message_refused (turn : Handled a s i t) {data : Json}
    (message : i = .server (.message s.room x data)) (given : r.given? ≠ none)
    (refused : Refuses a s.record (t.record.drop s.record.length) r) : t = s.note r := by
  cases turn with
  | ignored =>
    rw [List.drop_length] at refused
    exact absurd refused not_refuses_nil
  | @tookOffer _ _ _ e _ _ _ answer =>
    rw [answering, List.drop_left] at refused
    -- What is asked besides is nothing that the message says.
    have other : r ∉ [.create e .answer] := by
      intro mem
      rw [List.mem_singleton.mp mem] at given
      exact given rfl
    obtain ⟨rfl, refused⟩ := refused.first other
    rw [answer] at refused
    cases refused
  | tookAnswer _ _ _ answer =>
    rw [answered, List.drop_left] at refused
    obtain ⟨rfl, refused⟩ := refused.first List.not_mem_nil
    rw [answer] at refused
    cases refused
  | refused | remoteCandidate =>
    rw [note, List.drop_left] at refused
    obtain ⟨rfl, -⟩ := refused.first List.not_mem_nil
    rfl
  | staleReply reply => rcases reply with rfl | rfl <;> cases message
  | @left exit => cases exit <;> cases message
  | _ => cases message

/-- If there is no engine for a newcomer, the session has asked for one and that is all. -/
theorem Handled.newcomer_refused (turn : Handled a s i t) {g : Nat}
    (joins : i = .server (.otherJoin s.room x))
    (refused : Refuses a s.record (t.record.drop s.record.length) (.acquireEngine g)) :
    t = s.denied ∧ g = s.generation + 1 := by
  cases turn with
  | ignored =>
    rw [List.drop_length] at refused
    exact absurd refused not_refuses_nil
  | offered _ _ engine answer =>
    cases engine with
    | held =>
      rw [offering, List.drop_left] at refused
      obtain ⟨other, -⟩ := refused.first List.not_mem_nil
      cases other
    | acquired free =>
      -- The engine was granted, and nothing else that is asked is an engine.
      have granted : a.grants s.record (.acquireEngine (s.generation + 1)) = true := answer free
      rw [offering, equipped, List.append_assoc, List.drop_left] at refused
      obtain ⟨same, refused⟩ := refused.first (by simp)
      rw [same, granted] at refused
      cases refused
  | unequipped =>
    rw [denied, List.drop_left] at refused
    obtain ⟨same, -⟩ := refused.first List.not_mem_nil
    cases same
    exact ⟨rfl, rfl⟩
  | staleReply reply => rcases reply with rfl | rfl <;> cases joins
  | @left exit => cases exit <;> cases joins
  | _ => cases joins

/-- With an engine, a newcomer is made an offer unless something is being negotiated with somebody
else. -/
theorem onOtherJoin_of_engine (a : Answers) (member : s.state.inRoom = true)
    (engine : s.engine = some e) (x : PeerId) :
    s.onOtherJoin a x =
      if s.boundElsewhere x && s.hasNegotiated then s else s.offering e x := by
  unfold onOtherJoin
  rw [if_neg (by simp [member]), offerTo_eq engine]
  simp only [engine, Option.isSome_some, if_true]
  rfl

/-- If a creation comes to nothing, the session is free again and that is all. -/
theorem Concluded.fruitless {c : Completion} (done : Concluded a s c t)
    (failed : c.result = none ∨
      ∃ e d, Refuses a s.record (t.record.drop s.record.length) (.setLocal e d)) :
    (∀ event, .send event ∉ t.record.drop s.record.length) ∧
      t = { s with pending := none, record := s.record ++ t.record.drop s.record.length } := by
  cases done with
  | nothing => simp
  | refused => simp [note]
  | @sent e d _ result answer =>
    rcases failed with none | ⟨e', d', refused⟩
    · rw [result] at none
      cases none
    · rw [published, List.drop_left] at refused
      obtain ⟨same, refused⟩ := refused.first (by simp)
      rw [same, answer] at refused
      cases refused

end Actor

namespace Deed

variable {d : Deed} {x : PeerId} {e : EngineId} {r : Request}

theorem requests_of_record {rs : List Request} (h : (d.after a).record = d.before.record ++ rs) :
    d.requests a = rs := by
  rw [requests, h, List.drop_left]

theorem message_refused (given : r.given? ≠ none) (refused : d.Refused a r) :
    d.requests a = [r] ∧ d.after a = { d.before with record := d.before.record ++ [r] } := by
  have mem : r ∈ d.requests a := by
    obtain ⟨before, after, split, -⟩ := refused
    simp [split]
  obtain ⟨e, some⟩ := Option.ne_none_iff_exists'.mp given
  obtain ⟨-, x, carries, -⟩ := gives mem some
  have after : d.after a = d.before.note r := by
    cases carries with
    | @description s _ data _ _ =>
      have turn := Actor.dispatch_handled a s (.server (.message s.room x data))
      exact turn.message_refused rfl given refused
    | @candidate s _ data _ _ =>
      have turn := Actor.dispatch_handled a s (.server (.message s.room x data))
      exact turn.message_refused rfl given refused
  refine ⟨requests_of_record ?_, after⟩
  rw [after]
  rfl

namespace Welcomes

theorem after_eq (h : d.Welcomes x) (a : Answers) :
    d.after a = d.before.dispatch a (.server (.otherJoin d.before.room x)) :=
  congrArg (·.after a) h

/-- Nothing is pending then. -/
theorem free (h : d.Welcomes x) (timely : d.Timely) : d.before.pending = none := by
  rw [h] at timely
  cases timely with
  | turn _ free => exact free.resolve_right Bool.false_ne_true

theorem refused (h : d.Welcomes x) {g : Nat} (refused : d.Refused a (.acquireEngine g)) :
    d.requests a = [.acquireEngine g] ∧
      d.after a = { d.before with
        generation := d.before.generation + 1
        record := d.before.record ++ [.acquireEngine g] } := by
  have turn := Actor.dispatch_handled a d.before (.server (.otherJoin d.before.room x))
  rw [← h.after_eq a] at turn
  obtain ⟨after, rfl⟩ := turn.newcomer_refused rfl refused
  refine ⟨requests_of_record ?_, after⟩
  rw [after]
  rfl

/-- What comes of the announcement, if the session has an engine. -/
theorem after_of_engine (h : d.Welcomes x) (timely : d.Timely) (engine : d.before.engine = some e)
    (a : Answers) :
    d.after a = if d.before.boundElsewhere x && d.before.hasNegotiated then d.before
      else d.before.offering e x := by
  have member := timely.before.inRoom (by simp [engine])
  rw [h.after_eq a, ← Actor.onOtherJoin_of_engine a member engine x]
  simp [Actor.dispatch, Actor.onServer, ServerEvent.room]

theorem offered (h : d.Welcomes x) (timely : d.Timely) (engine : d.before.engine = some e)
    (unset : d.before.localDescription = none) (unset' : d.before.remoteDescription = none) :
    d.after a = d.before.offering e x ∧ d.requests a = [.create e .offer] := by
  have free : d.before.hasNegotiated = false := by
    simp [Session.hasNegotiated, h.free timely, unset, unset']
  have after := h.after_of_engine timely engine a
  rw [free, Bool.and_false, if_neg Bool.false_ne_true] at after
  refine ⟨after, requests_of_record ?_⟩
  rw [after]
  rfl

end Welcomes

theorem Fruitless.free (h : d.Fruitless a) : (∀ event, .send event ∉ d.requests a) ∧
    d.after a = { d.before with pending := none, record := d.before.record ++ d.requests a } := by
  obtain ⟨s, c, rfl, failed⟩ := h
  exact (Actor.applied_concluded a s c).fruitless failed

end Deed

/-! ## Running sessions -/

namespace Runner

variable {p : Runner} {moves : List Move} {past future earlier later : List Deed} {s : Actor}
  {c : Completion}

/-- Behind a completion, the backlog has its turns. -/
theorem deeds_behind_finish {m : Move} (split : p.deeds a m = earlier ++ .finish s c :: later) :
    later = (Actor.drainTurns a s.backlog.length (s.applied a c)).map .turn := by
  obtain ⟨rfl, rfl, running, current, rest, next⟩ :=
    finish_mem (m := m) (a := a) (p := p) (s := s) (c := c) (by simp [split])
  rw [deeds_completion next running current] at split
  cases earlier with
  | nil => exact (List.cons.inj split).2.symm
  | cons first earlier =>
    -- A move has one completion only.
    have mem : .finish p.actor c ∈
        (Actor.drainTurns a p.actor.backlog.length (p.actor.applied a c)).map Deed.turn := by
      rw [(List.cons.inj split).2]
      simp
    simp at mem

theorem course_behind_finish (split : p.course a moves = past ++ .finish s c :: future) :
    ∃ later, future =
      (Actor.drainTurns a s.backlog.length (s.applied a c)).map .turn ++ later := by
  obtain ⟨before, m, after, earlier, later, rfl, rfl, deeds⟩ := course_split split
  refine ⟨((p.run a before).move a m).course a after, ?_⟩
  rw [course_append, course, deeds, List.append_assoc, List.append_assoc, List.cons_append] at split
  have same := List.append_cancel_left (List.append_cancel_left split)
  obtain ⟨-, rfl⟩ := List.cons.inj same
  rw [← deeds_behind_finish deeds]

/-- **What a failure leaves of a session.** In every run, whatever is refused in a negotiation and
whichever creation comes to nothing, the session is as it was before. It has sent nothing, and what
waited for a creation has its turns. A newcomer that comes next is made an offer on the same engine,
unless a description is set. -/
theorem failures_withstood (a : Answers) (room : RoomId) (link : Link ClientEvent)
    (moves : List Move) :
    let p := start a room link
    Actor.Linked a p.actor (p.course a moves) (p.run a moves).actor ∧
      ∀ past d future, p.course a moves = past ++ d :: future → d.Withstands a future := by
  intro p
  have sound : p.Sound := Sound.start a room link
  refine ⟨course_linked a p moves, fun past d future split => ?_⟩
  have timely := sound.course_timely a moves d (by simp [split])
  have behind (fruitless : d.Fruitless a) : ∃ later, future =
      (Actor.drainTurns a d.before.backlog.length (d.after a)).map .turn ++ later := by
    obtain ⟨s, c, rfl, -⟩ := fruitless
    exact course_behind_finish split
  exact
    { message := fun r given refused => Deed.message_refused given refused
      newcomer := fun x g welcomes refused => welcomes.refused refused
      creation := fun fruitless => fruitless.free
      backlog := behind
      first := fun fruitless i rest waits => by
        obtain ⟨later, split⟩ := behind fruitless
        obtain ⟨-, after⟩ := fruitless.free
        have free : (d.after a).pending = none := by rw [after]
        have waits' : (d.after a).backlog = i :: rest := by rw [after]; exact waits
        rw [split, waits, List.length_cons, Actor.drainTurns]
        simp [free, waits']
      next := fun x e welcomes engine unset unset' => welcomes.offered timely engine unset unset' }

/-- Collaborators that have no engine at first, and whose engines accept no description. -/
def reluctant : Answers where
  grants _
    | .acquireEngine g => 2 < g
    | .setLocal _ _ | .setRemote _ _ => false
    | _ => true
  trackCount _ := 1

/-- Two peers come while there is an engine for the second one only, and a third one waits behind the
offer to the second. That offer cannot be created, the one to the third is refused, and so is what
the third peer says. -/
def hardships : List Move :=
  let r : RoomId := ⟨"r"⟩
  [.deliver (.joined r ⟨"me"⟩), .act .takeInput, .deliver (.otherJoin r ⟨"a"⟩), .act .takeInput,
    .deliver (.otherJoin r ⟨"b"⟩), .act .takeInput, .deliver (.otherJoin r ⟨"c"⟩), .act .takeInput,
    .act (.finishCreation 0 none), .act .takeResult,
    .act (.finishCreation 0 (some ⟨.offer, "v=0"⟩)), .act .takeResult,
    .deliver (.message r ⟨"c"⟩ (Message.answer "v=1").toPayload), .act .takeInput]

theorem course_hardships :
    ∃ joined first second failed third refused message : Deed,
      (start reluctant ⟨"r"⟩ .fresh).course reluctant hardships =
          [joined, first, second, failed, third, refused, message] ∧
        first.Welcomes ⟨"a"⟩ ∧ first.Refused reluctant (.acquireEngine 2) ∧
        failed.Fruitless reluctant ∧
        failed.before.backlog = [.server (.otherJoin ⟨"r"⟩ ⟨"c"⟩)] ∧
        third.Welcomes ⟨"c"⟩ ∧ third.before.engine = some 0 ∧
        third.before.localDescription = none ∧ third.before.remoteDescription = none ∧
        refused.Fruitless reluctant ∧
        message.Refused reluctant (.setRemote 0 ⟨.answer, "v=1"⟩) :=
  ⟨_, _, _, _, _, _, _, rfl, rfl, ⟨[], [], rfl, rfl⟩, ⟨_, _, rfl, .inl rfl⟩, rfl, rfl, rfl, rfl, rfl,
    ⟨_, _, rfl, .inr ⟨0, ⟨.offer, "v=0"⟩, [], [], rfl, rfl⟩⟩, [], [], rfl, rfl⟩

/-- Each of the failures leaves the session as it was, and the third peer is made an offer at once. -/
theorem hardships_withstood :
    let p := start reluctant ⟨"r"⟩ .fresh
    ∃ joined first second failed third refused message : Deed,
      p.course reluctant hardships = [joined, first, second, failed, third, refused, message] ∧
        (first.Welcomes ⟨"a"⟩ ∧ first.Refused reluctant (.acquireEngine 2) ∧
          first.after reluctant =
            { first.before with
              generation := first.before.generation + 1
              record := first.before.record ++ [.acquireEngine 2] }) ∧
        (failed.Fruitless reluctant ∧ (∀ event, .send event ∉ failed.requests reluctant) ∧
          failed.after reluctant =
            { failed.before with
              pending := none
              record := failed.before.record ++ failed.requests reluctant }) ∧
        (third.Welcomes ⟨"c"⟩ ∧ third.before = { failed.after reluctant with backlog := [] } ∧
          third.after reluctant = third.before.offering 0 ⟨"c"⟩) ∧
        (refused.Fruitless reluctant ∧ (∀ event, .send event ∉ refused.requests reluctant) ∧
          refused.after reluctant =
            { refused.before with
              pending := none
              record := refused.before.record ++ refused.requests reluctant }) ∧
        message.Refused reluctant (.setRemote 0 ⟨.answer, "v=1"⟩) ∧
          message.after reluctant =
            { message.before with
              record := message.before.record ++ [.setRemote 0 ⟨.answer, "v=1"⟩] } := by
  intro p
  obtain ⟨joined, first, second, failed, third, refused, message, course, welcomes, noEngine,
    fruitless, waits, welcomes', engine, unset, unset', fruitless', noAnswer⟩ := course_hardships
  obtain ⟨-, withstands⟩ := failures_withstood reluctant ⟨"r"⟩ .fresh hardships
  have within (past : List Deed) (d : Deed) (future : List Deed)
      (split : [joined, first, second, failed, third, refused, message] = past ++ d :: future) :
      d.Withstands reluctant future :=
    withstands past d future (course.trans split)
  have unequipped := within [joined] first _ rfl
  have uncreated := within [joined, first, second] failed _ rfl
  have free := within [joined, first, second, failed] third _ rfl
  have unaccepted := within [joined, first, second, failed, third] refused _ rfl
  have unheard := within [joined, first, second, failed, third, refused] message _ rfl
  have given : (Request.setRemote 0 ⟨.answer, "v=1"⟩).given? ≠ none := Option.some_ne_none 0
  -- What waited behind the first offer has its turn as soon as that has failed.
  obtain ⟨later, turn⟩ := uncreated.first fruitless _ _ waits
  refine ⟨joined, first, second, failed, third, refused, message, course,
    ⟨welcomes, noEngine, (unequipped.newcomer _ _ welcomes noEngine).2⟩,
    ⟨fruitless, uncreated.creation fruitless⟩, ⟨welcomes', ?_, ?_⟩,
    ⟨fruitless', unaccepted.creation fruitless'⟩, noAnswer, (unheard.message _ given noAnswer).2⟩
  · rw [(List.cons.inj turn).1]
    rfl
  · exact (free.next _ _ welcomes' engine unset unset').1

end Runner

end Parley
