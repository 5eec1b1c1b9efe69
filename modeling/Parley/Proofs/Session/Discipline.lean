import Parley.Proofs.Session.Creations
import Parley.Proofs.Session.Engines
import Parley.Proofs.Session.Holdings

/-!
# When a session sends, and what

A session hands a message to its link while it is in the room and holds an engine, after it was let
in and before it has said that it leaves. An offer or answer is what the engine has created and has
just accepted (`Announces`), and the local description is the one that was sent last on the current
engine (`LocalLatest`).

That a message was handed to the link is all that is meant here: the link may be closed, and then
the message is lost.
-/

namespace Parley

variable {a : Answers}

/-! ## Descriptions on record -/

/-- The description that a request sends, if it sends one. -/
def Request.description? : Request → Option Description
  | .send (.message _ data) =>
    match Message.parse data with
    | .ok (.offer sdp) => some ⟨.offer, sdp⟩
    | .ok (.answer sdp) => some ⟨.answer, sdp⟩
    | _ => none
  | _ => none

/-- The description that was sent last. -/
def lastSent (record : List Request) : Option Description :=
  (record.filterMap Request.description?).getLast?

theorem lastSent_append (record record' : List Request) :
    lastSent (record ++ record') = (lastSent record').or (lastSent record) := by
  rw [lastSent, List.filterMap_append, List.getLast?_append]
  rfl

/-- No description is sent if nothing is sent. -/
theorem lastSent_unsent {record : List Request} (unsent : ∀ e, .send e ∉ record) :
    lastSent record = none := by
  have nothing : record.filterMap Request.description? = [] := by
    refine List.filterMap_eq_nil_iff.mpr fun r mem => ?_
    cases r with
    | send e => exact absurd mem (unsent e)
    | _ => rfl
  rw [lastSent, nothing]
  rfl

theorem description?_candidate (room : RoomId) (c : Candidate) :
    (Request.send (.message room (Message.candidate c).toPayload)).description? = none := by
  unfold Request.description?
  dsimp only
  split
  case h_1 parsed | h_2 parsed =>
    obtain ⟨_, other⟩ := Message.parse_candidate parsed
    cases other
  case h_3 => rfl

theorem description?_ofDescription (room : RoomId) (d : Description) :
    (Request.send (.message room (Message.ofDescription d).toPayload)).description? = some d := by
  obtain ⟨kind, sdp⟩ := d
  unfold Request.description?
  dsimp only
  rw [Message.parse_ofDescription]
  cases kind <;> rfl

namespace Actor

variable {s t : Actor} {i : SessionInput}

/-- The local description is the offer or answer that was sent last since the current engine was
acquired. -/
structure LocalLatest (a : Answers) (s : Actor) : Prop where
  resting : s.engine = none → s.localDescription = none
  latest : ∀ e, s.engine = some e → ∃ before g after,
    s.record = before ++ .acquireEngine g :: after ∧ a.grants before (.acquireEngine g) = true ∧
      a.acquired before = e ∧ s.localDescription = lastSent after

namespace LocalLatest

/-- Nothing that is sent meanwhile is a description. -/
theorem quiet (h : s.LocalLatest a) {rs : List Request} (engine : t.engine = s.engine)
    (same : t.localDescription = s.localDescription) (record : t.record = s.record ++ rs)
    (unsent : lastSent rs = none) : t.LocalLatest a where
  resting free := same.trans (h.resting (engine ▸ free))
  latest e held := by
    obtain ⟨before, g, after, acquired, granted, number, now⟩ := h.latest e (engine ▸ held)
    refine ⟨before, g, after ++ rs, by simp [record, acquired], granted, number, ?_⟩
    rw [same, now, lastSent_append, unsent, Option.none_or]

/-- There is no engine any more. -/
theorem none (free : s.engine = none) (gone : s.localDescription = none) : s.LocalLatest a where
  resting _ := gone
  latest e held := by
    rw [free] at held
    cases held

/-- An engine that was just acquired has nothing to send yet. -/
theorem equipped (h : s.LocalLatest a) (orderly : s.Orderly a) (free : s.engine = .none)
    (granted : s.grantsEngine a = true) : s.equipped.LocalLatest a where
  resting none := by cases none
  latest e held := by
    cases held
    refine ⟨s.record, s.generation + 1, s.tracks.map (.addTrack s.engines.length), rfl, granted,
      Parley.Orderly.acquired_eq orderly, ?_⟩
    rw [lastSent_unsent (by simp)]
    exact h.resting free

end LocalLatest

theorem Handled.localLatest (turn : Handled a s i t) (sound : s.Sound) (orderly : s.Orderly a)
    (h : s.LocalLatest a) : t.LocalLatest a := by
  have quiet {rs : List Request} (engine : t.engine = s.engine)
      (same : t.localDescription = s.localDescription) (record : t.record = s.record ++ rs)
      (unsent : ∀ e, .send e ∉ rs) : t.LocalLatest a :=
    h.quiet engine same record (lastSent_unsent unsent)
  -- A release takes the description along with the engine, so an acquisition finds none.
  cases turn with
  | ignored => exact h
  | staleReply => exact h.quiet rfl rfl (List.append_nil _).symm rfl
  | @admitted p t _ waiting _ engine answer =>
    have free := sound.resting (.inl waiting)
    have alike : { s with joinRequested := false, peer := some p }.LocalLatest a :=
      h.quiet rfl rfl (List.append_nil _).symm rfl
    rcases engine with rfl | rfl
    · have granted : s.grantsEngine a = true := by simpa [Actor.equipped] using answer
      have equipped := alike.equipped orderly free granted
      exact equipped.quiet rfl rfl (List.append_nil _).symm rfl
    · exact .none free (h.resting free)
  | offered _ _ engine answer =>
    cases engine with
    | held => exact quiet rfl rfl rfl (by simp)
    | acquired free =>
      have equipped := h.equipped orderly free (answer free)
      exact equipped.quiet rfl rfl rfl (lastSent_unsent (by simp))
  | unequipped _ free => exact .none free (h.resting free)
  | unbound | dismissed | lost | left => exact .none rfl rfl
  | tookOffer | tookAnswer | refused | remoteCandidate | remoteTrack | unprovided =>
    exact quiet rfl rfl rfl (by simp)
  | localCandidate =>
    refine h.quiet rfl rfl rfl ?_
    rw [Parley.lastSent, List.filterMap_cons_none (description?_candidate _ _)]
    rfl
  | rejoined =>
    exact h.quiet rfl rfl rfl rfl

theorem Concluded.localLatest {c : Completion} (done : Concluded a s c t) (h : s.LocalLatest a) :
    t.LocalLatest a := by
  cases done with
  | nothing => exact h.quiet rfl rfl (List.append_nil _).symm rfl
  | refused => exact h.quiet rfl rfl rfl rfl
  | @sent e d engine =>
    have sent : Parley.lastSent
        [.setLocal e d, .send (.message s.room (Message.ofDescription d).toPayload)] = some d := by
      rw [Parley.lastSent, List.filterMap_cons_none rfl,
        List.filterMap_cons_some (description?_ofDescription _ _)]
      rfl
    refine ⟨fun free => ?_, fun e' held => ?_⟩
    · have free : s.engine = none := free
      rw [engine] at free
      cases free
    · obtain ⟨before, g, after, acquired, granted, number, -⟩ := h.latest e' held
      refine ⟨before, g, after ++
        [.setLocal e d, .send (.message s.room (Message.ofDescription d).toPayload)],
        by simp [published, acquired], granted, number, ?_⟩
      rw [lastSent_append, sent]
      rfl

end Actor

/-! ## In the room -/

namespace Deed

/-- A reply to a join lets the session in. -/
structure Admits (a : Answers) (d : Deed) : Prop where
  reply : ∃ p, d = .turn ⟨d.before, .server (.joined d.before.room p)⟩
  fresh : d.before.staleReplies = 0
  asked : d.before.joinRequested = true
  waiting : d.before.state = .init
  member : (d.after a).state = .joined

end Deed

/-- The session was let in, and has not said since that it leaves. -/
def Admitted (a : Answers) (past : List Deed) : Prop :=
  ∃ earlier d since, past = earlier ++ d :: since ∧ d.Admits a ∧
    ∀ d' ∈ since, ∀ room, .send (.leave room) ∉ d'.requests a

namespace Actor

variable {s t : Actor} {i : SessionInput} {past : List Deed} {d : Deed}

/-- Whoever is in the room after a turn was let in in that turn, or was in the room before and has
not said that it leaves. -/
theorem Handled.inRoom (turn : Handled a s i t) (inside : t.state.inRoom = true) :
    ((∃ p, i = .server (.joined s.room p)) ∧ s.staleReplies = 0 ∧ s.joinRequested = true ∧
      s.state = .init ∧ t.state = .joined) ∨
    s.state.inRoom = true ∧ ∀ room, .send (.leave room) ∉ t.record.drop s.record.length := by
  have stays (mem : s.state.inRoom = true) :
      s.state.inRoom = true ∧ ∀ room, .send (.leave room) ∉ t.record.drop s.record.length := by
    refine ⟨mem, fun room leaves => ?_⟩
    cases turn.asked leaves with
    | own other => cases other
    | @leave exit => cases exit <;> cases inside
  cases turn with
  | admitted fresh waiting asked => exact .inl ⟨⟨_, rfl⟩, fresh, asked, waiting, rfl⟩
  | offered member | unequipped member | unbound member => exact .inr (stays member)
  | dismissed | lost => cases inside
  | @left exit => cases exit <;> cases inside
  | _ => exact .inr (stays inside)

/-- A message that is sent in a turn is a candidate of the engine. -/
theorem Handled.messages (turn : Handled a s i t) {room : RoomId} {data : Json}
    (mem : .send (.message room data) ∈ t.record.drop s.record.length) :
    ∃ c, s.engine ≠ none ∧ data = (Message.candidate c).toPayload ∧
      t = s.sendMessage (.candidate c) := by
  cases turn.asked mem with
  | own other => cases other
  | candidate engine => exact ⟨_, engine, rfl, rfl⟩

/-- What a session that handles a completion sends is what was created. -/
theorem Concluded.sends {c : Completion} (done : Concluded a s c t) {event : ClientEvent}
    (mem : .send event ∈ t.record.drop s.record.length) :
    ∃ e d, s.engine = some e ∧ c.result = some d ∧ a.grants s.record (.setLocal e d) = true ∧
      event = .message s.room (Message.ofDescription d).toPayload ∧
      t = { s with pending := none }.published e d := by
  cases done with
  | nothing => simp at mem
  | refused => simp [note] at mem
  | @sent e d engine result answer =>
    obtain rfl : event = .message s.room (Message.ofDescription d).toPayload := by
      simpa [published] using mem
    exact ⟨e, d, engine, result, answer, rfl, rfl⟩

theorem Concluded.state {c : Completion} (done : Concluded a s c t) : t.state = s.state := by
  cases done <;> rfl

theorem Orderly.alike (h : s.Orderly a) (same : s.Alike t) : t.Orderly a := by
  obtain ⟨_, _, _, rfl⟩ := same
  exact h

theorem Concluded.orderly {c : Completion} (done : Concluded a s c t) (h : s.Orderly a) :
    t.Orderly a := by
  have free : { s with pending := none }.Orderly a := h
  cases done with
  | nothing => exact free
  | refused engine => exact Published.orderly free (.refused engine)
  | sent engine => exact Published.orderly free (.sent engine)

end Actor

/-- What holds of a session at any moment of a run, after what was done before. -/
structure Regular (a : Answers) (past : List Deed) (s : Actor) : Prop where
  orderly : s.Orderly a
  localLatest : s.LocalLatest a
  admitted : s.state.inRoom = true → Admitted a past

namespace Regular

variable {past : List Deed} {s t : Actor} {d : Deed}

theorem alike (h : Regular a past s) (same : s.Alike t) : Regular a past t := by
  have orderly := h.orderly.alike same
  obtain ⟨_, _, _, rfl⟩ := same
  exact ⟨orderly, h.localLatest.quiet rfl rfl (List.append_nil _).symm rfl, h.admitted⟩

theorem start (a : Answers) (room : RoomId) (link : Link ClientEvent) :
    Regular a [] (Runner.start a room link).actor := by
  obtain ⟨latest, outside⟩ : (Runner.start a room link).actor.LocalLatest a ∧
      (Runner.start a room link).actor.state.inRoom = false :=
    Actor.enterRoom_induction (P := fun s => s.LocalLatest a ∧ s.state.inRoom = false)
      ⟨.none rfl rfl, rfl⟩ ⟨.none rfl rfl, rfl⟩
  refine ⟨(Runner.Reachable.start link).orderly, latest, fun inside => ?_⟩
  rw [outside] at inside
  cases inside

end Regular

theorem Admitted.snoc {past : List Deed} {d : Deed} (h : Admitted a past)
    (stays : ∀ room, .send (.leave room) ∉ d.requests a) : Admitted a (past ++ [d]) := by
  obtain ⟨earlier, first, since, rfl, admits, quiet⟩ := h
  refine ⟨earlier, first, since ++ [d], by simp, admits, fun d' mem => ?_⟩
  rcases List.mem_append.mp mem with mem | new
  · exact quiet d' mem
  · rw [List.mem_singleton.mp new]
    exact stays

/-- What is done when it may be keeps the session regular. -/
theorem Deed.Timely.regular {past : List Deed} {d : Deed} (timely : d.Timely)
    (h : Regular a past d.before) : Regular a (past ++ [d]) (d.after a) := by
  cases timely with
  | @turn t sound =>
    have turn := Actor.dispatch_handled a t.session t.input
    refine ⟨turn.orderly sound h.orderly, turn.localLatest sound h.orderly h.localLatest, ?_⟩
    intro inside
    rcases turn.inRoom inside with ⟨⟨p, reply⟩, fresh, asked, waiting, member⟩ | ⟨inside, stays⟩
    · have admits : (Deed.turn t).Admits a :=
        { reply := ⟨p, congrArg (fun i => Deed.turn ⟨t.session, i⟩) reply⟩
          fresh, asked, waiting, member }
      exact ⟨past, .turn t, [], rfl, admits, fun _ mem => absurd mem List.not_mem_nil⟩
    · exact (h.admitted inside).snoc stays
  | @finish s c sound =>
    have done := Actor.applied_concluded a s c
    refine ⟨done.orderly h.orderly, done.localLatest h.localLatest, fun inside => ?_⟩
    change (s.applied a c).state.inRoom = true at inside
    rw [done.state] at inside
    refine (h.admitted inside).snoc fun room leaves => ?_
    obtain ⟨_, _, _, _, _, other, _⟩ := done.sends leaves
    cases other

/-! ## Running sessions -/

namespace Runner

/-- A message carries a description that the session's engine has created before and has just
accepted. If it is an offer, the session is connected; it need not be if an engine creates an offer
when it is asked for an answer. -/
structure Announces (a : Answers) (p : Runner) (moves : List Move) (past : List Deed) (deed : Deed)
    (data : Json) (e : EngineId) (d : Description) : Prop where
  payload : data = (Message.ofDescription d).toPayload
  requests : deed.requests a = [.setLocal e d, .send (.message deed.before.room data)]
  accepted : a.grants deed.before.record (.setLocal e d) = true
  created : ∃ kind, Produced a p moves past ⟨e, deed.before.generation, kind⟩ (some d)
  offer : Genuine a p moves → d.kind = .offer → deed.before.state = .connected

/-- The session sends a message as it should. -/
structure Disciplined (a : Answers) (p : Runner) (moves : List Move) (past : List Deed)
    (deed : Deed) (data : Json) (e : EngineId) : Prop where
  engine : deed.before.engine = some e ∧ (deed.after a).engine = some e
  state : deed.before.state = .joined ∨ deed.before.state = .connected
  stays : (deed.after a).state = deed.before.state
  admitted : Admitted a past ∧ ∀ room, .send (.leave room) ∉ deed.requests a
  announces : ∀ d, Message.parse data = .ok (.ofDescription d) →
    Announces a p moves past deed data e d

variable {room : RoomId} {link : Link ClientEvent} {moves : List Move} {past future : List Deed}
  {deed : Deed}

/-- Of what a session does, the report of a candidate and the completion of a description make it
send a message. -/
theorem course_disciplined
    (split : (start a room link).course a moves = past ++ deed :: future)
    (regular : Regular a past deed.before) {r : RoomId} {data : Json}
    (mem : .send (.message r data) ∈ deed.requests a) :
    ∃ e, Disciplined a (start a room link) moves past deed data e := by
  have timely := (Sound.start a room link).course_timely a moves deed (by simp [split])
  cases timely with
  | @turn t sound =>
    -- The message is a candidate, so nothing is to be shown about descriptions.
    obtain ⟨c, held, same, after⟩ := (Actor.dispatch_handled a t.session t.input).messages mem
    obtain ⟨e, engine⟩ := Option.ne_none_iff_exists'.mp held
    have requests : (Deed.turn t).requests a = [.send (.message t.session.room data)] := by
      show (t.session.dispatch a t.input).record.drop t.session.record.length = _
      rw [after, same]
      simp [Actor.sendMessage, Actor.send, Actor.note]
    obtain ⟨engine', stays⟩ : (t.session.dispatch a t.input).engine = some e ∧
        (t.session.dispatch a t.input).state = t.session.state := by
      rw [after]
      exact ⟨engine, rfl⟩
    refine ⟨e, ⟨engine, engine'⟩, sound.active held, stays, ⟨?_, by simp [requests]⟩, ?_⟩
    · exact regular.admitted (sound.inRoom held)
    · intro d parsed
      rw [same] at parsed
      obtain ⟨c', other⟩ := Message.parse_candidate parsed
      obtain ⟨kind, sdp⟩ := d
      cases kind <;> cases other
  | @finish s c sound =>
    -- The completion is one of the current generation, so the engine has created what is sent.
    obtain ⟨e, d, engine, result, answer, event, after⟩ :=
      (Actor.applied_concluded a s c).sends mem
    obtain ⟨rfl, rfl⟩ : r = s.room ∧ data = (Message.ofDescription d).toPayload := by
      simpa using event
    have held : s.engine ≠ none := by simp [engine]
    have requests : (Deed.finish s c).requests a =
        [.setLocal e d, .send (.message s.room (Message.ofDescription d).toPayload)] := by
      show (s.applied a c).record.drop s.record.length = _
      rw [after]
      simp [Actor.published]
    obtain ⟨engine', stays⟩ : (s.applied a c).engine = some e ∧
        (s.applied a c).state = s.state := by
      rw [after]
      exact ⟨engine, rfl⟩
    refine ⟨e, ⟨engine, engine'⟩, sound.active held, stays, ⟨?_, by simp [requests]⟩, ?_⟩
    · exact regular.admitted (sound.inRoom held)
    · intro d' parsed
      rw [Message.parse_ofDescription] at parsed
      obtain rfl : d = d' := Message.ofDescription_injective (Except.ok.inj parsed)
      obtain ⟨produced, offer⟩ := finish_produced split engine
      rw [result] at produced
      refine ⟨rfl, requests, answer, ⟨c.kind, produced⟩, fun genuine kind => offer ?_⟩
      exact (produced.kind_eq genuine).symm.trans kind

/-- In every run, all that a session requests is requested when it asks to join at first and in its
deeds, which lead from one to the next. At every moment its local description is the offer or answer
that it has sent last since it acquired the current engine. And each message is sent while the
session is in the room and has an engine, after it was let in and before it says that it leaves; an
offer or answer is what that engine created and has just accepted. -/
theorem sending_discipline (a : Answers) (room : RoomId) (link : Link ClientEvent)
    (moves : List Move) :
    let p := start a room link
    Actor.Linked a p.actor (p.course a moves) (p.run a moves).actor ∧
    (∀ r data, .send (.message r data) ∉ p.actor.record) ∧
    (p.run a moves).actor.record = p.actor.record ++ (p.course a moves).flatMap (·.requests a) ∧
    (p.run a moves).actor.LocalLatest a ∧
    ∀ past deed future, p.course a moves = past ++ deed :: future →
      deed.before.LocalLatest a ∧ (deed.after a).LocalLatest a ∧
      ∀ r data, .send (.message r data) ∈ deed.requests a →
        ∃ e, Disciplined a p moves past deed data e := by
  intro p
  have sound : p.Sound := Sound.start a room link
  obtain ⟨before, final⟩ := sound.course_induction (P := Regular a) moves
    (fun _ _ _ same h => h.alike same) (fun _ _ timely h => timely.regular h)
    (.start a room link)
  refine ⟨course_linked a p moves, fun r data mem => ?_, course_record a p moves,
    final.localLatest, fun past deed future split => ?_⟩
  · rcases start_record a room link _ mem with other | other <;> cases other
  · have regular := before past deed future split
    have timely := sound.course_timely a moves deed (by simp [split])
    exact ⟨regular.localLatest, (timely.regular regular).localLatest, fun r data mem =>
      course_disciplined split regular mem⟩

/-- While nothing waits, a completion is all that is handled. -/
theorem deeds_takeResult {p : Runner} {c : Completion} {rest : List Completion}
    (next : p.results = c :: rest) (running : p.finished = false)
    (current : c.generation = p.actor.generation) (empty : p.actor.backlog = []) :
    p.deeds a (.act .takeResult) = [.finish p.actor c] := by
  rw [deeds_completion next running current, empty]
  rfl

/-- A session that was let in, and has an offer for a newcomer. -/
def createdMoves : List Move :=
  offeringMoves ++ [.act (.finishCreation 0 (some ⟨.offer, "v=0"⟩))]

/-- It handles the offer. -/
def announcedMoves : List Move := createdMoves ++ [.act .takeResult]

/-- What it does then. -/
def announcing : Deed :=
  .finish ((start .obliging ⟨"r"⟩ .fresh).run .obliging createdMoves).actor
    ⟨1, .offer, some ⟨.offer, "v=0"⟩⟩

theorem course_announced :
    (start .obliging ⟨"r"⟩ .fresh).course .obliging announcedMoves =
      (start .obliging ⟨"r"⟩ .fresh).course .obliging createdMoves ++ [announcing] := by
  have last : ((start .obliging ⟨"r"⟩ .fresh).run .obliging createdMoves).deeds .obliging
      (.act .takeResult) = [announcing] := deeds_takeResult rfl rfl rfl rfl
  rw [announcedMoves, course_append, course, last]
  rfl

theorem genuine_announced : Genuine .obliging (start .obliging ⟨"r"⟩ .fresh) announcedMoves := by
  have taken {p : Runner} {m : Act} (reads : m.Genuine p) :
      ∀ act, Move.act m = .act act → act.Genuine p := by
    rintro _ ⟨⟩
    exact reads
  -- What is created was asked for as an offer.
  refine .cons nofun (.cons (taken trivial) (.cons nofun (.cons (taken trivial)
    (.cons (taken fun c begun => ?_) (.cons (taken trivial) .nil)))))
  cases begun
  rfl

/-- An offer is sent, and that in a session that is connected. -/
theorem offer_disciplined :
    let p := start .obliging ⟨"r"⟩ .fresh
    let past := p.course .obliging createdMoves
    let data := (Message.offer "v=0").toPayload
    p.course .obliging announcedMoves = past ++ [announcing] ∧
      .send (.message ⟨"r"⟩ data) ∈ announcing.requests .obliging ∧
      (∃ e, Disciplined .obliging p announcedMoves past announcing data e ∧
        Announces .obliging p announcedMoves past announcing data e ⟨.offer, "v=0"⟩) ∧
      Genuine .obliging p announcedMoves ∧ announcing.before.state = .connected ∧
      (p.run .obliging announcedMoves).actor.localDescription = some ⟨.offer, "v=0"⟩ := by
  have sent : .send (.message ⟨"r"⟩ (Message.offer "v=0").toPayload) ∈
      announcing.requests .obliging := List.mem_cons_of_mem _ List.mem_cons_self
  obtain ⟨-, -, -, -, discipline⟩ := sending_discipline .obliging ⟨"r"⟩ .fresh announcedMoves
  obtain ⟨e, disciplined⟩ := (discipline _ _ [] course_announced).2.2 ⟨"r"⟩ _ sent
  have announces := disciplined.announces _ (Message.parse_ofDescription ⟨.offer, "v=0"⟩)
  have connected := announces.offer genuine_announced rfl
  exact ⟨course_announced, sent, ⟨e, disciplined, announces⟩, genuine_announced, connected, rfl⟩

end Runner

end Parley
