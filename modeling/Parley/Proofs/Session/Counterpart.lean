import Parley.Proofs.Session.Authentic
import Parley.Proofs.Session.Discipline
import Parley.Proofs.Signal.Grammar

/-!
# Whose messages reach an engine

A session gives an engine what the messages of its peers say: descriptions and candidates. While it
has a counterpart, these are messages of the counterpart (`Deed.Carries`). The counterpart may still
be replaced by a newcomer while nothing is being negotiated, but once a description is set on the
engine (`Actor.Described`), the session keeps its counterpart as long as it keeps the engine
(`Handled.keeps`). So all that an engine is given after the first description comes from one peer.

Before that, a candidate of anybody is given to an engine whose session has no counterpart yet.
-/

namespace Parley

variable {a : Answers}

/-! ## What an engine is given -/

/-- The engine that is given something of a message. -/
def Request.given? : Request → Option EngineId
  | .setRemote e _ | .addCandidate e _ => some e
  | _ => none

theorem Request.given?_of_own {r : Request} (own : r.own = true) : r.given? = none := by
  cases r <;> first | rfl | cases own

/-- The deed is the turn of a message of a peer, and an engine is given what the message says. -/
inductive Deed.Carries : Deed → PeerId → Request → Prop
  | description {s : Actor} {x : PeerId} {data : Json} {e : EngineId} {d : Description}
      (parsed : Message.parse data = .ok (.ofDescription d)) :
      Carries (.turn ⟨s, .server (.message s.room x data)⟩) x (.setRemote e d)
  | candidate {s : Actor} {x : PeerId} {data : Json} {e : EngineId} {c : Candidate}
      (parsed : Message.parse data = .ok (.candidate c)) :
      Carries (.turn ⟨s, .server (.message s.room x data)⟩) x (.addCandidate e c)

theorem Deed.Carries.peer_eq {d : Deed} {x y : PeerId} {r r' : Request} (h : d.Carries x r)
    (h' : d.Carries y r') : x = y := by
  cases h <;> cases h' <;> rfl

namespace Actor

variable {s t : Actor} {i : SessionInput} {e : EngineId}

/-- Whoever is not somebody else is the counterpart. -/
theorem counterpart_eq {x y : PeerId} (bound : s.boundElsewhere x = false)
    (counterpart : s.counterpart = some y) : y = x := by
  simpa [boundElsewhere, counterpart] using bound

/-- An engine is given something in the turn of a message only, and never of somebody else than the
counterpart. -/
theorem Handled.gives (turn : Handled a s i t) {r : Request}
    (mem : r ∈ t.record.drop s.record.length) (given : r.given? = some e) :
    s.engine = some e ∧ ∃ x, (Deed.turn ⟨s, i⟩).Carries x r ∧ s.boundElsewhere x = false := by
  cases turn.asked mem with
  | own own =>
    rw [Request.given?_of_own own] at given
    cases given
  | join | leave | candidate => cases given
  | applied parsed bound engine =>
    cases given
    exact ⟨engine, _, .description parsed, bound⟩
  | added parsed bound engine =>
    cases given
    exact ⟨engine, _, .candidate parsed, bound⟩

/-- A session that handles a completion gives its engine nothing of a message. -/
theorem Concluded.gives_nothing {c : Completion} (done : Concluded a s c t) {r : Request}
    (mem : r ∈ t.record.drop s.record.length) : r.given? = none := by
  cases done with
  | nothing => simp at mem
  | refused =>
    obtain rfl : r = _ := by simpa [note] using mem
    rfl
  | sent =>
    obtain rfl | rfl : r = _ ∨ r = _ := by simpa [published] using mem
    · rfl
    · rfl

/-! ## Who is the counterpart -/

/-- A description is set on the engine. -/
def Described (s : Actor) : Prop := s.localDescription ≠ none ∨ s.remoteDescription ≠ none

theorem Described.hasNegotiated (h : s.Described) : s.hasNegotiated = true := by
  rcases h with set | set <;>
    simp [Session.hasNegotiated, Option.isSome_iff_ne_none.mpr set]

/-- What stays as long as a session keeps its engine: the counterpart, unless a newcomer takes its
place while nothing is being negotiated, and that a description is set. -/
structure Keeps (s : Actor) (newcomer : PeerId → Prop) (e : EngineId) (t : Actor) : Prop where
  engine : s.engine = some e
  counterpart : ∀ x, s.counterpart = some x → t.counterpart = some x ∨
    s.hasNegotiated = false ∧ ∃ y, y ≠ x ∧ newcomer y ∧ t.counterpart = some y
  described : s.Described → t.Described

theorem Keeps.same {newcomer : PeerId → Prop} (engine : s.engine = some e)
    (counterpart : t.counterpart = s.counterpart) (described : s.Described → t.Described) :
    s.Keeps newcomer e t :=
  ⟨engine, fun _ bound => .inl (counterpart.trans bound), described⟩

theorem Handled.keeps (turn : Handled a s i t) (engine : t.engine = some e)
    (old : e < s.engines.length) : s.Keeps (fun y => i = .server (.otherJoin s.room y)) e t := by
  -- An engine that is acquired in the turn has not been there before.
  have fresh (acquired : some s.engines.length = some e) : False :=
    Nat.ne_of_gt old (Option.some.inj acquired)
  cases turn with
  | admitted _ _ _ acquired =>
    rcases acquired with rfl | rfl
    · exact (fresh engine).elim
    · exact .same engine rfl id
  | @offered p _ _ member free provided =>
    cases provided with
    | held held =>
      -- The newcomer is the counterpart already, or nothing was being negotiated.
      refine ⟨engine, fun x bound => ?_, id⟩
      by_cases other : p = x
      · exact .inl (by rw [← other]; rfl)
      · refine .inr ⟨?_, p, other, rfl, rfl⟩
        by_contra negotiated
        have elsewhere : s.boundElsewhere p = true := by
          simpa [boundElsewhere, bound] using fun same => other same.symm
        exact free ⟨elsewhere, by simpa using negotiated⟩
    | acquired => exact (fresh engine).elim
  | unbound | dismissed | lost | left => cases engine
  | tookOffer _ bound =>
    refine ⟨engine, fun x counterpart => .inl ?_, fun _ => .inr (Option.some_ne_none _)⟩
    rw [counterpart_eq bound counterpart]
    rfl
  | tookAnswer =>
    refine ⟨engine, fun x counterpart => .inl ?_, fun _ => .inr (Option.some_ne_none _)⟩
    simp [answered, counterpart]
  | _ => exact .same engine rfl id

theorem Concluded.keeps {c : Completion} (done : Concluded a s c t) :
    t.engine = s.engine ∧ t.counterpart = s.counterpart ∧ (s.Described → t.Described) := by
  cases done with
  | nothing | refused => exact ⟨rfl, rfl, id⟩
  | sent => exact ⟨rfl, rfl, fun _ => .inl (Option.some_ne_none _)⟩

/-- Once a description is set on the engine, the session keeps to the peer while it has the
engine. -/
structure Committed (s : Actor) (e : EngineId) (y : PeerId) : Prop where
  acquired : e < s.engines.length
  bound : s.engine = some e → s.Described ∧ s.counterpart = some y

theorem Committed.alike {y : PeerId} (h : s.Committed e y) (same : s.Alike t) :
    t.Committed e y := by
  obtain ⟨_, _, _, rfl⟩ := same
  exact ⟨h.acquired, h.bound⟩

/-! ## Messages of the counterpart -/

variable {x : PeerId} {data : Json} {d : Description}

theorem dispatch_message (a : Answers) (s : Actor) (x : PeerId) (data : Json) :
    s.dispatch a (.server (.message s.room x data)) = s.onMessage a x data := by
  simp [dispatch, onServer, ServerEvent.room]

/-- The engine accepts the description of a message, and the session has a counterpart. -/
theorem onMessage_accepted (parsed : Message.parse data = .ok (.ofDescription d))
    (engine : s.engine = some e) (bound : s.boundElsewhere x = false)
    (granted : a.grants s.record (.setRemote e d) = true) :
    (s.onMessage a x data).engine = some e ∧ (s.onMessage a x data).counterpart = some x ∧
      (s.onMessage a x data).remoteDescription = some d := by
  have free : ¬ s.counterpart.any (· ≠ x) = true := by simpa [boundElsewhere] using bound
  obtain ⟨kind, sdp⟩ := d
  cases kind with
  | offer =>
    have taken : s.onMessage a x data = s.answering e x sdp := by
      simp only [onMessage, parsed, Message.ofDescription, if_neg free, engine, granted]
      exact answering_eq engine x sdp
    rw [taken]
    exact ⟨engine, rfl, rfl⟩
  | answer =>
    have taken : s.onMessage a x data = s.answered e x sdp := by
      simp only [onMessage, parsed, Message.ofDescription, if_neg free, engine, granted]
      rfl
    rw [taken]
    refine ⟨engine, ?_, rfl⟩
    cases counterpart : s.counterpart with
    | none => simp [answered, counterpart]
    | some y => simp [answered, counterpart, counterpart_eq bound counterpart]

end Actor

/-! ## Deeds -/

namespace Deed

variable {d : Deed} {e : EngineId} {x : PeerId} {r : Request}

/-- The deed is the turn of an announcement that a peer has joined. -/
def Welcomes (d : Deed) (y : PeerId) : Prop :=
  d = .turn ⟨d.before, .server (.otherJoin d.before.room y)⟩

theorem keeps (engine : (d.after a).engine = some e) (old : e < d.before.engines.length) :
    d.before.Keeps d.Welcomes e (d.after a) := by
  cases d with
  | turn t =>
    have kept := (Actor.dispatch_handled a t.session t.input).keeps engine old
    refine { kept with counterpart := fun x bound => (kept.counterpart x bound).imp_right ?_ }
    rintro ⟨free, y, other, joins, replaced⟩
    exact ⟨free, y, other, congrArg (fun i => Deed.turn ⟨t.session, i⟩) joins, replaced⟩
  | finish s c =>
    obtain ⟨engine', counterpart, described⟩ := (Actor.applied_concluded a s c).keeps
    exact .same (engine'.symm.trans engine) counterpart described

theorem gives (mem : r ∈ d.requests a) (given : r.given? = some e) :
    d.before.engine = some e ∧ ∃ x, d.Carries x r ∧ d.before.boundElsewhere x = false := by
  cases d with
  | turn t => exact (Actor.dispatch_handled a t.session t.input).gives mem given
  | finish s c =>
    rw [(Actor.applied_concluded a s c).gives_nothing mem] at given
    cases given

/-- What one deed finds, it leaves: the session is committed to the peer. -/
theorem committed (h : d.before.Committed e x) : (d.after a).Committed e x := by
  have grown := (d.onward a).engines.length_le
  refine ⟨Nat.lt_of_lt_of_le h.acquired grown, fun engine => ?_⟩
  have kept := keeps engine h.acquired
  obtain ⟨described, bound⟩ := h.bound kept.engine
  refine ⟨kept.described described, (kept.counterpart x bound).resolve_right fun replaced => ?_⟩
  have negotiated := described.hasNegotiated
  rw [replaced.1] at negotiated
  cases negotiated

/-- The engine accepts a description of a peer. -/
structure Accepts (a : Answers) (d : Deed) (e : EngineId) (x : PeerId) (desc : Description) :
    Prop where
  requested : .setRemote e desc ∈ d.requests a
  carries : d.Carries x (.setRemote e desc)
  granted : a.grants d.before.record (.setRemote e desc) = true

/-- What an engine is given in a deed, and after it. -/
structure Exclusive (a : Answers) (d : Deed) (rest : List Deed) : Prop where
  /-- Whatever an engine is given, the session holds it, and it comes from the counterpart if there
  is one. -/
  given : ∀ e, ∀ r ∈ d.requests a, r.given? = some e → d.before.engine = some e ∧
    ∃ x, d.Carries x r ∧ ∀ y, d.before.counterpart = some y → y = x
  /-- Who sent a description that the engine accepts, is the counterpart. -/
  accepted : ∀ e x desc, d.Accepts a e x desc → (d.after a).engine = some e ∧
    (d.after a).counterpart = some x ∧ (d.after a).remoteDescription = some desc
  /-- Once a description is set, the session keeps its counterpart as long as its engine, and all
  that the engine is given comes from the counterpart. -/
  committed : ∀ e, (d.after a).engine = some e → (d.after a).Described →
    ∃ y, (d.after a).counterpart = some y ∧ ∀ d' ∈ rest,
      (d'.before.engine = some e → d'.before.counterpart = some y) ∧
      ((d'.after a).engine = some e → (d'.after a).counterpart = some y) ∧
      ∀ r ∈ d'.requests a, r.given? = some e → d'.Carries y r
  /-- Before that, the counterpart of an engine is replaced by a newcomer only, and only while
  nothing is being negotiated. -/
  replaced : ∀ e x, d.before.engine = some e → (d.after a).engine = some e →
    d.before.counterpart = some x → (d.after a).counterpart = some x ∨
      d.before.hasNegotiated = false ∧ ∃ y, y ≠ x ∧ d.Welcomes y ∧
        (d.after a).counterpart = some y

theorem Timely.exclusive {rest : List Deed} {t : Actor} (timely : d.Timely)
    (linked : Actor.Linked a (d.after a) rest t) : d.Exclusive a rest where
  given e r mem given := by
    obtain ⟨engine, x, carries, bound⟩ := gives mem given
    exact ⟨engine, x, carries, fun y counterpart => Actor.counterpart_eq bound counterpart⟩
  accepted e x desc accepts := by
    obtain ⟨mem, carries, granted⟩ := accepts
    cases carries with
    | description parsed =>
      obtain ⟨engine, y, carries, bound⟩ := gives mem rfl
      obtain rfl : y = _ := carries.peer_eq (.description (e := e) parsed)
      have taken := Actor.onMessage_accepted parsed engine bound granted
      rw [← Actor.dispatch_message] at taken
      exact taken
  committed e engine described := by
    have sound := timely.after a
    -- Whoever is the counterpart now stays it: an engine that comes later has another number.
    obtain ⟨y, counterpart⟩ := Option.ne_none_iff_exists'.mp (sound.described described)
    have start : (d.after a).Committed e y :=
      ⟨sound.engine_lt engine, fun _ => ⟨described, counterpart⟩⟩
    obtain ⟨before, -⟩ := linked.induction (P := fun _ s => s.Committed e y)
      (fun _ _ _ same h => h.alike same) (fun _ _ _ h => committed h) [] start
    refine ⟨y, counterpart, fun d' mem => ?_⟩
    obtain ⟨earlier, later, split⟩ := List.append_of_mem mem
    have held := before earlier d' later split
    refine ⟨fun engine => (held.bound engine).2, fun engine => ((committed held).bound engine).2,
      fun r mem given => ?_⟩
    obtain ⟨engine, x, carries, bound⟩ := gives mem given
    rw [Actor.counterpart_eq bound (held.bound engine).2]
    exact carries
  replaced e x engine engine' counterpart :=
    (keeps engine' (timely.before.engine_lt engine)).counterpart x counterpart

/-- Who sent a description that the engine has accepted, sends all that it is given later. -/
theorem Exclusive.accepted_first {rest : List Deed} {d' : Deed} {desc desc' : Description}
    {y : PeerId} (h : d.Exclusive a rest) (mem : d' ∈ rest) (first : d.Accepts a e x desc)
    (second : d'.Accepts a e y desc') : x = y := by
  obtain ⟨engine, counterpart, remote⟩ := h.accepted e x desc first
  obtain ⟨z, counterpart', later⟩ := h.committed e engine (.inr (by simp [remote]))
  obtain rfl : x = z := Option.some.inj (counterpart.symm.trans counterpart')
  exact ((later d' mem).2.2 _ second.requested rfl).peer_eq second.carries

end Deed

/-! ## Running sessions -/

namespace Runner

/-- In every run, whatever an engine is given it is given in a deed; and all descriptions that one
engine accepts come from one peer. -/
theorem one_peer_per_engine (a : Answers) (room : RoomId) (link : Link ClientEvent)
    (moves : List Move) :
    let p := start a room link
    Actor.Linked a p.actor (p.course a moves) (p.run a moves).actor ∧
    (∀ r ∈ (p.run a moves).actor.record, r.given? ≠ none →
      ∃ d ∈ p.course a moves, r ∈ d.requests a) ∧
    (∀ past d rest, p.course a moves = past ++ d :: rest → d.Exclusive a rest) ∧
    ∀ e x y desc desc', ∀ d ∈ p.course a moves, ∀ d' ∈ p.course a moves,
      d.Accepts a e x desc → d'.Accepts a e y desc' → x = y := by
  intro p
  have sound : p.Sound := Sound.start a room link
  have linked := course_linked a p moves
  have exclusive (past : List Deed) (d : Deed) (rest : List Deed)
      (split : p.course a moves = past ++ d :: rest) : d.Exclusive a rest := by
    have timely := sound.course_timely a moves d (by simp [split])
    rw [split] at linked
    exact timely.exclusive linked.behind
  refine ⟨linked, fun r mem given => ?_, exclusive, ?_⟩
  · rw [course_record] at mem
    rcases List.mem_append.mp mem with begun | done
    · rcases start_record a room link r begun with rfl | rfl <;> exact absurd rfl given
    · exact List.mem_flatMap.mp done
  · intro e x y desc desc' d mem d' mem' first second
    obtain ⟨past, rest, split⟩ := List.append_of_mem mem
    rw [split] at mem'
    rcases List.mem_append.mp mem' with before | after
    · -- The second deed came first.
      obtain ⟨past', between, split'⟩ := List.append_of_mem before
      have earlier := exclusive past' d' (between ++ d :: rest) (by simp [split, split'])
      exact (earlier.accepted_first (by simp) second first).symm
    · rcases List.mem_cons.mp after with rfl | later
      · exact first.carries.peer_eq second.carries
      · exact (exclusive past d rest split).accepted_first later first second

/-- A candidate of a peer reaches a session and is handled. -/
def candidateMoves (r : RoomId) (x : PeerId) (c : Candidate) : List Move :=
  [.deliver (.message r x (Message.candidate c).toPayload), .act .takeInput]

/-- An idle session gives it to its engine, unless it is bound to somebody else. -/
theorem candidate_given {p : Runner} {x : PeerId} {c : Candidate} {e : EngineId}
    (empty : p.inbox = []) (running : p.finished = false) (handle : p.handle = true)
    (free : p.actor.pending = none) (engine : p.actor.engine = some e)
    (bound : p.actor.boundElsewhere x = false) :
    ∃ d ∈ p.course a (candidateMoves p.actor.room x c),
      .addCandidate e c ∈ d.requests a ∧ d.Carries x (.addCandidate e c) := by
  let i := SessionInput.server (.message p.actor.room x (Message.candidate c).toPayload)
  have parsed := Message.parse_toPayload (.candidate c)
  have pushed : p.push i = { p with inbox := [i] } := by simp [push, running, handle, empty]
  have taken : .turn ⟨p.actor, i⟩ ∈ (p.push i).deeds a (.act .takeInput) := by
    rw [pushed]
    exact turn_mem_deeds rfl running free
  have given : p.actor.dispatch a i = p.actor.note (.addCandidate e c) := by
    have unbound : ¬ p.actor.counterpart.any (· ≠ x) = true := by
      simpa [Actor.boundElsewhere] using bound
    rw [Actor.dispatch_message]
    simp only [Actor.onMessage, parsed, if_neg unbound, engine]
  refine ⟨.turn ⟨p.actor, i⟩, List.mem_append_right _ (List.mem_append_left _ taken), ?_,
    .candidate parsed⟩
  show _ ∈ (p.actor.dispatch a i).record.drop p.actor.record.length
  rw [given]
  simp [Actor.note]

/-- A session that was let in. -/
def admittedMoves : List Move := [.deliver (.joined ⟨"r"⟩ ⟨"me"⟩), .act .takeInput]

/-- While it has no counterpart, its engine is given the candidates of two peers. -/
theorem strangers_heard :
    let p := start .obliging ⟨"r"⟩ .fresh
    let first := candidateMoves ⟨"r"⟩ ⟨"a"⟩ ⟨"ca", none, none⟩
    let second := candidateMoves ⟨"r"⟩ ⟨"b"⟩ ⟨"cb", none, none⟩
    ¬ ∃ x, ∀ d ∈ p.course .obliging (admittedMoves ++ first ++ second),
      ∀ r ∈ d.requests .obliging, r.given? = some 0 → d.Carries x r := by
  intro p first second ⟨x, all⟩
  have one := candidate_given (a := .obliging) (x := ⟨"a"⟩) (c := ⟨"ca", none, none⟩) (e := 0)
    (p := (start .obliging ⟨"r"⟩ .fresh).run .obliging admittedMoves) rfl rfl rfl rfl rfl rfl
  have two := candidate_given (a := .obliging) (x := ⟨"b"⟩) (c := ⟨"cb", none, none⟩) (e := 0)
    (p := (start .obliging ⟨"r"⟩ .fresh).run .obliging (admittedMoves ++
      candidateMoves ⟨"r"⟩ ⟨"a"⟩ ⟨"ca", none, none⟩)) rfl rfl rfl rfl rfl rfl
  obtain ⟨d, mem, requested, carries⟩ := one
  obtain ⟨d', mem', requested', carries'⟩ := two
  rw [course_append, course_append] at all
  have a := (all d (List.mem_append_left _ (List.mem_append_right _ mem)) _ requested rfl).peer_eq
    carries
  have b := (all d' (List.mem_append_right _ mem') _ requested' rfl).peer_eq carries'
  exact absurd (a.symm.trans b) (by decide)

/-- Once it has sent an offer, its engine is given what the peer says that it was made to. -/
theorem counterpart_heard :
    let p := (start .obliging ⟨"r"⟩ .fresh).run .obliging announcedMoves
    let c : Candidate := ⟨"ca", none, none⟩
    (announcing.after .obliging).counterpart = some ⟨"a"⟩ ∧
      ∃ d ∈ p.course .obliging (candidateMoves ⟨"r"⟩ ⟨"a"⟩ c),
        .addCandidate 0 c ∈ d.requests .obliging ∧ d.Carries ⟨"a"⟩ (.addCandidate 0 c) := by
  have counterpart : (announcing.after .obliging).counterpart = some ⟨"a"⟩ := rfl
  obtain ⟨d, mem, requested, -⟩ := candidate_given (a := .obliging) (x := ⟨"a"⟩)
    (c := ⟨"ca", none, none⟩) (e := 0)
    (p := (start .obliging ⟨"r"⟩ .fresh).run .obliging announcedMoves) rfl rfl rfl rfl rfl rfl
  have split := course_append .obliging (start .obliging ⟨"r"⟩ .fresh) announcedMoves
    (candidateMoves ⟨"r"⟩ ⟨"a"⟩ ⟨"ca", none, none⟩)
  rw [course_announced, List.append_assoc] at split
  obtain ⟨-, -, exclusive, -⟩ := one_peer_per_engine .obliging ⟨"r"⟩ .fresh
    (announcedMoves ++ candidateMoves ⟨"r"⟩ ⟨"a"⟩ ⟨"ca", none, none⟩)
  obtain ⟨y, same, later⟩ := (exclusive _ _ _ split).committed 0 rfl (.inl (Option.some_ne_none _))
  obtain rfl : ⟨"a"⟩ = y := Option.some.inj (counterpart.symm.trans same)
  exact ⟨counterpart, d, mem, requested, (later d mem).2.2 _ requested rfl⟩

end Runner

end Parley
