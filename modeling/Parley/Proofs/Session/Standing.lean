import Parley.Proofs.Session.Onward
import Parley.Proofs.Session.Sound

/-!
# What a session makes of its membership

A session does not see the registry of the relay. It puts what it asks for on its link, joins and
leaves (`asks`), and it gets a *verdict* on each join, some of them on joins that it has given up by
then. `Standing` says how the session, its open asks and the verdicts on their way fit together: the
session wants what it asked for last, and once the relay has handled everything, the last verdict on
its way tells whether the session got it.

Most of what a session does is chat (`Chat`): it is no concern of the membership.
-/

namespace Parley

/-- A join asks for membership, a leave for its end. -/
def ClientEvent.ask? : ClientEvent → Option Bool
  | .join _ => some true
  | .leave _ => some false
  | .message _ _ => none

/-- The verdict on a join: the peer is a member or there is no place for it. -/
def ServerEvent.verdict? : ServerEvent → Option Bool
  | .joined _ _ => some true
  | .full _ _ => some false
  | _ => none

/-- If the event is a verdict, it is one on a join of the peer to the room. -/
def ServerEvent.IsFor (r : RoomId) (p : PeerId) (event : ServerEvent) : Prop :=
  event.verdict? ≠ none → event = .joined r p ∨ event = .full r p

/-- The verdict that an input brings. -/
def SessionInput.verdict? : SessionInput → Option Bool
  | .server event => event.verdict?
  | _ => none

/-- The input is no concern of the membership. -/
def SessionInput.isChat : SessionInput → Bool
  | .server (.joined _ _) | .server (.full _ _) | .leave | .exit | .rejoin | .linkLost => false
  | _ => true

namespace Actor

/-- What the session asked for and the relay has not handled yet. -/
def asks (s : Actor) : List Bool := s.link.queue.filterMap ClientEvent.ask?

/-- The session is a member as far as it knows, or it waits to become one. -/
def wants (s : Actor) : Bool := s.state.inRoom || s.joinRequested

/-- How many verdicts the session counts on. -/
def owed (s : Actor) : Nat := s.staleReplies + if s.joinRequested then 1 else 0

/-- How a session that has not left fits the verdicts on their way and its membership. -/
structure Standing (s : Actor) (p : PeerId) (verdicts : List Bool) (member : Prop) : Prop where
  reachable : s.link.isOpen = true
  known : s.state.inRoom = true → s.peer = some p
  owed : s.owed ≤ s.asks.count true + verdicts.length
  last : ∀ b ∈ s.asks.getLast?, b = s.wants
  granted : s.asks = [] → s.wants = true → (member ↔ verdicts.getLast? ≠ some false)
  outside : s.asks = [] → s.wants = false → ¬ member

/-- Nothing that concerns the membership differs between two states of a session. -/
structure Chat (s t : Actor) : Prop where
  inRoom : t.state.inRoom = s.state.inRoom
  leaved : t.state = .leaved ↔ s.state = .leaved
  joinRequested : t.joinRequested = s.joinRequested
  staleReplies : t.staleReplies = s.staleReplies
  peer : t.peer = s.peer
  isOpen : t.link.isOpen = s.link.isOpen
  asks : t.asks = s.asks

variable {a : Answers} {s t u : Actor} {i : SessionInput} {e : ClientEvent} {p : PeerId}
  {vs : List Bool} {member member' : Prop}

namespace Chat

theorem refl (s : Actor) : s.Chat s := ⟨rfl, .rfl, rfl, rfl, rfl, rfl, rfl⟩

theorem trans (h : s.Chat t) (h' : t.Chat u) : s.Chat u where
  inRoom := h'.inRoom.trans h.inRoom
  leaved := h'.leaved.trans h.leaved
  joinRequested := h'.joinRequested.trans h.joinRequested
  staleReplies := h'.staleReplies.trans h.staleReplies
  peer := h'.peer.trans h.peer
  isOpen := h'.isOpen.trans h.isOpen
  asks := h'.asks.trans h.asks

/-- Only what is no concern of the membership changes. -/
theorem of_same (state : t.state = s.state) (joinRequested : t.joinRequested = s.joinRequested)
    (staleReplies : t.staleReplies = s.staleReplies) (peer : t.peer = s.peer)
    (link : t.link = s.link) : s.Chat t :=
  ⟨by rw [state], by rw [state], joinRequested, staleReplies, peer, by rw [link],
    by unfold Actor.asks; rw [link]⟩

/-- A message is no ask, and it does not matter whether it goes out. -/
theorem of_message {r : RoomId} {data : Json} (state : t.state = s.state)
    (joinRequested : t.joinRequested = s.joinRequested)
    (staleReplies : t.staleReplies = s.staleReplies) (peer : t.peer = s.peer)
    (link : t.link = s.link.push (.message r data)) : s.Chat t := by
  refine ⟨by rw [state], by rw [state], joinRequested, staleReplies, peer, ?_, ?_⟩
  · rw [link]
    simp [Link.isOpen]
  · unfold Actor.asks
    rw [link]
    by_cases reachable : s.link.isOpen = true
    · rw [Link.push_of_isOpen reachable]
      simp [ClientEvent.ask?]
    · rw [Link.push_of_not_isOpen reachable]

/-- A session in its room stays in its room. -/
theorem of_inRoom (inside : s.state.inRoom = true) (inside' : t.state.inRoom = true)
    (joinRequested : t.joinRequested = s.joinRequested)
    (staleReplies : t.staleReplies = s.staleReplies) (peer : t.peer = s.peer)
    (link : t.link = s.link) : s.Chat t where
  inRoom := inside'.trans inside.symm
  leaved := by
    constructor
    · intro left
      rw [left] at inside'
      cases inside'
    · intro left
      rw [left] at inside
      cases inside
  joinRequested := joinRequested
  staleReplies := staleReplies
  peer := peer
  isOpen := by rw [link]
  asks := by unfold Actor.asks; rw [link]

end Chat

theorem Handled.chat (turn : Handled a s i t) (chat : i.isChat = true) : s.Chat t := by
  cases turn with
  | ignored => exact .refl s
  | staleReply reply => rcases reply with rfl | rfl <;> cases chat
  | offered member _ engine => cases engine <;> exact .of_inRoom member rfl rfl rfl rfl rfl
  | unequipped => exact .of_same rfl rfl rfl rfl rfl
  | unbound member => exact .of_inRoom member rfl rfl rfl rfl rfl
  | tookOffer | tookAnswer | refused | remoteCandidate | remoteTrack =>
    exact .of_same rfl rfl rfl rfl rfl
  | localCandidate => exact .of_message rfl rfl rfl rfl rfl
  | @left exit => cases exit <;> cases chat
  | _ => cases chat

/-- In the room, inputs that do not preempt are all no concern of the membership: a verdict comes
too late, and there is nothing to rejoin. -/
theorem Handled.chat_of_inRoom (turn : Handled a s i t) (sound : s.Sound)
    (inside : s.state.inRoom = true) (later : i.preempts = false) : s.Chat t := by
  have outside (out : s.state = .init) : False := by
    rw [out] at inside
    cases inside
  have settled := sound.member inside
  cases turn with
  | ignored => exact .refl s
  | staleReply _ owed => exact absurd settled.2.2 owed
  | admitted _ waiting => exact (outside waiting).elim
  | dismissed | lost => cases later
  | unprovided waiting | rejoined waiting => exact (outside waiting).elim
  | @left exit => cases exit <;> cases later
  | offered member _ engine => cases engine <;> exact .of_inRoom member rfl rfl rfl rfl rfl
  | unbound member => exact .of_inRoom member rfl rfl rfl rfl rfl
  | localCandidate => exact .of_message rfl rfl rfl rfl rfl
  | unequipped | tookOffer | tookAnswer | refused | remoteCandidate | remoteTrack =>
    exact .of_same rfl rfl rfl rfl rfl

/-- The backlog is all chat. -/
theorem Sound.drain_chat (h : s.Sound) (a : Answers) : s.Chat (s.drain a) := by
  refine Sound.drain_induction (P := s.Chat) (fun t i rest u sound chat _ hb popped turn => ?_) h
    (.refl s)
  have inside := (sound.waiting (by simp [hb])).1
  have later := sound.queued i (by simp [hb])
  have same : t.Chat { t with backlog := rest } := .of_same rfl rfl rfl rfl rfl
  exact chat.trans (same.trans (turn.chat_of_inRoom popped inside later))

theorem Published.chat {d : Description} (published : Published d s t) : s.Chat t := by
  cases published with
  | nowhere => exact .refl s
  | refused => exact .of_same rfl rfl rfl rfl rfl
  | sent => exact .of_message rfl rfl rfl rfl rfl

/-- What comes of a creation is chat. -/
theorem Sound.complete_chat {c : Completion} (h : s.Sound)
    (bound : c.generation = s.generation → s.counterpart ≠ none) (a : Answers) :
    s.Chat (s.complete a c) := by
  by_cases current : c.generation = s.generation
  · rw [complete_of_current current]
    have free : s.Chat { s with pending := none } := .of_same rfl rfl rfl rfl rfl
    have applied : s.Chat (s.applied a c) :=
      applied_induction free fun _ _ _ published => free.trans published.chat
    exact applied.trans ((h.applied (bound current) a c).drain_chat a)
  · rw [complete_of_old current]
    exact .refl s

/-! ## Standing -/

/-- An ask goes out on an open link. -/
theorem asks_push (link : t.link = s.link.push e) (reachable : s.link.isOpen = true) {b : Bool}
    (ask : e.ask? = some b) : t.asks = s.asks ++ [b] := by
  unfold asks
  rw [link, Link.push_of_isOpen reachable]
  simp [ask]

theorem isOpen_push {l : Link ClientEvent} (reachable : l.isOpen = true) :
    (l.push e).isOpen = true := by
  simpa [Link.isOpen] using reachable

namespace Standing

theorem chat (h : s.Standing p vs member) (chat : s.Chat t) : t.Standing p vs member := by
  have owed : t.owed = s.owed := by
    unfold Actor.owed
    rw [chat.staleReplies, chat.joinRequested]
  have wants : t.wants = s.wants := by
    unfold Actor.wants
    rw [chat.inRoom, chat.joinRequested]
  refine ⟨?_, ?_, ?_, ?_, ?_, ?_⟩
  · rw [chat.isOpen]
    exact h.reachable
  · rw [chat.inRoom, chat.peer]
    exact h.known
  · rw [owed, chat.asks]
    exact h.owed
  · rw [chat.asks, wants]
    exact h.last
  · rw [chat.asks, wants]
    exact h.granted
  · rw [chat.asks, wants]
    exact h.outside

/-- A verdict is taken, and it changes nothing about what the session wants. A refusal is taken so
only if it is not the last word. -/
theorem pop {v : Bool} (h : s.Standing p (v :: vs) member) (link : t.link = s.link)
    (known : t.state.inRoom = true → t.peer = some p) (wants : t.wants = s.wants)
    (owed : t.owed ≤ s.asks.count true + vs.length)
    (late : s.asks = [] → s.wants = true → vs = [] → v = true) : t.Standing p vs member := by
  have asks : t.asks = s.asks := by
    unfold Actor.asks
    rw [link]
  refine ⟨?_, known, ?_, ?_, ?_, ?_⟩
  · rw [link]
    exact h.reachable
  · rw [asks]
    exact owed
  · rw [asks, wants]
    exact h.last
  · rw [asks, wants]
    intro none yes
    rw [h.granted none yes]
    cases vs with
    | nil => simp [late none yes rfl]
    | cons v' vs => simp
  · rw [asks, wants]
    exact h.outside

/-- Nobody waits for a verdict on a second join. -/
theorem pop_joined (h : s.Standing p (true :: vs) member) (free : s.owed = 0) :
    s.Standing p vs member :=
  h.pop rfl h.known rfl (by omega) fun _ _ _ => rfl

/-- A verdict on a join that was given up. -/
theorem pop_stale {v : Bool} (h : s.Standing p (v :: vs) member) (sound : s.Sound)
    (owed : s.staleReplies ≠ 0) :
    { s with staleReplies := s.staleReplies - 1 }.Standing p vs member := by
  have count := h.owed
  simp only [Actor.owed, List.length_cons] at count
  refine h.pop rfl h.known rfl ?_ ?_
  · simp only [Actor.owed]
    omega
  · -- If this is all that is on its way, the session waits for nothing.
    intro none yes empty
    rw [none, empty] at count
    have outside : s.state.inRoom = false := by
      cases inside : s.state.inRoom with
      | false => rfl
      | true => exact absurd (sound.member inside).2.2 owed
    have asked : s.joinRequested = true := by simpa [wants, outside] using yes
    simp [asked] at count
    omega

/-- The verdict that the session waits for lets it into the room. -/
theorem pop_admitted (h : s.Standing p (true :: vs) member) (fresh : s.staleReplies = 0)
    (asked : s.joinRequested = true) (link : t.link = s.link) (state : t.state = .joined)
    (peer : t.peer = some p) (joinRequested : t.joinRequested = false)
    (staleReplies : t.staleReplies = s.staleReplies) : t.Standing p vs member := by
  refine h.pop link (fun _ => peer) ?_ ?_ fun _ _ _ => rfl
  · simp [wants, state, joinRequested, asked, SessionState.inRoom]
  · simp [Actor.owed, joinRequested, staleReplies, fresh]

/-- The session leaves, and says so. -/
theorem left (h : s.Standing p vs member) (link : t.link = s.link.push (.leave s.room))
    (state : t.state = .init) (joinRequested : t.joinRequested = false)
    (staleReplies : t.staleReplies = s.owed) : t.Standing p vs member := by
  have asks := asks_push link h.reachable rfl
  have count := h.owed
  refine ⟨?_, ?_, ?_, ?_, ?_, ?_⟩
  · rw [link]
    exact isOpen_push h.reachable
  · simp [state, SessionState.inRoom]
  · simpa [Actor.owed, joinRequested, staleReplies, asks] using count
  · simp [asks, wants, state, joinRequested, SessionState.inRoom]
  · simp [asks]
  · simp [asks]

/-- The session asks to join again. -/
theorem rejoined (h : s.Standing p vs member) (link : t.link = s.link.push (.join s.room))
    (state : t.state = .init) (joinRequested : t.joinRequested = true)
    (staleReplies : t.staleReplies = s.staleReplies) : t.Standing p vs member := by
  have asks := asks_push link h.reachable rfl
  have count := h.owed
  simp only [Actor.owed] at count
  refine ⟨?_, ?_, ?_, ?_, ?_, ?_⟩
  · rw [link]
    exact isOpen_push h.reachable
  · simp [state, SessionState.inRoom]
  · simp only [Actor.owed, joinRequested, staleReplies, asks, List.count_append, if_true]
    simp only [List.count_singleton_self]
    omega
  · simp [asks, wants, joinRequested]
  · simp [asks]
  · simp [asks]

/-! ### What the relay does about an ask -/

theorem asks_next {rest : List ClientEvent} (next : s.link.queue = e :: rest)
    (link : t.link = { s.link with queue := rest }) : s.asks = e.ask?.toList ++ t.asks := by
  unfold Actor.asks
  rw [next, link, List.filterMap_cons]
  cases e.ask? <;> rfl

/-- The relay has handled a message. -/
theorem message {rest : List ClientEvent} (h : s.Standing p vs member)
    (next : s.link.queue = e :: rest) (silent : e.ask? = none)
    (session : t.toSession = s.toSession) (link : t.link = { s.link with queue := rest }) :
    t.Standing p vs member := by
  have asks := asks_next next link
  simp only [silent, Option.toList_none, List.nil_append] at asks
  refine h.chat ⟨?_, ?_, ?_, ?_, ?_, ?_, asks.symm⟩
  · rw [session]
  · rw [session]
  · rw [session]
  · rw [session]
  · rw [session]
  · rw [link]
    rfl

/-- The relay has handled an ask: the verdict on it, if it was a join, is the last one and tells
whether the peer is a member now. -/
theorem handled {rest : List ClientEvent} {b : Bool} {verdict : List Bool}
    (h : s.Standing p vs member) (next : s.link.queue = e :: rest) (ask : e.ask? = some b)
    (session : t.toSession = s.toSession) (link : t.link = { s.link with queue := rest })
    (reply : b = true ∧ (verdict = [true] ∧ member' ∨ verdict = [false] ∧ ¬ member') ∨
      b = false ∧ verdict = [] ∧ ¬ member') : t.Standing p (vs ++ verdict) member' := by
  have asks := asks_next next link
  simp only [ask, Option.toList_some, List.singleton_append] at asks
  have wants : t.wants = s.wants := by
    unfold Actor.wants
    rw [session]
  have owed : t.owed = s.owed := by
    unfold Actor.owed
    rw [session]
  have count := h.owed
  have last := h.last
  rw [asks, List.getLast?_cons] at last
  refine ⟨?_, ?_, ?_, ?_, ?_, ?_⟩
  · rw [link]
    exact h.reachable
  · rw [session]
    exact h.known
  · rw [asks] at count
    rw [owed]
    rcases reply with ⟨rfl, reply⟩ | ⟨rfl, rfl, -⟩
    · have one : verdict.length = 1 := by rcases reply with ⟨rfl, -⟩ | ⟨rfl, -⟩ <;> rfl
      rw [List.count_cons_self] at count
      rw [List.length_append, one]
      omega
    · simpa using count
  · intro b' later
    rw [wants]
    refine last b' ?_
    rw [Option.mem_def.mp later]
    rfl
  · -- What was asked for last is what the session wants.
    intro none yes
    have asked : b = true := by simpa [none, ← wants, yes] using last
    rcases reply with ⟨-, ⟨rfl, inside⟩ | ⟨rfl, outside⟩⟩ | ⟨no, -⟩
    · simpa using inside
    · simpa using outside
    · rw [asked] at no
      cases no
  · intro none no
    have asked : b = false := by simpa [none, ← wants, no] using last
    rcases reply with ⟨yes, -⟩ | ⟨-, -, outside⟩
    · rw [asked] at yes
      cases yes
    · exact outside

/-- What others do neither asks nor brings a verdict. -/
theorem iff (h : s.Standing p vs member) (same : member' ↔ member) : s.Standing p vs member' where
  reachable := h.reachable
  known := h.known
  owed := h.owed
  last := h.last
  granted none yes := same.trans (h.granted none yes)
  outside none no := fun inside => h.outside none no (same.mp inside)

/-! ### When the relay has handled all asks -/

/-- The session is a member if it wants to be one, unless the last verdict on its way turns it
away. -/
theorem member_iff (h : s.Standing p vs member) (none : s.asks = []) :
    member ↔ s.wants = true ∧ vs.getLast? ≠ some false := by
  cases wants : s.wants with
  | true =>
    rw [h.granted none wants]
    exact (and_iff_right rfl).symm
  | false => exact iff_of_false (h.outside none wants) fun both => Bool.false_ne_true both.1

/-- A session that no verdict comes to waits for none. -/
theorem not_asked (h : s.Standing p [] member) (none : s.asks = []) :
    s.joinRequested = false := by
  have owed := h.owed
  rw [none] at owed
  cases asked : s.joinRequested with
  | false => rfl
  | true => simp [Actor.owed, asked] at owed

end Standing

/-! ## Turns -/

/-- An input whose turn it is. -/
theorem Handled.standing (turn : Handled a s i t) (sound : s.Sound)
    (own : ∀ event, i = .server event → event.IsFor s.room p)
    (h : s.Standing p (i.verdict?.toList ++ vs) member) (alive : t.state ≠ .leaved) :
    t.Standing p vs member := by
  cases chat : i.isChat with
  | true =>
    have silent : i.verdict? = none := by
      cases i with
      | server event => cases event <;> first | rfl | cases chat
      | _ => rfl
    rw [silent] at h
    exact h.chat (turn.chat chat)
  | false =>
    cases turn with
    | ignored ignores =>
      cases i with
      | server event =>
        cases event with
        | joined r q =>
          have here : r = s.room := by
            rcases own _ rfl nofun with same | same <;> cases same
            rfl
          -- No verdict is owed, so this is one on a second join.
          obtain ⟨fresh, notAsked⟩ := ignores.resolve_left fun foreign => foreign here
          have notAsked : s.joinRequested = false := by
            refine notAsked.elim (fun busy => ?_) id
            cases asked : s.joinRequested with
            | false => rfl
            | true => exact absurd (sound.asked asked) busy
          exact h.pop_joined (by simp [owed, fresh, notAsked])
        | full r q =>
          have here : r = s.room := by
            rcases own _ rfl nofun with same | same <;> cases same
            rfl
          exact (ignores.resolve_left fun foreign => foreign here).elim
        | _ => cases chat
      | engine => cases chat
      | leave | exit | rejoin | linkLost => exact h
    | staleReply reply owed =>
      rcases reply with rfl | rfl
      · exact h.pop_stale sound owed
      · exact h.pop_stale sound owed
    | admitted fresh waiting asked engine =>
      have mine := own _ rfl nofun
      rcases mine with same | same <;> cases same
      rcases engine with rfl | rfl
      · exact h.pop_admitted fresh asked rfl rfl rfl rfl rfl
      · exact h.pop_admitted fresh asked rfl rfl rfl rfl rfl
    | dismissed | lost => exact absurd rfl alive
    | @left exit running =>
      cases exit with
      | true => exact absurd rfl alive
      | false => exact h.left rfl rfl rfl rfl
    | unprovided waiting => exact h.chat (.of_same rfl rfl rfl rfl rfl)
    | rejoined waiting => exact h.rejoined rfl waiting rfl rfl
    | _ => cases chat

/-- An input arrives. -/
theorem Standing.handleInput (h : s.Standing p (i.verdict?.toList ++ vs) member) (sound : s.Sound)
    (own : ∀ event, i = .server event → event.IsFor s.room p) (a : Answers)
    (alive : (s.handleInput a i).state ≠ .leaved) : (s.handleInput a i).Standing p vs member := by
  unfold Actor.handleInput at alive ⊢
  split at alive
  case isTrue busy =>
    rw [if_pos busy]
    simp only [Bool.and_eq_true, Bool.not_eq_true', Option.isSome_iff_ne_none] at busy
    -- A session waits for nothing while it negotiates.
    have waits := (sound.wait busy.1 busy.2).waiting (by simp)
    have settled := sound.member waits.1
    have kept : s.Chat { s with backlog := s.backlog ++ [i] } := .of_same rfl rfl rfl rfl rfl
    refine Standing.chat ?_ kept
    cases verdict : i.verdict? with
    | none =>
      rw [verdict] at h
      exact h
    | some v =>
      have yes : v = true := by
        cases i with
        | server event => cases event <;> cases verdict <;> first | rfl | cases busy.2
        | _ => cases verdict
      rw [verdict, yes] at h
      exact h.pop_joined (by simp [Actor.owed, settled])
  case isFalse free =>
    rw [if_neg free]
    have turn := dispatch_handled a s i
    have chat := (sound.dispatch a i).drain_chat a
    refine Standing.chat (turn.standing sound own h fun left => alive ?_) chat
    exact chat.leaved.mpr left

end Actor

/-! ## Running sessions -/

namespace Runner

variable {a : Answers} {q q' : Runner} {m : Act} {p : PeerId} {event : ServerEvent}
  {coming coming' : List ServerEvent} {member : Prop}

/-- The verdicts on their way to a session, in its inbox and still on its line. -/
def verdicts (q : Runner) (coming : List ServerEvent) : List Bool :=
  q.inbox.filterMap SessionInput.verdict? ++ coming.filterMap ServerEvent.verdict?

/-- How a running session fits what is on its way to it and its membership. -/
structure Standing (q : Runner) (p : PeerId) (coming : List ServerEvent) (member : Prop) :
    Prop where
  actor : q.actor.state ≠ .leaved → q.actor.Standing p (q.verdicts coming) member
  inbox : ∀ event, .server event ∈ q.inbox → event.IsFor q.actor.room p
  coming : ∀ event ∈ coming, event.IsFor q.actor.room p

/-- A session that has just been started. -/
theorem Standing.start (a : Answers) (r : RoomId) (p : PeerId) :
    (Runner.start a r .fresh).Standing p [] False := by
  refine ⟨fun _ => ?_, nofun, nofun⟩
  -- Without media it asks for nothing; with media its first ask is a join.
  rcases Actor.enterRoom_cases a (.new r .fresh) with h | h
  · unfold Runner.start
    rw [h]
    refine ⟨rfl, nofun, Nat.le_refl _, nofun, ?_, fun _ _ => id⟩
    intro _ yes
    cases yes
  · unfold Runner.start
    rw [h]
    refine ⟨rfl, nofun, Nat.le_refl _, ?_, nofun, nofun⟩
    intro b asked
    cases asked
    rfl

/-- An event comes into the inbox. -/
theorem Standing.deliver (h : q.Standing p (event :: coming) member) (held : q.handle = true)
    (running : q.finished = false) : (q.push (.server event)).Standing p coming member := by
  have pushed : q.push (.server event) = { q with inbox := q.inbox ++ [.server event] } := by
    simp [push, held, running]
  rw [pushed]
  refine ⟨fun alive => ?_, fun event' mem => ?_, fun event' mem => ?_⟩
  · have same : ({ q with inbox := q.inbox ++ [.server event] } : Runner).verdicts coming =
        q.verdicts (event :: coming) := by
      unfold verdicts
      rw [List.filterMap_append, List.append_assoc, List.filterMap_cons]
      simp only [List.filterMap_cons, List.filterMap_nil, SessionInput.verdict?]
      cases event.verdict? <;> rfl
    rw [same]
    exact h.actor alive
  · rcases List.mem_append.mp mem with mem | new
    · exact h.inbox event' mem
    · cases List.mem_singleton.mp new
      exact h.coming event List.mem_cons_self
  · exact h.coming event' (List.mem_cons_of_mem _ mem)

/-- A session that has ended does not care what gets lost of what is on its way. -/
theorem Standing.lose (h : q.Standing p coming member) (sound : q.Sound)
    (ended : q.finished = true) (less : coming' ⊆ coming) : q.Standing p coming' member where
  actor alive := absurd (sound.finished.mp ended) alive
  inbox := h.inbox
  coming event mem := h.coming event (less mem)

/-- An input of its user or of an engine brings no verdict. -/
theorem Standing.push (h : q.Standing p coming member) {i : SessionInput}
    (own : ∀ event, i ≠ .server event) : (q.push i).Standing p coming member := by
  unfold Runner.push
  split
  · exact h
  · refine ⟨fun alive => ?_, fun event mem => ?_, h.coming⟩
    · have same : ({ q with inbox := q.inbox ++ [i] } : Runner).verdicts coming =
          q.verdicts coming := by
        have silent : i.verdict? = none := by
          cases i with
          | server event => exact absurd rfl (own event)
          | _ => rfl
        simp [verdicts, silent]
      rw [same]
      exact h.actor alive
    · rcases List.mem_append.mp mem with mem | new
      · exact h.inbox event mem
      · exact absurd (List.mem_singleton.mp new).symm (own event)

/-- A turn has ended, and with it the session, if it has left for good. -/
theorem Standing.endIfLeaved (actor : q.actor.state ≠ .leaved →
      q.actor.Standing p (q.verdicts coming) member)
    (inbox : ∀ event, .server event ∈ q.inbox → event.IsFor q.actor.room p)
    (coming' : ∀ event ∈ coming, event.IsFor q.actor.room p) :
    q.endIfLeaved.Standing p coming member := by
  unfold Runner.endIfLeaved
  split
  case isTrue left => exact ⟨fun alive => absurd left alive, nofun, coming'⟩
  case isFalse => exact ⟨actor, inbox, coming'⟩

/-- Whatever a session or its user does, it fits what is on its way. -/
theorem Acted.standing (done : Acted a q m q') (sound : q.Sound)
    (h : q.Standing p coming member) : q'.Standing p coming member := by
  have running := sound.alive
  have coming' {t : Actor} (room : t.room = q.actor.room) :
      ∀ event ∈ coming, event.IsFor t.room p := room ▸ h.coming
  cases done with
  | pushed _ own => exact h.push own
  | handleDropped => exact ⟨h.actor, h.inbox, h.coming⟩
  | idle => exact h
  | created =>
    refine ⟨fun alive => ?_, h.inbox, h.coming⟩
    exact (h.actor alive).chat (.of_same rfl rfl rfl rfl rfl)
  | @tookInput i rest next on =>
    have room := Actor.handleInput_room a q.actor i
    have inbox : ∀ event, .server event ∈ i :: rest → event.IsFor q.actor.room p := next ▸ h.inbox
    refine .endIfLeaved (fun alive => ?_) (fun event mem => ?_) (coming' room)
    · have actor := h.actor (running on)
      have verdicts : q.verdicts coming = i.verdict?.toList ++
          ({ q with actor := q.actor.handleInput a i, inbox := rest } : Runner).verdicts coming := by
        unfold Runner.verdicts
        rw [next, List.filterMap_cons]
        cases i.verdict? <;> rfl
      rw [verdicts] at actor
      refine actor.handleInput sound.actor (fun event here => ?_) a alive
      exact inbox event (here ▸ List.mem_cons_self)
    · show event.IsFor (q.actor.handleInput a i).room p
      rw [room]
      exact inbox event (List.mem_cons_of_mem _ mem)
  | @tookResult c rest next on =>
    have room := Actor.complete_room a q.actor c
    have bound := sound.bound next
    refine .endIfLeaved (fun _ => ?_) (fun event mem => ?_) (coming' room)
    · exact (h.actor (running on)).chat (sound.actor.complete_chat bound a)
    · show event.IsFor (q.actor.complete a c).room p
      rw [room]
      exact h.inbox event mem
  | abandoned _ _ on =>
    have gone := Actor.leave_eq (running on) true
    rw [gone]
    exact .endIfLeaved (fun alive => absurd rfl alive) h.inbox (coming' rfl)

/-- A session that has left does not come back. -/
theorem Acted.alive (done : Acted a q m q') (sound : q.Sound)
    (alive : q'.actor.state ≠ .leaved) : q.actor.state ≠ .leaved := by
  intro left
  have ended := sound.finished.mpr left
  cases done with
  | pushed =>
    rw [push_actor] at alive
    exact alive left
  | handleDropped | idle | created => exact alive left
  | tookInput _ on | tookResult _ on | abandoned _ _ on =>
    rw [ended] at on
    cases on

/-- What others do brings no verdict, and leaves the membership as it is. -/
theorem Standing.overhear {member' : Prop} (h : q.Standing p coming member)
    (silent : ∀ event ∈ coming', event.verdict? = none) (same : member' ↔ member) :
    q.Standing p (coming ++ coming') member' := by
  have verdicts : q.verdicts (coming ++ coming') = q.verdicts coming := by
    have none : coming'.filterMap ServerEvent.verdict? = [] :=
      List.filterMap_eq_nil_iff.mpr silent
    simp [Runner.verdicts, none]
  refine ⟨fun alive => ?_, h.inbox, fun event mem => ?_⟩
  · rw [verdicts]
    exact (h.actor alive).iff same
  · rcases List.mem_append.mp mem with mem | mem
    · exact h.coming event mem
    · exact fun verdict => absurd (silent event mem) verdict

end Runner

end Parley
