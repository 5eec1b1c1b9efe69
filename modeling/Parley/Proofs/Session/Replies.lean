import Mathlib.Data.List.Induction
import Parley.Proofs.Session.Departure
import Parley.Proofs.Session.Standing

/-!
# Replies to joins that were given up

The relay answers every join, and it answers them in order. A session that leaves while a join is
under way gives that join up, and its reply must not be taken for the one to a later join. Nothing
in a reply says which join it answers, so the session counts: it remembers one reply to pass over
for each leave that gave up a join.

`owing` keeps the true account over what passed between a session and the relay, and `counted` the
one that the session keeps. They differ in what a session gives up that asked again while its join
was under way: two joins are owed a reply, and one is counted. `takes_effect_iff_uncounted` says
that this is all there is to it. As long as no join is repeated, no reply to a join that was given
up takes effect; and if one does, the counted ones have all been passed over, and what is left was
never counted. `repeatedJoin_misread` is such a run.
-/

namespace Parley

/-! ## Accounts -/

/-- What passes between a session and the relay about its joins. -/
inductive Dealing where
  /-- The session asks to join. -/
  | join
  /-- The session leaves, and gives up the joins that are under way. -/
  | leave
  /-- The session takes a reply. -/
  | reply
  deriving DecidableEq

/-- How many replies are owed to a session. -/
structure Owing where
  /-- Replies to joins that were given up. -/
  old : Nat
  /-- Replies to joins since. -/
  new : Nat
  deriving DecidableEq

/-- Replies come in the order of the joins, so those to joins that were given up come first. -/
def Owing.replied (o : Owing) : Owing :=
  if o.old = 0 then { o with new := o.new - 1 } else { o with old := o.old - 1 }

/-- The joins that are under way are given up. -/
def Owing.left (o : Owing) : Owing := ⟨o.old + o.new, 0⟩

/-- Every join is owed a reply. -/
def Owing.after (o : Owing) : Dealing → Owing
  | .join => { o with new := o.new + 1 }
  | .leave => o.left
  | .reply => o.replied

/-- A session knows no more than that a join is under way, however often it asked. -/
def Owing.countedAfter (o : Owing) : Dealing → Owing
  | .join => { o with new := 1 }
  | .leave => o.left
  | .reply => o.replied

/-- The replies that are owed to a session. -/
def owing (history : List Dealing) : Owing := history.foldl Owing.after ⟨0, 0⟩

/-- The replies that a session counts on. -/
def counted (history : List Dealing) : Owing := history.foldl Owing.countedAfter ⟨0, 0⟩

/-- The session never asked again while it waited for the reply to a join. -/
def Unrepeated (history : List Dealing) : Prop :=
  ∀ n < history.length, history[n]? = some .join → (owing (history.take n)).new = 0

instance (history : List Dealing) : Decidable (Unrepeated history) :=
  inferInstanceAs (Decidable (∀ n < history.length, _))

theorem owing_snoc (history : List Dealing) (d : Dealing) :
    owing (history ++ [d]) = (owing history).after d := by
  simp [owing]

theorem counted_snoc (history : List Dealing) (d : Dealing) :
    counted (history ++ [d]) = (counted history).countedAfter d := by
  simp [counted]

/-- Without repetitions the session counts right. -/
theorem Unrepeated.counted_eq {history : List Dealing} (h : Unrepeated history) :
    counted history = owing history := by
  induction history using List.reverseRecOn with
  | nil => rfl
  | append_singleton history d ih =>
    have earlier : Unrepeated history := by
      intro n lt asked
      have := h n (by simp; omega) (by rw [List.getElem?_append_left lt]; exact asked)
      rwa [List.take_append_of_le_length (Nat.le_of_lt lt)] at this
    rw [owing_snoc, counted_snoc, ih earlier]
    cases d with
    | join =>
      have alone := h history.length (by simp) (by simp)
      rw [List.take_left' rfl] at alone
      simp [Owing.after, Owing.countedAfter, alone]
    | leave | reply => rfl

/-- The next reply answers a join that the session has given up since. -/
def GivenUp (history : List Dealing) : Prop :=
  ∃ before after, history = before ++ .join :: after ∧
    before.count .join = history.count .reply ∧ .leave ∈ after

/-- A join that has had no reply is owed one. -/
theorem joins_le_owing (history : List Dealing) :
    history.count .join ≤
      history.count .reply + (owing history).old + (owing history).new := by
  induction history using List.reverseRecOn with
  | nil => exact Nat.le_refl _
  | append_singleton history d ih =>
    rw [owing_snoc, List.count_append, List.count_append]
    cases d with
    | join => simp [Owing.after]; omega
    | leave => simp [Owing.after, Owing.left]; omega
    | reply =>
      by_cases none : (owing history).old = 0 <;> simp [Owing.after, Owing.replied, none] <;> omega

/-- What is owed for joins that were given up is only ever settled by replies. -/
theorem owing_old_le_append (history later : List Dealing) :
    (owing history).old ≤ later.count .reply + (owing (history ++ later)).old := by
  induction later using List.reverseRecOn with
  | nil => simp
  | append_singleton later d ih =>
    rw [← List.append_assoc, owing_snoc, List.count_append]
    cases d with
    | join => simpa [Owing.after] using ih
    | leave => simp [Owing.after, Owing.left]; omega
    | reply =>
      by_cases none : (owing (history ++ later)).old = 0 <;>
        simp [Owing.after, Owing.replied, none] <;> omega

/-- A reply to a join that was given up is owed as such. -/
theorem GivenUp.owing_old {history : List Dealing} (h : GivenUp history) :
    (owing history).old ≠ 0 := by
  obtain ⟨before, after, split, answered, left⟩ := h
  obtain ⟨between, later, rfl⟩ := List.append_of_mem left
  -- At the leave, all joins up to then become old ones.
  have given : (owing (before ++ .join :: between ++ [.leave])).old =
      (owing (before ++ .join :: between)).old + (owing (before ++ .join :: between)).new := by
    rw [owing_snoc]
    rfl
  have joins := joins_le_owing (before ++ .join :: between)
  have kept := owing_old_le_append (before ++ .join :: between ++ [.leave]) later
  have whole : history = before ++ .join :: between ++ [.leave] ++ later := by simp [split]
  rw [← whole, given] at kept
  rw [whole] at answered
  simp only [List.count_append, List.count_cons, List.count_nil] at answered joins kept
  simp at answered joins
  omega

/-! ## Sessions -/

/-- What a request says about joins. -/
def Request.dealing? : Request → Option Dealing
  | .send (.join _) => some .join
  | .send (.leave _) => some .leave
  | _ => none

/-- The input is the reply to a join to a room. -/
def SessionInput.repliesIn (room : RoomId) : SessionInput → Bool
  | .server (.joined r _) | .server (.full r _) => r = room
  | _ => false

/-- A reply is a verdict on a join to the room. -/
theorem SessionInput.repliesIn_cases {room : RoomId} {i : SessionInput}
    (reply : i.repliesIn room = true) :
    ∃ p, i = .server (.joined room p) ∨ i = .server (.full room p) := by
  unfold SessionInput.repliesIn at reply
  split at reply
  case h_1 r p =>
    obtain rfl : r = room := by simpa using reply
    exact ⟨p, .inl rfl⟩
  case h_2 r p =>
    obtain rfl : r = room := by simpa using reply
    exact ⟨p, .inr rfl⟩
  case h_3 => cases reply

namespace Actor

variable {a : Answers} {s t : Actor} {i : SessionInput} {history : List Dealing}

/-- What the session has said about joins. -/
def dealings (s : Actor) : List Dealing := s.record.filterMap Request.dealing?

/-- The session counts as it should count by what passed between it and the relay. -/
def Counts (s : Actor) (history : List Dealing) : Prop :=
  s.state ≠ .leaved →
    counted history = ⟨s.staleReplies, if s.joinRequested then 1 else 0⟩

theorem Counts.chat (h : s.Counts history) (chat : s.Chat t) : t.Counts history := by
  intro running
  rw [chat.staleReplies, chat.joinRequested]
  exact h fun left => running (chat.leaved.mpr left)

/-- A session that counts on nothing is not put out by one reply more. -/
theorem Counts.overhear (h : s.Counts history)
    (settled : s.joinRequested = false ∧ s.staleReplies = 0) :
    s.Counts (history ++ [.reply]) := by
  intro running
  have count := h running
  rw [settled.1, settled.2] at count ⊢
  rw [counted_snoc, count]
  rfl

theorem dealings_append {rs : List Request} (record : t.record = s.record ++ rs) :
    t.dealings = s.dealings ++ rs.filterMap Request.dealing? := by
  simp [Actor.dealings, record]

/-- What is said about no join. -/
theorem dealings_same {rs : List Request} (record : t.record = s.record ++ rs)
    (silent : ∀ r ∈ rs, r.dealing? = none) : t.dealings = s.dealings := by
  rw [dealings_append record, List.filterMap_eq_nil_iff.mpr silent, List.append_nil]

theorem dealings_equipped (s : Actor) : s.equipped.dealings = s.dealings :=
  dealings_same rfl (by simp [Request.dealing?])

theorem dealings_denied (s : Actor) : s.denied.dealings = s.dealings :=
  dealings_same rfl (by simp [Request.dealing?])

theorem dealings_joining (s : Actor) (count : Nat) :
    (s.joining count).dealings = s.dealings ++ [.join] := by
  rw [dealings_append (s := s) rfl]
  rfl

theorem dealings_departed (s : Actor) (exit : Bool) :
    (s.departed exit).dealings = s.dealings ++ [.leave] := by
  rw [dealings_append (s := s) (List.append_assoc ..)]
  congr 1
  cases s.engine <;> cases exit <;> rfl

/-- A session says something about joins only when it leaves and when it is asked to join again. -/
theorem Handled.dealings (turn : Handled a s i t) (leave : i ≠ .leave) (exit : i ≠ .exit)
    (rejoin : i ≠ .rejoin) : t.dealings = s.dealings := by
  cases turn with
  | @left e =>
    cases e with
    | true => exact absurd rfl exit
    | false => exact absurd rfl leave
  | unprovided | rejoined => exact absurd rfl rejoin
  | ignored | staleReply => rfl
  | admitted _ _ _ engine =>
    rcases engine with rfl | rfl
    · exact dealings_equipped _
    · exact dealings_denied _
  | offered _ _ engine =>
    refine (dealings_same rfl (by simp [Request.dealing?])).trans ?_
    cases engine with
    | held => rfl
    | acquired => exact dealings_equipped s
  | unequipped => exact dealings_denied s
  | dismissed | lost =>
    refine dealings_same (List.append_assoc ..) fun r hr => ?_
    simp only [List.mem_append, List.mem_map, List.mem_cons, List.not_mem_nil, or_false] at hr
    rcases hr with ⟨e, -, rfl⟩ | rfl | rfl <;> rfl
  | unbound | tookOffer | tookAnswer | refused | remoteCandidate | localCandidate | remoteTrack =>
    exact dealings_same rfl (by simp [Request.dealing?])

/-- In the room there is nothing to ask for again, and what waits says nothing about joins. -/
theorem Handled.dealings_of_inRoom (turn : Handled a s i t) (inside : s.state.inRoom = true)
    (later : i.preempts = false) : t.dealings = s.dealings := by
  by_cases rejoin : i = .rejoin
  · subst rejoin
    have inside (waiting : s.state = .init) : False := by
      rw [waiting] at inside
      cases inside
    generalize hi : SessionInput.rejoin = i at turn
    cases turn with
    | ignored => rfl
    | unprovided waiting | rejoined waiting => exact (inside waiting).elim
    | @left exit => cases exit <;> cases hi
    | _ => cases hi
  · exact turn.dealings (by rintro rfl; cases later) (by rintro rfl; cases later) rejoin

theorem Sound.drain_dealings (h : s.Sound) (a : Answers) : (s.drain a).dealings = s.dealings := by
  refine Sound.drain_induction (P := fun t => t.dealings = s.dealings)
    (fun t i rest u sound same _ hb popped turn => ?_) h rfl
  have inside := (sound.waiting (by simp [hb])).1
  have later := sound.queued i (by simp [hb])
  exact (turn.dealings_of_inRoom inside later).trans same

theorem Sound.complete_dealings {c : Completion} (h : s.Sound)
    (bound : c.generation = s.generation → s.counterpart ≠ none) (a : Answers) :
    (s.complete a c).dealings = s.dealings := by
  by_cases current : c.generation = s.generation
  · rw [complete_of_current current, (h.applied (bound current) a c).drain_dealings a]
    refine applied_induction (P := fun t => t.dealings = s.dealings) rfl fun d t _ published => ?_
    cases published with
    | nowhere => rfl
    | refused | sent => exact dealings_same rfl (by simp [Request.dealing?])
  · rw [complete_of_old current]

/-- The only reply that is ignored is a `joined` that nobody waits for. -/
theorem Ignores.settled (ignores : s.Ignores i) (sound : s.Sound)
    (reply : i.repliesIn s.room = true) : s.joinRequested = false ∧ s.staleReplies = 0 := by
  obtain ⟨p, rfl | rfl⟩ := SessionInput.repliesIn_cases reply
  · rcases ignores with foreign | ⟨fresh, away | idle⟩
    · exact absurd rfl foreign
    · refine ⟨?_, fresh⟩
      cases asked : s.joinRequested with
      | false => rfl
      | true => exact absurd (sound.asked asked) away
    · exact ⟨idle, fresh⟩
  · exact (ignores.elim (absurd rfl) id).elim

/-- The count stays right in a turn: first comes the reply, if the input is one, and then what the
session says. -/
theorem Handled.counts (turn : Handled a s i t) (sound : s.Sound) (h : s.Counts history) :
    t.Counts (history ++ (if i.repliesIn s.room then [.reply] else []) ++
      t.dealings.drop s.dealings.length) := by
  have chat := turn.chat
  have dealings := turn.dealings
  have said {new : List Dealing} (eq : t.dealings = s.dealings ++ new) :
      t.dealings.drop s.dealings.length = new := by
    rw [eq, List.drop_left]
  have silent (same : t.dealings = s.dealings) : t.dealings.drop s.dealings.length = [] :=
    said (by rw [same, List.append_nil])
  cases turn with
  | @ignored i ignores =>
    rw [silent rfl, List.append_nil]
    split
    case isFalse => simpa using h
    case isTrue reply => exact h.overhear (ignores.settled sound reply)
  | @staleReply p event reply owed =>
    have isReply : (SessionInput.server event).repliesIn s.room = true := by
      rcases reply with rfl | rfl <;> simp [SessionInput.repliesIn]
    rw [silent rfl, List.append_nil, isReply]
    intro running
    rw [if_pos rfl, counted_snoc, h running]
    simp [Owing.countedAfter, Owing.replied, owed]
  | @admitted p u fresh waiting asked engine =>
    have same : u.dealings = s.dealings := by
      rcases engine with rfl | rfl
      · exact dealings_equipped _
      · exact dealings_denied _
    have counts : u.joinRequested = false ∧ u.staleReplies = 0 := by
      rcases engine with rfl | rfl <;> exact ⟨rfl, fresh⟩
    rw [silent same, List.append_nil]
    intro _
    have count := h (by simp [waiting])
    simp only [SessionInput.repliesIn, decide_true, if_true, counted_snoc, count, counts]
    simp [Owing.countedAfter, Owing.replied, fresh, asked]
  | dismissed | lost => exact fun running => absurd rfl running
  | @left exit running =>
    cases exit with
    | true => exact fun running => absurd rfl running
    | false =>
      intro _
      have count := h running
      rw [said (dealings_departed s false), counted_snoc]
      simp [SessionInput.repliesIn, count, Owing.countedAfter, Owing.left, departed, released]
  | rejoined waiting =>
    rw [said (dealings_joining s _)]
    intro _
    simp [SessionInput.repliesIn, counted_snoc, h (by simp [waiting]), Owing.countedAfter, joining]
  | unprovided =>
    rw [silent (dealings_same rfl (by simp [Request.dealing?])), List.append_nil]
    exact (List.append_nil history).symm ▸ h.chat (.of_same rfl rfl rfl rfl rfl)
  | _ =>
    rw [silent (dealings (by simp) (by simp) (by simp))]
    simpa [SessionInput.repliesIn] using h.chat (chat rfl)

/-- The count stays right when an input is taken, be it that it waits. -/
theorem Counts.handleInput (h : s.Counts history) (sound : s.Sound) (a : Answers)
    (i : SessionInput) :
    (s.handleInput a i).Counts (history ++ (if i.repliesIn s.room then [.reply] else []) ++
      (s.handleInput a i).dealings.drop s.dealings.length) := by
  unfold Actor.handleInput
  split
  case isTrue busy =>
    have pending : s.pending ≠ none := by
      simp only [Bool.and_eq_true, Option.isSome_iff_ne_none] at busy
      exact busy.1
    have inside := sound.inRoom (sound.bound (sound.busy pending))
    have silent : ({ s with backlog := s.backlog ++ [i] } : Actor).dealings = s.dealings := rfl
    rw [silent, List.drop_length, List.append_nil]
    split
    · exact h.overhear (sound.member inside).2
    · rw [List.append_nil]
      exact h.chat (.of_same rfl rfl rfl rfl rfl)
  case isFalse =>
    have sound' := sound.dispatch a i
    rw [sound'.drain_dealings a]
    exact ((dispatch_handled a s i).counts sound h).chat (sound'.drain_chat a)

/-- What somebody makes of a session when they look at it from outside is what it was, and nothing
was asked of anybody. -/
structure Unmoved (s t : Actor) : Prop where
  state : t.state = s.state
  peer : t.peer = s.peer
  engine : t.engine = s.engine
  tracks : t.tracks = s.tracks
  link : t.link = s.link
  record : t.record = s.record

theorem Unmoved.refl (s : Actor) : s.Unmoved s := ⟨rfl, rfl, rfl, rfl, rfl, rfl⟩

/-- A reply that is counted as one to a join that was given up does nothing but lower the count. -/
theorem Sound.handleInput_stale (h : s.Sound) (a : Answers) (reply : i.repliesIn s.room = true)
    (owed : s.staleReplies ≠ 0) :
    s.handleInput a i = { s with staleReplies := s.staleReplies - 1 } := by
  -- A session in the room counts on nothing, so this one is outside, and nothing waits.
  have outside : s.state.inRoom = false := by
    cases inside : s.state.inRoom with
    | false => rfl
    | true => exact absurd (h.member inside).2.2 owed
  have free : s.pending = none := by
    cases busy : s.pending with
    | none => rfl
    | some k =>
      have inside := h.inRoom (h.bound (h.busy (by simp [busy])))
      rw [outside] at inside
      cases inside
  have passed : s.dispatch a i = { s with staleReplies := s.staleReplies - 1 } := by
    obtain ⟨p, rfl | rfl⟩ := SessionInput.repliesIn_cases reply
    · simp [Actor.dispatch, onServer, ServerEvent.room, onJoined, consumeStaleReply, owed]
    · simp [Actor.dispatch, onServer, ServerEvent.room, onFull, consumeStaleReply, owed]
  unfold Actor.handleInput
  rw [if_neg (by simp [free]), passed]
  exact drain_of_empty a (h.nothing_waits outside)

/-- Any other reply is passed over only if it is a `joined` that the session does not wait for. -/
theorem Sound.handleInput_fresh (h : s.Sound) (a : Answers)
    (settled : s.backlog ≠ [] → s.pending ≠ none) (running : s.state ≠ .leaved)
    (reply : i.repliesIn s.room = true) (fresh : s.staleReplies = 0) :
    ¬ s.Unmoved (s.handleInput a i) ↔ i.verdict? = some false ∨ s.joinRequested = true := by
  obtain ⟨p, rfl | rfl⟩ := SessionInput.repliesIn_cases reply
  · cases asked : s.joinRequested with
    | true =>
      have waiting := h.asked asked
      have free := (h.idle (h.resting (.inl waiting))).2.1
      have admitted : (s.dispatch a (.server (.joined s.room p))).state = .joined := by
        simp [Actor.dispatch, onServer, ServerEvent.room, onJoined, consumeStaleReply, fresh,
          waiting, asked]
      have inside : (s.handleInput a (.server (.joined s.room p))).state.inRoom = true := by
        unfold Actor.handleInput
        rw [if_neg (by simp [free]), ((h.dispatch a _).drain_chat a).inRoom, admitted]
        rfl
      refine iff_of_true (fun same => ?_) (.inr rfl)
      rw [same.state, waiting] at inside
      cases inside
    | false =>
      have ignored : s.dispatch a (.server (.joined s.room p)) = s := by
        simp [Actor.dispatch, onServer, ServerEvent.room, onJoined, consumeStaleReply, fresh, asked]
      refine iff_of_false (not_not.mpr ?_) (by simp [SessionInput.verdict?, ServerEvent.verdict?])
      unfold Actor.handleInput
      split
      case isTrue => exact ⟨rfl, rfl, rfl, rfl, rfl, rfl⟩
      case isFalse now =>
        have free : s.pending = none := by simpa [SessionInput.preempts] using now
        rw [ignored, drain_of_empty a (by by_contra waits; exact settled waits free)]
        exact .refl s
  · have dismissed : (s.dispatch a (.server (.full s.room p))).state = .leaved := by
      simp [Actor.dispatch, onServer, ServerEvent.room, onFull, consumeStaleReply, fresh, tearDown]
    have left : (s.handleInput a (.server (.full s.room p))).state = .leaved := by
      unfold Actor.handleInput
      rw [if_neg (by simp [SessionInput.preempts])]
      exact ((h.dispatch a _).drain_chat a).leaved.mpr dismissed
    exact iff_of_true (fun same => running (same.state.symm.trans left)) (.inl rfl)

/-- A reply that waits comes too late. -/
theorem Sound.late_reply (h : s.Sound) (a : Answers) (reply : i.repliesIn s.room = true)
    (waits : i ∈ s.backlog) (rest : List SessionInput) :
    { s with backlog := rest }.dispatch a i = { s with backlog := rest } := by
  have inside := (h.waiting (List.ne_nil_of_mem waits)).1
  have fresh := (h.member inside).2.2
  have away : s.state ≠ .init := by
    intro waiting
    rw [waiting] at inside
    cases inside
  obtain ⟨p, rfl | rfl⟩ := SessionInput.repliesIn_cases reply
  · simp [Actor.dispatch, onServer, onJoined, consumeStaleReply, fresh, away]
  · cases h.queued _ waits

end Actor

/-! ## Runs -/

namespace Runner

variable {a : Answers} {p : Runner} {past : List Dealing}

/-- The reply that a session takes in a move, if it takes one. -/
def replied (p : Runner) (m : Move) : List Dealing :=
  if (p.hears m).any (·.input.repliesIn p.actor.room) then [.reply] else []

/-- What passes between a session and the relay about joins in a move. -/
def dealt (a : Answers) (p : Runner) (m : Move) : List Dealing :=
  p.replied m ++ (p.move a m).actor.dealings.drop p.actor.dealings.length

/-- What passes between a session and the relay about joins in a run. -/
def dealings (a : Answers) (p : Runner) : List Move → List Dealing
  | [] => []
  | m :: rest => p.dealt a m ++ (p.move a m).dealings a rest

/-- What has passed between a session and the relay about joins, from its start on. -/
def history (a : Answers) (room : RoomId) (link : Link ClientEvent) (moves : List Move) :
    List Dealing :=
  (start a room link).actor.dealings ++ (start a room link).dealings a moves

theorem counts_start (a : Answers) (room : RoomId) (link : Link ClientEvent) :
    (start a room link).actor.Counts (start a room link).actor.dealings := by
  intro _
  rcases Actor.enterRoom_cases a (Actor.new room link) with h | h <;>
  · unfold start
    rw [h]
    rfl

/-- Nothing is heard and nothing is said. -/
theorem counts_silent {q : Runner} {m : Move} (deaf : p.hears m = none)
    (silent : q.actor.dealings = p.actor.dealings) (h : q.actor.Counts past) :
    q.actor.Counts (past ++ (p.replied m ++ q.actor.dealings.drop p.actor.dealings.length)) := by
  unfold replied
  rw [deaf, silent, List.drop_length]
  simpa using h

theorem acted_counts {q : Runner} {m : Act} (sound : p.Sound) (h : p.actor.Counts past)
    (done : Acted a p m q) :
    q.actor.Counts (past ++
      (p.replied (.act m) ++ q.actor.dealings.drop p.actor.dealings.length)) := by
  cases done with
  | pushed taken =>
    exact counts_silent (hears_of_ne taken) (by rw [push_actor]) (by rwa [push_actor])
  | handleDropped => exact counts_silent rfl rfl h
  | idle nothing => exact counts_silent (hears_of_idle nothing) rfl h
  | created => exact counts_silent rfl rfl fun running => h running
  | @tookInput i rest next running =>
    unfold replied
    rw [hears_takeInput next running, endIfLeaved_actor, ← List.append_assoc]
    exact h.handleInput sound.actor a i
  | @tookResult c rest next =>
    have bound := sound.bound next
    refine counts_silent rfl ?_ ?_
    · rw [endIfLeaved_actor]
      exact sound.actor.complete_dealings bound a
    · rw [endIfLeaved_actor]
      exact h.chat (sound.actor.complete_chat bound a)
  | abandoned _ _ running =>
    rw [endIfLeaved_actor]
    intro gone
    rw [Actor.leave_eq (sound.alive running)] at gone
    exact absurd rfl gone

/-- The count stays right in every move. -/
theorem move_counts (sound : p.Sound) (h : p.actor.Counts past) (m : Move) :
    (p.move a m).actor.Counts (past ++ p.dealt a m) := by
  cases m with
  | act m => exact acted_counts sound h (act_acted a p m)
  | deliver e =>
    exact counts_silent rfl (by rw [move, push_actor]) (by rwa [move, push_actor])
  | receive | closeLink | dropReceiver => exact counts_silent rfl rfl fun running => h running

/-- The count stays right over a run. -/
theorem run_counts (sound : p.Sound) (h : p.actor.Counts past) (moves : List Move) :
    (p.run a moves).actor.Counts (past ++ p.dealings a moves) := by
  induction moves generalizing p past with
  | nil =>
    show p.actor.Counts (past ++ [])
    rwa [List.append_nil]
  | cons m rest ih =>
    have next := ih (sound.move m) (move_counts (a := a) sound h m)
    rwa [List.append_assoc] at next

/-- The next input takes effect: something is different when it has been taken. -/
def TakesEffect (a : Answers) (p : Runner) : Prop := ¬ p.actor.Unmoved (p.takeInput a).actor

/-- A reply to a join that was given up takes effect exactly if all that the session counts as such
have come, and it turns the session away or the session waits for a reply. Unless the session has
repeated a join, it is passed over. If it waits, it comes too late. -/
theorem takes_effect_iff_uncounted (a : Answers) (room : RoomId) (link : Link ClientEvent)
    (moves : List Move) (i : SessionInput) (rest : List SessionInput) :
    let p := (start a room link).run a moves
    let h := history a room link moves
    p.inbox = i :: rest → p.finished = false → i.repliesIn room = true → GivenUp h →
      (p.TakesEffect a ↔
        (counted h).old = 0 ∧ (i.verdict? = some false ∨ (counted h).new ≠ 0)) ∧
      (Unrepeated h →
        (p.takeInput a).actor = { p.actor with staleReplies := p.actor.staleReplies - 1 }) ∧
      ∀ t : Actor, t.Sound → t.room = room → i ∈ t.backlog → ∀ waiting,
        { t with backlog := waiting }.dispatch a i = { t with backlog := waiting } := by
  intro p h next running reply late
  have sound : p.Sound := ((Reachable.start link).run moves).sound
  have sameRoom : p.actor.room = room := (run_room a _ moves).trans (start_room a room link)
  have counts : p.actor.Counts h := run_counts (.start a room link) (counts_start a room link) moves
  have alive := sound.alive running
  have taken : (p.takeInput a).actor = p.actor.handleInput a i := by
    unfold takeInput
    rw [next]
    simp [running]
  have replies : i.repliesIn p.actor.room = true := by rwa [sameRoom]
  have stale : p.actor.staleReplies ≠ 0 →
      (p.takeInput a).actor = { p.actor with staleReplies := p.actor.staleReplies - 1 } :=
    fun owed => taken.trans (sound.actor.handleInput_stale a replies owed)
  refine ⟨?_, ?_, ?_⟩
  · unfold TakesEffect
    rw [counts alive]
    by_cases fresh : p.actor.staleReplies = 0
    · rw [taken, sound.actor.handleInput_fresh a sound.settled alive replies fresh]
      simp [fresh]
    · rw [stale fresh]
      refine iff_of_false (not_not.mpr ⟨rfl, rfl, rfl, rfl, rfl, rfl⟩) ?_
      exact fun h => fresh h.1
  · intro unrepeated
    apply stale
    have owed := late.owing_old
    rwa [← unrepeated.counted_eq, counts alive] at owed
  · intro t sound same waits waiting
    exact sound.late_reply a (by rwa [same]) waits waiting

/-- The user leaves before the relay has answered, and asks to join again. Then the first answer
comes. -/
def abandoned : List Move :=
  [.act .leave, .act .takeInput, .act .rejoin, .act .takeInput, .deliver (.joined ⟨"r"⟩ ⟨"me"⟩)]

/-- The answer to the join that was given up is passed over. -/
theorem abandoned_passed_over :
    let p := (start .obliging ⟨"r"⟩ .fresh).run .obliging abandoned
    p.inbox = [.server (.joined ⟨"r"⟩ ⟨"me"⟩)] ∧ p.actor.state = .init ∧
      (p.takeInput .obliging).actor = { p.actor with staleReplies := 0 } := by
  have history : history .obliging ⟨"r"⟩ .fresh abandoned = [.join, .leave, .join] := rfl
  have late : GivenUp [.join, .leave, .join] := ⟨[], [.leave, .join], rfl, rfl, by decide⟩
  refine ⟨rfl, rfl, ?_⟩
  exact (takes_effect_iff_uncounted .obliging ⟨"r"⟩ .fresh abandoned
    (.server (.joined ⟨"r"⟩ ⟨"me"⟩)) [] rfl rfl rfl (history ▸ late)).2.1 (history ▸ by decide)

/-! ### A join that was repeated -/

/-- The user asks again at once, then leaves and asks again. The relay answers two joins. The
session takes every input but the last as it comes. -/
def misread : List Move :=
  let reply : Move := .deliver (.joined ⟨"r"⟩ ⟨"me"⟩)
  [.act .rejoin, .act .leave, .act .rejoin, reply].flatMap (fun m => [m, .act .takeInput]) ++
    [reply]

/-- The session takes the reply to a join that it gave up for the one to its last join. -/
theorem repeatedJoin_misread :
    let p := (start .obliging ⟨"r"⟩ .fresh).run .obliging misread
    let h := history .obliging ⟨"r"⟩ .fresh misread
    h = [.join, .join, .leave, .join, .reply] ∧ GivenUp h ∧
      p.inbox = [.server (.joined ⟨"r"⟩ ⟨"me"⟩)] ∧ p.actor.state = .init ∧
      (p.takeInput .obliging).actor.state = .joined :=
  ⟨rfl, ⟨[.join], [.leave, .join, .reply], rfl, rfl, by decide⟩, rfl, rfl, rfl⟩

end Runner

end Parley
