import Parley.Proofs.Network.Moves
import Parley.Proofs.Session.Standing

/-!
# Sessions and the relay agree on who is in which room

While events are under way, a session and the registry can think differently about the membership of
the session's peer: the session may have left and joined again many times before the relay has
handled any of it. Once nothing is under way between them, they agree (`agreement`).

There is one exception. A server event is handed over through the handle of the session. Once the
last handle has been dropped, the session is about to leave, and what comes down its line until it
does is lost (`Network.missed`). If that is a verdict on one of its joins, the session never hears
what the relay has decided, and the two may differ as long as it has not left
(`abandonment_disagrees`).

The invariant is `Participant.Fits`. It counts what a session has missed as if it were still on its
way, so nothing changes for it when an event gets lost.
-/

namespace Parley

variable {a : PeerId → Answers} {capacity : Nat} {n n' : Network} {x x' y : Participant}
  {p : PeerId} {m : Network.Move} {e : TransportEvent} {es : List Emission}
  {event : ServerEvent} {unheard rest : List ServerEvent}

theorem ServerEvent.IsAbout.silent (h : event.IsAbout p) : event.verdict? = none := by
  cases event <;> first | rfl | cases h

/-- Nobody has a handle to the session any more, and it has not ended yet. -/
def Runner.deserted (q : Runner) : Bool := !q.handle && !q.finished

namespace Network

/-- What a peer misses when something happens: the event that comes down its line, if its session is
deserted. -/
def misses (n : Network) (p : PeerId) : Move → Option ServerEvent
  | .down q =>
    if q = p then
      (n.find? p).bind fun x => if x.runner.deserted then (n.line x).head? else none
    else none
  | _ => none

/-- What a peer misses in a run. -/
def missed (a : PeerId → Answers) (n : Network) (p : PeerId) : List Move → List ServerEvent
  | [] => []
  | m :: rest => (n.misses p m).toList ++ (n.move a m).missed a p rest

theorem misses_of_ne (other : m ≠ .down p) : n.misses p m = none := by
  cases m with
  | down q => exact if_neg fun same => other (congrArg Move.down same)
  | _ => rfl

theorem Wf.misses_down (h : n.Wf) (mem : x ∈ n.participants) : n.misses x.peer (.down x.peer) =
    if x.runner.deserted then (n.line x).head? else none := by
  rw [misses, if_pos rfl, h.find?_eq mem]
  rfl

theorem missed_snoc (a : PeerId → Answers) (n : Network) (p : PeerId) (moves : List Move)
    (m : Move) :
    n.missed a p (moves ++ [m]) = n.missed a p moves ++ ((n.run a moves).misses p m).toList := by
  induction moves generalizing n with
  | nil => exact List.append_nil _
  | cons first moves ih =>
    show (n.misses p first).toList ++ (n.move a first).missed a p (moves ++ [m]) = _
    rw [ih, ← List.append_assoc]
    rfl

/-- Only who takes part can miss anything. -/
theorem missed_known (moves : List Move) (some : (empty capacity).missed a p moves ≠ []) :
    ∃ x ∈ ((empty capacity).run a moves).participants, x.peer = p := by
  induction moves using List.reverseRecOn with
  | nil => exact absurd rfl some
  | append_singleton moves m ih =>
    rw [missed_snoc] at some
    rw [run_snoc]
    have wf : ((empty capacity).run a moves).Wf := (Reachable.empty.run moves).wf
    generalize (empty capacity).run a moves = n at *
    obtain ⟨x, mem, same⟩ : ∃ x ∈ n.participants, x.peer = p := by
      by_cases before : (empty capacity).missed a p moves = []
      · cases found : n.find? p with
        | some x => exact ⟨x, find?_some found⟩
        | none =>
          have nothing : n.misses p m = none := by
            cases m <;> simp [misses, found]
          exact absurd (by simp [before, nothing]) some
      · exact ih before
    obtain ⟨y, there, same', -⟩ := (wf.move a m).2.onward wf x mem
    exact ⟨y, there, same'.trans same⟩

end Network

namespace Participant

/-- How a participant that has missed some events fits the rest of its network. -/
structure Fits (n : Network) (unheard : List ServerEvent) (x : Participant) : Prop where
  standing :
    x.runner.Standing x.peer (unheard ++ n.line x) (x.peer ∈ n.hub.registry.members x.room)
  connected : x.runner.actor.state ≠ .leaved → x.connected = true
  alone : unheard ≠ [] → x.runner.handle = false

namespace Fits

/-- What the relay does for one peer leaves the others as they are. -/
theorem other (h : y.Fits n unheard) (relayed : Relayed n.hub.registry e n'.hub.registry es)
    (other : y.peer ≠ e.peer) (line : n'.line y = n.line y ++ heard es y.peer) :
    y.Fits n' unheard where
  standing := by
    obtain ⟨about, same⟩ := relayed.heard_other other
    rw [line, ← List.append_assoc]
    exact h.standing.overhear (fun event mem => ServerEvent.IsAbout.silent (about event mem).1)
      (same y.room)
  connected := h.connected
  alone := h.alone

/-- The relay has handled what the participant has sent. -/
theorem asked {event : ClientEvent} {rest : List ClientEvent} (h : x.Fits n unheard)
    (own : x.runner.actor.Utters event) (next : x.runner.actor.link.queue = event :: rest)
    (popped : x' = { x with runner := x.runner.onLink fun l => { l with queue := rest } })
    (relayed : Relayed n.hub.registry (.signal x.peer event) n'.hub.registry es)
    (line : n'.line x = n.line x ++ heard es x.peer) : x'.Fits n' unheard := by
  subst popped
  refine ⟨?_, h.connected, h.alone⟩
  show Runner.Standing _ x.peer (unheard ++ n'.line x) (x.peer ∈ n'.hub.registry.members x.room)
  rw [line, ← List.append_assoc]
  have standing := h.standing
  generalize unheard ++ n.line x = old at standing ⊢
  have verdicts (more : List ServerEvent) :
      (x.runner.onLink fun l => { l with queue := rest }).verdicts (old ++ more) =
        x.runner.verdicts old ++ more.filterMap ServerEvent.verdict? := by
    simp [Runner.verdicts, Runner.onLink]
  have coming {more : List ServerEvent} (new : ∀ event ∈ more, event.IsFor x.room x.peer) :
      ∀ event ∈ old ++ more, event.IsFor x.room x.peer := by
    intro event mem
    rcases List.mem_append.mp mem with mem | mem
    · exact standing.coming event mem
    · exact new event mem
  -- Only a join is replied to with a verdict.
  cases own with
  | join =>
    rcases relayed.heard_join with ⟨reply, inside⟩ | ⟨reply, outside⟩
    · rw [reply]
      refine ⟨fun alive => ?_, standing.inbox, coming fun event mem => ?_⟩
      · rw [verdicts]
        exact (standing.actor alive).handled next rfl rfl rfl (.inl ⟨rfl, .inl ⟨rfl, inside⟩⟩)
      · rw [List.mem_singleton.mp mem]
        exact fun _ => .inl rfl
    · rw [reply]
      refine ⟨fun alive => ?_, standing.inbox, coming fun event mem => ?_⟩
      · rw [verdicts]
        exact (standing.actor alive).handled next rfl rfl rfl (.inl ⟨rfl, .inr ⟨rfl, outside⟩⟩)
      · rw [List.mem_singleton.mp mem]
        exact fun _ => .inr rfl
  | leave =>
    obtain ⟨reply, outside⟩ := relayed.heard_leave
    rw [reply]
    refine ⟨fun alive => ?_, standing.inbox, coming fun event mem => ?_⟩
    · rw [verdicts]
      exact (standing.actor alive).handled next rfl rfl rfl (.inr ⟨rfl, rfl, outside⟩)
    · rw [List.mem_singleton.mp mem]
      exact fun verdict => absurd rfl verdict
  | candidate | description =>
    obtain ⟨reply, same⟩ := relayed.heard_sent
    rw [reply, same]
    refine ⟨fun alive => ?_, standing.inbox, coming fun _ mem => by cases mem⟩
    rw [verdicts, List.filterMap_nil, List.append_nil]
    exact (standing.actor alive).message next rfl rfl rfl

/-- The connection of a session that has closed its link has ended. -/
theorem ended (h : x.Fits n unheard) (closed : x.runner.actor.link.closed = true)
    (lost : x' = { x.push .linkLost with connected := false }) (line : n'.line x = n.line x) :
    x'.Fits n' unheard := by
  subst lost
  have left : x.runner.actor.state = .leaved := by
    by_contra alive
    have reachable := (h.standing.actor alive).reachable
    simp [Link.isOpen, closed] at reachable
  have actor : (x.runner.push .linkLost).actor = x.runner.actor := Runner.push_actor _ _
  have pushed := h.standing.push (i := .linkLost) fun _ same => by cases same
  have gone : (x.runner.push .linkLost).actor.state = .leaved := by rw [actor, left]
  refine ⟨⟨fun alive => absurd gone alive, pushed.inbox, ?_⟩, fun alive => absurd gone alive,
    fun some => ?_⟩
  · show ∀ event ∈ unheard ++ n'.line x, _
    rw [line]
    exact pushed.coming
  · show (x.runner.push .linkLost).handle = false
    rw [Runner.push_of_alone (h.alone some)]
    exact h.alone some

/-- The next event of the line is handed over. It comes into the inbox of the session, or it is
missed, or the session has ended. -/
theorem delivered (h : x.Fits n unheard) (sound : x.runner.Sound) (next : n.line x = event :: rest)
    (own : n'.line x = rest) (registry : n'.hub.registry = n.hub.registry) :
    (x.push (.server event)).Fits n' (unheard ++ if x.runner.deserted then [event] else []) := by
  have standing := h.standing
  rw [next] at standing
  have actor : (x.runner.push (.server event)).actor = x.runner.actor := Runner.push_actor _ _
  have fit {more : List ServerEvent}
      (fits : (x.runner.push (.server event)).Standing x.peer (more ++ rest)
        (x.peer ∈ n.hub.registry.members x.room))
      (alone : more ≠ [] → (x.runner.push (.server event)).handle = false) :
      (x.push (.server event)).Fits n' more := by
    refine ⟨?_, fun alive => h.connected (by rwa [← actor]), alone⟩
    show Runner.Standing (x.runner.push (.server event)) x.peer (more ++ n'.line x)
      (x.peer ∈ n'.hub.registry.members (x.runner.push (.server event)).actor.room)
    rw [own, registry, actor]
    exact fits
  cases ended : x.runner.finished with
  | true =>
    have kept : x.runner.deserted = false := by simp [Runner.deserted, ended]
    rw [kept, if_neg Bool.false_ne_true, List.append_nil]
    refine fit ?_ ?_
    · rw [Runner.push_of_finished ended]
      exact standing.lose sound ended (by simp)
    · rw [Runner.push_of_finished ended]
      exact h.alone
  | false =>
    cases held : x.runner.handle with
    | true =>
      have kept : x.runner.deserted = false := by simp [Runner.deserted, held]
      have nothing : unheard = [] := by
        by_contra some
        rw [h.alone some] at held
        cases held
      rw [kept, nothing, if_neg Bool.false_ne_true]
      rw [nothing] at standing
      exact fit (standing.deliver held ended) fun some => absurd rfl some
    | false =>
      -- The event is lost, but it goes on being counted.
      have lost : x.runner.deserted = true := by simp [Runner.deserted, held, ended]
      rw [lost, if_pos rfl]
      refine fit ?_ fun _ => ?_
      · rw [Runner.push_of_alone held, List.append_assoc]
        exact standing
      · rwa [Runner.push_of_alone held]

/-- The session or its user does something. -/
theorem acted {act : Runner.Act} {q : Runner} (h : x.Fits n unheard) (sound : x.runner.Sound)
    (done : Runner.Acted (a x.peer) x.runner act q) {n' : Network} (line : n'.line x = n.line x)
    (registry : n'.hub.registry = n.hub.registry) :
    Fits n' unheard { x with runner := q } where
  standing := by
    show Runner.Standing q x.peer (unheard ++ n'.line x)
      (x.peer ∈ n'.hub.registry.members q.actor.room)
    rw [done.room, line, registry]
    exact done.standing sound h.standing
  connected alive := h.connected (done.alive sound alive)
  alone some := done.alone (h.alone some)

end Fits

/-- Nothing is under way between a participant and the relay. -/
structure Settled (n : Network) (x : Participant) : Prop where
  sent : x.runner.actor.link.queue = []
  line : n.line x = []
  inbox : ∀ event, .server event ∉ x.runner.inbox
  closed : x.runner.actor.link.closed = true → x.connected = false

end Participant

namespace Network

/-- Whatever moves, as long as the transport breaks off no connection, everybody goes on to fit. -/
theorem Moved.fits (moved : Moved a n m n') (wf : n.Wf) (calm : ∀ p, m ≠ .disconnect p)
    {unheard : PeerId → List ServerEvent}
    (known : ∀ p, unheard p ≠ [] → ∃ x ∈ n.participants, x.peer = p)
    (h : ∀ x ∈ n.participants, x.Fits n (unheard x.peer)) :
    ∀ x ∈ n'.participants, x.Fits n' (unheard x.peer ++ (n.misses x.peer m).toList) := by
  have still (other : ∀ p, m ≠ .down p) (x : Participant) :
      unheard x.peer ++ (n.misses x.peer m).toList = unheard x.peer := by
    rw [misses_of_ne (other x.peer)]
    exact List.append_nil _
  cases moved with
  | idle empty =>
    intro x mem
    have nothing : n.misses x.peer m = none := by
      by_cases down : m = .down x.peer
      · rw [down, wf.misses_down mem, empty x mem down]
        split <;> rfl
      · exact misses_of_ne down
    rw [nothing, Option.toList_none, List.append_nil]
    exact h x mem
  | @connected p r x _ fresh peer runner on participants registry silent lines =>
    intro y mem
    rw [still nofun]
    rw [participants] at mem
    rcases List.mem_append.mp mem with mem | new
    · refine ⟨?_, (h y mem).connected, (h y mem).alone⟩
      rw [lines y mem, registry]
      exact (h y mem).standing
    · -- A newcomer has not been heard of, so it is no member and has missed nothing.
      rw [List.mem_singleton.mp new]
      have nothing : unheard x.peer = [] := by
        by_contra some
        obtain ⟨y, mem, same⟩ := known _ some
        exact fresh y mem (same.trans peer)
      have outside : x.peer ∉ n'.hub.registry.members x.room := by
        rw [registry, peer]
        intro inside
        obtain ⟨y, mem, -, same, -⟩ := wf.members _ _ inside
        exact fresh y mem same
      refine ⟨?_, fun _ => on, fun some => absurd nothing some⟩
      rw [nothing, silent, runner]
      exact (Runner.Standing.start (a p) r x.peer).overhear nofun (iff_false_intro outside)
  | @relayed x x' event rest _ es mem on next popped relayed participants lines =>
    intro y there
    rw [still nofun]
    rw [participants] at there
    rcases (mem_update mem (by rw [popped])).mp there with rfl | ⟨there, other⟩
    · have peer : y.peer = x.peer := by rw [popped]
      rw [peer]
      exact (h x mem).asked (wf.uttered x mem event (by simp [next])) next popped relayed
        (lines x mem)
    · exact (h y there).other relayed other (lines y there)
  | @ended x x' _ _ es mem on cause lost relayed participants lines =>
    -- A connection that is not broken off ends only after its session.
    obtain ⟨up, -, closed⟩ := cause.resolve_left (calm x.peer)
    intro y there
    rw [still (by rw [up]; nofun)]
    rw [participants] at there
    rcases (mem_update mem (by rw [lost]; rfl)).mp there with rfl | ⟨there, other⟩
    · have peer : y.peer = x.peer := by rw [lost]; rfl
      rw [peer]
      refine (h x mem).ended closed lost ?_
      rw [lines x mem, (relayed.heard_gone wf.registry).1, List.append_nil]
    · exact (h y there).other relayed other (lines y there)
  | @delivered x x' event rest _ mem next pushed registry participants own lines =>
    intro y there
    rw [participants] at there
    rcases (mem_update mem (by rw [pushed]; rfl)).mp there with rfl | ⟨there, other⟩
    · have lost : (n.misses x.peer (.down x.peer)).toList =
          if x.runner.deserted then [event] else [] := by
        rw [wf.misses_down mem, next]
        split <;> rfl
      subst pushed
      show (x.push (.server event)).Fits n' (unheard x.peer ++ _)
      rw [show (x.push (.server event)).peer = x.peer from rfl, lost]
      exact (h x mem).delivered (wf.sound x mem) next own registry
    · rw [misses_of_ne fun same => other (Move.down.inj same).symm, Option.toList_none,
        List.append_nil]
      refine ⟨?_, (h y there).connected, (h y there).alone⟩
      rw [lines y there other, registry]
      exact (h y there).standing
  | @acted x act q mem done =>
    -- The others do not notice.
    intro y there
    rw [still nofun]
    have peer : ({ x with runner := q } : Participant).peer = x.peer := rfl
    rcases (mem_update mem peer).mp there with rfl | ⟨there, -⟩
    · exact (h x mem).acted (wf.sound x mem) done rfl rfl
    · exact ⟨(h y there).standing, (h y there).connected, (h y there).alone⟩

theorem run_fits (a : PeerId → Answers) (capacity : Nat) (moves : List Move)
    (calm : ∀ p, .disconnect p ∉ moves) :
    ∀ x ∈ ((empty capacity).run a moves).participants,
      x.Fits ((empty capacity).run a moves) ((empty capacity).missed a x.peer moves) := by
  induction moves using List.reverseRecOn with
  | nil =>
    intro x mem
    cases mem
  | append_singleton moves m ih =>
    have wf : ((empty capacity).run a moves).Wf := (Reachable.empty.run moves).wf
    have before := ih fun p mem => calm p (List.mem_append_left _ mem)
    have last (p : PeerId) : m ≠ .disconnect p := by
      rintro rfl
      exact calm p (by simp)
    simp only [run_snoc, missed_snoc]
    exact (wf.move a m).2.fits wf last (fun p some => missed_known moves some) before

/-- When nothing is under way, a session that has not left fits the verdicts that it has missed. -/
theorem settled_standing {missed : List ServerEvent} (fits : x.Fits n missed)
    (settled : x.Settled n) (alive : x.runner.actor.state ≠ .leaved) : x.runner.actor.asks = [] ∧
      x.runner.actor.Standing x.peer (missed.filterMap ServerEvent.verdict?)
        (x.peer ∈ n.hub.registry.members x.room) := by
  have inbox : x.runner.inbox.filterMap SessionInput.verdict? = [] := by
    refine List.filterMap_eq_nil_iff.mpr fun i waiting => ?_
    cases i with
    | server event => exact absurd waiting (settled.inbox event)
    | _ => rfl
  have verdicts : x.runner.verdicts (missed ++ n.line x) =
      missed.filterMap ServerEvent.verdict? := by
    simp [Runner.verdicts, inbox, settled.line]
  refine ⟨by simp [Actor.asks, settled.sent], ?_⟩
  rw [← verdicts]
  exact fits.standing.actor alive

/-- **Agreement.** When nothing is under way between a session and the relay, a session that is in
the room shows the peer's name, and it is in the room exactly if the peer is a member, provided that
somebody has a handle to it, that it has left for good, or that it has missed no verdict on its
joins. Otherwise the peer is a member exactly if the session wants it to be one and the last verdict
that it has missed let it in. -/
theorem agreement (a : PeerId → Answers) (capacity : Nat) {moves : List Move}
    (calm : ∀ p, .disconnect p ∉ moves) {x : Participant}
    (mem : x ∈ ((empty capacity).run a moves).participants)
    (settled : x.Settled ((empty capacity).run a moves)) :
    let n := (empty capacity).run a moves
    let verdicts := ((empty capacity).missed a x.peer moves).filterMap ServerEvent.verdict?
    (x.runner.snapshot.state.inRoom = true → x.runner.snapshot.peer = some x.peer) ∧
      (x.runner.handle = true ∨ x.runner.snapshot.state = .leaved ∨ verdicts = [] →
        (x.runner.snapshot.state.inRoom = true ↔ x.peer ∈ n.hub.registry.members x.room)) ∧
      (x.runner.snapshot.state ≠ .leaved →
        (x.peer ∈ n.hub.registry.members x.room ↔
          x.runner.actor.wants = true ∧ verdicts.getLast? ≠ some false)) := by
  intro n verdicts
  have wf : n.Wf := (Reachable.empty.run moves).wf
  have fits := run_fits a capacity moves calm x mem
  show (x.runner.actor.state.inRoom = true → x.runner.actor.peer = some x.peer) ∧
    (_ ∨ x.runner.actor.state = .leaved ∨ _ → (x.runner.actor.state.inRoom = true ↔ _)) ∧
    (x.runner.actor.state ≠ .leaved → _)
  by_cases left : x.runner.actor.state = .leaved
  · -- The link is closed, so the connection has ended, and the registry has forgotten the peer.
    have closed := ((wf.sound x mem).actor.ended left).1
    have off := settled.closed closed
    rw [left]
    refine ⟨nofun, fun _ => ⟨nofun, fun inside => ?_⟩, fun alive => absurd rfl alive⟩
    rw [(wf.of_members mem inside).1] at off
    cases off
  · obtain ⟨asks, standing⟩ := settled_standing fits settled left
    refine ⟨standing.known, fun heard => ?_, fun _ => standing.member_iff asks⟩
    have nothing : verdicts = [] := by
      rcases heard with held | gone | nothing
      · -- Who has a handle has missed nothing.
        by_contra some
        have lost : (empty capacity).missed a x.peer moves ≠ [] := by
          intro none
          exact some (congrArg (List.filterMap ServerEvent.verdict?) none)
        rw [fits.alone lost] at held
        cases held
      · exact absurd gone left
      · exact nothing
    have member := standing.member_iff asks
    change x.runner.actor.Standing x.peer verdicts _ at standing
    change _ ↔ _ ∧ verdicts.getLast? ≠ some false at member
    rw [nothing] at standing member
    -- All verdicts were heard, so the session waits for none.
    rw [member]
    simp [Actor.wants, standing.not_asked asks]

/-! ### A verdict that nobody hears -/

/-- The relay lets a session in that nobody holds any more by the time it would hear of it. -/
def abandonment : List Move :=
  let p : PeerId := ⟨"a"⟩
  [.connect p ⟨"r"⟩, .up p, .act p .dropHandle, .down p]

/-- Nothing is under way any more, but the session has yet to notice that it is on its own. -/
theorem abandonment_disagrees :
    (∀ p, .disconnect p ∉ abandonment) ∧
      ∃ x, ((empty 1).run (fun _ => .obliging) abandonment).participants = [x] ∧
        x.Settled ((empty 1).run (fun _ => .obliging) abandonment) ∧
        ¬ (x.runner.snapshot.state.inRoom = true ↔
          x.peer ∈ ((empty 1).run (fun _ => .obliging) abandonment).hub.registry.members x.room) := by
  refine ⟨by simp [abandonment], _, rfl, ⟨rfl, rfl, nofun, nofun⟩, fun same => ?_⟩
  have outside := same.mpr List.mem_cons_self
  cases outside

/-! ### A session that comes back -/

/-- A session leaves and joins again before the relay has handled its first join; then everything
that is under way arrives. When its handle has been dropped, another session joins, and it misses
the announcement. -/
def comeback : List Move :=
  let p : PeerId := ⟨"a"⟩
  let q : PeerId := ⟨"b"⟩
  [.connect p ⟨"r"⟩, .act p .leave, .act p .takeInput, .act p .rejoin, .act p .takeInput, .up p,
    .up p, .up p, .down p, .down p, .down p, .act p .takeInput, .act p .takeInput,
    .act p .takeInput, .act p .dropHandle, .connect q ⟨"r"⟩, .up q, .down p]

/-- The verdict on the first join is stale, the one on the second lets the session in. -/
theorem comeback_agrees :
    ∃ x ∈ ((empty 2).run (fun _ => .obliging) comeback).participants,
      x.Settled ((empty 2).run (fun _ => .obliging) comeback) ∧
        x.runner.handle = false ∧
        (empty 2).missed (fun _ => .obliging) x.peer comeback = [.otherJoin ⟨"r"⟩ ⟨"b"⟩] ∧
        x.runner.snapshot.state = .joined ∧ x.runner.snapshot.peer = some x.peer ∧
        x.peer ∈ ((empty 2).run (fun _ => .obliging) comeback).hub.registry.members x.room ∧
        x.runner.actor.wants = true := by
  have calm : ∀ p, .disconnect p ∉ comeback := by simp [comeback]
  obtain ⟨x, mem, settled, alone, missed, state⟩ :
      ∃ x ∈ ((empty 2).run (fun _ => .obliging) comeback).participants,
        x.Settled ((empty 2).run (fun _ => .obliging) comeback) ∧ x.runner.handle = false ∧
        (empty 2).missed (fun _ => .obliging) x.peer comeback = [.otherJoin ⟨"r"⟩ ⟨"b"⟩] ∧
        x.runner.snapshot.state = .joined :=
    ⟨_, List.mem_cons_self, ⟨rfl, rfl, nofun, nofun⟩, rfl, rfl, rfl⟩
  obtain ⟨known, agree, member⟩ := agreement (fun _ => .obliging) 2 calm mem settled
  have inside : x.runner.snapshot.state.inRoom = true := by rw [state]; rfl
  have heard := agree (.inr (.inr (by rw [missed]; rfl)))
  exact ⟨x, mem, settled, alone, missed, state, known inside, heard.mp inside,
    ((member (by rw [state]; nofun)).mp (heard.mp inside)).1⟩

end Network

end Parley
