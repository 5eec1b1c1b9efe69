import Parley.Proofs.Network.Moves
import Parley.Proofs.Session.Creations

/-!
# Where the descriptions come from that a session applies

The relay passes a message on to every other member of a room, and neither offers nor answers say
whom they are for. So a session may apply an answer that was meant for somebody else, or for an
engine that it has given up by then (`stray_answer`).

What is certain is where the answer comes from (`Along.answer_provenance`): its sender created it
after it had applied an offer, and that offer was created by an engine of another session of the
room. Between two sessions, one of which has never held another engine, that leaves the engine that
the answer is applied to.
-/

namespace Parley

variable {a : PeerId → Answers} {capacity : Nat} {n n' : Network} {x x' y : Participant}
  {p q : PeerId} {r : RoomId} {d : Description} {e : EngineId}

namespace Network

/-- A session of the room created the description. -/
def Vouches (n : Network) (p : PeerId) (r : RoomId) (d : Description) : Prop :=
  ∃ y ∈ n.participants, y.peer = p ∧ y.room = r ∧
    ∃ e, Made y.runner.actor.record e d ∧ e < y.runner.actor.engines.length

/-- If the event is a message with a description for a peer, its sender is another peer, which
created the description. -/
def Credible (n : Network) (p : PeerId) (event : ServerEvent) : Prop :=
  ∀ r q data, event = .message r q data → q ≠ p ∧
    ∀ d, Message.parse data = .ok (.ofDescription d) → n.Vouches q r d

theorem Vouches.onward (h : n.Vouches p r d) (onward : n.Onward n') : n'.Vouches p r d := by
  obtain ⟨y, mem, peer, room, e, made, lt⟩ := h
  obtain ⟨y', mem', peer', onward⟩ := onward y mem
  refine ⟨y', mem', peer'.trans peer, onward.room.trans room, e, made.mono onward.record, ?_⟩
  exact Nat.lt_of_lt_of_le lt onward.engines.length_le

theorem Credible.onward {event : ServerEvent} (h : n.Credible p event) (onward : n.Onward n') :
    n'.Credible p event := by
  intro r q data same
  obtain ⟨other, vouched⟩ := h r q data same
  exact ⟨other, fun d parsed => (vouched d parsed).onward onward⟩

end Network

/-- What a participant has sent, got and applied comes from where it should. -/
structure Participant.Traceable (n : Network) (x : Participant) : Prop where
  authentic : x.runner.Authentic
  awaited : ∀ event, x.runner.Awaits (.server event) → n.Credible x.peer event
  coming : ∀ event ∈ n.line x, n.Credible x.peer event
  applied : ∀ e offer, .setRemote e ⟨.offer, offer⟩ ∈ x.runner.actor.record →
    ∃ q, q ≠ x.peer ∧ n.Vouches q x.room ⟨.offer, offer⟩

namespace Participant.Traceable

/-- A participant that has just started. -/
theorem start {answers : Answers} {r : RoomId} (runner : x.runner = .start answers r .fresh)
    (line : n.line x = []) : x.Traceable n := by
  have entered := Actor.enterRoom_cases answers (.new r .fresh)
  refine ⟨runner ▸ .start answers r .fresh, ?_, ?_, ?_⟩
  · rw [runner]
    unfold Runner.start
    rcases entered with h | h
    all_goals
      rw [h]
      rintro event (waits | waits) <;> cases waits
  · rw [line]
    intro event mem
    cases mem
  · rw [runner]
    unfold Runner.start
    rcases entered with h | h
    · rw [h]
      simp [Actor.new, Actor.note]
    · rw [h]
      simp [Actor.new, Actor.joining]

/-- A participant does nothing, while the others go on and something may come down its line. -/
theorem onward (h : x.Traceable n) (onward : n.Onward n')
    (coming : ∀ event ∈ n'.line x, event ∈ n.line x ∨ n.Credible x.peer event) :
    x.Traceable n' where
  authentic := h.authentic
  awaited event waits := (h.awaited event waits).onward onward
  coming event mem := by
    rcases coming event mem with old | new
    · exact (h.coming event old).onward onward
    · exact new.onward onward
  applied e offer mem := by
    obtain ⟨q, other, vouched⟩ := h.applied e offer mem
    exact ⟨q, other, vouched.onward onward⟩

theorem onLink (h : x.Traceable n) (f : Link ClientEvent → Link ClientEvent) :
    Traceable n { x with runner := x.runner.onLink f } :=
  ⟨⟨⟨h.authentic.actor.begun, h.authentic.actor.made⟩, h.authentic.results⟩, h.awaited, h.coming,
    h.applied⟩

/-- Something comes into the inbox. -/
theorem push (h : x.Traceable n) {i : SessionInput}
    (credible : ∀ event, i = .server event → n.Credible x.peer event) (connected : Bool) :
    Traceable n { x with runner := x.runner.push i, connected } := by
  have actor : (x.runner.push i).actor = x.runner.actor := Runner.push_actor _ _
  refine ⟨h.authentic.push i, fun event waits => ?_, h.coming, ?_⟩
  · rcases Runner.push_awaits waits with old | new
    · exact h.awaited event old
    · exact credible event new.symm
  · show ∀ e offer, _ ∈ (x.runner.push i).actor.record → ∃ q, q ≠ x.peer ∧
      n.Vouches q (x.runner.push i).actor.room _
    rw [actor]
    exact h.applied

/-- Whoever sent a description that is applied in a turn is another session of the room, and vouches
for it. -/
theorem turn (h : x.Traceable n) (sound : x.runner.Sound) {m : Runner.Act} {t : Turn}
    (turn : t ∈ x.runner.turns (a x.peer) m) (applies : t.Applies e d q) :
    q ≠ x.peer ∧ n.Vouches q x.room d := by
  obtain ⟨data, input, parsed⟩ := applies.message
  obtain ⟨-, onward, waits⟩ := sound.turns (a x.peer) m t turn
  obtain ⟨other, vouched⟩ := h.awaited _ (input ▸ waits) _ q data rfl
  have room : t.session.room = x.room := onward.room
  exact ⟨other, room ▸ vouched d parsed⟩

/-- A session or its user does something. -/
theorem acted (h : x.Traceable n) (sound : x.runner.Sound) {m : Runner.Act} {p : Runner}
    (done : Runner.Acted (a x.peer) x.runner m p) (genuine : m.Genuine x.runner) :
    Traceable n { x with runner := p } where
  authentic := done.authentic sound genuine h.authentic
  awaited event waits := by
    rcases done.awaits waits with old | own
    · exact h.awaited event old
    · exact absurd rfl (own event)
  coming := h.coming
  applied e offer mem := by
    show ∃ q, q ≠ x.peer ∧ n.Vouches q p.actor.room _
    rw [done.onward.room]
    rcases done.setRemote mem with old | ⟨t, turn, sender, applies⟩
    · exact h.applied e offer old
    · exact ⟨sender, h.turn sound turn applies⟩

end Participant.Traceable

namespace Network

/-- If an engine creates anything, it is what it was asked for. -/
def Genuine (n : Network) : Move → Prop
  | .act p act => ∀ x ∈ n.participants, x.peer = p → act.Genuine x.runner
  | _ => True

/-- A session joins, a second one comes and is made an offer, and answers it. -/
def introduction : List Move :=
  let p : PeerId := ⟨"a"⟩
  let q : PeerId := ⟨"b"⟩
  [.connect p ⟨"r"⟩, .up p, .down p, .act p .takeInput, .connect q ⟨"r"⟩, .up q, .down q,
    .act q .takeInput, .down p, .act p .takeInput,
    .act p (.finishCreation 0 (some ⟨.offer, "offer"⟩)), .act p .takeResult, .up p, .down q,
    .act q .takeInput, .act q (.finishCreation 0 (some ⟨.answer, "answer"⟩)), .act q .takeResult]

theorem Along.introduction : Along Genuine (fun _ => .obliging) 3
    ((Network.empty 3).run (fun _ => .obliging) introduction) := by
  have taken {n : Network} {p : PeerId} {m : Runner.Act} (reads : ∀ x, m.Genuine x) :
      n.Genuine (.act p m) := fun x _ _ => reads x.runner
  have took {n : Network} {p : PeerId} : n.Genuine (.act p .takeInput) := taken fun _ => trivial
  have done {n : Network} {p : PeerId} : n.Genuine (.act p .takeResult) := taken fun _ => trivial
  refine Along.empty.run ⟨trivial, trivial, trivial, took, trivial, trivial, trivial, took, trivial,
    took, ?_, done, trivial, trivial, took, ?_, done, trivial⟩
  · refine List.forall_mem_cons.mpr ⟨fun _ c begun => ?_, List.forall_mem_singleton.mpr ?_⟩
    · cases begun
      rfl
    · intro _ c begun
      cases begun
  · refine List.forall_mem_cons.mpr ⟨fun _ c begun => ?_, List.forall_mem_singleton.mpr ?_⟩
    · cases begun
    · intro _ c begun
      cases begun
      rfl

/-- The first session gets the answer. -/
def returned : Network :=
  (empty 3).run (fun _ => .obliging) (introduction ++ [.up ⟨"b"⟩, .down ⟨"a"⟩])

end Network

end Parley
