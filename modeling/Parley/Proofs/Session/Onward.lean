import Parley.Proofs.Session.Operations

/-!
# What stays when a session goes on

Whatever a session does, its record and the list of its engines only grow, and its link stays closed
once it is. What it puts on the link is about its own room: a join, a leave, a candidate, or a
description that it has set on one of its engines (`Utters`).
-/

namespace Parley

/-- The room that an event is about. -/
def ClientEvent.room : ClientEvent → RoomId
  | .join r | .leave r | .message r _ => r

namespace Actor

/-- What a session puts on its link. -/
inductive Utters (s : Actor) : ClientEvent → Prop
  | join : Utters s (.join s.room)
  | leave : Utters s (.leave s.room)
  | candidate (c : Candidate) : Utters s (.message s.room (Message.candidate c).toPayload)
  | description {e : EngineId} {d : Description} (made : .setLocal e d ∈ s.record) :
      Utters s (.message s.room (Message.ofDescription d).toPayload)

/-- The second state of a session comes after the first. -/
structure Onward (s t : Actor) : Prop where
  room : t.room = s.room
  record : s.record <+: t.record
  engines : s.engines <+: t.engines
  dropped : t.link.dropped = s.link.dropped
  closed : s.link.closed = true → t.link.closed = true
  queue : ∀ e ∈ t.link.queue, e ∈ s.link.queue ∨ t.Utters e

variable {a : Answers} {s t u : Actor} {i : SessionInput}

theorem Utters.onward {e : ClientEvent} (h : s.Utters e) (room : t.room = s.room)
    (record : s.record <+: t.record) : t.Utters e := by
  cases h with
  | join => exact room ▸ .join
  | leave => exact room ▸ .leave
  | candidate c => exact room ▸ .candidate c
  | description made => exact room ▸ .description (record.subset made)

theorem Utters.room {e : ClientEvent} (h : s.Utters e) : e.room = s.room := by
  cases h <;> rfl

namespace Onward

theorem refl (s : Actor) : s.Onward s :=
  ⟨rfl, List.prefix_rfl, List.prefix_rfl, rfl, id, fun _ => .inl⟩

theorem trans (h : s.Onward t) (h' : t.Onward u) : s.Onward u where
  room := h'.room.trans h.room
  record := h.record.trans h'.record
  engines := h.engines.trans h'.engines
  dropped := h'.dropped.trans h.dropped
  closed := h'.closed ∘ h.closed
  queue e mem := by
    rcases h'.queue e mem with mem | own
    · exact (h.queue e mem).imp_right fun own => own.onward h'.room h'.record
    · exact .inr own

/-- Nothing is put on the link. -/
theorem of_link (room : t.room = s.room) (link : t.link = s.link) (engines : t.engines = s.engines)
    (record : s.record <+: t.record) : s.Onward t where
  room := room
  record := record
  engines := engines ▸ List.prefix_rfl
  dropped := by rw [link]
  closed := by rw [link]; exact id
  queue e mem := .inl (link ▸ mem)

/-- Something is put on the link, or lost if the link is closed. -/
theorem of_push {e : ClientEvent} (room : t.room = s.room) (link : t.link = s.link.push e)
    (engines : t.engines = s.engines) (record : s.record <+: t.record) (own : t.Utters e) :
    s.Onward t where
  room := room
  record := record
  engines := engines ▸ List.prefix_rfl
  dropped := by rw [link, Link.push_dropped]
  closed := by rw [link, Link.push_closed]; exact id
  queue e' mem := by
    rw [link] at mem
    by_cases reachable : s.link.isOpen = true
    · rw [Link.push_of_isOpen reachable] at mem
      rcases List.mem_append.mp mem with mem | mem
      · exact .inl mem
      · rw [List.mem_singleton.mp mem]
        exact .inr own
    · rw [Link.push_of_not_isOpen reachable] at mem
      exact .inl mem

/-- The link is closed. -/
theorem of_close (room : t.room = s.room) (link : t.link = s.link.close)
    (engines : t.engines = s.engines) (record : s.record <+: t.record) : s.Onward t where
  room := room
  record := record
  engines := engines ▸ List.prefix_rfl
  dropped := by rw [link]; rfl
  closed := by rw [link]; exact fun _ => rfl
  queue e mem := by
    rw [link] at mem
    exact .inl mem

end Onward

theorem equipped_onward (s : Actor) : s.Onward s.equipped :=
  ⟨rfl, List.prefix_append _ _, List.prefix_append _ _, rfl, id, fun _ => .inl⟩

theorem denied_onward (s : Actor) : s.Onward s.denied :=
  .of_link rfl rfl rfl (List.prefix_append _ _)

theorem sendMessage_onward (s : Actor) (m : Message)
    (own : s.Utters (.message s.room m.toPayload)) : s.Onward (s.sendMessage m) :=
  have record : s.record <+: (s.sendMessage m).record := List.prefix_append _ _
  .of_push rfl rfl rfl record (own.onward rfl record)

theorem departed_onward (s : Actor) (exit : Bool) : s.Onward (s.departed exit) := by
  -- The last message goes out before the link is closed.
  let told : Actor := { s with
    link := s.link.push (.leave s.room), record := s.record ++ [.send (.leave s.room)] }
  have first : s.Onward told := .of_push rfl rfl rfl (List.prefix_append _ _) .leave
  refine first.trans ?_
  have record : told.record <+: (s.departed exit).record :=
    ⟨s.engine.toList.map .closeEngine ++ .releaseMedia :: if exit then [.closeLink] else [], by
      simp [told, departed]⟩
  cases exit with
  | false => exact .of_link rfl rfl rfl record
  | true => exact .of_close rfl rfl rfl record

theorem enterRoom_onward (a : Answers) (s : Actor) : s.Onward (s.enterRoom a) := by
  rcases enterRoom_cases a s with h | h
  · rw [h]
    exact .of_link rfl rfl rfl (List.prefix_append _ _)
  · rw [h]
    exact .of_push rfl rfl rfl (List.prefix_append _ _) .join

theorem Handled.onward (turn : Handled a s i t) : s.Onward t := by
  cases turn with
  | ignored => exact .refl s
  | staleReply => exact .of_link rfl rfl rfl List.prefix_rfl
  | admitted _ _ _ engine =>
    rcases engine with rfl | rfl
    · exact ⟨rfl, List.prefix_append _ _, List.prefix_append _ _, rfl, id, fun _ => .inl⟩
    · exact .of_link rfl rfl rfl (List.prefix_append _ _)
  | offered _ _ engine =>
    -- A new engine is attached before the offer is begun.
    cases engine with
    | held => exact .of_link rfl rfl rfl (List.prefix_append _ _)
    | acquired =>
      exact s.equipped_onward.trans (.of_link rfl rfl rfl (List.prefix_append _ _))
  | unequipped => exact s.denied_onward
  | unbound => exact .of_link rfl rfl rfl (List.prefix_append _ _)
  | dismissed | lost =>
    refine .of_close rfl rfl rfl ?_
    exact (List.prefix_append _ _).trans (List.prefix_append _ _)
  | tookOffer | tookAnswer => exact .of_link rfl rfl rfl (List.prefix_append _ _)
  | refused | remoteCandidate => exact .of_link rfl rfl rfl (List.prefix_append _ _)
  | localCandidate => exact sendMessage_onward s _ (.candidate _)
  | remoteTrack => exact .of_link rfl rfl rfl (List.prefix_append _ _)
  | left => exact s.departed_onward _
  | unprovided => exact .of_link rfl rfl rfl (List.prefix_append _ _)
  | rejoined => exact .of_push rfl rfl rfl (List.prefix_append _ _) .join

theorem drain_onward (a : Answers) (s : Actor) : s.Onward (s.drain a) := by
  refine drainUpTo_induction (P := s.Onward) (fun t i rest on _ _ => ?_) _ s (.refl s)
  have popped : t.Onward { t with backlog := rest } := .of_link rfl rfl rfl List.prefix_rfl
  exact (on.trans popped).trans (dispatch_handled a _ i).onward

theorem handleInput_onward (a : Answers) (s : Actor) (i : SessionInput) :
    s.Onward (s.handleInput a i) := by
  unfold handleInput
  split
  · exact .of_link rfl rfl rfl List.prefix_rfl
  · exact (dispatch_handled a s i).onward.trans (drain_onward a _)

theorem Published.onward {d : Description} (published : Published d s t) : s.Onward t := by
  cases published with
  | nowhere => exact .refl s
  | refused => exact .of_link rfl rfl rfl (List.prefix_append _ _)
  | @sent e _ =>
    refine .of_push rfl rfl rfl (List.prefix_append _ _) (.description (e := e) ?_)
    simp [Actor.published]

theorem applied_onward (a : Answers) (s : Actor) (c : Completion) : s.Onward (s.applied a c) := by
  have free : s.Onward { s with pending := none } := .of_link rfl rfl rfl List.prefix_rfl
  exact applied_induction free fun _ _ _ published => free.trans published.onward

theorem complete_onward (a : Answers) (s : Actor) (c : Completion) :
    s.Onward (s.complete a c) := by
  by_cases current : c.generation = s.generation
  · rw [complete_of_current current]
    exact (applied_onward a s c).trans (drain_onward a _)
  · rw [complete_of_old current]
    exact .refl s

end Actor

namespace Runner

theorem Acted.onward {a : Answers} {p q : Runner} {m : Act} (done : Acted a p m q) :
    p.actor.Onward q.actor := by
  cases done with
  | pushed =>
    rw [push_actor]
    exact .refl _
  | handleDropped | idle => exact .refl _
  | created => exact .of_link rfl rfl rfl List.prefix_rfl
  | tookInput =>
    rw [endIfLeaved_actor]
    exact Actor.handleInput_onward a _ _
  | tookResult =>
    rw [endIfLeaved_actor]
    exact Actor.complete_onward a _ _
  | abandoned =>
    rw [endIfLeaved_actor]
    exact (Actor.leave_handled a _ true).onward

end Runner

end Parley
