import Parley.Proofs.Relay.Membership

/-!
# Replaying what a peer hears

A peer that is let into a room stands behind the members who are there already. From then on it hears
of everybody who gets in or out behind it, and of everybody who gets out in front of it. So what it
has heard since determines who stands behind it: `replay` starts from nobody, appends whoever joins
and removes whoever leaves, and comes to the members behind the peer, in their order
(`Registry.replay_members`).

`Relayed.behind` is what one event does to the members behind a peer, and `Relayed.insertion` is how a
peer gets in.
-/

namespace Parley

open Registry

/-! ## Replaying events -/

/-- What an event says about who is in a room. -/
def note (r : RoomId) (known : List PeerId) : ServerEvent → List PeerId
  | .otherJoin r' p => if r' = r then known ++ [p] else known
  | .bye r' p => if r' = r then known.filter (· ≠ p) else known
  | _ => known

/-- What events say about who is in a room, one after another. -/
def replay (r : RoomId) (known : List PeerId) (events : List ServerEvent) : List PeerId :=
  events.foldl (note r) known

section Replay

variable {r : RoomId} {known : List PeerId} {events : List ServerEvent}

theorem replay_append (r : RoomId) (known : List PeerId) (events events' : List ServerEvent) :
    replay r known (events ++ events') = replay r (replay r known events) events' :=
  List.foldl_append

theorem replay_of_silent (silent : ∀ event ∈ events, note r known event = known) :
    replay r known events = known := by
  induction events with
  | nil => rfl
  | cons event rest ih =>
    rw [replay, List.foldl_cons, silent event List.mem_cons_self]
    exact ih fun event mem => silent event (List.mem_cons_of_mem _ mem)

end Replay

/-! ## Who stands behind a peer -/

/-- The peer is in the room, and these members are behind it. -/
def Registry.Behind (g : Registry) (r : RoomId) (q : PeerId) (rest : List PeerId) : Prop :=
  ∃ front, q ∉ front ∧ g.members r = front ++ q :: rest

section Behind

variable {g g' : Registry} {e : TransportEvent} {es : List Emission} {p q : PeerId} {r c : RoomId}
  {ps rest : List PeerId}

theorem Registry.Behind.mem (h : g.Behind r q rest) : q ∈ g.members r := by
  obtain ⟨front, -, members⟩ := h
  simp [members]

theorem Registry.Behind.kept (h : g.Behind r q rest) (members : g'.members r = g.members r) :
    g'.Behind r q rest := by
  obtain ⟨front, new, before⟩ := h
  exact ⟨front, new, members.trans before⟩

/-- A member that joins is behind all others. -/
theorem Registry.Behind.join (h : g.Behind r q rest) (members : g'.members r = g.members r ++ [p]) :
    g'.Behind r q (rest ++ [p]) := by
  obtain ⟨front, new, before⟩ := h
  refine ⟨front, new, ?_⟩
  rw [members, before, List.append_assoc]
  rfl

/-- When another member leaves, the order of those who stay does not change. -/
theorem Registry.Behind.leave (h : g.Behind r q rest)
    (members : g'.members r = (g.members r).filter (· ≠ p)) (other : q ≠ p) :
    g'.Behind r q (rest.filter (· ≠ p)) := by
  obtain ⟨front, new, before⟩ := h
  refine ⟨front.filter (· ≠ p), fun mem => new (List.mem_filter.mp mem).1, ?_⟩
  rw [members, before, List.filter_append, List.filter_cons_of_pos (by simpa using other)]

/-- Of several peers that get an event, each gets it once. -/
theorem heard_map (distinct : ps.Nodup) (mem : q ∈ ps) (event : ServerEvent) :
    heard (ps.map (⟨·, event⟩)) q = [event] := by
  have once : ps.filter (· = q) = [q] := by
    rw [List.filter_eq, List.count_eq_one_of_mem distinct mem]
    rfl
  simp only [heard, List.filter_map, Function.comp_def, once, List.map_cons, List.map_nil]

theorem heard_tell (distinct : (g.members r).Nodup) (inside : p ∈ g.members r)
    (mem : q ∈ g.members r) (other : q ≠ p) (event : ServerEvent) :
    heard (g.tell p r event) q = [event] := by
  rw [Registry.tell, if_pos inside]
  exact heard_map (distinct.filter _) (List.mem_filter.mpr ⟨mem, by simpa using other⟩) event

theorem heard_tell_outside (outside : p ∉ g.members r) (event : ServerEvent) :
    heard (g.tell p r event) q = [] := by
  rw [Registry.tell, if_neg outside]
  rfl

/-- When another peer is out of a room, a member that has heard so knows who is behind it. -/
theorem Registry.Behind.departed (h : g.Behind r q rest) (distinct : ∀ r, (g.members r).Nodup)
    (members : ∀ r', g'.members r' = if r' = c then (g.members c).filter (· ≠ p) else g.members r')
    (stays : q ∈ g'.members r) :
    g'.Behind r q (replay r rest (heard (g.tell p c (.bye c p)) q)) := by
  by_cases here : r = c
  · subst here
    have members := members r
    rw [if_pos rfl] at members
    have other : q ≠ p := by
      rw [members] at stays
      simpa using (List.mem_filter.mp stays).2
    by_cases inside : p ∈ g.members r
    · rw [heard_tell (distinct r) inside h.mem other]
      simpa [replay, note] using h.leave members other
    · rw [heard_tell_outside inside]
      refine h.kept (members.trans (List.filter_eq_self.mpr fun x mem => ?_))
      have other : x ≠ p := fun same => inside (same ▸ mem)
      simpa using other
  · rw [replay_of_silent fun event mem => ?_]
    · exact h.kept ((members r).trans (if_neg here))
    · rw [(mem_heard_tell mem).2]
      simp [note, Ne.symm here]

/-- What one event does to the members behind a peer is what the peer hears of it. -/
theorem Relayed.behind (relayed : Relayed g e g' es) (h : g.Behind r q rest)
    (distinct : ∀ r, (g.members r).Nodup) (stays : q ∈ g'.members r) :
    g'.Behind r q (replay r rest (heard es q)) := by
  cases relayed with
  | @readmitted p c | @turnedDown p c =>
    by_cases own : p = q
    · subst own
      simpa [heard, replay, note] using h
    · simpa [heard, replay, own] using h
  | @admitted p c _ outside members =>
    by_cases own : p = q
    · -- The peer itself gets into another room.
      subst own
      have elsewhere : r ≠ c := fun same => outside (same ▸ h.mem)
      rw [heard_cons_self, heard_others]
      exact h.kept ((members r).trans (if_neg elsewhere))
    · rw [heard_cons_other own]
      by_cases here : r = c
      · subst here
        have mem : q ∈ (g.members r).filter (· ≠ p) :=
          List.mem_filter.mpr ⟨h.mem, by simpa using Ne.symm own⟩
        rw [heard_map ((distinct r).filter _) mem]
        simpa [replay, note] using h.join ((members r).trans (if_pos rfl))
      · rw [replay_of_silent fun event mem => ?_]
        · exact h.kept ((members r).trans (if_neg here))
        · rw [(mem_heard_map mem).2]
          simp [note, Ne.symm here]
  | @left p c _ members =>
    have told := h.departed distinct members stays
    have leaved : replay r (replay r rest (heard (g.tell p c (.bye c p)) q))
        (heard [⟨p, .leaved c p⟩] q) = replay r rest (heard (g.tell p c (.bye c p)) q) := by
      by_cases own : p = q <;> simp [heard, replay, note, own]
    rwa [heard_append, replay_append, leaved]
  | @passed p c data =>
    rw [replay_of_silent fun event mem => ?_]
    · exact h
    · rw [(mem_heard_tell mem).2]
      rfl
  | unreadable => exact h
  | @gone p c _ inside members => exact h.departed distinct members stays
  | unknown => exact h

/-! ## Getting in -/

/-- A peer that leaves a room gets into none. -/
theorem Relayed.left_outside (left : Relayed g (.signal p (.leave c)) g' es)
    (outside : q ∉ g.members r) : q ∉ g'.members r := by
  cases left with
  | left members =>
    intro mem
    rw [members] at mem
    split at mem
    case isTrue here => exact outside (here ▸ (List.mem_filter.mp mem).1)
    case isFalse => exact outside mem

/-- A peer gets in as the last member, and hears `joined` at that. -/
theorem Relayed.insertion (relayed : Relayed g e g' es) (outside : q ∉ g.members r)
    (inside : q ∈ g'.members r) :
    heard es q = [.joined r q] ∧ g'.members r = g.members r ++ [q] := by
  have own : q = e.peer := by
    by_contra other
    exact outside (((relayed.heard_other other).2 r).mp inside)
  subst own
  have asked := (relayed.members_self inside).resolve_left outside
  rw [asked] at relayed
  generalize e.peer = q at *
  cases relayed with
  | readmitted before => exact absurd before outside
  | turnedDown => exact absurd inside outside
  | admitted _ members =>
    rw [heard_cons_self, heard_others]
    exact ⟨rfl, (members r).trans (if_pos rfl)⟩

/-- Whatever the event, a peer that gets in is the last member, and `joined` is the last that it hears
of the event. -/
theorem Treated.insertion (treated : Treated g e g' es) (outside : q ∉ g.members r)
    (inside : q ∈ g'.members r) :
    ∃ told, heard es q = told ++ [.joined r q] ∧ g'.Behind r q [] := by
  cases treated with
  | once relayed =>
    obtain ⟨told, members⟩ := relayed.insertion outside inside
    exact ⟨[], told, g.members r, outside, members⟩
  | @moved p c r' g₁ _ es es' _ _ left _ joined =>
    have outside₁ := left.left_outside outside
    obtain ⟨told, members⟩ := joined.insertion outside₁ inside
    exact ⟨heard es q, by rw [heard_append, told], g₁.members r, outside₁, members⟩

/-- Whatever the event, what becomes of the members behind a peer is what the peer hears of it. -/
theorem Treated.behind (treated : Treated g e g' es) (wf : g.Wf) (h : g.Behind r q rest)
    (distinct : ∀ r, (g.members r).Nodup) (stays : q ∈ g'.members r) :
    g'.Behind r q (replay r rest (heard es q)) := by
  cases treated with
  | once relayed => exact relayed.behind h distinct stays
  | @moved p c r' g₁ _ es es' inside other left _ joined =>
    -- The peer that moves is another one: it leaves the one room that it is in.
    have apart : q ≠ p := by
      rintro rfl
      have asked := (joined.members_self stays).resolve_left (left.nowhere wf inside r)
      cases asked
      exact other (wf.one_room inside h.mem)
    have stays₁ : q ∈ g₁.members r := ((left.heard_other apart).2 r).mpr h.mem
    have distinct₁ (r : RoomId) : (g₁.members r).Nodup := by
      cases left with
      | left members =>
        rw [members]
        split
        · exact (distinct c).filter _
        · exact distinct r
    rw [heard_append, replay_append]
    exact joined.behind (left.behind h distinct stays₁) distinct₁ stays

end Behind

/-! ## From getting in until now -/

namespace Registry

/-- The peer got into the room with an event, and has stayed there since. -/
structure Stay (g : Registry) (q : PeerId) (r : RoomId) (before : List TransportEvent)
    (e : TransportEvent) (after : List TransportEvent) : Prop where
  outside : q ∉ (g.relay before).1.members r
  inside : ∀ since, since <+: after → q ∈ (g.relay (before ++ e :: since)).1.members r

/-- The peer heard `joined` last when it got in, and what it has heard since, replayed from nobody,
comes to the members behind it. -/
structure Reproduced (g : Registry) (q : PeerId) (r : RoomId) (before : List TransportEvent)
    (e : TransportEvent) (after : List TransportEvent) : Prop where
  joined : ∃ told, heard ((g.relay before).1.handle e).2 q = told ++ [.joined r q]
  members : ∃ front, q ∉ front ∧ (g.relay (before ++ e :: after)).1.members r =
    front ++ q :: replay r [] (heard ((g.relay (before ++ [e])).1.relay after).2 q)

variable {q : PeerId} {r : RoomId}

theorem relay_since (g : Registry) (before : List TransportEvent) (e : TransportEvent)
    (after : List TransportEvent) :
    (g.relay (before ++ e :: after)).1 = ((g.relay (before ++ [e])).1.relay after).1 := by
  rw [← List.singleton_append, ← List.append_assoc, relay_append]

/-- Replaying what a member has heard since it got in comes to the members behind it. -/
theorem replay_members (capacity : Nat) (events : List TransportEvent)
    (member : q ∈ ((Registry.empty capacity).relay events).1.members r) :
    ∃ before e after, events = before ++ e :: after ∧
      (Registry.empty capacity).Stay q r before e after ∧
      (Registry.empty capacity).Reproduced q r before e after := by
  induction events using List.reverseRecOn with
  | nil => cases member
  | append_singleton events e ih =>
    have wf := (Wf.empty capacity).relay events
    have tidy := (Tidy.empty capacity).relay events
    obtain ⟨-, treated⟩ := wf.handle_treated e
    rw [relay_snoc] at member
    by_cases inside : q ∈ ((Registry.empty capacity).relay events).1.members r
    · obtain ⟨before, e₀, after, rfl, stay, joined, front, new, members⟩ := ih inside
      obtain ⟨front', new', members'⟩ :=
        treated.behind wf ⟨front, new, members⟩ tidy.distinct member
      rw [relay_since] at member members'
      refine ⟨before, e₀, after ++ [e], by simp, ⟨stay.outside, fun since upTo => ?_⟩, joined,
        front', new', ?_⟩
      · rcases List.prefix_concat_iff.mp upTo with rfl | earlier
        · rw [relay_since, relay_snoc _ after]
          exact member
        · exact stay.inside since earlier
      · rw [relay_since, relay_snoc _ after, heard_append, replay_append]
        exact members'
    · obtain ⟨told, heard, front, new, members⟩ := treated.insertion inside member
      refine ⟨events, e, [], rfl, ⟨inside, fun since upTo => ?_⟩, ⟨told, heard⟩, front, new, ?_⟩
      · rw [List.prefix_nil.mp upTo, relay_snoc]
        exact member
      · rw [relay_snoc]
        exact members

/-- Peers come and go around one that stays: they move on, join again, come back and disconnect. -/
def comings : List TransportEvent :=
  let join (p r : String) : TransportEvent := .signal ⟨p⟩ (.join ⟨r⟩)
  [join "x" "r", join "a" "s", join "a" "r", join "b" "r", join "c" "r", join "a" "r",
    .signal ⟨"x"⟩ (.leave ⟨"r"⟩), join "b" "s", join "b" "r", join "d" "r", .disconnected ⟨"c"⟩]

theorem replay_comings :
    ((Registry.empty 5).relay comings).1.members ⟨"r"⟩ = [⟨"a"⟩, ⟨"b"⟩, ⟨"d"⟩] ∧
      ∃ before e after, comings = before ++ e :: after ∧
        (Registry.empty 5).Stay ⟨"a"⟩ ⟨"r"⟩ before e after ∧
        (Registry.empty 5).Reproduced ⟨"a"⟩ ⟨"r"⟩ before e after := by
  have members : ((Registry.empty 5).relay comings).1.members ⟨"r"⟩ = [⟨"a"⟩, ⟨"b"⟩, ⟨"d"⟩] := by
    decide
  exact ⟨members, replay_members 5 comings (by rw [members]; decide)⟩

end Registry

end Parley
