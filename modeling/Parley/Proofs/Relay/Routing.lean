import Parley.Proofs.Relay.Replay

/-!
# Who is where and who hears what

What the relay has to do about an event, said without its jobs: `Registry.membersAfter` lists the
members of each room after the event, and `Registry.hears` what a peer gets of it, both by the members
of the rooms before it. A peer that joins another room is dealt with in two steps, as if it had left the
one that it is in first; here the two come to one list for each peer, because nobody else is in both
rooms.

`relay_routes` says that the relay does this, and nothing else, after any events.
-/

namespace Parley

namespace Registry

/-! ## What has to be done -/

/-- The room has space for one more member. -/
def HasSpace (g : Registry) (r : RoomId) : Prop := (g.members r).length < g.capacity

instance (g : Registry) (r : RoomId) : Decidable (g.HasSpace r) :=
  inferInstanceAs (Decidable (_ < _))

/-- The members of a room after an event. -/
def membersAfter (g : Registry) (e : TransportEvent) (r : RoomId) : List PeerId :=
  match e with
  | .signal p (.join r') =>
    if p ∈ g.members r' then g.members r
    else if r = r' then if g.HasSpace r then g.members r ++ [p] else g.members r
    else if g.roomOf? p = some r then (g.members r).filter (· ≠ p) else g.members r
  | .signal p (.leave r') => if r = r' then (g.members r).filter (· ≠ p) else g.members r
  | .signal _ (.message _ _) => g.members r
  | .disconnected p =>
    if g.roomOf? p = some r then (g.members r).filter (· ≠ p) else g.members r

/-- What another peer hears when a peer gets out of the room that it is in. -/
def hearsOff (g : Registry) (p q : PeerId) : List ServerEvent :=
  match g.roomOf? p with
  | some c => if q ∈ g.members c then [.bye c p] else []
  | none => []

/-- What a peer hears of an event. -/
def hears (g : Registry) (q : PeerId) : TransportEvent → List ServerEvent
  | .signal p (.join r) =>
    if p ∈ g.members r then if q = p then [.joined r p] else []
    else if q = p then
      (g.roomOf? p).toList.map (.leaved · p) ++
        [if g.HasSpace r then .joined r p else .full r p]
    else g.hearsOff p q ++ if g.HasSpace r ∧ q ∈ g.members r then [.otherJoin r p] else []
  | .signal p (.leave r) =>
    if q = p then [.leaved r p]
    else if p ∈ g.members r ∧ q ∈ g.members r then [.bye r p] else []
  | .signal p (.message r data) =>
    if q ≠ p ∧ p ∈ g.members r ∧ q ∈ g.members r ∧ (Message.parse data).isOk then
      [.message r p data]
    else []
  | .disconnected p => if q = p then [] else g.hearsOff p q

/-- The relay has done what has to be done about an event, and nothing else. -/
structure Routed (g : Registry) (e : TransportEvent) (g' : Registry) (es : List Emission) :
    Prop where
  members : ∀ r, g'.members r = g.membersAfter e r
  roomOf : ∀ p r, g'.roomOf? p = some r ↔ p ∈ g.membersAfter e r
  count : g'.roomCount = {r | g.membersAfter e r ≠ []}.ncard
  heard : ∀ q, heard es q = g.hears q e

variable {g g₁ : Registry} {p q : PeerId} {r c : RoomId}

/-! ## Who hears what -/

/-- A peer that asks for a room is turned down if the room has no space for it. -/
theorem Tidy.join_full_iff (tidy : g.Tidy) (outside : p ∉ g.members r) :
    (g.join r p).1 = .full ↔ ¬ g.HasSpace r := by
  have new : (g.roomOrNew r).contains p = false := by
    simpa [Room.contains, tidy.members_roomOrNew r] using outside
  have capacity : (g.roomOrNew r).capacity = g.capacity := by
    rcases tidy.roomOrNew_cases r with ⟨-, inUse⟩ | ⟨-, fresh⟩
    · exact inUse.space
    · rw [fresh]
      rfl
  have full : (g.roomOrNew r).isFull = true ↔ ¬ g.HasSpace r := by
    simp [Room.isFull, Room.size, HasSpace, capacity, tidy.members_roomOrNew r]
  rw [← full]
  cases space : (g.roomOrNew r).isFull with
  | true => simp [join_of_isFull new space]
  | false => simp [join_of_space new space]

/-- What comes of a peer that asks for a room while it is in no other one. -/
theorem run_enter (wf : g.Wf) (tidy : g.Tidy) (single : ∀ r', p ∈ g.members r' → r' = r) :
    (∀ r', ((Job.enter p r).run g).1.members r' =
      if r' = r ∧ p ∉ g.members r ∧ g.HasSpace r then g.members r' ++ [p] else g.members r') ∧
    ∀ q, heard ((Job.enter p r).run g).2 q =
      if q = p then [if p ∈ g.members r ∨ g.HasSpace r then .joined r p else .full r p]
      else if p ∉ g.members r ∧ g.HasSpace r ∧ q ∈ g.members r then [.otherJoin r p] else [] := by
  have told (event : ServerEvent) (q : PeerId) :
      heard [⟨p, event⟩] q = if q = p then [event] else [] := by
    by_cases own : q = p
    · simp [heard, own]
    · simp [heard, own, Ne.symm own]
  unfold Job.enter
  simp only [Job.run]
  rcases wf.join_cases single with
    ⟨inside, n, join⟩ | ⟨outside, join⟩ | ⟨outside, ⟨n, join⟩, -, members⟩
  · rw [join]
    simp [Job.run, told, inside]
  · have full : ¬ g.HasSpace r := (tidy.join_full_iff outside).mp (by rw [join])
    rw [join]
    simp [Job.run, told, outside, full]
  · have space : g.HasSpace r := by
      by_contra full
      rw [(tidy.join_full_iff outside).mpr full] at join
      cases join
    rw [join]
    simp only [Job.run, Job.run_fanOut, List.append_nil]
    refine ⟨fun r' => ?_, fun q => ?_⟩
    · rw [members r']
      by_cases here : r' = r
      · simp [here, outside, space]
      · simp [here]
    · by_cases own : q = p
      · subst own
        rw [heard_cons_self, heard_others]
        simp [space]
      · rw [heard_cons_other (Ne.symm own), if_neg own]
        by_cases inside : q ∈ g.members r
        · have mem : q ∈ (g.members r).filter (· ≠ p) := List.mem_filter.mpr ⟨inside, by simpa⟩
          rw [heard_map ((tidy.distinct r).filter _) mem]
          simp [outside, space, inside]
        · simp only [inside, and_false, if_false]
          refine List.eq_nil_iff_forall_not_mem.mpr fun event mem => inside ?_
          exact (List.mem_filter.mp (mem_heard_map mem).1).1

/-- What the others in the room of a peer are told, each of them hears once. -/
theorem heard_tell_iff (tidy : g.Tidy) (p : PeerId) (c : RoomId) (event : ServerEvent)
    (q : PeerId) :
    heard (g.tell p c event) q =
      if q ≠ p ∧ p ∈ g.members c ∧ q ∈ g.members c then [event] else [] := by
  by_cases inside : p ∈ g.members c
  · by_cases own : q = p
    · subst own
      simp [heard_tell_self]
    · by_cases mem : q ∈ g.members c
      · rw [heard_tell (tidy.distinct c) inside mem own]
        simp [own, inside, mem]
      · rw [if_neg fun h => mem h.2.2]
        refine List.eq_nil_iff_forall_not_mem.mpr fun event' there => mem ?_
        exact (mem_heard_tell there).1
  · rw [heard_tell_outside inside, if_neg fun h => inside h.2.1]

/-- What the others hear when a peer gets out of the room that it is in. -/
theorem heard_off (wf : g.Wf) (tidy : g.Tidy) (inside : p ∈ g.members c) (other : q ≠ p) :
    heard (g.tell p c (.bye c p)) q = g.hearsOff p q := by
  rw [heard_tell_iff tidy]
  simp [hearsOff, roomOf?, wf.whereabouts.mpr inside, inside, other]

/-! ## Events -/

theorem routed_leave (tidy : g.Tidy) (p : PeerId) (r : RoomId) :
    (∀ r', (g.handle (.signal p (.leave r))).1.members r' =
      g.membersAfter (.signal p (.leave r)) r') ∧
    ∀ q, heard (g.handle (.signal p (.leave r))).2 q = g.hears q (.signal p (.leave r)) := by
  rw [g.handle_leave p r]
  refine ⟨fun r' => ?_, fun q => ?_⟩
  · rw [g.members_leave]
    by_cases here : r' = r
    · subst here
      simp [membersAfter]
    · simp [membersAfter, here]
  · rw [heard_append, heard_tell_iff tidy]
    by_cases own : q = p
    · subst own
      simp [hears, heard]
    · simp [hears, heard, own, Ne.symm own]

theorem routed_message (tidy : g.Tidy) (p : PeerId) (r : RoomId) (data : Json) :
    (g.handle (.signal p (.message r data))).1 = g ∧
    ∀ q, heard (g.handle (.signal p (.message r data))).2 q =
      g.hears q (.signal p (.message r data)) := by
  have handled : g.handle (.signal p (.message r data)) =
      (g, if (Message.parse data).isOk then g.tell p r (.message r p data) else []) := by
    show (Job.ofMessage p r data).run g = _
    simp only [Job.ofMessage, Job.run, isMember]
    by_cases inside : p ∈ g.members r
    · cases Message.parse data <;>
        simp [Job.run, Job.run_fanOut, tell, inside, Except.isOk, Except.toBool]
    · cases Message.parse data <;>
        simp [Job.run, tell, inside, Except.isOk, Except.toBool]
  rw [handled]
  refine ⟨rfl, fun q => ?_⟩
  cases readable : (Message.parse data).isOk with
  | true =>
    rw [if_pos rfl, heard_tell_iff tidy]
    simp [hears, readable]
  | false => simp [hears, heard, readable]

theorem routed_disconnected (wf : g.Wf) (tidy : g.Tidy) (p : PeerId) :
    (∀ r, (g.handle (.disconnected p)).1.members r = g.membersAfter (.disconnected p) r) ∧
    ∀ q, heard (g.handle (.disconnected p)).2 q = g.hears q (.disconnected p) := by
  have run : g.handle (.disconnected p) = (Job.ofDisconnect p).run g := rfl
  cases current : g.whereabouts.get? p with
  | none =>
    have handled : g.handle (.disconnected p) = (g, []) := by
      rw [run]
      simp [Job.ofDisconnect, Job.run, roomOf?, current]
    rw [handled]
    simp [membersAfter, hears, hearsOff, roomOf?, current, heard]
  | some c =>
    have handled : g.handle (.disconnected p) = ((g.leave c p).2, g.tell p c (.bye c p)) := by
      rw [run]
      simp [Job.ofDisconnect, Job.run, roomOf?, current, Job.run_depart]
    rw [handled]
    refine ⟨fun r => ?_, fun q => ?_⟩
    · rw [g.members_leave]
      by_cases here : r = c
      · subst here
        simp [membersAfter, roomOf?, current]
      · simp [membersAfter, roomOf?, current, here, Ne.symm here]
    · by_cases own : q = p
      · subst own
        simp [hears, heard_tell_self]
      · rw [heard_off wf tidy (wf.whereabouts.mp current) own]
        simp [hears, own]

/-- A peer that is in no other room gets into the room that it asks for, if it can. -/
theorem routed_enter (wf : g.Wf) (tidy : g.Tidy) (single : ∀ r', p ∈ g.members r' → r' = r) :
    (∀ r', (g.handle (.signal p (.join r))).1.members r' =
      g.membersAfter (.signal p (.join r)) r') ∧
    ∀ q, heard (g.handle (.signal p (.join r))).2 q = g.hears q (.signal p (.join r)) := by
  obtain ⟨members, heard⟩ := run_enter wf tidy single
  rw [wf.handle_enter single]
  by_cases inside : p ∈ g.members r
  · refine ⟨fun r' => ?_, fun q => ?_⟩
    · rw [members]
      simp [membersAfter, inside]
    · rw [heard]
      simp [hears, inside]
  · have nowhere : g.roomOf? p = none := by
      cases found : g.roomOf? p with
      | none => rfl
      | some c =>
        have here := wf.whereabouts.mp found
        exact absurd (single c here ▸ here) inside
    refine ⟨fun r' => ?_, fun q => ?_⟩
    · rw [members]
      by_cases here : r' = r
      · subst here
        simp [membersAfter, inside]
      · simp [membersAfter, inside, here, nowhere]
    · rw [heard]
      simp [hears, hearsOff, inside, nowhere]

/-- A peer that moves on leaves one room and then gets into the other one, if it can. -/
theorem routed_move (wf : g.Wf) (tidy : g.Tidy) (inside : p ∈ g.members c) (other : c ≠ r) :
    (∀ r', (g.handle (.signal p (.join r))).1.members r' =
      g.membersAfter (.signal p (.join r)) r') ∧
    ∀ q, heard (g.handle (.signal p (.join r))).2 q = g.hears q (.signal p (.join r)) := by
  have current : g.roomOf? p = some c := wf.whereabouts.mpr inside
  have outside : p ∉ g.members r := fun mem => other (wf.one_room inside mem)
  obtain ⟨members, heard⟩ := routed_leave tidy p c
  obtain ⟨wf₁, left⟩ := wf.handle_relayed (e := .signal p (.leave c)) trivial
  have nowhere (r' : RoomId) := left.nowhere wf inside r'
  have tidy₁ := tidy.handle (.signal p (.leave c))
  have capacity := g.capacity_handle (.signal p (.leave c))
  rw [wf.handle_move inside other]
  generalize g.handle (.signal p (.leave c)) = step at *
  obtain ⟨g₁, es⟩ := step
  obtain ⟨members', heard'⟩ := routed_enter (r := r) wf₁ tidy₁ fun r' mem => absurd mem (nowhere r')
  -- Nothing has changed in the room that the peer asks for.
  have there : g₁.members r = g.members r := by simpa [membersAfter, Ne.symm other] using members r
  have space : g₁.HasSpace r ↔ g.HasSpace r := by
    unfold HasSpace
    rw [there, capacity]
  have unknown : g₁.roomOf? p = none := by
    cases found : g₁.roomOf? p with
    | none => rfl
    | some r' => exact absurd (wf₁.whereabouts.mp found) (nowhere r')
  refine ⟨fun r' => ?_, fun q => ?_⟩
  · have before : g₁.members r' = g.membersAfter (.signal p (.leave c)) r' := members r'
    rw [members']
    by_cases here : r' = r
    · subst here
      simp [membersAfter, there, outside, space]
    · by_cases left : r' = c
      · subst left
        simp [membersAfter, nowhere r, outside, here, before, current, unknown]
      · simp [membersAfter, nowhere r, outside, here, left, before, current, unknown, Ne.symm left]
  · rw [heard_append, heard, heard']
    by_cases own : q = p
    · subst own
      simp [hears, nowhere r, outside, current, unknown, space]
    · simp [hears, hearsOff, outside, current, unknown, space, own, there, inside]

/-! ## Events after events -/

/-- After any events, the relay does about the next one what has to be done, and nothing else. -/
theorem relay_routes (capacity : Nat) (events : List TransportEvent) (e : TransportEvent) :
    let g := ((Registry.empty capacity).relay events).1
    g.capacity = max capacity 1 ∧ g.Routed e (g.handle e).1 (g.handle e).2 := by
  intro g
  have wf : g.Wf := (Wf.empty capacity).relay events
  have tidy : g.Tidy := (Tidy.empty capacity).relay events
  refine ⟨capacity_relay _ events, ?_⟩
  suffices routed : (∀ r, (g.handle e).1.members r = g.membersAfter e r) ∧
      ∀ q, heard (g.handle e).2 q = g.hears q e by
    obtain ⟨members, heard⟩ := routed
    have after := (wf.handle e).consistent (tidy.handle e)
    refine ⟨members, fun p r => ?_, ?_, heard⟩
    · rw [← members]
      exact (after.whereabouts p r).symm
    · simp only [← members]
      exact after.count
  match e with
  | .signal p (.join r) =>
    by_cases moves : ∃ c, p ∈ g.members c ∧ c ≠ r
    · obtain ⟨c, inside, other⟩ := moves
      exact routed_move wf tidy inside other
    · exact routed_enter wf tidy (by simpa using moves)
  | .signal p (.leave r) => exact routed_leave tidy p r
  | .signal p (.message r data) =>
    obtain ⟨same, heard⟩ := routed_message tidy p r data
    exact ⟨fun r' => by rw [same]; rfl, heard⟩
  | .disconnected p => exact routed_disconnected wf tidy p

/-- A peer that moves to a full room is out of its old room all the same. -/
example :
    let join (p r : String) : TransportEvent := .signal ⟨p⟩ (.join ⟨r⟩)
    let g := ((Registry.empty 2).relay [join "a" "r", join "b" "r", join "x" "s", join "p" "s"]).1
    let after := g.handle (join "p" "r")
    after.1.members ⟨"s"⟩ = [⟨"x"⟩] ∧ heard after.2 ⟨"x"⟩ = [.bye ⟨"s"⟩ ⟨"p"⟩] ∧
      heard after.2 ⟨"p"⟩ = [.leaved ⟨"s"⟩ ⟨"p"⟩, .full ⟨"r"⟩ ⟨"p"⟩] := ⟨rfl, rfl, rfl⟩

end Registry

end Parley
