import Parley.Proofs.Room.Sequential
import Parley.Relay

/-!
# What the relay does about an event

`Registry.Wf` is what holds of the registry of a relay: rooms are never retired, and a peer is in
the one room that the registry knows it to be in. `handle_relayed` says what the relay does about an
event: who is in which room afterwards, and who hears what.

A peer hears `joined` or `full` only in reply to its own join, and of the others only what happens in
its own room (`Relayed.heard_other`).
-/

namespace Parley

namespace Registry

/-- What holds of the registry of a relay. -/
structure Wf (g : Registry) : Prop where
  live : ∀ {r room}, g.rooms.get? r = some room → room.retired = false
  whereabouts : ∀ {p r}, g.whereabouts.get? p = some r ↔ p ∈ g.members r

variable {g : Registry} {p q : PeerId} {r r' : RoomId}

theorem Wf.empty (capacity : Nat) : (Registry.empty capacity).Wf where
  live := nofun
  whereabouts := by simp [Registry.empty, members]

theorem Wf.members_roomOrNew (h : g.Wf) (r : RoomId) :
    (g.roomOrNew r).members = g.members r ∧ (g.roomOrNew r).retired = false := by
  unfold roomOrNew members
  cases found : g.rooms.get? r with
  | none => exact ⟨rfl, rfl⟩
  | some room =>
    have live := h.live found
    simp [live]

/-- A peer is in one room at most. -/
theorem Wf.one_room (h : g.Wf) (inside : p ∈ g.members r) (inside' : p ∈ g.members r') : r = r' := by
  have here := h.whereabouts.mpr inside
  rw [h.whereabouts.mpr inside'] at here
  cases here
  rfl

/-! ## Joining and leaving -/

/-- What becomes of the join of a peer that is in no other room. -/
theorem Wf.join_cases (h : g.Wf) (single : ∀ r', p ∈ g.members r' → r' = r) :
    (p ∈ g.members r ∧ ∃ n, g.join r p = (.alreadyMember n, g)) ∨
      (p ∉ g.members r ∧ g.join r p = (.full, g)) ∨
      (p ∉ g.members r ∧ (∃ n, (g.join r p).1 = .joined n (g.members r)) ∧ (g.join r p).2.Wf ∧
        ∀ r', (g.join r p).2.members r' =
          if r' = r then g.members r ++ [p] else g.members r') := by
  obtain ⟨same, live⟩ := h.members_roomOrNew r
  cases inside : (g.roomOrNew r).contains p with
  | true =>
    refine .inl ⟨?_, _, join_of_contains inside⟩
    rw [← same]
    simpa [Room.contains] using inside
  | false =>
    have outside : p ∉ g.members r := by
      rw [← same]
      simpa [Room.contains] using inside
    refine .inr ?_
    cases full : (g.roomOrNew r).isFull with
    | true => exact .inl ⟨outside, join_of_isFull inside full⟩
    | false =>
      refine .inr ⟨outside, ?_⟩
      rw [join_of_space inside full]
      have members (r' : RoomId) : ({ g with
          rooms := g.rooms.set r ((g.roomOrNew r).insert p)
          whereabouts := g.whereabouts.set p r } : Registry).members r' =
            if r' = r then g.members r ++ [p] else g.members r' := by
        rw [members_set, ← same]
        rfl
      refine ⟨⟨_, by rw [same]⟩, ⟨?_, ?_⟩, members⟩
      · intro r' room found
        change (g.rooms.set r _).get? r' = some room at found
        rw [Table.get?_set] at found
        split at found
        · cases found
          exact live
        · exact h.live found
      · -- The peer was nowhere else, so its new whereabouts are all there are.
        intro q r'
        rw [members r']
        show (g.whereabouts.set p r).get? q = some r' ↔ _
        rw [Table.get?_set]
        by_cases own : q = p
        · subst own
          by_cases here : r' = r
          · subst here
            simp
          · simp only [if_true, Option.some.injEq, if_neg here]
            exact ⟨fun e => absurd e.symm here, fun mem => absurd (single r' mem) here⟩
        · by_cases here : r' = r
          · subst here
            simp [own, h.whereabouts]
          · simp [own, here, h.whereabouts]

/-- A leave keeps the registry as it should be. -/
theorem Wf.leave (h : g.Wf) (r : RoomId) (p : PeerId) : (g.leave r p).2.Wf := by
  cases found : g.rooms.get? r with
  | none =>
    have same : (g.leave r p).2 = g := by simp [Registry.leave, found]
    rw [same]
    exact h
  | some room =>
    constructor
    · intro r' room' there
      simp only [Registry.leave, found] at there
      split at there
      · rw [Table.get?_erase] at there
        split at there
        · cases there
        · exact h.live there
      · rw [Table.get?_set] at there
        split at there
        · cases there
          exact show room.retired = false from h.live found
        · exact h.live there
    · intro q r'
      rw [g.members_leave r p r']
      have mine : room.contains p = true ↔ p ∈ g.members r := by simp [Room.contains, members, found]
      simp only [Registry.leave, found]
      split
      case isTrue known =>
        rw [Table.get?_erase]
        by_cases own : q = p
        · subst own
          by_cases here : r' = r
          · simp [here]
          · simp only [if_true, if_neg here]
            refine ⟨fun found => (by cases found), fun mem => absurd ?_ here⟩
            exact h.one_room mem (mine.mp known.1)
        · by_cases here : r' = r
          · simp [here, own, h.whereabouts]
          · simp [here, own, h.whereabouts]
      case isFalse unknown =>
        -- The peer was not in the room, and whoever stays there stays listed.
        have outside : p ∉ g.members r := fun mem =>
          unknown ⟨mine.mpr mem, h.whereabouts.mpr mem⟩
        rw [h.whereabouts]
        by_cases here : r' = r
        · subst here
          have others (mem : q ∈ g.members r') : q ≠ p := fun e => outside (e ▸ mem)
          simp only [if_true, List.mem_filter, decide_eq_true_eq]
          exact ⟨fun mem => ⟨mem, others mem⟩, fun mem => mem.1⟩
        · rw [if_neg here]

/-! ## Handling an event -/

/-- What the others in the room of a peer hear, and nobody if the peer is not in there. -/
def tell (g : Registry) (p : PeerId) (r : RoomId) (event : ServerEvent) : List Emission :=
  if p ∈ g.members r then ((g.members r).filter (· ≠ p)).map (⟨·, event⟩) else []

end Registry

open Registry

theorem Job.run_fanOut (g : Registry) (recipients : List PeerId) (p : PeerId) (event : ServerEvent)
    (next : Job) :
    (fanOut recipients p event next).run g =
      ((next.run g).1, (recipients.filter (· ≠ p)).map (⟨·, event⟩) ++ (next.run g).2) := by
  unfold fanOut
  induction recipients.filter (· ≠ p) with
  | nil => rfl
  | cons q rest ih =>
    rw [List.foldr_cons, Job.run, ih]
    rfl

/-- What the relay does about an event: the registry after it and the events it emits. -/
inductive Relayed (g : Registry) : TransportEvent → Registry → List Emission → Prop
  | readmitted {p : PeerId} {r : RoomId} (inside : p ∈ g.members r) :
      Relayed g (.signal p (.join r)) g [⟨p, .joined r p⟩]
  | turnedDown {p : PeerId} {r : RoomId} (outside : p ∉ g.members r) :
      Relayed g (.signal p (.join r)) g [⟨p, .full r p⟩]
  | admitted {p : PeerId} {r : RoomId} {g' : Registry} (outside : p ∉ g.members r)
      (members : ∀ r', g'.members r' = if r' = r then g.members r ++ [p] else g.members r') :
      Relayed g (.signal p (.join r)) g'
        (⟨p, .joined r p⟩ :: ((g.members r).filter (· ≠ p)).map (⟨·, .otherJoin r p⟩))
  | left {p : PeerId} {r : RoomId} {g' : Registry}
      (members : ∀ r', g'.members r' =
        if r' = r then (g.members r).filter (· ≠ p) else g.members r') :
      Relayed g (.signal p (.leave r)) g' (g.tell p r (.bye r p) ++ [⟨p, .leaved r p⟩])
  | passed {p : PeerId} {r : RoomId} {data : Json} {m : Message}
      (parsed : Message.parse data = .ok m) :
      Relayed g (.signal p (.message r data)) g (g.tell p r (.message r p data))
  | unreadable {p : PeerId} {r : RoomId} {data : Json} :
      Relayed g (.signal p (.message r data)) g []
  | gone {p : PeerId} {r : RoomId} {g' : Registry} (inside : p ∈ g.members r)
      (members : ∀ r', g'.members r' =
        if r' = r then (g.members r).filter (· ≠ p) else g.members r') :
      Relayed g (.disconnected p) g' (g.tell p r (.bye r p))
  | unknown {p : PeerId} (nowhere : ∀ r, p ∉ g.members r) : Relayed g (.disconnected p) g []

/-- A peer that asks for a room is in no other room. -/
def TransportEvent.Single (g : Registry) : TransportEvent → Prop
  | .signal p (.join r) => ∀ r', p ∈ g.members r' → r' = r
  | _ => True

theorem Job.run_depart (g : Registry) (p : PeerId) (r : RoomId) (asked : Bool) (next : Job) :
    (depart p r asked next).run g =
      ((next.run (g.leave r p).2).1,
        (g.tell p r (.bye r p) ++ if asked then [⟨p, .leaved r p⟩] else []) ++
          (next.run (g.leave r p).2).2) := by
  have again : ((g.members r).filter (· ≠ p)).filter (· ≠ p) = (g.members r).filter (· ≠ p) := by
    simp [List.filter_filter]
  unfold depart Registry.tell
  simp only [Job.run, leave_outcome]
  by_cases inside : p ∈ g.members r
  · simp only [inside, decide_true, if_true]
    rw [run_fanOut, again]
    cases asked
    · simp
    · simp [Job.run]
  · simp only [inside, decide_false, Bool.false_eq_true, if_false]
    cases asked <;> rfl

theorem Job.run_enter {g : Registry} (h : g.Wf) {p : PeerId} {r : RoomId}
    (single : ∀ r', p ∈ g.members r' → r' = r) :
    ((enter p r).run g).1.Wf ∧
      Relayed g (.signal p (.join r)) ((enter p r).run g).1 ((enter p r).run g).2 := by
  unfold enter
  simp only [Job.run]
  rcases h.join_cases single with
    ⟨inside, n, join⟩ | ⟨outside, join⟩ | ⟨outside, ⟨n, join⟩, wf, members⟩
  · rw [join]
    exact ⟨h, .readmitted inside⟩
  · rw [join]
    exact ⟨h, .turnedDown outside⟩
  · rw [join]
    simp only [Job.run, run_fanOut, List.append_nil]
    exact ⟨wf, .admitted outside members⟩

/-- A peer that asks for a room while it is in no other one is let in or turned down at once. -/
theorem Registry.Wf.handle_enter {g : Registry} (h : g.Wf) {p : PeerId} {r : RoomId}
    (single : ∀ r', p ∈ g.members r' → r' = r) :
    g.handle (.signal p (.join r)) = (Job.enter p r).run g := by
  show (Job.ofJoin p r).run g = _
  simp only [Job.ofJoin, Job.run, roomOf?]
  cases current : g.whereabouts.get? p with
  | none => rfl
  | some c =>
    have here : c = r := single c (h.whereabouts.mp current)
    simp [here]

/-- Whatever the event, the relay does one of the things named above. -/
theorem Registry.Wf.handle_relayed {g : Registry} (h : g.Wf) {e : TransportEvent}
    (single : e.Single g) : (g.handle e).1.Wf ∧ Relayed g e (g.handle e).1 (g.handle e).2 := by
  cases e with
  | signal p event =>
    cases event with
    | join r =>
      rw [h.handle_enter single]
      exact Job.run_enter h single
    | leave r =>
      show ((Job.depart p r true .done).run g).1.Wf ∧
        Relayed g _ ((Job.depart p r true .done).run g).1 ((Job.depart p r true .done).run g).2
      rw [Job.run_depart]
      simp only [Job.run, if_true, List.append_nil]
      exact ⟨h.leave r p, .left (g.members_leave r p)⟩
    | message r data =>
      show ((Job.ofMessage p r data).run g).1.Wf ∧
        Relayed g _ ((Job.ofMessage p r data).run g).1 ((Job.ofMessage p r data).run g).2
      simp only [Job.ofMessage, Job.run, isMember]
      by_cases inside : p ∈ g.members r
      · simp only [inside, decide_true, if_true]
        split
        case h_1 m parsed =>
          have told : g.tell p r (.message r p data) =
              ((g.members r).filter (· ≠ p)).map (⟨·, .message r p data⟩) := if_pos inside
          simp only [Job.run, Job.run_fanOut, List.append_nil, ← told]
          exact ⟨h, .passed parsed⟩
        case h_2 => exact ⟨h, .unreadable⟩
      · simp only [inside, decide_false, Bool.false_eq_true, if_false]
        exact ⟨h, .unreadable⟩
  | disconnected p =>
    show ((Job.ofDisconnect p).run g).1.Wf ∧
      Relayed g _ ((Job.ofDisconnect p).run g).1 ((Job.ofDisconnect p).run g).2
    simp only [Job.ofDisconnect, Job.run, roomOf?]
    cases current : g.whereabouts.get? p with
    | none =>
      refine ⟨h, .unknown fun r mem => ?_⟩
      rw [h.whereabouts.mpr mem] at current
      cases current
    | some r =>
      dsimp only
      rw [Job.run_depart]
      simp only [Job.run, Bool.false_eq_true, if_false, List.append_nil]
      refine ⟨h.leave r p, ?_⟩
      exact .gone (h.whereabouts.mp current) (g.members_leave r p)

/-! ## Who hears what -/

/-- The peer that an event comes from. -/
def TransportEvent.peer : TransportEvent → PeerId
  | .signal p _ | .disconnected p => p

/-- The events that a peer gets. -/
def heard (es : List Emission) (q : PeerId) : List ServerEvent :=
  (es.filter (·.recipient = q)).map (·.event)

/-- The event tells a member what another peer does. -/
def ServerEvent.IsAbout (p : PeerId) : ServerEvent → Prop
  | .otherJoin _ q | .bye _ q | .message _ q _ => q = p
  | _ => False

section Heard

variable {g g' : Registry} {e : TransportEvent} {es : List Emission} {p q : PeerId} {r : RoomId}
  {event : ServerEvent}

theorem heard_append (es es' : List Emission) (q : PeerId) :
    heard (es ++ es') q = heard es q ++ heard es' q := by
  simp [heard]

theorem heard_cons_self (event : ServerEvent) (es : List Emission) :
    heard (⟨q, event⟩ :: es) q = event :: heard es q := by
  simp [heard]

theorem heard_cons_other (other : p ≠ q) (event : ServerEvent) (es : List Emission) :
    heard (⟨p, event⟩ :: es) q = heard es q := by
  simp [heard, other]

/-- Nobody hears from itself. -/
theorem heard_others (ps : List PeerId) (event : ServerEvent) :
    heard ((ps.filter (· ≠ p)).map (⟨·, event⟩)) p = [] := by
  simp [heard, List.filter_map, List.filter_filter]

theorem mem_heard_map {ps : List PeerId} {event' : ServerEvent}
    (mem : event' ∈ heard (ps.map (⟨·, event⟩)) q) : q ∈ ps ∧ event' = event := by
  obtain ⟨emission, there, rfl⟩ := List.mem_map.mp mem
  obtain ⟨there, own⟩ := List.mem_filter.mp there
  obtain ⟨p, inside, rfl⟩ := List.mem_map.mp there
  have same : p = q := by simpa using own
  exact ⟨same ▸ inside, rfl⟩

theorem heard_tell_self (g : Registry) (p : PeerId) (r : RoomId) (event : ServerEvent) :
    heard (g.tell p r event) p = [] := by
  unfold Registry.tell
  split
  · exact heard_others _ _
  · rfl

theorem mem_heard_tell {event' : ServerEvent} (mem : event' ∈ heard (g.tell p r event) q) :
    q ∈ g.members r ∧ event' = event := by
  unfold Registry.tell at mem
  split at mem
  · obtain ⟨inside, same⟩ := mem_heard_map mem
    exact ⟨(List.mem_filter.mp inside).1, same⟩
  · cases mem

/-- The others hear what the peer does, if they are in its room; and they stay where they are. -/
theorem Relayed.heard_other (relayed : Relayed g e g' es) (other : q ≠ e.peer) :
    (∀ event ∈ heard es q, event.IsAbout e.peer ∧ q ∈ g.members event.room) ∧
      ∀ r, q ∈ g'.members r ↔ q ∈ g.members r := by
  have filtered {r r' : RoomId} {p : PeerId} (other : q ≠ p)
      (members : g'.members r' = if r' = r then (g.members r).filter (· ≠ p) else g.members r') :
      q ∈ g'.members r' ↔ q ∈ g.members r' := by
    rw [members]
    split
    case isTrue here => simp [here, other]
    case isFalse => rfl
  cases relayed with
  | @readmitted p r =>
    have other : p ≠ q := Ne.symm other
    rw [heard_cons_other other]
    exact ⟨nofun, fun _ => .rfl⟩
  | @turnedDown p r =>
    have other : p ≠ q := Ne.symm other
    rw [heard_cons_other other]
    exact ⟨nofun, fun _ => .rfl⟩
  | @admitted p r _ outside members =>
    have other : p ≠ q := Ne.symm other
    rw [heard_cons_other other]
    refine ⟨fun event mem => ?_, fun r' => ?_⟩
    · obtain ⟨inside, rfl⟩ := mem_heard_map mem
      exact ⟨rfl, (List.mem_filter.mp inside).1⟩
    · rw [members]
      split
      case isTrue here => simp [here, other.symm]
      case isFalse => rfl
  | @left p r _ members =>
    have apart : p ≠ q := Ne.symm other
    refine ⟨fun event mem => ?_, fun r' => filtered other (members r')⟩
    rw [heard_append, heard_cons_other apart] at mem
    obtain ⟨inside, rfl⟩ := mem_heard_tell (by simpa [heard] using mem)
    exact ⟨rfl, inside⟩
  | passed =>
    refine ⟨fun event mem => ?_, fun _ => .rfl⟩
    obtain ⟨inside, rfl⟩ := mem_heard_tell mem
    exact ⟨rfl, inside⟩
  | unreadable => exact ⟨nofun, fun _ => .rfl⟩
  | gone inside members =>
    refine ⟨fun event mem => ?_, fun r' => filtered other (members r')⟩
    obtain ⟨inside, rfl⟩ := mem_heard_tell mem
    exact ⟨rfl, inside⟩
  | unknown => exact ⟨nofun, fun _ => .rfl⟩

/-- A peer gets into a room by asking for it only. -/
theorem Relayed.members_self (relayed : Relayed g e g' es) (mem : e.peer ∈ g'.members r) :
    e.peer ∈ g.members r ∨ e = .signal e.peer (.join r) := by
  cases relayed with
  | readmitted | turnedDown | passed | unreadable | unknown => exact .inl mem
  | @admitted p r' _ outside members =>
    rw [members] at mem
    split at mem
    case isTrue here => exact .inr (by rw [here]; rfl)
    case isFalse => exact .inl mem
  | left members | gone inside members =>
    rw [members] at mem
    split at mem
    case isTrue here => exact .inl (here ▸ (List.mem_filter.mp mem).1)
    case isFalse => exact .inl mem

/-- A peer that asks for a room hears whether it is a member now. -/
theorem Relayed.heard_join (relayed : Relayed g (.signal p (.join r)) g' es) :
    (heard es p = [.joined r p] ∧ p ∈ g'.members r) ∨
      (heard es p = [.full r p] ∧ p ∉ g'.members r) := by
  cases relayed with
  | readmitted inside => exact .inl ⟨by simp [heard], inside⟩
  | turnedDown outside => exact .inr ⟨by simp [heard], outside⟩
  | admitted outside members =>
    refine .inl ⟨?_, by simp [members]⟩
    rw [heard_cons_self, heard_others]

/-- A peer that leaves a room hears that it has. -/
theorem Relayed.heard_leave (relayed : Relayed g (.signal p (.leave r)) g' es) :
    heard es p = [.leaved r p] ∧ p ∉ g'.members r := by
  cases relayed with
  | left members =>
    rw [heard_append, heard_tell_self]
    exact ⟨by simp [heard], by simp [members]⟩

/-- A peer that sends a message hears nothing, and everybody stays where they are. -/
theorem Relayed.heard_sent {data : Json} (relayed : Relayed g (.signal p (.message r data)) g' es) :
    heard es p = [] ∧ g' = g := by
  cases relayed with
  | passed => exact ⟨heard_tell_self .., rfl⟩
  | unreadable => exact ⟨rfl, rfl⟩

/-- A peer that is gone hears nothing more and is in no room. -/
theorem Relayed.heard_gone (wf : g.Wf) (relayed : Relayed g (.disconnected p) g' es) :
    heard es p = [] ∧ ∀ r, p ∉ g'.members r := by
  cases relayed with
  | @gone _ c _ inside members =>
    refine ⟨heard_tell_self .., fun r' mem => ?_⟩
    rw [members] at mem
    split at mem
    · simp at mem
    case isFalse elsewhere => exact elsewhere (wf.one_room mem inside)
  | unknown nowhere => exact ⟨rfl, nowhere⟩

end Heard

end Parley
