import Parley.Proofs.Relay.Sequence
import Parley.Proofs.Room.Alone

/-!
# Membership

What holds of the rooms of a relay that handles events one after another. Every room that the
registry keeps is in use: it has members, each of them once, and not too many (`Registry.Tidy`). A
peer is in the room that the registry knows it to be in, and in no other (`Registry.Wf`). Whatever
holds of a registry through every join and every leave holds of it after any job
(`Job.run_induction`).

A relay whose rooms are objects does the same, turn by turn (`Job.runAlone_eq`). It never has to look
for an object again, and keeps the same rooms.
-/

namespace Parley

/-! ## Rooms in use -/

/-- A room that is in use. -/
structure Room.InUse (room : Room) (capacity : Nat) : Prop where
  live : room.retired = false
  inhabited : room.members ≠ []
  distinct : room.members.Nodup
  space : room.capacity = capacity
  bounded : room.members.length ≤ capacity

namespace Registry

/-- Every room stands once, and is in use. -/
structure Tidy (g : Registry) : Prop where
  unique : g.rooms.Unique
  inUse : ∀ {r room}, g.rooms.get? r = some room → room.InUse g.capacity

variable {g : Registry} {r : RoomId} {p : PeerId}

theorem Tidy.empty (capacity : Nat) : (Registry.empty capacity).Tidy := ⟨.empty, nofun⟩

/-- The room that a peer joins is one that is in use, or a new one. -/
theorem Tidy.roomOrNew_cases (h : g.Tidy) (r : RoomId) :
    (g.rooms.get? r = some (g.roomOrNew r) ∧ (g.roomOrNew r).InUse g.capacity) ∨
      (g.rooms.get? r = none ∧ g.roomOrNew r = .empty g.capacity) := by
  cases found : g.rooms.get? r with
  | none => exact .inr ⟨rfl, by simp [roomOrNew, found]⟩
  | some room =>
    have inUse := h.inUse found
    have same : g.roomOrNew r = room := by simp [roomOrNew, found, inUse.live]
    rw [same]
    exact .inl ⟨rfl, inUse⟩

theorem Tidy.members_roomOrNew (h : g.Tidy) (r : RoomId) :
    (g.roomOrNew r).members = g.members r := by
  unfold members
  rcases h.roomOrNew_cases r with ⟨found, -⟩ | ⟨nothing, new⟩
  · rw [found]
  · rw [nothing, new]
    rfl

/-- A new member fits into a room that is not full and that it is not in yet. -/
theorem Tidy.insert (h : g.Tidy) (outside : (g.roomOrNew r).contains p = false)
    (space : (g.roomOrNew r).isFull = false) :
    ((g.roomOrNew r).insert p).InUse g.capacity := by
  obtain ⟨live, distinct, capacity⟩ : (g.roomOrNew r).retired = false ∧
      (g.roomOrNew r).members.Nodup ∧ (g.roomOrNew r).capacity = g.capacity := by
    rcases h.roomOrNew_cases r with ⟨-, inUse⟩ | ⟨-, new⟩
    · exact ⟨inUse.live, inUse.distinct, inUse.space⟩
    · rw [new]
      exact ⟨rfl, List.nodup_nil, rfl⟩
  constructor
  · exact live
  · simp [Room.insert]
  · rw [Room.insert, List.nodup_append]
    refine ⟨distinct, List.nodup_singleton p, fun q mem q' mem' => ?_⟩
    rw [List.mem_singleton.mp mem']
    rintro rfl
    simp [Room.contains, mem] at outside
  · exact capacity
  · have room : (g.roomOrNew r).members.length < g.capacity := by
      simpa [Room.isFull, Room.size, capacity] using space
    simpa [Room.insert] using room

theorem Tidy.join (h : g.Tidy) (r : RoomId) (p : PeerId) : (g.join r p).2.Tidy := by
  cases inside : (g.roomOrNew r).contains p with
  | true => rwa [join_of_contains inside]
  | false =>
    cases full : (g.roomOrNew r).isFull with
    | true => rwa [join_of_isFull inside full]
    | false =>
      rw [join_of_space inside full]
      refine ⟨h.unique.set r _, fun {r' room} found => ?_⟩
      rw [Table.get?_set] at found
      split at found
      · cases found
        exact h.insert inside full
      · exact h.inUse found

/-- A room that somebody is left in is in use still, and one that nobody is left in is not kept. -/
theorem Tidy.leave (h : g.Tidy) (r : RoomId) (p : PeerId) : (g.leave r p).2.Tidy := by
  cases found : g.rooms.get? r with
  | none =>
    have same : (g.leave r p).2 = g := by simp [Registry.leave, found]
    rwa [same]
  | some room =>
    have before := h.inUse found
    simp only [Registry.leave, found]
    split
    case isTrue =>
      refine ⟨h.unique.erase r, fun {r' room'} kept => ?_⟩
      rw [Table.get?_erase] at kept
      split at kept
      · cases kept
      · exact h.inUse kept
    case isFalse left =>
      refine ⟨h.unique.set r _, fun {r' room'} kept => ?_⟩
      rw [Table.get?_set] at kept
      split at kept
      · cases kept
        refine ⟨before.live, ?_, before.distinct.filter _, before.space, ?_⟩
        · simpa [Room.isEmpty] using left
        · exact (List.length_filter_le _ _).trans before.bounded
      · exact h.inUse kept

theorem Tidy.distinct (h : g.Tidy) (r : RoomId) : (g.members r).Nodup := by
  unfold members
  split
  · exact List.nodup_nil
  case h_2 room found => exact (h.inUse found).distinct

theorem Tidy.members_ne_nil_iff (h : g.Tidy) (r : RoomId) :
    g.members r ≠ [] ↔ (g.rooms.get? r).isSome := by
  unfold members
  split
  case h_1 nothing => simp [nothing]
  case h_2 room found => simp [found, (h.inUse found).inhabited]

end Registry

/-! ## Jobs -/

open Registry

/-- What every join and every leave keeps, a job keeps. -/
theorem Job.run_induction {P : Registry → Prop} (join : ∀ {g} r p, P g → P (g.join r p).2)
    (leave : ∀ {g} r p, P g → P (g.leave r p).2) (j : Job) {g : Registry} (h : P g) :
    P (j.run g).1 := by
  induction j generalizing g with
  | done => exact h
  | roomOf p next ih => exact ih _ h
  | join r p next ih => exact ih _ (join r p h)
  | leave r p next ih => exact ih _ (leave r p h)
  | isMember r p next ih => exact ih _ h
  | members r next ih => exact ih _ h
  | emit e next ih => exact ih h

namespace Registry

variable {g : Registry}

theorem Tidy.handle (h : g.Tidy) (e : TransportEvent) : (g.handle e).1.Tidy :=
  Job.run_induction (P := Tidy) (fun r p h => h.join r p) (fun r p h => h.leave r p) _ h

theorem Tidy.relay (h : g.Tidy) (events : List TransportEvent) : (g.relay events).1.Tidy := by
  induction events generalizing g with
  | nil => exact h
  | cons e rest ih => exact ih (h.handle e)

theorem capacity_handle (g : Registry) (e : TransportEvent) :
    (g.handle e).1.capacity = g.capacity :=
  Job.run_induction (P := fun g' => g'.capacity = g.capacity)
    (fun {g'} r p same => (g'.call_capacity (.join r p)).trans same)
    (fun {g'} r p same => (g'.call_capacity (.leave r p)).trans same) _ rfl

theorem capacity_relay (g : Registry) (events : List TransportEvent) :
    (g.relay events).1.capacity = g.capacity := by
  induction events generalizing g with
  | nil => rfl
  | cons e rest ih => exact (ih _).trans (g.capacity_handle e)

end Registry

/-! ## Room objects -/

/-- Do a job while nobody else acts, every call turn by turn: the registry after it, and the events it
emits. There is no result if a call would have to look for its object again. -/
def Job.runAlone (s : SharedRegistry) : Job → Option (SharedRegistry × List Emission)
  | .done => some (s, [])
  | .roomOf p next => (next (s.whereabouts.get? p)).runAlone s
  | .join r p next =>
    match s.alone (.join r p) with
    | some (.join outcome, s) => (next outcome).runAlone s
    | _ => none
  | .leave r p next =>
    match s.alone (.leave r p) with
    | some (.leave outcome, s) => (next outcome).runAlone s
    | _ => none
  | .isMember r p next =>
    match s.alone (.members r) with
    | some (.members peers, s) => (next (p ∈ peers)).runAlone s
    | _ => none
  | .members r next =>
    match s.alone (.members r) with
    | some (.members peers, s) => (next peers).runAlone s
    | _ => none
  | .emit e next => (next.runAlone s).map fun (s, es) => (s, e :: es)

theorem SharedRegistry.Settled.call {s : SharedRegistry} {g : Registry} (settled : s.Settled)
    (same : s.view.Same g) (c : RoomCall) :
    ∃ s', s.alone c = some ((g.call c).1, s') ∧ s'.Settled ∧ s'.view.Same (g.call c).2 :=
  (settled.alone c).congr same

/-- With room objects, a job that nobody interferes with does what it does without them. -/
theorem Job.runAlone_eq (j : Job) {s : SharedRegistry} {g : Registry} (settled : s.Settled)
    (same : s.view.Same g) :
    ∃ s', j.runAlone s = some (s', (j.run g).2) ∧ s'.Settled ∧ s'.view.Same (j.run g).1 := by
  induction j generalizing s g with
  | done => exact ⟨s, rfl, settled, same⟩
  | roomOf p next ih =>
    rw [Job.runAlone, show s.whereabouts.get? p = g.roomOf? p from same.whereabouts p]
    exact ih _ settled same
  | join r p next ih =>
    obtain ⟨s', returned, settled', same'⟩ := settled.call same (.join r p)
    simp only [Job.runAlone, returned]
    exact ih _ settled' same'
  | leave r p next ih =>
    obtain ⟨s', returned, settled', same'⟩ := settled.call same (.leave r p)
    simp only [Job.runAlone, returned]
    exact ih _ settled' same'
  | isMember r p next ih | members r next ih =>
    obtain ⟨s', returned, settled', same'⟩ := settled.call same (.members r)
    simp only [Job.runAlone, returned]
    exact ih _ settled' same'
  | emit e next ih =>
    obtain ⟨s', rest, settled', same'⟩ := ih settled same
    exact ⟨s', by simp [Job.runAlone, rest, Job.run], settled', same'⟩

namespace SharedRegistry

/-- Handle events one after another: the registry after them, and all that is emitted. -/
def relay (s : SharedRegistry) : List TransportEvent → Option (SharedRegistry × List Emission)
  | [] => some (s, [])
  | e :: rest =>
    ((Job.ofEvent e).runAlone s).bind fun (s, es) =>
      (s.relay rest).map fun (s, es') => (s, es ++ es')

variable {s : SharedRegistry} {g : Registry}

theorem Settled.relay (settled : s.Settled) (same : s.view.Same g) (events : List TransportEvent) :
    ∃ s', s.relay events = some (s', (g.relay events).2) ∧ s'.Settled ∧
      s'.view.Same (g.relay events).1 := by
  induction events generalizing s g with
  | nil => exact ⟨s, rfl, settled, same⟩
  | cons e rest ih =>
    obtain ⟨s₁, handled, settled₁, same₁⟩ := (Job.ofEvent e).runAlone_eq settled same
    obtain ⟨s', relayed, settled', same'⟩ := ih settled₁ same₁
    refine ⟨s', ?_, settled', same'⟩
    simp [SharedRegistry.relay, handled, relayed, Registry.relay, Registry.handle]

/-- Between two calls, every name on the table leads to a room that a sequential caller finds. -/
theorem Settled.get?_view (h : s.Settled) (r : RoomId) :
    s.view.rooms.get? r = (s.rooms.get? r).bind s.room? := by
  cases table : s.rooms.get? r with
  | none => exact h.sound.get?_view_of_absent table
  | some o =>
    obtain ⟨room, object⟩ := h.sound.mapped table
    obtain ⟨live, members⟩ := h.filled table object
    rw [h.sound.get?_view_of_live object live, Option.bind_some, object.room?]
    simp [Room.isEmpty, members]

end SharedRegistry

/-! ## The rooms of a relay -/

namespace Registry

/-- What holds of the rooms and the peers of a relay between two events. -/
structure Consistent (g : Registry) (capacity : Nat) : Prop where
  /-- The peer is in the room that it is known to be in. -/
  whereabouts : ∀ p r, p ∈ g.members r ↔ g.roomOf? p = some r
  one_room : ∀ p r r', p ∈ g.members r → p ∈ g.members r' → r = r'
  rooms : ∀ r room, g.rooms.get? r = some room → room.retired = false ∧ room.members.Nodup ∧
    1 ≤ room.members.length ∧ room.members.length ≤ max capacity 1
  count : g.roomCount = {r | g.members r ≠ []}.ncard

/-- The room objects are those rooms. -/
structure Realized (g : Registry) (s : SharedRegistry) : Prop where
  rooms : ∀ r, (s.rooms.get? r).bind s.room? = g.rooms.get? r
  whereabouts : ∀ p, s.whereabouts.get? p = g.roomOf? p
  count : s.rooms.size = g.roomCount
  /-- A join that comes next looks its room up in one turn and returns in the following one. -/
  join : ∀ r p, ∃ s', SharedRegistry.turns (.join r p) 2 .seeking s = some (.join (g.join r p).1, s')

variable {g : Registry} {s : SharedRegistry}

theorem Wf.consistent (wf : g.Wf) (tidy : g.Tidy) : g.Consistent g.capacity where
  whereabouts p r := wf.whereabouts.symm
  one_room p r r' := wf.one_room
  rooms r room found := by
    have room := tidy.inUse found
    exact ⟨room.live, room.distinct, List.length_pos_iff.mpr room.inhabited,
      room.bounded.trans (Nat.le_max_left _ _)⟩
  count := by
    show g.rooms.size = _
    rw [tidy.unique.size_eq_ncard]
    exact congrArg Set.ncard (Set.ext fun r => (tidy.members_ne_nil_iff r).symm)

theorem Tidy.realized (tidy : g.Tidy) (settled : s.Settled) (same : s.view.Same g) :
    g.Realized s where
  rooms r := (settled.get?_view r).symm.trans (same.rooms r)
  whereabouts := same.whereabouts
  count := by
    show s.rooms.size = g.rooms.size
    rw [settled.sound.unique.size_eq_ncard, tidy.unique.size_eq_ncard]
    refine congrArg Set.ncard (Set.ext fun r => ?_)
    show (s.rooms.get? r).isSome = true ↔ (g.rooms.get? r).isSome = true
    rw [← same.rooms r, settled.get?_view r]
    cases table : s.rooms.get? r with
    | none => rfl
    | some o =>
      obtain ⟨room, object⟩ := settled.sound.mapped table
      simp [object.room?]
  join r p := by
    obtain ⟨s', returned, -⟩ := (settled.join_alone r p).congr same
    exact ⟨s', returned⟩

/-- After any events the rooms and the peers of a relay are consistent, and a relay whose rooms are
objects has emitted the same and keeps the same rooms. -/
theorem relay_consistent (capacity : Nat) (events : List TransportEvent) :
    ((Registry.empty capacity).relay events).1.Consistent capacity ∧
      ∃ s, (SharedRegistry.empty capacity).relay events =
          some (s, ((Registry.empty capacity).relay events).2) ∧
        ((Registry.empty capacity).relay events).1.Realized s := by
  have wf := (Wf.empty capacity).relay events
  have tidy := (Tidy.empty capacity).relay events
  have start : (SharedRegistry.empty capacity).view.Same (Registry.empty capacity) := .refl _
  obtain ⟨s, relayed, settled, same⟩ := (SharedRegistry.Settled.empty capacity).relay start events
  have consistent := wf.consistent tidy
  have space : ((Registry.empty capacity).relay events).1.capacity = max capacity 1 :=
    capacity_relay _ events
  rw [space] at consistent
  refine ⟨?_, s, relayed, tidy.realized settled same⟩
  exact { consistent with
    rooms := fun r room found => by simpa [Nat.max_assoc] using consistent.rooms r room found }

end Registry

end Parley
