import Parley.Proofs.Room.Objects

/-!
# Calls one after another

A caller that is alone has turns with its call until it returns. Between two such calls every object
on the table has members and is not retired (`Settled`). So a join finds what it needs when it looks
for the first time, and returns in the second turn (`Settled.join_alone`); and whatever the call, it
returns what the sequential registry returns and leaves what that one leaves (`Settled.alone`).
-/

namespace Parley

namespace SharedRegistry

/-- Have turns with a call until it returns, at most so many: the answer and the registry then. -/
def turns (c : RoomCall) : Nat → Phase → SharedRegistry → Option (RoomAnswer × SharedRegistry)
  | 0, _, _ => none
  | n + 1, phase, g =>
    match g.turn c phase with
    | (.returned answer, g) => some (answer, g)
    | (.going phase, g) => turns c n phase g

/-- How many turns a call has on the object that it has looked up: one to work on it, and for a leave
one more to take it off the table if that has emptied it. -/
def workTurns : RoomCall → Nat
  | .join _ _ | .memberCount _ | .members _ => 1
  | .leave _ _ => 2

/-- Make a call while nobody else does: look the object up once, and work on it. There is no turn to
look again. -/
def alone (g : SharedRegistry) (c : RoomCall) : Option (RoomAnswer × SharedRegistry) :=
  turns c (workTurns c + 1) .seeking g

/-- Nobody is in the middle of a call: the objects on the table are rooms with members. -/
structure Settled (g : SharedRegistry) : Prop where
  sound : g.Sound
  filled : ∀ {r o room}, g.rooms.get? r = some o → g.Object o r room →
    room.retired = false ∧ room.members ≠ []

variable {g g' : SharedRegistry} {c : RoomCall} {o : RoomNumber} {r : RoomId} {p : PeerId}
  {room : Room} {n : Nat} {phase : Phase} {answer : RoomAnswer}

theorem Settled.empty (capacity : Nat) : (SharedRegistry.empty capacity).Settled :=
  ⟨.empty capacity, nofun⟩

theorem turns_of_returned (turn : g.turn c phase = (.returned answer, g')) (n : Nat) :
    turns c (n + 1) phase g = some (answer, g') := by
  rw [turns, turn]

theorem turns_of_going {phase' : Phase} (turn : g.turn c phase = (.going phase', g')) (n : Nat) :
    turns c (n + 1) phase g = turns c n phase' g' := by
  rw [turns, turn]

/-- After at most so many turns, a call returns what the sequential registry returns, and leaves what
that one leaves. -/
def Returns (g : SharedRegistry) (c : RoomCall) (n : Nat) (phase : Phase)
    (sequential : RoomAnswer × Registry) : Prop :=
  ∃ g', turns c n phase g = some (sequential.1, g') ∧ g'.Settled ∧ g'.view.Same sequential.2

variable {sequential : RoomAnswer × Registry}

theorem Returns.of_going {phase' : Phase} (turn : g.turn c phase = (.going phase', g'))
    (rest : Returns g' c n phase' sequential) : Returns g c (n + 1) phase sequential := by
  obtain ⟨g'', turns, settled, same⟩ := rest
  exact ⟨g'', (turns_of_going turn n).trans turns, settled, same⟩

theorem Returns.of_returned (turn : g.turn c phase = (.returned sequential.1, g'))
    (settled : g'.Settled) (same : g'.view.Same sequential.2) (n : Nat) :
    Returns g c (n + 1) phase sequential :=
  ⟨g', turns_of_returned turn n, settled, same⟩

/-- Registries that are the same to sequential callers return the same. -/
theorem Returns.congr {before before' : Registry} (h : Returns g c n phase (before.call c))
    (same : before.Same before') : Returns g c n phase (before'.call c) := by
  obtain ⟨g', returned, settled, after⟩ := h
  obtain ⟨answer, left⟩ := same.call c
  exact ⟨g', answer ▸ returned, settled, after.trans left⟩

/-! ## Work on an object -/

/-- All objects on the table but the one of a room are rooms with members. -/
def SettledBut (g : SharedRegistry) (r : RoomId) : Prop :=
  ∀ ⦃r' o room⦄, r' ≠ r → g.rooms.get? r' = some o → g.Object o r' room →
    room.retired = false ∧ room.members ≠ []

theorem Settled.but (h : g.Settled) (r : RoomId) : g.SettledBut r :=
  fun _ _ _ _ table object => h.filled table object

theorem SettledBut.settled (others : g.SettledBut r) (sound : g.Sound) (object : g.Object o r room)
    (live : room.retired = false) (members : room.members ≠ []) : g.Settled := by
  refine ⟨sound, fun {r' o' room'} table' object' => ?_⟩
  by_cases here : r' = r
  · subst here
    rw [sound.current object live] at table'
    cases table'
    rw [(object.unique object').2]
    exact ⟨live, members⟩
  · exact others here table' object'

theorem SettledBut.modify (others : g.SettledBut r) (object : g.Object o r room) (f : Room → Room) :
    (g.modify o f).SettledBut r := by
  intro r' o' room' other table' object'
  rcases object_modify_cases object object' with ⟨-, rfl, -⟩ | ⟨-, before⟩
  · exact absurd rfl other
  · exact others other table' before

/-- Once a retired object is off the table, the others are left. -/
theorem SettledBut.clear (others : g.SettledBut r) (sound : g.Sound) (object : g.Object o r room)
    (gone : room.retired = true) (table : g.rooms.get? r = some o) : (g.clear r o).Settled := by
  refine ⟨sound.clear object gone, fun {r' o' room'} table' object' => ?_⟩
  have cleared : (g.clear r o).rooms = g.rooms.erase r := by
    unfold SharedRegistry.clear
    rw [if_pos table]
  rw [cleared, Table.get?_erase] at table'
  split at table'
  case isTrue => cases table'
  case isFalse other => exact others other table' (object_clear.mp object')

/-- A join returns at once from an object that is not retired. -/
theorem join_held (sound : g.Sound) (others : g.SettledBut r) (object : g.Object o r room)
    (live : room.retired = false) (p : PeerId) :
    Returns g (.join r p) 1 (.holding o) (g.view.call (.join r p)) := by
  have fits : g.Fits (.join r p) (.holding o) := ⟨room, object⟩
  generalize held : g.turn (.join r p) (.holding o) = out
  obtain ⟨progress, g'⟩ := out
  have turned := turned_of_turn sound fits held
  have effect := turned.effect sound fits
  have sound' := turned.sound sound fits
  cases turned with
  | refused there gone =>
    rw [(object.unique there).2, live] at gone
    cases gone
  | late _ _ nobody => cases nobody
  | member there _ inside =>
    cases effect with
    | late _ _ _ nobody => cases nobody
    | worked _ _ reply after =>
      refine .of_returned (reply ▸ held) (others.settled sound object live ?_) after 0
      intro empty
      rw [(object.unique there).2] at inside
      simp [Room.contains, empty] at inside
  | full there _ new full =>
    cases effect with
    | late _ _ _ nobody => cases nobody
    | worked _ _ reply after =>
      refine .of_returned (reply ▸ held) (others.settled sound object live ?_) after 0
      -- There is space for one member at least.
      intro empty
      have space := sound.space
      rw [(object.unique there).2] at full
      simp [Room.isFull, Room.size, empty, (sound.bounded object).1] at full
      omega
  | admitted =>
    cases effect with
    | late _ _ _ nobody => cases nobody
    | worked _ _ reply after =>
      have others' : (g.takeIn o r p).SettledBut r := others.modify object (·.insert p)
      have object' : (g.takeIn o r p).Object o r (room.insert p) := object.modified (·.insert p)
      refine .of_returned (reply ▸ held) (others'.settled sound' object' live ?_) after 0
      simp [Room.insert]

/-- Any other call returns from an object on the table, a leave after two turns at most. -/
theorem Settled.held (h : g.Settled) (table : g.rooms.get? c.room = some o)
    (other : ∀ r p, c ≠ .join r p) :
    Returns g c (workTurns c) (.holding o) (g.view.call c) := by
  have fits : g.Fits c (.holding o) := h.sound.mapped table
  generalize held : g.turn c (.holding o) = out
  obtain ⟨progress, g'⟩ := out
  have turned := turned_of_turn h.sound fits held
  have effect := turned.effect h.sound fits
  have sound' := turned.sound h.sound fits
  cases turned with
  | refused | member | full | admitted => exact absurd rfl (other _ _)
  | late object gone =>
    rw [(h.filled table object).1] at gone
    cases gone
  | counted | listed =>
    cases effect with
    | worked _ _ reply after => exact .of_returned (reply ▸ held) h after 0
    | late _ object gone =>
      rw [(h.filled table object).1] at gone
      cases gone
  | @left r p o room object live others =>
    cases effect with
    | late _ object gone =>
      rw [(h.filled table object).1] at gone
      cases gone
    | worked _ _ reply after =>
      have but : (g.release o room r p).SettledBut r := (h.but r).modify object (·.remove p)
      have object' : (g.release o room r p).Object o r (room.remove p) :=
        object.modified (·.remove p)
      refine .of_returned (reply ▸ held) (but.settled sound' object' live ?_) after 1
      simpa [Room.isEmpty] using others
  | @emptied r p o room object live alone =>
    cases effect with
    | looked _ _ next => exact absurd rfl (next _ _)
    | retired _ _ reply after =>
      -- The object is retired now, and off the table after one more turn.
      have released : (g.release o room r p).Object o r (room.remove p) :=
        object.modified (·.remove p)
      have but : (g.release o room r p).SettledBut r := (h.but r).modify object (·.remove p)
      have gone := released.modified Room.retire
      have same := (sound'.same_view_clear gone rfl).trans after
      refine .of_going held (.of_returned (by rw [reply]; rfl) ?_ same 0)
      exact (but.modify released Room.retire).clear sound' gone rfl (h.sound.current object live)

/-! ## Calls -/

/-- A join of a caller that is alone never has to look for its object again: it looks it up, or opens
it, and the next turn is the last one. -/
theorem Settled.join_alone (h : g.Settled) (r : RoomId) (p : PeerId) :
    Returns g (.join r p) 2 .seeking (g.view.call (.join r p)) := by
  generalize first : g.turn (.join r p) .seeking = out
  obtain ⟨progress, g'⟩ := out
  have fits : g.Fits (.join r p) .seeking := trivial
  have turned := turned_of_turn h.sound fits first
  have sound' := turned.sound h.sound fits
  cases turned with
  | absent _ nobody => cases nobody
  | @found _ o table =>
    obtain ⟨room, object⟩ := h.sound.mapped table
    exact .of_going first (join_held h.sound (h.but r) object (h.filled table object).1 p)
  | opened table =>
    have others : (g.openRoom r).2.SettledBut r := by
      intro r' o' room' other table' object'
      change (g.rooms.set r g.objects.length).get? r' = some o' at table'
      rw [Table.get?_set, if_neg other] at table'
      rcases object_openRoom_cases object' with ⟨-, rfl, -⟩ | before
      · exact absurd rfl other
      · exact h.filled table' before
    have joined := join_held sound' others (object_openRoom g r) rfl p
    exact .of_going first (joined.congr (h.sound.same_view_openRoom table))

/-- A call that finds no object is one to a registry without that room. -/
theorem Settled.absent (h : g.Settled) (table : g.rooms.get? c.room = none)
    (nobody : vacant c = some answer) : g.view.call c = (answer, g.view) := by
  have none := h.sound.get?_view_of_absent table
  cases c with
  | join => cases nobody
  | leave r p =>
    cases nobody
    simp [Registry.call, Registry.leave, show g.view.rooms.get? r = .none from none]
  | memberCount r | members r =>
    cases nobody
    simp [Registry.call, Registry.memberCount, Registry.members,
      show g.view.rooms.get? r = .none from none]

/-- Whatever the call of a caller that is alone, it returns what the sequential registry returns, and
leaves what that one leaves. -/
theorem Settled.alone (h : g.Settled) (c : RoomCall) :
    Returns g c (workTurns c + 1) .seeking (g.view.call c) := by
  by_cases join : ∃ r p, c = .join r p
  · obtain ⟨r, p, rfl⟩ := join
    exact h.join_alone r p
  · have other (r : RoomId) (p : PeerId) : c ≠ .join r p := fun e => join ⟨r, p, e⟩
    generalize first : g.turn c .seeking = out
    obtain ⟨progress, g'⟩ := out
    have fits : g.Fits c .seeking := trivial
    cases turned_of_turn h.sound fits first with
    | opened => exact absurd rfl (other _ _)
    | found table => exact .of_going first (h.held table other)
    | absent table nobody =>
      rw [h.absent table nobody]
      exact .of_returned first h (.refl _) _

end SharedRegistry

end Parley
