import Parley.Proofs.Room.Objects

/-!
# Callers

What holds of a crowd between turns (`Crowd.Sound`): every caller has got as far as it can get with
its call, and somebody attends to every object on the table that has no members. A new object is
attended to by the join that looks for a room, a retired one by the leave that emptied it; so when
nobody has a call left, only rooms with members are on the table.
-/

namespace Parley

namespace SharedRegistry

variable {g g' : SharedRegistry} {c : RoomCall} {phase phase' : Phase} {progress : Progress}
  {o : RoomNumber} {r : RoomId} {room : Room}

/-- A call goes on from where the turn has left it. -/
theorem Turned.fits (h : g.Sound) (turn : Turned g c phase (.going phase') g') :
    g'.Fits c phase' := by
  generalize going : Progress.going phase' = progress at turn
  cases turn with
  | found table =>
    cases going
    exact h.mapped table
  | @opened r p table =>
    cases going
    exact ⟨_, object_openRoom g r⟩
  | refused =>
    cases going
    trivial
  | @emptied r p o room object live alone =>
    cases going
    have released : (g.release o room r p).Object o r (room.remove p) :=
      object.modified (·.remove p)
    exact ⟨⟨r, p, rfl⟩, _, released.modified Room.retire, rfl⟩
  | _ => cases going

/-- What somebody else does takes nothing away from a caller. -/
theorem Fits.kept {c' : RoomCall} (h : g.Sound) (fits : g.Fits c phase)
    (turn : Turned g c phase progress g') {phase' : Phase} (other : g.Fits c' phase') :
    g'.Fits c' phase' := by
  cases phase' with
  | seeking => trivial
  | holding o =>
    obtain ⟨room, object⟩ := other
    obtain ⟨room', object', -⟩ := turn.kept h fits object
    exact ⟨room', object'⟩
  | clearing o outcome =>
    obtain ⟨leave, room, object, gone⟩ := other
    obtain ⟨room', object', keeps, -⟩ := turn.kept h fits object
    exact ⟨leave, room', object', keeps gone⟩

/-- A call attends to an object without members: it is about to join it, or it has retired it and is
about to take it off the table. -/
def Attends (c : RoomCall) (phase : Phase) (o : RoomNumber) (room : Room) : Prop :=
  (room.retired = false ∧ (∃ r p, c = .join r p) ∧ phase = .holding o) ∨
    (room.retired = true ∧ ∃ outcome, phase = .clearing o outcome)

theorem not_attends_seeking {room : Room} : ¬ Attends c .seeking o room := by
  rintro (⟨-, -, same⟩ | ⟨-, _, same⟩) <;> cases same

theorem Attends.of_holding {o' : RoomNumber} {room : Room} (h : Attends c (.holding o') o room) :
    o = o' ∧ room.retired = false ∧ ∃ r p, c = .join r p := by
  rcases h with ⟨live, join, same⟩ | ⟨-, _, same⟩ <;> cases same
  exact ⟨rfl, live, join⟩

theorem Attends.of_clearing {o' : RoomNumber} {outcome : LeaveOutcome} {room : Room}
    (h : Attends c (.clearing o' outcome) o room) : o = o' := by
  rcases h with ⟨-, -, same⟩ | ⟨-, _, same⟩ <;> cases same
  rfl

/-- After a turn, an object on the table that has no members is attended to by the caller who had the
turn, or it was there before and that caller did not attend to it. -/
theorem Turned.attended (h : g.Sound) (fits : g.Fits c phase) (turn : Turned g c phase progress g')
    (table : g'.rooms.get? r = some o) (object : g'.Object o r room) (nobody : room.members = []) :
    (∃ phase', progress = .going phase' ∧ Attends c phase' o room) ∨
      (g.rooms.get? r = some o ∧ g.Object o r room ∧ ¬ Attends c phase o room) := by
  have elsewhere {o' : RoomNumber} (other : o ≠ o') : ¬ Attends c (.holding o') o room :=
    fun attends => other attends.of_holding.1
  have unasked {o' : RoomNumber} (leave : ∀ r p, c ≠ .join r p) :
      ¬ Attends c (.holding o') o room := by
    intro attends
    obtain ⟨-, -, r, p, join⟩ := attends.of_holding
    exact leave r p join
  -- An object with members is not the one without any.
  have filled {o' : RoomNumber} {r' : RoomId} {room' : Room} (there : g.Object o' r' room')
      (members : room'.members ≠ []) (object : g.Object o r room) : o ≠ o' := by
    rintro rfl
    rw [(object.unique there).2] at members
    exact members nobody
  cases turn with
  | found => exact .inr ⟨table, object, not_attends_seeking⟩
  | @opened r' p free =>
    rcases object_openRoom_cases object with ⟨rfl, rfl, rfl⟩ | before
    · exact .inl ⟨_, rfl, .inl ⟨rfl, ⟨r, p, rfl⟩, rfl⟩⟩
    · refine .inr ⟨?_, before, not_attends_seeking⟩
      change (g.rooms.set r' g.objects.length).get? r = some o at table
      rw [Table.get?_set] at table
      split at table
      case isTrue =>
        cases table
        exact absurd before.lt (Nat.lt_irrefl _)
      case isFalse => exact table
  | absent => exact .inr ⟨table, object, not_attends_seeking⟩
  | refused there gone =>
    refine .inr ⟨table, object, fun attends => ?_⟩
    obtain ⟨rfl, live, -⟩ := attends.of_holding
    rw [(there.unique object).2, gone] at live
    cases live
  | late _ _ none =>
    exact .inr ⟨table, object, unasked fun r p join => by rw [join] at none; cases none⟩
  | member there live inside =>
    refine .inr ⟨table, object, elsewhere (filled there ?_ object)⟩
    intro empty
    simp [Room.contains, empty] at inside
  | full there live new full =>
    refine .inr ⟨table, object, elsewhere (filled there ?_ object)⟩
    intro empty
    have size := of_decide_eq_true full
    rw [(h.bounded there).1] at size
    have space := h.space
    simp only [Room.size, empty, List.length_nil] at size
    omega
  | @admitted _ p _ _ there =>
    rcases object_modify_cases (f := (·.insert p)) there object with ⟨rfl, rfl, rfl⟩ | ⟨other, before⟩
    · simp [Room.insert] at nobody
    · exact .inr ⟨table, before, elsewhere other⟩
  | @left _ p _ _ there live others =>
    rcases object_modify_cases (f := (·.remove p)) there object with ⟨rfl, rfl, rfl⟩ | ⟨other, before⟩
    · simp [Room.isEmpty, nobody] at others
    · exact .inr ⟨table, before, elsewhere other⟩
  | @emptied r' p o' room' there live alone =>
    have released : (g.release o' room' r' p).Object o' r' (room'.remove p) :=
      there.modified (·.remove p)
    -- The object was emptied and then retired, so it may have changed twice.
    rcases object_modify_cases (f := Room.retire) released object with
      ⟨rfl, rfl, rfl⟩ | ⟨other, before⟩
    · exact .inl ⟨_, rfl, .inr ⟨rfl, _, rfl⟩⟩
    · rcases object_modify_cases (f := (·.remove p)) there before with ⟨same, -⟩ | ⟨-, before⟩
      · exact absurd same other
      · exact .inr ⟨table, before, elsewhere other⟩
  | counted => exact .inr ⟨table, object, unasked fun _ _ same => by cases same⟩
  | listed => exact .inr ⟨table, object, unasked fun _ _ same => by cases same⟩
  | @cleared r' p o' outcome =>
    rw [object_clear] at object
    obtain ⟨-, room', there, -⟩ := fits
    -- The object that was taken off the table is not the one that is on it now.
    have apart : o ≠ o' ∧ g.rooms.get? r = some o := by
      unfold SharedRegistry.clear at table
      split at table
      case isTrue =>
        change (g.rooms.erase r').get? r = some o at table
        rw [Table.get?_erase] at table
        split at table
        case isTrue => cases table
        case isFalse other =>
          refine ⟨?_, table⟩
          rintro rfl
          exact other (there.unique object).1
      case isFalse elsewhere =>
        refine ⟨?_, table⟩
        rintro rfl
        rw [(there.unique object).1] at table
        exact elsewhere table
    exact .inr ⟨apart.2, object, fun attends => apart.1 attends.of_clearing⟩

end SharedRegistry

/-! ## Crowds -/

open SharedRegistry

/-- What a turn leaves of a caller. -/
def Caller.next (x : Caller) : Progress → Caller
  | .going phase => { x with phase }
  | .returned answer => ⟨x.calls.tail, .seeking, x.answers ++ [answer]⟩

namespace Crowd

/-- What a turn does to a crowd: nothing, or the caller goes on with its call. -/
inductive Stepped (c : Crowd) (i : Nat) : Crowd → Prop
  | idle (nothing : ∀ x, c.callers[i]? = some x → x.calls = []) : Stepped c i c
  | turned {x : Caller} {call : RoomCall} {rest : List RoomCall} {progress : Progress}
      {g : SharedRegistry} (caller : c.callers[i]? = some x) (calls : x.calls = call :: rest)
      (turn : c.registry.turn call x.phase = (progress, g)) :
      Stepped c i ⟨g, c.callers.set i (x.next progress)⟩

theorem turn_stepped (c : Crowd) (i : Nat) : Stepped c i (c.turn i) := by
  cases caller : c.callers[i]? with
  | none =>
    have same : c.turn i = c := by simp [Crowd.turn, caller]
    rw [same]
    exact .idle (by simp [caller])
  | some x =>
    obtain ⟨lt, there⟩ := List.getElem?_eq_some_iff.mp caller
    cases calls : x.calls with
    | nil =>
      have kept : c.callers.set i x = c.callers := by rw [← there, List.set_getElem_self]
      have same : c.turn i = c := by simp only [Crowd.turn, caller, Caller.turn, calls, kept]
      rw [same]
      exact .idle fun y hy => by rw [caller] at hy; cases hy; exact calls
    | cons call rest =>
      have step : c.turn i = ⟨(c.registry.turn call x.phase).2,
          c.callers.set i (x.next (c.registry.turn call x.phase).1)⟩ := by
        simp only [Crowd.turn, caller, Caller.turn, calls]
        split
        case h_1 phase g turn => simp only [turn, Caller.next, calls]
        case h_2 answer g turn => simp only [turn, Caller.next, calls, List.tail_cons]
      rw [step]
      exact .turned caller calls rfl

/-- What holds of a crowd between turns. -/
structure Sound (c : Crowd) : Prop where
  registry : c.registry.Sound
  fits : ∀ {i : Nat} {x : Caller} {call rest}, c.callers[i]? = some x →
    x.calls = call :: rest → c.registry.Fits call x.phase
  attended : ∀ {r o room}, c.registry.rooms.get? r = some o → c.registry.Object o r room →
    room.members = [] → ∃ (i : Nat) (x : Caller) (call : RoomCall) (rest : List RoomCall),
      c.callers[i]? = some x ∧ x.calls = call :: rest ∧ Attends call x.phase o room
  resting : ∀ {i : Nat} {x : Caller}, c.callers[i]? = some x → x.calls = [] → x.phase = .seeking

theorem Sound.new (capacity : Nat) (calls : List (List RoomCall)) : (new capacity calls).Sound where
  registry := .empty capacity
  fits := by
    intro i x call rest caller _
    obtain ⟨cs, -, rfl⟩ := by simpa [Crowd.new] using caller
    trivial
  attended := nofun
  resting := by
    intro i x caller _
    obtain ⟨cs, -, rfl⟩ := by simpa [Crowd.new] using caller
    rfl

theorem Stepped.sound {c c' : Crowd} {i : Nat} (h : c.Sound) (step : Stepped c i c') : c'.Sound := by
  cases step with
  | idle => exact h
  | @turned x call rest progress g caller calls turn =>
    have fits := h.fits caller calls
    have turned := turned_of_turn h.registry fits turn
    have lt := (List.getElem?_eq_some_iff.mp caller).1
    have own : (c.callers.set i (x.next progress))[i]? = some (x.next progress) := by
      simp [lt]
    have others {j : Nat} (other : i ≠ j) : (c.callers.set i (x.next progress))[j]? = c.callers[j]? :=
      List.getElem?_set_ne other
    constructor
    · exact turned.sound h.registry fits
    · intro j y call' rest' there calls'
      by_cases same : i = j
      · subst same
        rw [own] at there
        cases there
        cases progress with
        | going phase =>
          obtain ⟨rfl, -⟩ : call' = call ∧ rest' = rest := by
            simpa [Caller.next, calls] using calls'.symm
          exact turned.fits h.registry
        | returned => trivial
      · rw [others same] at there
        exact fits.kept h.registry turned (h.fits there calls')
    · intro r o room table object nobody
      rcases turned.attended h.registry fits table object nobody with
        ⟨phase, rfl, attends⟩ | ⟨table, object, careless⟩
      · exact ⟨i, _, call, rest, own, calls, attends⟩
      · -- Somebody else attended to it before, and still does.
        obtain ⟨j, y, call', rest', there, calls', attends⟩ := h.attended table object nobody
        have other : i ≠ j := by
          rintro rfl
          rw [caller] at there
          cases there
          rw [calls] at calls'
          cases calls'
          exact careless attends
        exact ⟨j, y, call', rest', (others other).trans there, calls', attends⟩
    · intro j y there none
      by_cases same : i = j
      · subst same
        rw [own] at there
        cases there
        cases progress with
        | going phase =>
          rw [show (x.next (.going phase)).calls = x.calls from rfl, calls] at none
          cases none
        | returned => rfl
      · rw [others same] at there
        exact h.resting there none

theorem Sound.run {c : Crowd} (h : c.Sound) (schedule : List Nat) : (c.run schedule).Sound := by
  induction schedule generalizing c with
  | nil => exact h
  | cons i rest ih => exact ih ((turn_stepped c i).sound h)

/-- When all calls have returned, the objects on the table are those that have members. -/
theorem Sound.mapped_iff {c : Crowd} (h : c.Sound) (done : c.isDone = true) {r : RoomId}
    {o : RoomNumber} {room : Room} (object : c.registry.Object o r room) :
    c.registry.rooms.get? r = some o ↔ room.members ≠ [] := by
  constructor
  · intro table nobody
    obtain ⟨i, x, call, rest, there, calls, -⟩ := h.attended table object nobody
    have returned := List.all_eq_true.mp done x (List.mem_of_getElem? there)
    rw [calls] at returned
    cases returned
  · intro members
    cases gone : room.retired with
    | true => exact absurd (h.registry.retired object gone) members
    | false => exact h.registry.current object gone

end Crowd

end Parley
