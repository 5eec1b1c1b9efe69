import Parley.Proofs.Table
import Parley.Room.Crowd

/-!
# Sequential registries

Only what `get?` finds in the tables of a registry ever matters, so registries are compared by that:
registries that are the `Same` give the same answers and stay the same (`Registry.Same.call`).
-/

namespace Parley

namespace Registry

/-- Two registries hold the same rooms and know the same about where peers are. -/
structure Same (g g' : Registry) : Prop where
  rooms : ∀ r, g.rooms.get? r = g'.rooms.get? r
  whereabouts : ∀ p, g.whereabouts.get? p = g'.whereabouts.get? p
  capacity : g.capacity = g'.capacity

namespace Same

variable {g g' g'' : Registry}

theorem refl (g : Registry) : g.Same g := ⟨fun _ => rfl, fun _ => rfl, rfl⟩

theorem symm (h : g.Same g') : g'.Same g :=
  ⟨fun r => (h.rooms r).symm, fun p => (h.whereabouts p).symm, h.capacity.symm⟩

theorem trans (h : g.Same g') (h' : g'.Same g'') : g.Same g'' :=
  ⟨fun r => (h.rooms r).trans (h'.rooms r), fun p => (h.whereabouts p).trans (h'.whereabouts p),
    h.capacity.trans h'.capacity⟩

theorem roomOrNew (h : g.Same g') (r : RoomId) : g.roomOrNew r = g'.roomOrNew r := by
  simp only [Registry.roomOrNew, h.rooms, h.capacity]

theorem members (h : g.Same g') (r : RoomId) : g.members r = g'.members r := by
  simp only [Registry.members, h.rooms]

end Same

/-! ### Calls -/

theorem join_of_contains {g : Registry} {r : RoomId} {p : PeerId}
    (h : (g.roomOrNew r).contains p = true) :
    g.join r p = (.alreadyMember (g.roomOrNew r).size, g) := by
  simp only [join, h, if_true]

theorem join_of_isFull {g : Registry} {r : RoomId} {p : PeerId}
    (new : (g.roomOrNew r).contains p = false) (full : (g.roomOrNew r).isFull = true) :
    g.join r p = (.full, g) := by
  simp only [join, new, full, Bool.false_eq_true, if_false, if_true]

theorem join_of_space {g : Registry} {r : RoomId} {p : PeerId}
    (new : (g.roomOrNew r).contains p = false) (space : (g.roomOrNew r).isFull = false) :
    g.join r p =
      (.joined ((g.roomOrNew r).insert p).size (g.roomOrNew r).members,
        { g with
          rooms := g.rooms.set r ((g.roomOrNew r).insert p)
          whereabouts := g.whereabouts.set p r }) := by
  simp only [join, new, space, Bool.false_eq_true, if_false]

/-- Registries that are the same answer a call alike, and are the same after it. -/
theorem Same.call {g g' : Registry} (h : g.Same g') (c : RoomCall) :
    (g.call c).1 = (g'.call c).1 ∧ (g.call c).2.Same (g'.call c).2 := by
  cases c with
  | join r p =>
    have room := h.roomOrNew r
    cases new : (g.roomOrNew r).contains p with
    | true =>
      have new' := new
      rw [room] at new'
      simp only [Registry.call, join_of_contains new, join_of_contains new', room]
      exact ⟨trivial, h⟩
    | false =>
      have new' := new
      rw [room] at new'
      cases full : (g.roomOrNew r).isFull with
      | true =>
        have full' := full
        rw [room] at full'
        simp only [Registry.call, join_of_isFull new full, join_of_isFull new' full']
        exact ⟨trivial, h⟩
      | false =>
        have full' := full
        rw [room] at full'
        simp only [Registry.call, join_of_space new full, join_of_space new' full', room]
        exact ⟨trivial, fun r' => by simp [Table.get?_set, h.rooms],
          fun p' => by simp [Table.get?_set, h.whereabouts], h.capacity⟩
  | leave r p =>
    cases found : g.rooms.get? r with
    | none =>
      have found' := (h.rooms r).symm.trans found
      simp only [Registry.call, leave, found, found']
      exact ⟨trivial, h⟩
    | some room =>
      have found' := (h.rooms r).symm.trans found
      simp only [Registry.call, leave, found, found', h.whereabouts]
      refine ⟨trivial, fun r' => ?_, fun p' => ?_, h.capacity⟩
      · dsimp only
        split <;> simp [Table.get?_erase, Table.get?_set, h.rooms]
      · dsimp only
        split <;> simp [Table.get?_erase, h.whereabouts]
  | memberCount r => exact ⟨by simp only [Registry.call, memberCount, h.members], h⟩
  | members r => exact ⟨by simp only [Registry.call, h.members], h⟩

/-! ### Who is in a room -/

section Members

variable {g : Registry} {r r' : RoomId} {p : PeerId}

theorem members_set (g : Registry) (r r' : RoomId) (room : Room) (whereabouts : Table PeerId RoomId) :
    ({ g with rooms := g.rooms.set r' room, whereabouts } : Registry).members r =
      if r = r' then room.members else g.members r := by
  by_cases same : r = r' <;> simp [members, Table.get?_set, same]

theorem members_erase (g : Registry) (r r' : RoomId) (whereabouts : Table PeerId RoomId) :
    ({ g with rooms := g.rooms.erase r', whereabouts } : Registry).members r =
      if r = r' then [] else g.members r := by
  by_cases same : r = r' <;> simp [members, Table.get?_erase, same]

/-- Whether or not a join succeeds, other rooms do not notice. -/
theorem members_join_other (other : r ≠ r') : (g.join r' p).2.members r = g.members r := by
  unfold join
  dsimp only
  split
  · rfl
  · split
    · rfl
    · rw [members_set, if_neg other]

/-- What a peer that leaves is told: who stays, and whether it was in there at all. -/
theorem leave_outcome (g : Registry) (r : RoomId) (p : PeerId) :
    (g.leave r p).1 = ⟨(g.members r).filter (· ≠ p), p ∈ g.members r⟩ := by
  cases found : g.rooms.get? r with
  | none => simp [leave, members, found]
  | some room =>
    simp only [leave, members, found]
    rfl

theorem members_leave (g : Registry) (r : RoomId) (p : PeerId) (r' : RoomId) :
    (g.leave r p).2.members r' =
      if r' = r then (g.members r).filter (· ≠ p) else g.members r' := by
  cases found : g.rooms.get? r with
  | none =>
    have nobody : g.members r = [] := by simp [members, found]
    have same : (g.leave r p).2 = g := by simp [leave, found]
    rw [same, nobody]
    split
    case isTrue here => simp [here, nobody]
    case isFalse => rfl
  | some room =>
    have inside : g.members r = room.members := by simp [members, found]
    simp only [leave, found]
    split
    case isTrue empty =>
      have nobody : room.members.filter (· ≠ p) = [] := by
        simpa [Room.isEmpty, Room.remove] using empty
      rw [members_erase, inside, nobody]
    case isFalse =>
      rw [members_set, inside]
      rfl

end Members

theorem call_capacity (g : Registry) (c : RoomCall) : (g.call c).2.capacity = g.capacity := by
  cases c with
  | join r p =>
    simp only [call, join]
    split
    · rfl
    · split <;> rfl
  | leave r p =>
    simp only [call, leave]
    split <;> rfl
  | _ => rfl

end Registry

end Parley
