import Parley.Proofs.Room.Sequential

/-!
# Room objects

What a single turn does to the rooms of a shared registry, and what holds of them between turns.

`Turned` splits a turn into its cases. `SharedRegistry.Sound` is the invariant: an object that is
not retired is the one its name leads to, a retired object is empty, and no object has more members
than the capacity. So of several objects of one name at most one has members, and the view of a
sequential caller can be read off it (`Sound.roomOrNew_view`).
-/

namespace Parley

namespace SharedRegistry

/-- An object is a room that was opened under a name. -/
def Object (g : SharedRegistry) (o : RoomNumber) (r : RoomId) (room : Room) : Prop :=
  g.objects[o]? = some (r, room)

/-- What holds of the rooms of a shared registry between turns. -/
structure Sound (g : SharedRegistry) : Prop where
  unique : g.rooms.Unique
  space : 1 ≤ g.capacity
  mapped : ∀ {r o}, g.rooms.get? r = some o → ∃ room, g.Object o r room
  current : ∀ {o r room}, g.Object o r room → room.retired = false → g.rooms.get? r = some o
  retired : ∀ {o r room}, g.Object o r room → room.retired = true → room.members = []
  distinct : ∀ {o r room}, g.Object o r room → room.members.Nodup
  bounded : ∀ {o r room}, g.Object o r room →
    room.capacity = g.capacity ∧ room.members.length ≤ g.capacity

variable {g : SharedRegistry} {o : RoomNumber} {r : RoomId} {p : PeerId} {room : Room}

theorem Sound.empty (capacity : Nat) : (SharedRegistry.empty capacity).Sound where
  unique := Table.Unique.empty
  space := Nat.le_max_right _ _
  mapped := nofun
  current := nofun
  retired := nofun
  distinct := nofun
  bounded := nofun

/-- An object is one room under one name. -/
theorem Object.unique {r' : RoomId} {room' : Room} (object : g.Object o r room)
    (object' : g.Object o r' room') : r' = r ∧ room' = room := by
  have same := object'.symm.trans object
  simpa only [Option.some.injEq, Prod.mk.injEq] using same

/-! ## The view of a sequential caller -/

theorem Object.room? (h : g.Object o r room) : g.room? o = some room := by
  unfold SharedRegistry.room?
  rw [h]
  rfl

/-- The view finds the rooms that have members. -/
theorem get?_view (unique : g.rooms.Unique) (r : RoomId) :
    g.view.rooms.get? r =
      (g.rooms.get? r).bind fun o => (g.room? o).bind fun room =>
        if room.isEmpty then none else some room := by
  let f (o : RoomNumber) : Option Room :=
    (g.room? o).bind fun room => if room.isEmpty then none else some room
  have pairs : g.view.rooms.pairs = g.rooms.pairs.filterMap fun p => (f p.2).map (p.1, ·) := by
    refine congrArg (g.rooms.pairs.filterMap ·) (funext fun p => ?_)
    simp only [f, Option.map_bind]
    congr 1
    funext room
    dsimp only [Function.comp]
    split <;> rfl
  show Table.lookup r g.view.rooms.pairs = _
  rw [pairs, Table.lookup_filterMap f r unique]
  rfl

/-- The view finds an object that is not retired, if it has members. -/
theorem Sound.get?_view_of_live (h : g.Sound) (object : g.Object o r room)
    (live : room.retired = false) :
    g.view.rooms.get? r = if room.isEmpty then none else some room := by
  rw [get?_view h.unique, h.current object live]
  simp [object.room?]

/-- The view finds nothing where the object is retired. -/
theorem Sound.get?_view_of_retired (h : g.Sound) (table : g.rooms.get? r = some o)
    (object : g.Object o r room) (gone : room.retired = true) :
    g.view.rooms.get? r = none := by
  have empty : room.isEmpty = true := by simp [Room.isEmpty, h.retired object gone]
  rw [get?_view h.unique, table]
  simp [object.room?, empty]

theorem Sound.get?_view_of_absent (h : g.Sound) (table : g.rooms.get? r = none) :
    g.view.rooms.get? r = none := by
  rw [get?_view h.unique, table]
  rfl

/-- An object that is not retired is the room that a sequential caller would join. -/
theorem Sound.roomOrNew_view (h : g.Sound) (object : g.Object o r room)
    (live : room.retired = false) : g.view.roomOrNew r = room := by
  unfold Registry.roomOrNew
  rw [h.get?_view_of_live object live]
  cases empty : room.isEmpty with
  | true =>
    obtain ⟨members, capacity, gone⟩ := room
    have members_eq : members = [] := by simpa [Room.isEmpty] using empty
    have capacity_eq : capacity = g.capacity := (h.bounded object).1
    cases live
    subst members_eq capacity_eq
    rfl
  | false => simp [live]

/-- It has the members that a sequential caller would find. -/
theorem Sound.members_view (h : g.Sound) (object : g.Object o r room)
    (live : room.retired = false) : g.view.members r = room.members := by
  unfold Registry.members
  rw [h.get?_view_of_live object live]
  cases empty : room.isEmpty with
  | true =>
    have nobody : room.members = [] := by simpa [Room.isEmpty] using empty
    simp [nobody]
  | false => rfl

/-! ## Turns -/

/-- The object takes a member in. -/
def takeIn (g : SharedRegistry) (o : RoomNumber) (r : RoomId) (p : PeerId) : SharedRegistry :=
  { g.modify o (·.insert p) with whereabouts := g.whereabouts.set p r }

/-- The object lets a peer go that may be a member. -/
def release (g : SharedRegistry) (o : RoomNumber) (room : Room) (r : RoomId) (p : PeerId) :
    SharedRegistry :=
  { g.modify o (·.remove p) with
    whereabouts :=
      if room.contains p ∧ g.whereabouts.get? p = some r then g.whereabouts.erase p
      else g.whereabouts }

/-- What a leave returns. -/
def farewell (room : Room) (p : PeerId) : LeaveOutcome := ⟨(room.remove p).members, room.contains p⟩

/-- What a call returns that finds nobody; a join does not return then. -/
def vacant : RoomCall → Option RoomAnswer
  | .join _ _ => none
  | .leave _ _ => some (.leave ⟨[], false⟩)
  | .memberCount _ => some (.memberCount 0)
  | .members _ => some (.members [])

/-- What can become of a turn: the object of the call is looked up, worked on, or taken off the
table. -/
inductive Turned (g : SharedRegistry) : RoomCall → Phase → Progress → SharedRegistry → Prop
  | found {c : RoomCall} {o : RoomNumber} (table : g.rooms.get? c.room = some o) :
      Turned g c .seeking (.going (.holding o)) g
  | opened {r : RoomId} {p : PeerId} (table : g.rooms.get? r = none) :
      Turned g (.join r p) .seeking (.going (.holding g.objects.length)) (g.openRoom r).2
  | absent {c : RoomCall} {answer : RoomAnswer} (table : g.rooms.get? c.room = none)
      (nobody : vacant c = some answer) : Turned g c .seeking (.returned answer) g
  /-- The object was retired since it was looked up; a join looks again. -/
  | refused {r : RoomId} {p : PeerId} {o : RoomNumber} {room : Room} (object : g.Object o r room)
      (gone : room.retired = true) : Turned g (.join r p) (.holding o) (.going .seeking) g
  /-- The object was retired since it was looked up, and nobody is in there. -/
  | late {c : RoomCall} {answer : RoomAnswer} {o : RoomNumber} {room : Room}
      (object : g.Object o c.room room) (gone : room.retired = true)
      (nobody : vacant c = some answer) : Turned g c (.holding o) (.returned answer) g
  | member {r : RoomId} {p : PeerId} {o : RoomNumber} {room : Room} (object : g.Object o r room)
      (live : room.retired = false) (inside : room.contains p = true) :
      Turned g (.join r p) (.holding o) (.returned (.join (.alreadyMember room.size))) g
  | full {r : RoomId} {p : PeerId} {o : RoomNumber} {room : Room} (object : g.Object o r room)
      (live : room.retired = false) (new : room.contains p = false) (full : room.isFull = true) :
      Turned g (.join r p) (.holding o) (.returned (.join .full)) g
  | admitted {r : RoomId} {p : PeerId} {o : RoomNumber} {room : Room} (object : g.Object o r room)
      (live : room.retired = false) (new : room.contains p = false) (space : room.isFull = false) :
      Turned g (.join r p) (.holding o)
        (.returned (.join (.joined (room.insert p).size room.members))) (g.takeIn o r p)
  | left {r : RoomId} {p : PeerId} {o : RoomNumber} {room : Room} (object : g.Object o r room)
      (live : room.retired = false) (others : (room.remove p).isEmpty = false) :
      Turned g (.leave r p) (.holding o) (.returned (.leave (farewell room p)))
        (g.release o room r p)
  | emptied {r : RoomId} {p : PeerId} {o : RoomNumber} {room : Room} (object : g.Object o r room)
      (live : room.retired = false) (alone : (room.remove p).isEmpty = true) :
      Turned g (.leave r p) (.holding o) (.going (.clearing o (farewell room p)))
        ((g.release o room r p).modify o Room.retire)
  | counted {r : RoomId} {o : RoomNumber} {room : Room} (object : g.Object o r room)
      (live : room.retired = false) :
      Turned g (.memberCount r) (.holding o) (.returned (.memberCount room.size)) g
  | listed {r : RoomId} {o : RoomNumber} {room : Room} (object : g.Object o r room)
      (live : room.retired = false) :
      Turned g (.members r) (.holding o) (.returned (.members room.members)) g
  | cleared {r : RoomId} {p : PeerId} {o : RoomNumber} {outcome : LeaveOutcome} :
      Turned g (.leave r p) (.clearing o outcome) (.returned (.leave outcome)) (g.clear r o)

/-- A call has got as far as it can get: it holds an object of its room, or it is a leave that has
retired one. -/
def Fits (g : SharedRegistry) (c : RoomCall) : Phase → Prop
  | .seeking => True
  | .holding o => ∃ room, g.Object o c.room room
  | .clearing o _ => (∃ r p, c = .leave r p) ∧ ∃ room, g.Object o c.room room ∧ room.retired = true

theorem modify_remove_of_empty (object : g.Object o r room) (empty : room.members = []) (p : PeerId) :
    g.modify o (·.remove p) = g := by
  have same : (r, room.remove p) = (r, room) := by
    obtain ⟨members, capacity, gone⟩ := room
    cases empty
    rfl
  unfold modify
  congr 1
  apply List.ext_getElem?
  intro i
  rw [List.getElem?_modify]
  split
  case isTrue h =>
    subst h
    rw [object]
    exact congrArg some same
  case isFalse => simp

theorem seek_turned (g : SharedRegistry) (c : RoomCall) :
    Turned g c .seeking (g.seek c).1 (g.seek c).2 := by
  unfold seek
  split
  case h_1 table => exact .found table
  case h_2 table =>
    cases c with
    | join r p => exact .opened table
    | _ => exact .absent table rfl

theorem joinHeld_turned (object : g.Object o r room) (p : PeerId) :
    Turned g (.join r p) (.holding o) (g.joinHeld o room r p).1 (g.joinHeld o room r p).2 := by
  unfold joinHeld
  split
  case isTrue gone => exact .refused object gone
  case isFalse live =>
    have live : room.retired = false := by simpa using live
    split
    case isTrue inside => exact .member object live inside
    case isFalse new =>
      have new : room.contains p = false := by simpa using new
      split
      case isTrue full => exact .full object live new full
      case isFalse space => exact .admitted object live new (by simpa using space)

theorem leaveHeld_turned (h : g.Sound) (object : g.Object o r room) (p : PeerId) :
    Turned g (.leave r p) (.holding o) (g.leaveHeld o room r p).1 (g.leaveHeld o room r p).2 := by
  cases gone : room.retired with
  | true =>
    have nobody := h.retired object gone
    have outside : room.contains p = false := by simp [Room.contains, nobody]
    have same : g.leaveHeld o room r p = (.returned (.leave ⟨[], false⟩), g) := by
      have kept := modify_remove_of_empty object nobody p
      simp [leaveHeld, outside, gone, Room.remove, nobody] at kept ⊢
      rw [kept]
    rw [same]
    exact .late (c := .leave r p) object gone rfl
  | false =>
    cases alone : (room.remove p).isEmpty with
    | true =>
      have same : g.leaveHeld o room r p = (.going (.clearing o (farewell room p)),
          (g.release o room r p).modify o Room.retire) := by
        have live : (room.remove p).retired = false := gone
        simp only [leaveHeld, alone, live, Bool.not_false, and_self, if_true]
        rfl
      rw [same]
      exact .emptied object gone alone
    | false =>
      have same : g.leaveHeld o room r p =
          (.returned (.leave (farewell room p)), g.release o room r p) := by
        simp only [leaveHeld, alone, Bool.false_eq_true, false_and, if_false]
        rfl
      rw [same]
      exact .left object gone alone

/-- Whatever the call and however far it has got, a turn is one of the things named above. -/
theorem turn_turned (h : g.Sound) {c : RoomCall} {phase : Phase} (fits : g.Fits c phase) :
    Turned g c phase (g.turn c phase).1 (g.turn c phase).2 := by
  cases phase with
  | seeking => exact seek_turned g c
  | clearing o outcome =>
    obtain ⟨⟨r, p, rfl⟩, -⟩ := fits
    exact .cleared
  | holding o =>
    obtain ⟨room, object⟩ := fits
    have turn : g.turn c (.holding o) = g.work o room c := by
      simp only [SharedRegistry.turn, object.room?]
    rw [turn]
    cases c with
    | join r p => exact joinHeld_turned object p
    | leave r p => exact leaveHeld_turned h object p
    | memberCount r =>
      cases gone : room.retired with
      | true =>
        have none : room.size = 0 := by simp [Room.size, h.retired object gone]
        show Turned g _ _ (.returned (.memberCount room.size)) g
        rw [none]
        exact .late object gone rfl
      | false => exact .counted object gone
    | members r =>
      cases gone : room.retired with
      | true =>
        show Turned g _ _ (.returned (.members room.members)) g
        rw [h.retired object gone]
        exact .late object gone rfl
      | false => exact .listed object gone

theorem turned_of_turn (h : g.Sound) {c : RoomCall} {phase : Phase} (fits : g.Fits c phase)
    {progress : Progress} {g' : SharedRegistry} (turn : g.turn c phase = (progress, g')) :
    Turned g c phase progress g' := by
  have turned := turn_turned h fits
  rw [turn] at turned
  exact turned

/-! ## Changes of an object -/

theorem getElem?_modify_objects (g : SharedRegistry) (o o' : RoomNumber) (f : Room → Room) :
    (g.modify o f).objects[o']? =
      (g.objects[o']?).map fun x => if o = o' then (x.1, f x.2) else x := by
  unfold modify
  rw [List.getElem?_modify]
  split <;> simp

/-- The object itself after a change. -/
theorem Object.modified (object : g.Object o r room) (f : Room → Room) :
    (g.modify o f).Object o r (f room) := by
  unfold Object
  rw [getElem?_modify_objects, object]
  simp

/-- Any other object after a change. -/
theorem Object.unmodified {o' : RoomNumber} (object : g.Object o' r room) (other : o' ≠ o)
    (f : Room → Room) : (g.modify o f).Object o' r room := by
  unfold Object
  rw [getElem?_modify_objects, object]
  simp [Ne.symm other]

/-- No change that leaves rooms retired or not retires an object. -/
theorem Object.modify_kept (object : g.Object o r room) {f : Room → Room}
    (keeps : ∀ room, (f room).retired = room.retired) (o' : RoomNumber) :
    ∃ room', (g.modify o' f).Object o r room' ∧ room'.retired = room.retired := by
  by_cases here : o = o'
  · subst here
    exact ⟨_, object.modified f, keeps room⟩
  · exact ⟨_, object.unmodified here f, rfl⟩

/-- After a change an object is the changed one, or it is as before. -/
theorem object_modify_cases {f : Room → Room} {o' : RoomNumber} {r' : RoomId} {room' : Room}
    (object : g.Object o r room) (there : (g.modify o f).Object o' r' room') :
    (o' = o ∧ r' = r ∧ room' = f room) ∨ (o' ≠ o ∧ g.Object o' r' room') := by
  by_cases here : o' = o
  · subst here
    exact .inl ⟨rfl, (object.modified f).unique there⟩
  · refine .inr ⟨here, ?_⟩
    unfold Object at there ⊢
    rw [getElem?_modify_objects] at there
    simpa [Ne.symm here] using there

/-- An object can be changed, as long as it keeps to its capacity and is not retired with members. -/
theorem Sound.modify (h : g.Sound) (object : g.Object o r room) {f : Room → Room}
    (live : (f room).retired = false → room.retired = false)
    (gone : (f room).retired = true → (f room).members = [])
    (distinct : (f room).members.Nodup) (capacity : (f room).capacity = room.capacity)
    (bounded : (f room).members.length ≤ g.capacity) : (g.modify o f).Sound := by
  refine ⟨h.unique, h.space, ?_, ?_, ?_, ?_, ?_⟩
  · intro r' o' table
    obtain ⟨before, there⟩ := h.mapped table
    by_cases here : o' = o
    · subst here
      exact ⟨_, there.modified f⟩
    · exact ⟨_, there.unmodified here f⟩
  · intro o' r' room' there now
    rcases object_modify_cases object there with ⟨rfl, rfl, rfl⟩ | ⟨-, there⟩
    · exact h.current object (live now)
    · exact h.current there now
  · intro o' r' room' there now
    rcases object_modify_cases object there with ⟨rfl, rfl, rfl⟩ | ⟨-, there⟩
    · exact gone now
    · exact h.retired there now
  · intro o' r' room' there
    rcases object_modify_cases object there with ⟨rfl, rfl, rfl⟩ | ⟨-, there⟩
    · exact distinct
    · exact h.distinct there
  · intro o' r' room' there
    rcases object_modify_cases object there with ⟨rfl, rfl, rfl⟩ | ⟨-, there⟩
    · exact ⟨capacity.trans (h.bounded object).1, bounded⟩
    · exact h.bounded there

/-- After a room was opened, an object is the new one, or it is as before. -/
theorem object_openRoom_cases {o' : RoomNumber} {r' : RoomId} {room' : Room}
    (there : (g.openRoom r).2.Object o' r' room') :
    (o' = g.objects.length ∧ r' = r ∧ room' = .empty g.capacity) ∨ g.Object o' r' room' := by
  have before : (g.objects ++ [(r, Room.empty g.capacity)])[o']? = some (r', room') := there
  by_cases old : o' < g.objects.length
  · rw [List.getElem?_append_left old] at before
    exact .inr before
  · have after : g.objects.length ≤ o' := Nat.le_of_not_lt old
    rw [List.getElem?_append_right after, List.getElem?_singleton] at before
    split at before
    case isTrue new =>
      simp only [Option.some.injEq, Prod.mk.injEq] at before
      have last : o' = g.objects.length := by
        have gap : o' - g.objects.length = 0 := new
        exact Nat.le_antisymm (Nat.le_of_sub_eq_zero gap) after
      exact .inl ⟨last, before.1.symm, before.2.symm⟩
    case isFalse => cases before

theorem Object.lt (object : g.Object o r room) : o < g.objects.length :=
  (List.getElem?_eq_some_iff.mp object).1

theorem Object.openRoom {r' : RoomId} (object : g.Object o r room) :
    (g.openRoom r').2.Object o r room :=
  (List.getElem?_append_left object.lt).trans object

theorem object_openRoom (g : SharedRegistry) (r : RoomId) :
    (g.openRoom r).2.Object g.objects.length r (.empty g.capacity) := by
  simp [Object, SharedRegistry.openRoom]

@[simp] theorem object_clear {r' : RoomId} {o' : RoomNumber} :
    (g.clear r' o').Object o r room ↔ g.Object o r room := by
  unfold SharedRegistry.clear
  split <;> rfl

theorem Sound.openRoom (h : g.Sound) (table : g.rooms.get? r = none) :
    (g.openRoom r).2.Sound := by
  refine ⟨h.unique.set r _, h.space, ?_, ?_, ?_, ?_, ?_⟩
  · intro r' o' found
    change (g.rooms.set r g.objects.length).get? r' = some o' at found
    rw [Table.get?_set] at found
    split at found
    case isTrue same =>
      cases found
      subst same
      exact ⟨_, object_openRoom g r'⟩
    case isFalse =>
      obtain ⟨room, object⟩ := h.mapped found
      exact ⟨room, object.openRoom⟩
  · intro o' r' room' there live
    show (g.rooms.set r g.objects.length).get? r' = some o'
    rw [Table.get?_set]
    rcases object_openRoom_cases there with ⟨rfl, rfl, -⟩ | there
    · simp
    · -- An object that is not retired is on the table, and for this room there was none.
      have found := h.current there live
      have other : r' ≠ r := by
        rintro rfl
        rw [table] at found
        cases found
      rw [if_neg other, found]
  · intro o' r' room' there gone
    rcases object_openRoom_cases there with ⟨-, -, rfl⟩ | there
    · rfl
    · exact h.retired there gone
  · intro o' r' room' there
    rcases object_openRoom_cases there with ⟨-, -, rfl⟩ | there
    · exact List.nodup_nil
    · exact h.distinct there
  · intro o' r' room' there
    rcases object_openRoom_cases there with ⟨-, -, rfl⟩ | there
    · exact ⟨rfl, Nat.zero_le _⟩
    · exact h.bounded there

theorem Sound.takeIn (h : g.Sound) (object : g.Object o r room) (live : room.retired = false)
    (new : room.contains p = false) (space : room.isFull = false) : (g.takeIn o r p).Sound := by
  have changed : (g.modify o (·.insert p)).Sound := by
    have fresh : p ∉ room.members := by simpa [Room.contains] using new
    have below : room.members.length < g.capacity := by
      rw [← (h.bounded object).1]
      exact Nat.lt_of_not_le (of_decide_eq_false space)
    apply h.modify object
    · exact fun _ => live
    · intro gone
      rw [show (room.insert p).retired = false from live] at gone
      cases gone
    · refine List.nodup_append.mpr ⟨h.distinct object, by simp, ?_⟩
      rintro q mem _ mem' rfl
      rw [List.mem_singleton.mp mem'] at mem
      exact fresh mem
    · rfl
    · simp only [Room.insert, List.length_append, List.length_singleton]
      exact below
  exact { changed with }

theorem Sound.release (h : g.Sound) (object : g.Object o r room) (live : room.retired = false)
    (p : PeerId) : (g.release o room r p).Sound := by
  have changed : (g.modify o (·.remove p)).Sound := by
    apply h.modify object
    · exact fun _ => live
    · intro gone
      rw [show (room.remove p).retired = false from live] at gone
      cases gone
    · exact (h.distinct object).sublist List.filter_sublist
    · rfl
    · exact Nat.le_trans (List.length_filter_le _ _) (h.bounded object).2
  exact { changed with }

theorem Sound.clear (h : g.Sound) (object : g.Object o r room) (gone : room.retired = true) :
    (g.clear r o).Sound := by
  unfold SharedRegistry.clear
  split
  case isFalse => exact h
  case isTrue table =>
    refine { h with unique := h.unique.erase r, mapped := ?_, current := ?_ }
    · intro r' o' found
      rw [Table.get?_erase] at found
      split at found
      · cases found
      · exact h.mapped found
    · intro o' r' room' there live
      have found := h.current there live
      rw [Table.get?_erase]
      split
      case isTrue same =>
        -- What is taken off the table is retired.
        subst same
        have here : o' = o := by simpa [found] using table
        subst here
        rw [(object.unique there).2, gone] at live
        cases live
      case isFalse => exact found

/-! ## What a turn comes to -/

/-- A sound registry stays sound. -/
theorem Turned.sound {g' : SharedRegistry} {c : RoomCall} {phase : Phase} {progress : Progress}
    (h : g.Sound) (fits : g.Fits c phase) (turn : Turned g c phase progress g') : g'.Sound := by
  cases turn with
  | opened table => exact h.openRoom table
  | admitted object live new space => exact h.takeIn object live new space
  | left object live => exact h.release object live _
  | @emptied r p o room object live alone =>
    -- The room is released first, and empty when it is retired.
    have nobody : (room.remove p).members = [] := by simpa [Room.isEmpty] using alone
    have released : (g.release o room r p).Object o r (room.remove p) :=
      object.modified (·.remove p)
    apply (h.release object live p).modify released
    · intro running
      cases running
    · exact fun _ => nobody
    · exact show (room.remove p).members.Nodup from (h.release object live p).distinct released
    · rfl
    · exact ((h.release object live p).bounded released).2
  | cleared =>
    obtain ⟨-, room, object, gone⟩ := fits
    exact h.clear object gone
  | _ => exact h

/-- Rooms of other names look as before when an object is changed. -/
theorem Sound.get?_view_modify_other (h : g.Sound) (object : g.Object o r room) {r' : RoomId}
    (other : r' ≠ r) (f : Room → Room) :
    (g.modify o f).view.rooms.get? r' = g.view.rooms.get? r' := by
  rw [get?_view (g := g.modify o f) h.unique, get?_view h.unique]
  show (g.rooms.get? r').bind _ = _
  cases table : g.rooms.get? r' with
  | none => rfl
  | some o' =>
    obtain ⟨room', there⟩ := h.mapped table
    have apart : o' ≠ o := by
      rintro rfl
      exact other (object.unique there).1
    simp only [Option.bind_some, there.room?, (there.unmodified apart f).room?]

theorem Sound.same_view_openRoom (h : g.Sound) (table : g.rooms.get? r = none) :
    (g.openRoom r).2.view.Same g.view := by
  refine ⟨fun r' => ?_, fun _ => rfl, rfl⟩
  rw [get?_view (h.openRoom table).unique, get?_view h.unique]
  show ((g.rooms.set r g.objects.length).get? r').bind _ = _
  rw [Table.get?_set]
  split
  case isTrue same =>
    subst same
    rw [table]
    simp [(object_openRoom g r').room?, Room.empty, Room.isEmpty]
  case isFalse =>
    cases found : g.rooms.get? r' with
    | none => rfl
    | some o' =>
      obtain ⟨room', there⟩ := h.mapped found
      simp only [Option.bind_some, there.room?, there.openRoom.room?]

theorem Sound.same_view_clear (h : g.Sound) (object : g.Object o r room)
    (gone : room.retired = true) : (g.clear r o).view.Same g.view := by
  unfold SharedRegistry.clear
  split
  case isFalse => exact .refl _
  case isTrue table =>
    refine ⟨fun r' => ?_, fun _ => rfl, rfl⟩
    by_cases same : r' = r
    · subst same
      rw [h.get?_view_of_retired table object gone]
      rw [get?_view (h.unique.erase r')]
      simp
    · rw [get?_view (h.unique.erase r), get?_view h.unique]
      show ((g.rooms.erase r).get? r').bind _ = _
      rw [Table.get?_erase, if_neg same]
      rfl

/-- To retire an empty object changes nothing for a sequential caller. -/
theorem Sound.same_view_retire (h : g.Sound) (object : g.Object o r room)
    (live : room.retired = false) (nobody : room.isEmpty = true) :
    (g.modify o Room.retire).view.Same g.view := by
  refine ⟨fun r' => ?_, fun _ => rfl, rfl⟩
  by_cases same : r' = r
  · subst same
    have empty : room.retire.isEmpty = true := nobody
    rw [h.get?_view_of_live object live, if_pos nobody, get?_view (g := g.modify o Room.retire)
      h.unique]
    show (g.rooms.get? r').bind _ = none
    rw [h.current object live]
    simp [(object.modified Room.retire).room?, empty]
  · exact h.get?_view_modify_other object same Room.retire

/-- A member that comes in is let in by the sequential registry too. -/
theorem Sound.join_view (h : g.Sound) (object : g.Object o r room) (live : room.retired = false)
    (new : room.contains p = false) (space : room.isFull = false) :
    (g.view.join r p).1 = .joined (room.insert p).size room.members ∧
      (g.takeIn o r p).view.Same (g.view.join r p).2 := by
  have seen := h.roomOrNew_view object live
  rw [← seen] at new space
  rw [Registry.join_of_space new space, seen]
  refine ⟨rfl, fun r' => ?_, fun _ => rfl, rfl⟩
  show (g.modify o (·.insert p)).view.rooms.get? r' =
    (g.view.rooms.set r (room.insert p)).get? r'
  rw [Table.get?_set]
  split
  case isTrue same =>
    subst same
    rw [get?_view (g := g.modify o (·.insert p)) h.unique]
    show (g.rooms.get? r').bind _ = _
    rw [h.current object live]
    have filled : (room.insert p).isEmpty = false := by simp [Room.insert, Room.isEmpty]
    simp only [Option.bind_some, (object.modified (·.insert p)).room?, filled]
    rfl
  case isFalse other => exact h.get?_view_modify_other object other _

/-- A peer that goes is let go by the sequential registry too. -/
theorem Sound.leave_view (h : g.Sound) (object : g.Object o r room) (live : room.retired = false)
    (p : PeerId) :
    (g.view.leave r p).1 = farewell room p ∧
      (g.release o room r p).view.Same (g.view.leave r p).2 := by
  have seen := h.get?_view_of_live object live
  cases empty : room.isEmpty with
  | true =>
    -- An object without members that is not retired: somebody has just opened the room.
    have nobody : room.members = [] := by simpa [Room.isEmpty] using empty
    have same : g.release o room r p = g := by
      unfold SharedRegistry.release
      rw [modify_remove_of_empty object nobody]
      simp [Room.contains, nobody]
    rw [empty, if_pos rfl] at seen
    simp only [Registry.leave, seen, same]
    exact ⟨by simp [farewell, Room.remove, Room.contains, nobody], .refl _⟩
  | false =>
    rw [empty, if_neg Bool.false_ne_true] at seen
    simp only [Registry.leave, seen]
    refine ⟨rfl, fun r' => ?_, fun _ => rfl, rfl⟩
    show (g.modify o (·.remove p)).view.rooms.get? r' = Table.get? (if _ then _ else _) r'
    by_cases same : r' = r
    · subst same
      rw [get?_view (g := g.modify o (·.remove p)) h.unique]
      show (g.rooms.get? r').bind _ = _
      rw [h.current object live]
      simp only [Option.bind_some, (object.modified (·.remove p)).room?]
      split <;> simp
    · rw [h.get?_view_modify_other object same]
      split <;> simp [Table.get?_erase, Table.get?_set, same]

/-- There is no work to do yet: the call holds nothing, or an object that is retired. -/
def Looking (g : SharedRegistry) (c : RoomCall) : Phase → Prop
  | .seeking => True
  | .holding o => ∃ room, g.Object o c.room room ∧ room.retired = true
  | .clearing _ _ => False

/-- What a turn of a call comes to for sequential callers. The work is done in the one turn in which
the call holds an object that is not retired; all other turns change nothing. -/
inductive Effect (g g' : SharedRegistry) (c : RoomCall) : Phase → Progress → Prop
  | looked {phase phase' : Phase} (same : g'.view.Same g.view) (looking : g.Looking c phase)
      (next : ∀ o outcome, phase' ≠ .clearing o outcome)
      (vacated : ∀ o room, phase' = .holding o → g'.Object o c.room room → room.retired = true →
        g'.view.rooms.get? c.room = none) :
      Effect g g' c phase (.going phase')
  | retired {o : RoomNumber} {outcome : LeaveOutcome} {room : Room} (object : g.Object o c.room room)
      (live : room.retired = false) (reply : (g.view.call c).1 = .leave outcome)
      (after : g'.view.Same (g.view.call c).2) :
      Effect g g' c (.holding o) (.going (.clearing o outcome))
  | worked {o : RoomNumber} {answer : RoomAnswer} {room : Room} (object : g.Object o c.room room)
      (live : room.retired = false) (reply : (g.view.call c).1 = answer)
      (after : g'.view.Same (g.view.call c).2) :
      Effect g g' c (.holding o) (.returned answer)
  | absent {answer : RoomAnswer} (same : g'.view.Same g.view)
      (none : g.view.rooms.get? c.room = none) (nobody : vacant c = some answer) :
      Effect g g' c .seeking (.returned answer)
  | late {o : RoomNumber} {answer : RoomAnswer} {room : Room} (same : g'.view.Same g.view)
      (object : g.Object o c.room room) (gone : room.retired = true)
      (nobody : vacant c = some answer) :
      Effect g g' c (.holding o) (.returned answer)
  | cleared {o : RoomNumber} {outcome : LeaveOutcome} (same : g'.view.Same g.view) :
      Effect g g' c (.clearing o outcome) (.returned (.leave outcome))

/-- A turn that does the work on an object that is not retired, and does not change the rooms. -/
theorem Effect.of_call {g : SharedRegistry} {c : RoomCall} {o : RoomNumber} {answer : RoomAnswer}
    {room : Room} (object : g.Object o c.room room) (live : room.retired = false)
    (call : g.view.call c = (answer, g.view)) : Effect g g c (.holding o) (.returned answer) := by
  apply Effect.worked object live
  · rw [call]
  · rw [call]
    exact .refl _

theorem Turned.effect {g' : SharedRegistry} {c : RoomCall} {phase : Phase} {progress : Progress}
    (h : g.Sound) (fits : g.Fits c phase) (turn : Turned g c phase progress g') :
    Effect g g' c phase progress := by
  cases turn with
  | @found _ o table =>
    refine .looked (.refl _) trivial nofun ?_
    rintro o' room ⟨⟩ object gone
    exact h.get?_view_of_retired table object gone
  | @opened r p table =>
    refine .looked (h.same_view_openRoom table) trivial nofun ?_
    rintro o' room ⟨⟩ object gone
    rw [((object_openRoom g r).unique object).2] at gone
    cases gone
  | absent table nobody => exact .absent (.refl _) (h.get?_view_of_absent table) nobody
  | refused object gone => exact .looked (.refl _) ⟨_, object, gone⟩ nofun nofun
  | late object gone nobody => exact .late (.refl _) object gone nobody
  | @member r p o room object live inside =>
    apply Effect.of_call (c := .join r p) object live
    have seen := h.roomOrNew_view object live
    rw [← seen] at inside
    simp only [Registry.call, Registry.join_of_contains inside, seen]
  | @full r p o room object live new full =>
    apply Effect.of_call (c := .join r p) object live
    rw [← h.roomOrNew_view object live] at new full
    simp only [Registry.call, Registry.join_of_isFull new full]
  | @admitted r p o room object live new space =>
    obtain ⟨answer, after⟩ := h.join_view object live new space
    exact .worked (c := .join r p) object live (congrArg RoomAnswer.join answer) after
  | @left r p o room object live others =>
    obtain ⟨answer, after⟩ := h.leave_view object live p
    exact .worked (c := .leave r p) object live (congrArg RoomAnswer.leave answer) after
  | @emptied r p o room object live alone =>
    obtain ⟨answer, after⟩ := h.leave_view object live p
    refine .retired (c := .leave r p) object live (congrArg RoomAnswer.leave answer) ?_
    have released : (g.release o room r p).Object o r (room.remove p) :=
      object.modified (·.remove p)
    exact ((h.release object live p).same_view_retire released live alone).trans after
  | @counted r o room object live =>
    apply Effect.of_call (c := .memberCount r) object live
    simp only [Registry.call, Registry.memberCount, h.members_view object live]
    rfl
  | @listed r o room object live =>
    apply Effect.of_call (c := .members r) object live
    simp only [Registry.call, h.members_view object live]
  | cleared =>
    obtain ⟨-, room, object, gone⟩ := fits
    exact .cleared (h.same_view_clear object gone)

/-- Objects keep their names and stay retired. Where one has just been retired, there is nobody. -/
theorem Turned.kept {g' : SharedRegistry} {c : RoomCall} {phase : Phase} {progress : Progress}
    (h : g.Sound) (fits : g.Fits c phase) (turn : Turned g c phase progress g')
    (object : g.Object o r room) :
    ∃ room', g'.Object o r room' ∧ (room.retired = true → room'.retired = true) ∧
      (room'.retired = true → room.retired = true ∨ g'.view.rooms.get? r = none) := by
  have after := turn.sound h fits
  cases turn with
  | opened => exact ⟨room, object.openRoom, id, .inl⟩
  | @admitted _ p o' =>
    obtain ⟨room', object', same⟩ := object.modify_kept (f := (·.insert p)) (fun _ => rfl) o'
    exact ⟨room', object', same.trans, fun gone => .inl (same.symm.trans gone)⟩
  | @left _ p o' =>
    obtain ⟨room', object', same⟩ := object.modify_kept (f := (·.remove p)) (fun _ => rfl) o'
    exact ⟨room', object', same.trans, fun gone => .inl (same.symm.trans gone)⟩
  | @emptied r' p o' room' here live alone =>
    have released : (g.release o' room' r' p).Object o' r' (room'.remove p) :=
      here.modified (·.remove p)
    obtain ⟨next, there, same⟩ := object.modify_kept (f := (·.remove p)) (fun _ => rfl) o'
    have there : (g.release o' room' r' p).Object o r next := there
    by_cases own : o = o'
    · -- The one object that is retired in the turn. It is still on the table.
      subst own
      have retired := there.modified Room.retire
      refine ⟨_, retired, fun _ => rfl, fun gone => .inr ?_⟩
      obtain ⟨rfl, -⟩ := here.unique object
      exact after.get?_view_of_retired (h.current here live) retired gone
    · exact ⟨next, there.unmodified own Room.retire, same.trans,
        fun gone => .inl (same.symm.trans gone)⟩
  | cleared => exact ⟨room, object_clear.mpr object, id, .inl⟩
  | _ => exact ⟨room, object, id, .inl⟩

end SharedRegistry

end Parley
