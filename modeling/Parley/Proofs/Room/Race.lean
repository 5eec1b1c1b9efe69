import Mathlib.Data.Finset.Card
import Parley.Proofs.Room.Linear

/-!
# Races for the last places

Peers that all want to join one room at once get the places that are left, and all others find the
room full, whatever the order of their turns (`Race.outcome`). `Race` says who races: callers that
have nothing left to do but to join, for different peers that are not members yet. Everybody else
may do what does not change who is in the room.

`Correct` puts together what holds of any run of a crowd.
-/

namespace Parley

open SharedRegistry

/-- The call lets nobody into a room and nobody out of it. -/
def RoomCall.Spares (r : RoomId) (c : RoomCall) : Prop := ∀ p, c ≠ .join r p ∧ c ≠ .leave r p

/-- Such a call leaves the members as they are. -/
theorem Registry.members_call_of_spares {g : Registry} {r : RoomId} {c : RoomCall}
    (spares : c.Spares r) : (g.call c).2.members r = g.members r := by
  cases c with
  | join r' p => exact members_join_other fun same => (spares p).1 (by rw [same])
  | leave r' p => exact (members_leave ..).trans (if_neg fun same => (spares p).2 (by rw [same]))
  | _ => rfl

namespace Crowd

/-- A caller has nothing left to do but to join a room. -/
def races (c : Crowd) (r : RoomId) (i : Nat) : Bool :=
  match c.callers[i]? with
  | some ⟨[.join r' _], _, _⟩ => r' = r
  | _ => false

/-- The callers that race for a room. -/
def racers (c : Crowd) (r : RoomId) : Finset Nat :=
  (Finset.range c.callers.length).filter fun i => c.races r i

/-- What became of the last join of a caller that has nothing left to do. -/
def outcome? (c : Crowd) (i : Nat) : Option JoinOutcome :=
  match c.callers[i]? with
  | some ⟨[], _, answers⟩ =>
    match answers.getLast? with
    | some (.join outcome) => some outcome
    | _ => none
  | _ => none

/-- A caller has got into the room. -/
def won (c : Crowd) (i : Nat) : Bool :=
  match c.outcome? i with
  | some (.joined _ _) => true
  | _ => false

/-- The peers that race are different and no members yet, and nobody else joins or leaves. -/
structure Race (c : Crowd) (r : RoomId) : Prop where
  fresh : ∀ {i : Nat} {x : Caller} {p : PeerId}, c.callers[i]? = some x → x.calls = [.join r p] →
    p ∉ c.registry.view.members r
  distinct : ∀ {i j : Nat} {x y : Caller} {p : PeerId}, c.callers[i]? = some x →
    x.calls = [.join r p] → c.callers[j]? = some y → y.calls = [.join r p] → i = j
  others : ∀ {i : Nat} {x : Caller}, c.callers[i]? = some x → c.races r i = false →
    ∀ call ∈ x.calls, call.Spares r

/-- The places that are left in a room. -/
def places (c : Crowd) (r : RoomId) : Nat :=
  c.registry.capacity - (c.registry.view.members r).length

variable {c c' : Crowd} {r : RoomId} {i k : Nat}

theorem races_iff {x : Caller} (caller : c.callers[i]? = some x) :
    c.races r i = true ↔ ∃ p, x.calls = [.join r p] := by
  obtain ⟨calls, phase, answers⟩ := x
  simp only [races, caller]
  constructor
  · intro h
    split at h
    case h_1 r' p _ _ same =>
      obtain ⟨rfl, -, -⟩ : calls = [.join r' p] ∧ _ := by simpa using same
      exact ⟨p, by rw [of_decide_eq_true h]⟩
    case h_2 => cases h
  · rintro ⟨p, rfl⟩
    simp

theorem mem_racers : i ∈ c.racers r ↔ ∃ x p, c.callers[i]? = some x ∧ x.calls = [.join r p] := by
  simp only [racers, Finset.mem_filter, Finset.mem_range]
  constructor
  · rintro ⟨lt, races⟩
    obtain ⟨p, calls⟩ := (races_iff (List.getElem?_eq_getElem lt)).mp races
    exact ⟨_, p, List.getElem?_eq_getElem lt, calls⟩
  · rintro ⟨x, p, caller, calls⟩
    exact ⟨(List.getElem?_eq_some_iff.mp caller).1, (races_iff caller).mpr ⟨p, calls⟩⟩

/-- What a turn does to a race: nothing, or somebody gets one of the places, or finds none. -/
inductive Raced (c : Crowd) (r : RoomId) (k : Nat) (c' : Crowd) : Prop
  | going (racers : c'.racers r = c.racers r) (places : c'.places r = c.places r)
  | joined (n : Nat) (e : List PeerId) (racer : k ∈ c.racers r)
      (racers : c'.racers r = (c.racers r).erase k) (places : c.places r = c'.places r + 1)
      (outcome : c'.outcome? k = some (.joined n e))
  | full (racer : k ∈ c.racers r) (racers : c'.racers r = (c.racers r).erase k)
      (places : c.places r = 0) (still : c'.places r = 0) (outcome : c'.outcome? k = some .full)

section Set

variable {x y : Caller} {g : SharedRegistry}

theorem getElem?_set_caller (caller : c.callers[k]? = some x) (i : Nat) :
    (c.callers.set k y)[i]? = if i = k then some y else c.callers[i]? := by
  have lt := (List.getElem?_eq_some_iff.mp caller).1
  by_cases same : i = k
  · subst same
    simp [lt]
  · rw [List.getElem?_set_ne (Ne.symm same), if_neg same]

/-- A race goes on when a caller has had its turn, if nobody came in but a racer that is through. -/
theorem Race.set (race : c.Race r) (caller : c.callers[k]? = some x)
    (next : y.calls = x.calls ∨ ∀ call ∈ y.calls, call.Spares r)
    (members : ∀ p ∈ g.view.members r, p ∈ c.registry.view.members r ∨
      (x.calls = [.join r p] ∧ y.calls = [])) :
    (⟨g, c.callers.set k y⟩ : Crowd).Race r := by
  -- Who races now raced before with the same call.
  have before {i : Nat} {z : Caller} {p : PeerId} (there : (c.callers.set k y)[i]? = some z)
      (calls : z.calls = [.join r p]) :
      ∃ z', c.callers[i]? = some z' ∧ z'.calls = [.join r p] ∧ (i = k → y.calls ≠ []) := by
    rw [getElem?_set_caller caller] at there
    split at there
    case isTrue same =>
      cases there
      subst same
      rcases next with same | spares
      · exact ⟨x, caller, same ▸ calls, fun _ empty => by rw [empty] at calls; cases calls⟩
      · exact absurd rfl (spares (.join r p) (by simp [calls]) p).1
    case isFalse other => exact ⟨z, there, calls, fun same => absurd same other⟩
  constructor
  · intro i z p there calls mem
    obtain ⟨z', there', calls', waiting⟩ := before there calls
    rcases members p mem with old | ⟨mine, through⟩
    · exact race.fresh there' calls' old
    · exact waiting (race.distinct there' calls' caller mine) through
  · intro i j z w p there calls there' calls'
    obtain ⟨_, there, calls, -⟩ := before there calls
    obtain ⟨_, there', calls', -⟩ := before there' calls'
    exact race.distinct there calls there' calls'
  · intro i z there idle call mem
    have notRacing : ¬ ∃ p, z.calls = [.join r p] := by
      rw [← races_iff (c := ⟨g, c.callers.set k y⟩) there, idle]
      nofun
    change (c.callers.set k y)[i]? = some z at there
    rw [getElem?_set_caller caller] at there
    have old {z' : Caller} (there' : c.callers[i]? = some z') (same : z.calls = z'.calls) :
        call.Spares r := by
      have idle' : c.races r i = false := by
        rw [← Bool.not_eq_true, races_iff there', ← same]
        exact notRacing
      exact race.others there' idle' call (same ▸ mem)
    split at there
    case isTrue same =>
      cases there
      subst same
      rcases next with same | spares
      · exact old caller same
      · exact spares call mem
    case isFalse => exact old there rfl

theorem racers_set (caller : c.callers[k]? = some x)
    (same : (∃ p, y.calls = [.join r p]) ↔ ∃ p, x.calls = [.join r p]) :
    (⟨g, c.callers.set k y⟩ : Crowd).racers r = c.racers r := by
  ext i
  rw [mem_racers, mem_racers]
  by_cases own : i = k
  · subst own
    simpa [getElem?_set_caller caller, caller] using same
  · simp [getElem?_set_caller caller, own]

theorem racers_set_of_through (caller : c.callers[k]? = some x) (through : y.calls = []) :
    (⟨g, c.callers.set k y⟩ : Crowd).racers r = (c.racers r).erase k := by
  ext i
  rw [Finset.mem_erase, mem_racers, mem_racers]
  by_cases own : i = k
  · subst own
    simp [getElem?_set_caller caller, through]
  · simp [getElem?_set_caller caller, own]

end Set

/-- A turn of a call that spares a room leaves its members and places as they are. -/
theorem effect_spared {g g' : SharedRegistry} {call : RoomCall}
    {phase : Phase} {progress : Progress} (effect : Effect g g' call phase progress)
    (spares : call.Spares r) :
    g'.view.members r = g.view.members r ∧ g'.capacity = g.capacity := by
  have unchanged (same : g'.view.Same g.view) :
      g'.view.members r = g.view.members r ∧ g'.capacity = g.capacity :=
    ⟨same.members r, same.capacity⟩
  have called (after : g'.view.Same (g.view.call call).2) :
      g'.view.members r = g.view.members r ∧ g'.capacity = g.capacity :=
    ⟨(after.members r).trans (Registry.members_call_of_spares spares),
      after.capacity.trans (Registry.call_capacity _ _)⟩
  cases effect with
  | looked same => exact unchanged same
  | retired _ _ _ after => exact called after
  | worked _ _ _ after => exact called after
  | absent same => exact unchanged same
  | late same => exact unchanged same
  | cleared same => exact unchanged same

/-- Who does not race may have a turn and changes nothing about the race. -/
theorem Race.turn_other {x : Caller} {g : SharedRegistry} {call : RoomCall} {rest : List RoomCall}
    {progress : Progress} (race : c.Race r) (caller : c.callers[k]? = some x)
    (calls : x.calls = call :: rest) (idle : c.races r k = false)
    (effect : Effect c.registry g call x.phase progress) :
    (⟨g, c.callers.set k (x.next progress)⟩ : Crowd).Race r ∧
      Raced c r k ⟨g, c.callers.set k (x.next progress)⟩ := by
  have spares := race.others caller idle
  obtain ⟨members, capacity⟩ := effect_spared effect (spares call (by simp [calls]))
  have next : ∀ call ∈ (x.next progress).calls, call.Spares r := by
    intro call' mem
    apply spares call'
    cases progress with
    | going => exact mem
    | returned => exact List.mem_of_mem_tail mem
  refine ⟨race.set caller (.inr next) fun p mem => .inl (members ▸ mem), .going ?_ ?_⟩
  · refine racers_set caller ⟨?_, ?_⟩
    · rintro ⟨p, join⟩
      exact absurd rfl (next (.join r p) (by simp [join]) p).1
    · rintro ⟨p, join⟩
      exact absurd rfl (spares (.join r p) (by simp [join]) p).1
  · simp only [Crowd.places, members, capacity]

/-- Who races has a turn: it goes on, or it gets a place, or it finds none. -/
theorem Race.turn_racer {x : Caller} {g : SharedRegistry} {p : PeerId} {progress : Progress}
    (sound : c.Sound) (race : c.Race r) (caller : c.callers[k]? = some x)
    (calls : x.calls = [.join r p]) (effect : Effect c.registry g (.join r p) x.phase progress) :
    (⟨g, c.callers.set k (x.next progress)⟩ : Crowd).Race r ∧
      Raced c r k ⟨g, c.callers.set k (x.next progress)⟩ := by
  have racer : k ∈ c.racers r := mem_racers.mpr ⟨x, p, caller, calls⟩
  have fits := sound.fits caller calls
  have fresh := race.fresh caller calls
  generalize phase : x.phase = ph at effect fits
  cases effect with
  | looked same =>
    refine ⟨race.set caller (.inl rfl) fun q mem => .inl (same.members r ▸ mem), .going ?_ ?_⟩
    · exact racers_set caller Iff.rfl
    · simp only [Crowd.places, same.members, show g.capacity = c.registry.capacity from same.capacity]
  -- These are turns of other calls.
  | retired _ _ reply => cases reply
  | absent _ _ nobody => cases nobody
  | late _ _ _ nobody => cases nobody
  | cleared =>
    obtain ⟨⟨_, _, leave⟩, -⟩ := fits
    cases leave
  | @worked o answer room object live reply after =>
    change c.registry.Object o r room at object
    have seen := sound.registry.roomOrNew_view object live
    have inside := sound.registry.members_view object live
    have bounded := sound.registry.bounded object
    have through : (x.next (.returned answer)).calls = [] := by simp [Caller.next, calls]
    have racers := racers_set_of_through (r := r) (g := g) caller through
    have new : (c.registry.view.roomOrNew r).contains p = false := by
      have outside : p ∉ room.members := inside ▸ fresh
      rw [seen]
      simpa [Room.contains] using outside
    cases full : (c.registry.view.roomOrNew r).isFull with
    | true =>
      simp only [Registry.call, Registry.join_of_isFull new full] at reply after
      have members := after.members r
      have none : c.places r = 0 := by
        rw [seen] at full
        have le : room.capacity ≤ room.members.length := of_decide_eq_true full
        simp only [Crowd.places, inside]
        omega
      have still : (⟨g, c.callers.set k (x.next (.returned answer))⟩ : Crowd).places r = 0 := by
        rw [← none]
        simp only [Crowd.places, members, show g.capacity = c.registry.capacity from after.capacity]
      refine ⟨race.set caller (.inr ?_) fun q mem => .inl (members ▸ mem),
        .full racer racers none still ?_⟩
      · simp [through]
      · rw [← reply]
        simp [outcome?, getElem?_set_caller caller, Caller.next, calls]
    | false =>
      simp only [Registry.call, Registry.join_of_space new full, seen] at reply after
      have members : g.view.members r = room.members ++ [p] := by
        rw [after.members, Registry.members_set, if_pos rfl]
        rfl
      have places : c.places r =
          (⟨g, c.callers.set k (x.next (.returned answer))⟩ : Crowd).places r + 1 := by
        rw [seen] at full
        have lt : room.members.length < room.capacity := Nat.lt_of_not_le (of_decide_eq_false full)
        simp only [Crowd.places, members, show g.capacity = c.registry.capacity from after.capacity,
          inside, List.length_append, List.length_singleton]
        omega
      refine ⟨race.set caller (.inr ?_) fun q mem => ?_,
        .joined (room.insert p).size room.members racer racers places ?_⟩
      · simp [through]
      · rw [members, List.mem_append, List.mem_singleton] at mem
        rcases mem with old | rfl
        · exact .inl (inside ▸ old)
        · exact .inr ⟨calls, through⟩
      · rw [← reply]
        simp [outcome?, getElem?_set_caller caller, Caller.next, calls]

theorem Stepped.raced (sound : c.Sound) (race : c.Race r) (step : Stepped c k c') :
    c'.Race r ∧ Raced c r k c' := by
  cases step with
  | idle => exact ⟨race, .going rfl rfl⟩
  | @turned x call rest progress g caller calls turn =>
    have fits := sound.fits caller calls
    have turned := turned_of_turn sound.registry fits turn
    have effect := turned.effect sound.registry fits
    cases racer : c.races r k with
    | false => exact race.turn_other caller calls racer effect
    | true =>
      obtain ⟨p, join⟩ := (races_iff caller).mp racer
      rw [calls] at join
      obtain ⟨rfl, rfl⟩ : call = .join r p ∧ rest = [] := by simpa using join
      exact race.turn_racer sound caller calls effect

/-- Who is through stays through. -/
theorem Stepped.outcome?_eq (step : Stepped c k c') {o : JoinOutcome}
    (through : c.outcome? i = some o) : c'.outcome? i = some o := by
  cases step with
  | idle => exact through
  | @turned x call rest progress g caller calls turn =>
    have other : i ≠ k := by
      rintro rfl
      obtain ⟨cs, ph, answers⟩ := x
      cases calls
      simp [outcome?, caller] at through
    simpa [outcome?, getElem?_set_caller caller, other] using through

theorem outcome?_run {o : JoinOutcome} (through : c.outcome? i = some o) (s : List Nat) :
    (c.run s).outcome? i = some o := by
  induction s generalizing c with
  | nil => exact through
  | cons k rest ih => exact ih ((turn_stepped c k).outcome?_eq through)

/-- When all are through, as many of those who raced have got into the room as there were places, or
all of them, and the others have found it full. -/
theorem Race.outcome (sound : c.Sound) (race : c.Race r) {s : List Nat}
    (done : (c.run s).isDone = true) :
    (∀ i ∈ c.racers r, (c.run s).won i = true ∨ (c.run s).outcome? i = some .full) ∧
      ((c.racers r).filter fun i => (c.run s).won i).card = min (c.racers r).card (c.places r) := by
  -- On the turns that are left: each racer takes a place when it is through, or there is none.
  induction s generalizing c with
  | nil =>
    have none : c.racers r = ∅ := by
      ext i
      rw [mem_racers]
      simp only [Finset.notMem_empty, iff_false]
      rintro ⟨x, p, caller, calls⟩
      have returned := List.all_eq_true.mp done x (List.mem_of_getElem? caller)
      rw [calls] at returned
      cases returned
    simp [none]
  | cons k rest ih =>
    have step := turn_stepped c k
    obtain ⟨race', raced⟩ := step.raced sound race
    obtain ⟨through, count⟩ := ih (step.sound sound) race' done
    change ∀ i ∈ (c.turn k).racers r, (c.run (k :: rest)).won i = true ∨
      (c.run (k :: rest)).outcome? i = some .full at through
    change (((c.turn k).racers r).filter fun i => (c.run (k :: rest)).won i).card = _ at count
    cases raced with
    | going racers places =>
      rw [racers] at through count
      rw [places] at count
      exact ⟨through, count⟩
    | joined n e racer racers places outcome =>
      have won : (c.run (k :: rest)).won k = true := by
        have final : (c.run (k :: rest)).outcome? k = some (.joined n e) :=
          outcome?_run outcome rest
        simp [Crowd.won, final]
      rw [racers] at through count
      constructor
      · intro i mem
        by_cases own : i = k
        · subst own
          exact .inl won
        · exact through i (Finset.mem_erase.mpr ⟨own, mem⟩)
      · have size := Finset.card_erase_add_one racer
        rw [← Finset.insert_erase racer, Finset.filter_insert, if_pos won,
          Finset.card_insert_of_notMem (by simp), count, Finset.insert_erase racer]
        omega
    | full racer racers places still outcome =>
      have final : (c.run (k :: rest)).outcome? k = some .full := outcome?_run outcome rest
      have lost : ¬ (c.run (k :: rest)).won k = true := by simp [Crowd.won, final]
      rw [racers] at through count
      constructor
      · intro i mem
        by_cases own : i = k
        · subst own
          exact .inr final
        · exact through i (Finset.mem_erase.mpr ⟨own, mem⟩)
      · rw [← Finset.insert_erase racer, Finset.filter_insert, if_neg lost, count, still, places]
        simp

/-! ## Any run -/

/-- What a run of a crowd does. -/
structure Correct (capacity : Nat) (calls : List (List RoomCall)) (schedule : List Nat) (c : Crowd) :
    Prop where
  /-- No object has more members than the capacity, and one that has members is not retired and is
  the one on the table. -/
  objects : ∀ o r room, c.registry.Object o r room →
    room.members.Nodup ∧ room.members.length ≤ max capacity 1 ∧
      (room.members ≠ [] → room.retired = false ∧ c.registry.rooms.get? r = some o)
  /-- The calls whose work is done come one after another. -/
  view : ((Registry.empty capacity).after ((new capacity calls).worked schedule)).Same
    c.registry.view
  /-- Every call that has returned took effect at an instant within it. -/
  answers : ∀ i x j answer, c.callers[i]? = some x → x.answers[j]? = some answer →
    ∃ cs call instant, calls[i]? = some cs ∧ cs[j]? = some call ∧
      TakesEffect (new capacity calls) schedule i j call answer instant
  /-- Who races for a room from here on gets in as long as there are places. -/
  races : ∀ r s, c.Race r → (c.run s).isDone = true →
    (∀ i ∈ c.racers r, (c.run s).won i = true ∨ (c.run s).outcome? i = some .full) ∧
      ((c.racers r).filter fun i => (c.run s).won i).card = min (c.racers r).card (c.places r)
  /-- When all calls have returned, the rooms on the table are those that have members. -/
  mapped : c.isDone = true → ∀ r o, c.registry.rooms.get? r = some o ↔
    ∃ room, c.registry.Object o r room ∧ room.members ≠ []

theorem correct_run (capacity : Nat) (calls : List (List RoomCall)) (schedule : List Nat) :
    Correct capacity calls schedule ((new capacity calls).run schedule) := by
  have sound := (Sound.new capacity calls).run schedule
  have linear := linear capacity calls schedule
  have space : ((new capacity calls).run schedule).registry.capacity = max capacity 1 :=
    linear.view.capacity.symm.trans (Registry.after_capacity _ _)
  constructor
  · intro o r room object
    refine ⟨sound.registry.distinct object, space ▸ (sound.registry.bounded object).2, ?_⟩
    intro members
    cases gone : room.retired with
    | true => exact absurd (sound.registry.retired object gone) members
    | false => exact ⟨rfl, sound.registry.current object gone⟩
  · exact linear.view
  · intro i x j answer caller there
    obtain ⟨y, call, t, asker, asked, effect⟩ := (linear.callers caller).returned there
    obtain ⟨cs, given, rfl⟩ : ∃ cs, calls[i]? = some cs ∧ Caller.new cs = y := by
      simpa [Crowd.new] using asker
    exact ⟨cs, call, t, given, asked, effect⟩
  · exact fun r s race done => race.outcome sound done
  · intro done r o
    constructor
    · intro table
      obtain ⟨room, object⟩ := sound.registry.mapped table
      exact ⟨room, object, (sound.mapped_iff done object).mp table⟩
    · rintro ⟨room, object, members⟩
      exact (sound.mapped_iff done object).mpr members

/-- Two peers race for the only place of a room, and one of them gets it. -/
theorem race_for_one_place :
    let c := new 1 [[.join ⟨"r"⟩ ⟨"a"⟩], [.join ⟨"r"⟩ ⟨"b"⟩]]
    ((c.racers ⟨"r"⟩).filter fun i => (c.run [0, 1, 1, 0]).won i).card = 1 := by
  intro c
  have callers {i : Nat} {x : Caller} (there : c.callers[i]? = some x) :
      (i = 0 ∧ x.calls = [.join ⟨"r"⟩ ⟨"a"⟩]) ∨ (i = 1 ∧ x.calls = [.join ⟨"r"⟩ ⟨"b"⟩]) := by
    match i, there with
    | 0, there =>
      cases there
      exact .inl ⟨rfl, rfl⟩
    | 1, there =>
      cases there
      exact .inr ⟨rfl, rfl⟩
  have race : c.Race ⟨"r"⟩ := by
    constructor
    · intro i x p _ _ mem
      cases mem
    · intro i j x y p there calls there' calls'
      have apart : (⟨"a"⟩ : PeerId) ≠ ⟨"b"⟩ := by decide
      rcases callers there with ⟨rfl, h⟩ | ⟨rfl, h⟩ <;>
        rcases callers there' with ⟨rfl, h'⟩ | ⟨rfl, h'⟩
      · rfl
      · have ha : (⟨"a"⟩ : PeerId) = p := by simpa [h] using calls
        have hb : (⟨"b"⟩ : PeerId) = p := by simpa [h'] using calls'
        exact absurd (ha.trans hb.symm) apart
      · have hb : (⟨"b"⟩ : PeerId) = p := by simpa [h] using calls
        have ha : (⟨"a"⟩ : PeerId) = p := by simpa [h'] using calls'
        exact absurd (ha.trans hb.symm) apart
      · rfl
    · intro i x there idle
      have racing : c.races ⟨"r"⟩ i = true := by
        rcases callers there with ⟨-, h⟩ | ⟨-, h⟩ <;> exact (races_iff there).mpr ⟨_, h⟩
      rw [racing] at idle
      cases idle
  exact ((correct_run 1 _ []).races ⟨"r"⟩ [0, 1, 1, 0] race rfl).2

end Crowd

end Parley
