import Parley.Proofs.History
import Parley.Proofs.Room.Callers

/-!
# Concurrent calls in sequence

Every call of a crowd takes effect at one instant between its start and its end, as if it were made
there while nobody else was about.

An instant of a run is the part of the schedule that has passed. The work of a call is done in the
turn in which it holds an object that is not retired (`works?`), and `sequential` is the registry to
which these calls come one after another. It is what the view shows (`Linear.view`), and what the
calls return is what it returns. Some calls never get to work: they find no object, or one that was
retired since they looked it up. At some instant within such a call there was nobody in the room
(`Linear.vacated`), and that is what it reports.
-/

namespace Parley

/-- The registry after calls one after another. -/
def Registry.after (g : Registry) (calls : List RoomCall) : Registry :=
  calls.foldl (fun g c => (g.call c).2) g

theorem Registry.after_capacity (g : Registry) (calls : List RoomCall) :
    (g.after calls).capacity = g.capacity := by
  induction calls generalizing g with
  | nil => rfl
  | cons c rest ih => exact (ih (g.call c).2).trans (g.call_capacity c)

namespace Crowd

open SharedRegistry

/-- The call whose work the next turn of a caller does: its object is not retired. -/
def works? (c : Crowd) (i : Nat) : Option RoomCall :=
  match c.callers[i]? with
  | some ⟨call :: _, .holding o, _⟩ =>
    if (c.registry.room? o).any (!·.retired) then some call else none
  | _ => none

/-- The calls in the order in which the turns of a schedule do their work. -/
def worked (c : Crowd) : List Nat → List RoomCall
  | [] => []
  | i :: rest => (c.works? i).toList ++ (c.turn i).worked rest

/-- The registry to which the calls come one after another. -/
def sequential (c : Crowd) (schedule : List Nat) : Registry :=
  c.registry.view.after (c.worked schedule)

/-- How many calls of a caller have returned. -/
def answered (c : Crowd) (i : Nat) : Option Nat := c.callers[i]?.map (·.answers.length)

/-- An instant lies within a call: the call had a turn by then or has one now, and has not
returned. -/
structure During (c : Crowd) (schedule : List Nat) (i j : Nat) (instant : List Nat) : Prop where
  passed : instant <+: schedule
  going : (c.run instant).answered i = some j
  begun : ∃ first, first <+: instant ∧ first ++ [i] <+: schedule ∧ (c.run first).answered i = some j

/-- The work of a call is done in the turn after an instant. -/
structure Working (c : Crowd) (schedule : List Nat) (i j : Nat) (instant : List Nat) : Prop where
  turn : instant ++ [i] <+: schedule
  going : (c.run instant).answered i = some j
  works : (c.run instant).works? i ≠ none

/-- A call takes effect at an instant: it says what the sequential registry says there, and its work
is done there if it is done at all. A call without work would not have changed anything. -/
structure TakesEffect (c : Crowd) (schedule : List Nat) (i j : Nat) (call : RoomCall)
    (answer : RoomAnswer) (instant : List Nat) : Prop where
  during : During c schedule i j instant
  reply : ((c.sequential instant).call call).1 = answer
  once : ∀ t, Working c schedule i j t → t = instant
  work : (Working c schedule i j instant ∧ (c.run instant).works? i = some call) ∨
    ((c.sequential instant).call call).2.Same (c.sequential instant)

variable {c : Crowd} {s t : List Nat} {i j k : Nat}

/-! ## Runs -/

theorem run_snoc (c : Crowd) (s : List Nat) (k : Nat) : c.run (s ++ [k]) = (c.run s).turn k := by
  simp [run]

theorem worked_snoc (c : Crowd) (s : List Nat) (k : Nat) :
    c.worked (s ++ [k]) = c.worked s ++ ((c.run s).works? k).toList := by
  induction s generalizing c with
  | nil => simp [worked, run]
  | cons i rest ih =>
    simp only [List.cons_append, worked, ih, List.append_assoc]
    rfl

theorem sequential_snoc_of_works {call : RoomCall} (works : (c.run s).works? k = some call) :
    c.sequential (s ++ [k]) = ((c.sequential s).call call).2 := by
  simp [sequential, Registry.after, worked_snoc, works]

theorem sequential_snoc_of_idle (idle : (c.run s).works? k = none) :
    c.sequential (s ++ [k]) = c.sequential s := by
  simp [sequential, worked_snoc, idle]

theorem works?_of_holding {x : Caller} {call : RoomCall} {rest : List RoomCall} {o : RoomNumber}
    {room : Room} (caller : c.callers[i]? = some x) (calls : x.calls = call :: rest)
    (phase : x.phase = .holding o) (object : c.registry.Object o call.room room) :
    c.works? i = if room.retired then none else some call := by
  obtain ⟨cs, ph, answers⟩ := x
  cases calls
  cases phase
  simp only [works?, caller, object.room?]
  cases gone : room.retired <;> simp [gone]

theorem works?_of_live {x : Caller} {call : RoomCall} {rest : List RoomCall} {o : RoomNumber}
    {room : Room} (caller : c.callers[i]? = some x) (calls : x.calls = call :: rest)
    (phase : x.phase = .holding o) (object : c.registry.Object o call.room room)
    (live : room.retired = false) : c.works? i = some call := by
  rw [works?_of_holding caller calls phase object, live]
  rfl

theorem works?_of_retired {x : Caller} {call : RoomCall} {rest : List RoomCall} {o : RoomNumber}
    {room : Room} (caller : c.callers[i]? = some x) (calls : x.calls = call :: rest)
    (phase : x.phase = .holding o) (object : c.registry.Object o call.room room)
    (gone : room.retired = true) : c.works? i = none := by
  rw [works?_of_holding caller calls phase object, if_pos gone]

theorem works?_of_not_holding {x : Caller} (caller : c.callers[i]? = some x)
    (phase : ∀ o, x.phase ≠ .holding o) : c.works? i = none := by
  obtain ⟨cs, ph, answers⟩ := x
  cases cs with
  | nil => simp [works?, caller]
  | cons call rest =>
    cases ph with
    | holding o => exact absurd rfl (phase o)
    | _ => simp [works?, caller]

theorem works?_of_idle (nothing : ∀ x, c.callers[i]? = some x → x.calls = []) :
    c.works? i = none := by
  cases caller : c.callers[i]? with
  | none => simp [works?, caller]
  | some x =>
    obtain ⟨cs, ph, answers⟩ := x
    cases nothing _ caller
    simp [works?, caller]

theorem works?_of_looking {x : Caller} {call : RoomCall} {rest : List RoomCall}
    (caller : c.callers[i]? = some x) (calls : x.calls = call :: rest)
    (looking : c.registry.Looking call x.phase) : c.works? i = none := by
  cases phase : x.phase with
  | holding o =>
    rw [phase] at looking
    obtain ⟨room, object, gone⟩ := looking
    exact works?_of_retired caller calls phase object gone
  | _ => exact works?_of_not_holding caller (by simp [phase])

/-! ## Instants -/

theorem During.snoc (during : During c s i j t) (k : Nat) : During c (s ++ [k]) i j t where
  passed := during.passed.trans (List.prefix_append _ _)
  going := during.going
  begun := by
    obtain ⟨first, before, turn, open_⟩ := during.begun
    exact ⟨first, before, turn.trans (List.prefix_append _ _), open_⟩

theorem working_snoc : Working c (s ++ [k]) i j t ↔
    Working c s i j t ∨
      (t = s ∧ i = k ∧ (c.run s).answered i = some j ∧ (c.run s).works? i ≠ none) := by
  constructor
  · intro working
    rcases prefix_snoc.mp working.turn with earlier | ⟨rfl, rfl⟩
    · exact .inl ⟨earlier, working.going, working.works⟩
    · exact .inr ⟨rfl, rfl, working.going, working.works⟩
  · rintro (working | ⟨rfl, rfl, going, works⟩)
    · exact ⟨working.turn.trans (List.prefix_append _ _), working.going, working.works⟩
    · exact ⟨List.prefix_rfl, going, works⟩

/-- What has taken effect keeps it, unless the call itself has a turn and does work in it. -/
theorem TakesEffect.snoc {call : RoomCall} {answer : RoomAnswer}
    (effect : TakesEffect c s i j call answer t)
    (quiet : i = k → (c.run s).answered i = some j → (c.run s).works? i = none) :
    TakesEffect c (s ++ [k]) i j call answer t where
  during := effect.during.snoc k
  reply := effect.reply
  once := by
    intro u working
    rcases working_snoc.mp working with working | ⟨-, same, going, works⟩
    · exact effect.once u working
    · exact absurd (quiet same going) works
  work := effect.work.imp (fun h => ⟨working_snoc.mpr (.inl h.1), h.2⟩) id

theorem answered_of_caller {x : Caller} (caller : c.callers[i]? = some x) :
    c.answered i = some x.answers.length := by
  simp [answered, caller]

theorem Stepped.answered_le {c' : Crowd} (step : Stepped c k c') {n : Nat}
    (before : c.answered i = some n) : ∃ m, c'.answered i = some m ∧ n ≤ m := by
  cases step with
  | idle => exact ⟨n, before, Nat.le_refl n⟩
  | @turned x call rest progress g caller calls turn =>
    by_cases same : k = i
    · subst same
      have lt := (List.getElem?_eq_some_iff.mp caller).1
      rw [answered_of_caller caller] at before
      cases before
      refine ⟨(x.next progress).answers.length, by simp [answered, lt], ?_⟩
      cases progress <;> simp [Caller.next]
    · exact ⟨n, by simpa [answered, List.getElem?_set_ne same] using before, Nat.le_refl n⟩

/-- Answers are not taken back. -/
theorem answered_le {n : Nat} (earlier : t <+: s) (before : (c.run t).answered i = some n) :
    ∃ m, (c.run s).answered i = some m ∧ n ≤ m := by
  obtain ⟨u, rfl⟩ := earlier
  induction u using List.reverseRecOn with
  | nil => exact ⟨n, by rwa [List.append_nil], Nat.le_refl n⟩
  | append_singleton u k ih =>
    obtain ⟨l, between, le⟩ := ih
    obtain ⟨m, now, le'⟩ := (turn_stepped (c.run (t ++ u)) k).answered_le between
    exact ⟨m, by rwa [← List.append_assoc, run_snoc], Nat.le_trans le le'⟩

/-! ## The invariant -/

/-- How the calls of one caller take effect. -/
structure Traced (c : Crowd) (s : List Nat) (i : Nat) (x : Caller) : Prop where
  asked : ∃ y, c.callers[i]? = some y ∧ y.calls.drop x.answers.length = x.calls
  begun : x.phase ≠ .seeking →
    ∃ t, t ++ [i] <+: s ∧ (c.run t).answered i = some x.answers.length
  returned : ∀ {j answer}, x.answers[j]? = some answer →
    ∃ y call t, c.callers[i]? = some y ∧ y.calls[j]? = some call ∧
      TakesEffect c s i j call answer t
  clearing : ∀ {call rest o outcome}, x.calls = call :: rest → x.phase = .clearing o outcome →
    ∃ t, TakesEffect c s i x.answers.length call (.leave outcome) t
  fresh : (∀ o outcome, x.phase ≠ .clearing o outcome) → ∀ t, ¬ Working c s i x.answers.length t
  vacated : ∀ {call rest o room}, x.calls = call :: rest → x.phase = .holding o →
    (c.run s).registry.Object o call.room room → room.retired = true →
    ∃ t, During c s i x.answers.length t ∧ (c.sequential t).rooms.get? call.room = none

/-- How the calls of a run come one after another. -/
structure Linear (c : Crowd) (s : List Nat) : Prop where
  view : (c.sequential s).Same (c.run s).registry.view
  callers : ∀ {i x}, (c.run s).callers[i]? = some x → Traced c s i x

/-- A caller is left alone by a turn in which it does no work and goes no further. An object that it
holds may be retired in that turn; then there is nobody in the room right after it. -/
theorem Traced.snoc {x : Caller} (h : Traced c s i x) (now : (c.run (s ++ [k])).callers[i]? = some x)
    (quiet : i = k → (c.run s).works? k = none)
    (holding : ∀ {call rest o room}, x.calls = call :: rest → x.phase = .holding o →
      (c.run (s ++ [k])).registry.Object o call.room room → room.retired = true →
      (∃ before, (c.run s).registry.Object o call.room before ∧ before.retired = true) ∨
        (c.sequential (s ++ [k])).rooms.get? call.room = none) :
    Traced c (s ++ [k]) i x where
  asked := h.asked
  begun := fun busy => by
    obtain ⟨t, turn, going⟩ := h.begun busy
    exact ⟨t, turn.trans (List.prefix_append _ _), going⟩
  returned := fun there => by
    obtain ⟨y, call, t, caller, asked, effect⟩ := h.returned there
    exact ⟨y, call, t, caller, asked, effect.snoc fun same _ => same ▸ quiet same⟩
  clearing := fun calls phase => by
    obtain ⟨t, effect⟩ := h.clearing calls phase
    exact ⟨t, effect.snoc fun same _ => same ▸ quiet same⟩
  fresh := fun free t working => by
    rcases working_snoc.mp working with working | ⟨-, same, -, works⟩
    · exact h.fresh free t working
    · exact works (same ▸ quiet same)
  vacated := fun calls phase object gone => by
    rcases holding calls phase object gone with ⟨before, object, gone⟩ | none
    · obtain ⟨t, during, none⟩ := h.vacated calls phase object gone
      exact ⟨t, during.snoc k, none⟩
    · obtain ⟨t, turn, going⟩ := h.begun (by rw [phase]; nofun)
      refine ⟨s ++ [k], ⟨List.prefix_rfl, answered_of_caller now, t, ?_, ?_, going⟩, none⟩
      · exact ((List.prefix_append t [i]).trans turn).trans (List.prefix_append _ _)
      · exact turn.trans (List.prefix_append _ _)

/-- A call that found nobody at some instant takes effect there. -/
theorem takesEffect_of_vacant {call : RoomCall} {answer : RoomAnswer} {instant : List Nat}
    (during : During c s i j instant) (none : (c.sequential instant).rooms.get? call.room = none)
    (nobody : vacant call = some answer) (fresh : ∀ t, ¬ Working c s i j t) :
    TakesEffect c s i j call answer instant := by
  have call_eq : (c.sequential instant).call call = (answer, c.sequential instant) := by
    cases call with
    | join r p => cases nobody
    | leave r p =>
      cases nobody
      simp only [RoomCall.room] at none
      simp [Registry.call, Registry.leave, none]
    | memberCount r =>
      cases nobody
      simp only [RoomCall.room] at none
      simp [Registry.call, Registry.memberCount, Registry.members, none]
    | members r =>
      cases nobody
      simp only [RoomCall.room] at none
      simp [Registry.call, Registry.members, none]
  exact
    { during
      reply := by rw [call_eq]
      once := fun t working => absurd working (fresh t)
      work := .inr (by rw [call_eq]; exact .refl _) }

section Turn

variable {x : Caller} {call : RoomCall} {rest : List RoomCall} {progress : Progress}
  {g : SharedRegistry}

/-- The instant before its turn lies within the call of a caller. -/
theorem during_turn (caller : (c.run s).callers[k]? = some x) :
    During c (s ++ [k]) k x.answers.length s where
  passed := List.prefix_append _ _
  going := answered_of_caller caller
  begun := ⟨s, List.prefix_rfl, List.prefix_rfl, answered_of_caller caller⟩

theorem Traced.fresh_snoc (h : Traced c s k x) (free : ∀ o outcome, x.phase ≠ .clearing o outcome)
    (quiet : (c.run s).works? k = none) : ∀ t, ¬ Working c (s ++ [k]) k x.answers.length t := by
  intro t working
  rcases working_snoc.mp working with working | ⟨-, -, -, works⟩
  · exact h.fresh free t working
  · exact works quiet

/-- Calls that have returned have nothing to do with the turn. -/
theorem Traced.returned_snoc (h : Traced c s k x) (caller : (c.run s).callers[k]? = some x)
    {answer : RoomAnswer} (there : x.answers[j]? = some answer) :
    ∃ y call t, c.callers[k]? = some y ∧ y.calls[j]? = some call ∧
      TakesEffect c (s ++ [k]) k j call answer t := by
  obtain ⟨y, call, t, asker, asked, effect⟩ := h.returned there
  refine ⟨y, call, t, asker, asked, effect.snoc fun _ going => ?_⟩
  rw [answered_of_caller caller] at going
  cases going
  rw [List.getElem?_eq_none (Nat.le_refl _)] at there
  cases there

/-- A call that does its work takes effect there. -/
theorem Traced.takesEffect (h : Traced c s k x)
    (view : (c.sequential s).Same (c.run s).registry.view)
    (caller : (c.run s).callers[k]? = some x) (calls : x.calls = call :: rest) {o : RoomNumber}
    {room : Room} (phase : x.phase = .holding o)
    (object : (c.run s).registry.Object o call.room room) (live : room.retired = false)
    {answer : RoomAnswer} (reply : ((c.run s).registry.view.call call).1 = answer) :
    TakesEffect c (s ++ [k]) k x.answers.length call answer s := by
  have works := works?_of_live caller calls phase object live
  have free : ∀ o outcome, x.phase ≠ .clearing o outcome := by
    rw [phase]
    nofun
  exact
    { during := during_turn caller
      reply := (view.call call).1.trans reply
      once := fun t working => by
        rcases working_snoc.mp working with working | ⟨now, -⟩
        · exact absurd working (h.fresh free t)
        · exact now
      work := .inl ⟨⟨List.prefix_rfl, answered_of_caller caller, by simp [works]⟩, works⟩ }

/-- A call that takes effect in time can return. -/
theorem Traced.return (h : Traced c s k x) (caller : (c.run s).callers[k]? = some x)
    (calls : x.calls = call :: rest) {answer : RoomAnswer}
    (effect : TakesEffect c (s ++ [k]) k x.answers.length call answer t) :
    Traced c (s ++ [k]) k (x.next (.returned answer)) := by
  obtain ⟨y, asker, left⟩ := h.asked
  rw [calls] at left
  constructor
  · refine ⟨y, asker, ?_⟩
    have next := congrArg (List.drop 1) left
    simpa [Caller.next, calls, List.drop_drop] using next
  · exact fun busy => absurd rfl busy
  · intro j answer' there
    simp only [Caller.next] at there
    by_cases old : j < x.answers.length
    · rw [List.getElem?_append_left old] at there
      exact h.returned_snoc caller there
    · rw [List.getElem?_append_right (Nat.le_of_not_lt old), List.getElem?_singleton] at there
      split at there
      case isTrue last =>
        cases there
        have last : j = x.answers.length := by omega
        subst last
        have asked : y.calls[x.answers.length]? = some call := by
          have := congrArg (·[0]?) left
          simpa using this
        exact ⟨y, call, t, asker, asked, effect⟩
      case isFalse => cases there
  · exact fun _ phase => by cases phase
  · intro _ u working
    have earlier : u <+: s := by
      rcases prefix_snoc.mp working.turn with before | ⟨rfl, -⟩
      · exact (List.prefix_append u [k]).trans before
      · exact List.prefix_rfl
    -- The next call has done no work yet, since a caller does not take answers back.
    obtain ⟨m, now, le⟩ := answered_le earlier working.going
    rw [answered_of_caller caller] at now
    cases now
    simp only [Caller.next, List.length_append, List.length_singleton] at le
    omega
  · exact fun _ phase => by cases phase

/-- The caller that has the turn goes on or returns, and its call takes effect in time. -/
theorem Traced.turned (h : Traced c s k x) (view : (c.sequential s).Same (c.run s).registry.view)
    (caller : (c.run s).callers[k]? = some x) (calls : x.calls = call :: rest)
    (after : c.run (s ++ [k]) = ⟨g, (c.run s).callers.set k (x.next progress)⟩)
    (effect : Effect (c.run s).registry g call x.phase progress) :
    Traced c (s ++ [k]) k (x.next progress) := by
  have lt := (List.getElem?_eq_some_iff.mp caller).1
  have going := answered_of_caller caller
  generalize phase : x.phase = ph at effect
  cases effect with
  | @looked _ phase' same looking next vacated =>
    have quiet : (c.run s).works? k = none := works?_of_looking caller calls (phase ▸ looking)
    have free : ∀ o outcome, x.phase ≠ .clearing o outcome := by
      rintro o outcome clearing
      rw [phase] at clearing
      rw [clearing] at looking
      exact looking
    constructor
    · exact h.asked
    · exact fun _ => ⟨s, List.prefix_rfl, going⟩
    · exact fun there => h.returned_snoc caller there
    · exact fun _ clearing => absurd clearing (next _ _)
    · exact fun _ => h.fresh_snoc free quiet
    · intro call' rest' o room calls' holding object gone
      obtain ⟨rfl, -⟩ : call' = call ∧ rest' = rest := by
        simpa [Caller.next, calls] using calls'.symm
      rw [after] at object
      refine ⟨s ++ [k], ⟨List.prefix_rfl, ?_, s, List.prefix_append _ _, List.prefix_rfl, going⟩, ?_⟩
      · simp [after, answered, lt]
      · rw [sequential_snoc_of_idle quiet, view.rooms, ← same.rooms]
        exact vacated o room holding object gone
  | retired object live reply =>
    have effect := h.takesEffect view caller calls phase object live reply
    constructor
    · exact h.asked
    · exact fun _ => ⟨s, List.prefix_rfl, going⟩
    · exact fun there => h.returned_snoc caller there
    · intro call' rest' o' outcome' calls' clearing
      obtain ⟨rfl, -⟩ : call' = call ∧ rest' = rest := by
        simpa [Caller.next, calls] using calls'.symm
      cases clearing
      exact ⟨s, effect⟩
    · exact fun free => absurd rfl (free _ _)
    · exact fun _ holding => by cases holding
  | worked object live reply =>
    exact h.return caller calls (h.takesEffect view caller calls phase object live reply)
  | absent same none nobody =>
    have quiet : (c.run s).works? k = .none :=
      works?_of_not_holding caller fun _ holding => by cases phase.symm.trans holding
    apply h.return caller calls
    exact takesEffect_of_vacant (during_turn caller) ((view.rooms _).trans none) nobody
      (h.fresh_snoc (fun _ _ clearing => by cases phase.symm.trans clearing) quiet)
  | late same object gone nobody =>
    have quiet := works?_of_retired caller calls phase object gone
    -- The object was retired behind the caller's back, and nobody was in the room then.
    obtain ⟨t, during, none⟩ := h.vacated calls phase object gone
    apply h.return caller calls
    exact takesEffect_of_vacant (during.snoc k) none nobody
      (h.fresh_snoc (fun _ _ clearing => by cases phase.symm.trans clearing) quiet)
  | cleared same =>
    have quiet : (c.run s).works? k = none :=
      works?_of_not_holding caller fun _ holding => by cases phase.symm.trans holding
    obtain ⟨t, effect⟩ := h.clearing calls phase
    exact h.return caller calls (effect.snoc fun _ _ => quiet)

end Turn

/-- The sequential registry keeps up: it is called in the turns in which a call does its work, and
in no other turn does the registry change in anybody's view. -/
theorem sequential_snoc_same {x : Caller} {call : RoomCall} {rest : List RoomCall}
    {progress : Progress} {g : SharedRegistry}
    (view : (c.sequential s).Same (c.run s).registry.view)
    (caller : (c.run s).callers[k]? = some x) (calls : x.calls = call :: rest)
    (effect : Effect (c.run s).registry g call x.phase progress) :
    (c.sequential (s ++ [k])).Same g.view := by
  generalize phase : x.phase = ph at effect
  cases effect with
  | looked same looking =>
    rw [sequential_snoc_of_idle (works?_of_looking caller calls (phase ▸ looking))]
    exact view.trans same.symm
  | retired object live reply done | worked object live reply done =>
    rw [sequential_snoc_of_works (works?_of_live caller calls phase object live)]
    exact (view.call call).2.trans done.symm
  | late same object gone =>
    rw [sequential_snoc_of_idle (works?_of_retired caller calls phase object gone)]
    exact view.trans same.symm
  | absent same | cleared same =>
    have free : ∀ o, x.phase ≠ .holding o := by
      rw [phase]
      nofun
    rw [sequential_snoc_of_idle (works?_of_not_holding caller free)]
    exact view.trans same.symm

/-- A turn of a sound crowd does not take the calls out of their sequence. -/
theorem Linear.snoc (h : Linear c s) (sound : (c.run s).Sound) (k : Nat) :
    Linear c (s ++ [k]) := by
  have step := turn_stepped (c.run s) k
  rw [← run_snoc] at step
  generalize after : c.run (s ++ [k]) = c' at step
  cases step with
  | idle nothing =>
    have quiet : (c.run s).works? k = none := works?_of_idle nothing
    constructor
    · rw [sequential_snoc_of_idle quiet, after]
      exact h.view
    · intro i x now
      rw [after] at now
      refine (h.callers now).snoc (by rw [after]; exact now) (fun _ => quiet) ?_
      intro call rest o room _ _ object gone
      rw [after] at object
      exact .inl ⟨room, object, gone⟩
  | @turned y call rest progress g caller calls turn =>
    have fits := sound.fits caller calls
    have turned := turned_of_turn sound.registry fits turn
    have effect := turned.effect sound.registry fits
    have view : (c.sequential (s ++ [k])).Same g.view :=
      sequential_snoc_same h.view caller calls effect
    constructor
    · rw [after]
      exact view
    · intro i x now
      by_cases own : k = i
      · subst own
        have lt := (List.getElem?_eq_some_iff.mp caller).1
        have same : x = y.next progress := by
          rw [after] at now
          simpa [lt] using now.symm
        subst same
        exact (h.callers caller).turned h.view caller calls after effect
      · have before : (c.run s).callers[i]? = some x := by
          rw [after] at now
          simpa [List.getElem?_set_ne own] using now
        apply (h.callers before).snoc now (fun same => absurd same.symm own)
        -- If the turn retired an object that the caller holds, it has left the room empty.
        intro call' rest' o room calls' phase' object gone
        obtain ⟨room₀, object₀⟩ : (c.run s).registry.Fits call' (.holding o) :=
          phase' ▸ sound.fits before calls'
        rw [after] at object
        obtain ⟨room', object', -, emptied⟩ := turned.kept sound.registry fits object₀
        rw [(object'.unique object).2] at gone
        rcases emptied gone with gone | none
        · exact .inl ⟨room₀, object₀, gone⟩
        · exact .inr ((view.rooms _).trans none)

theorem linear (capacity : Nat) (calls : List (List RoomCall)) (schedule : List Nat) :
    Linear (new capacity calls) schedule := by
  induction schedule using List.reverseRecOn with
  | nil =>
    refine ⟨.refl _, fun {i x} caller => ?_⟩
    obtain ⟨cs, asked, rfl⟩ : ∃ cs, calls[i]? = some cs ∧ .new cs = x := by
      simpa [Crowd.new, run] using caller
    exact
      { asked := ⟨_, caller, rfl⟩
        begun := fun busy => absurd rfl busy
        returned := fun there => by cases there
        clearing := fun _ phase => by cases phase
        fresh := fun _ t working => by
          have := working.turn.length_le
          simp at this
        vacated := fun _ phase => by cases phase }
  | append_singleton s k ih => exact ih.snoc ((Sound.new capacity calls).run s) k

end Crowd

end Parley
