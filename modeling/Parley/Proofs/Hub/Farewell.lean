import Parley.Proofs.Hub.Conduct

/-!
# What a farewell misses

The farewell looks once where the peer is, takes it out of there, and tells those who remain. But the
work on an event that was begun before the connection was gone goes on meanwhile. What it does before
the farewell looks, the farewell finds. A room that it puts the peer into later on is never left again:
once the attendant is gone, its peer is in just those rooms (`Straying`, `gone_rooms`).

The work on a join may also tell others of the peer after the farewell has told them that the peer is
gone. Whoever hears of the peer while it is in the room hears of its leave, unless the peer stays in
there (`Owed`, `gone_byes`).
-/

namespace Parley

theorem Action.joined_of_announces {action : Action} {p q : PeerId} {r : RoomId}
    (h : action.allows ⟨q, .otherJoin r p⟩) :
    ∃ n existing, action = .joined r p (.joined n existing) := by
  cases action with
  | joined r' p' outcome =>
    cases outcome with
    | joined n existing =>
      rcases h with same | ⟨q', -, same⟩ <;> cases same
      exact ⟨n, existing, rfl⟩
    | alreadyMember n | full => cases h
  | left r p outcome => rcases h with same | ⟨q', -, same⟩ <;> cases same
  | listed r peers =>
    obtain ⟨q', -, p, data, same⟩ := h
    cases same
  | looked | asked | emitted => cases h

/-- What a job tells first, it may emit. -/
theorem Job.Sanctioned.tellings {p : PeerId} {joins : Bool} {may : Emission → Prop} {j : Job}
    {e : Emission} (h : j.Sanctioned p joins may) (mem : e ∈ j.tellings) : may e := by
  induction j with
  | emit e' next ih =>
    rcases List.mem_cons.mp mem with rfl | mem
    · exact h.1
    · exact ih h.2 mem
  | _ => cases mem

namespace Staff

variable {s s' : Staff} {entry : Option Entry} {i : Nat} {x y : Attendant}
  {log since entries : List Entry} {p q : PeerId} {r : RoomId} {g : Registry}
  {bound : Option RoomId}

/-- In these actions the attendant puts the peer into the room, while it works on an event. -/
def PutInto (i : Nat) (p : PeerId) (r : RoomId) (entries : List Entry) : Prop :=
  ∃ n existing, ⟨⟨i, false⟩, .joined r p (.joined n existing)⟩ ∈ entries

/-- After the attendant has put the peer into the room, the farewell has taken it out. -/
def TakenOut (i : Nat) (p : PeerId) (r : RoomId) (entries : List Entry) : Prop :=
  ∃ before n existing after outcome,
    entries = before ++ ⟨⟨i, false⟩, .joined r p (.joined n existing)⟩ :: after ∧
      ⟨⟨i, true⟩, .left r p outcome⟩ ∈ after

theorem putInto_snoc {action : Action} :
    PutInto i p r (entries ++ [⟨⟨i, false⟩, action⟩]) ↔
      PutInto i p r entries ∨ ∃ n existing, action = .joined r p (.joined n existing) := by
  simp only [PutInto, List.mem_append, List.mem_singleton, Entry.mk.injEq, true_and, exists_or,
    eq_comm]

theorem putInto_append {more : List Entry} (absent : Absent ⟨i, false⟩ more) :
    PutInto i p r (entries ++ more) ↔ PutInto i p r entries := by
  refine ⟨fun ⟨n, existing, mem⟩ => ⟨n, existing, ?_⟩, fun ⟨n, existing, mem⟩ => ⟨n, existing, ?_⟩⟩
  · rcases List.mem_append.mp mem with mem | mem
    · exact mem
    · exact absurd rfl (absent _ mem)
  · exact List.mem_append_left _ mem

theorem TakenOut.append (h : TakenOut i p r entries) (more : List Entry) :
    TakenOut i p r (entries ++ more) := by
  obtain ⟨before, n, existing, after, outcome, rfl, mem⟩ := h
  exact ⟨before, n, existing, after ++ more, outcome, by simp, List.mem_append_left _ mem⟩

theorem Absent.append {h : Hand} {more : List Entry} (absent : Absent h entries)
    (absent' : Absent h more) : Absent h (entries ++ more) :=
  List.forall_mem_append.mpr ⟨absent, absent'⟩

/-- What others do is done by no hand of the attendant. -/
theorem absent_of_others (others : ∀ e, entry = some e → e.hand.attendant ≠ i) (farewell : Bool) :
    Absent ⟨i, farewell⟩ entry.toList := by
  intro e mem same
  exact others e (by simpa using mem) (by rw [same])

/-- What holds of an attendant that has nothing to do yet, and is kept in every move, holds of it in
every run. -/
theorem attended_induction {P : Registry → List Entry → Attendant → Prop} {capacity : Nat}
    (new : ∀ (g : Registry) (log : List Entry) (x : Attendant),
      (∀ farewell, Absent ⟨i, farewell⟩ log) → x.job = .done → x.farewell = .notYet → P g log x)
    (step : ∀ {s s' : Staff} {log : List Entry} {entry : Option Entry} {x y : Attendant},
      s.Chronicled log → s.Sent log → s.Prudent → s.attendants[i]? = some x →
      s.Sees i x entry s' y → P s.hub.registry log x →
      P s'.hub.registry (log ++ entry.toList) y)
    {moves : List Move} (attends : ((empty capacity).run moves).attendants[i]? = some x) :
    P ((empty capacity).run moves).hub.registry ((empty capacity).chronicle moves) x := by
  induction moves using List.reverseRecOn generalizing x with
  | nil => cases attends
  | append_singleton moves m ih =>
    rw [run_snoc] at attends
    rw [run_snoc, chronicle_snoc]
    have chronicled := chronicled_run capacity moves
    have sent := sent_run capacity moves
    have prudent := prudent_run capacity moves
    have moved := move_moved ((empty capacity).run moves) m
    cases before : ((empty capacity).run moves).attendants[i]? with
    | some x₀ =>
      obtain ⟨y, there, sees⟩ := moved.sees sent prudent before
      cases there.symm.trans attends
      exact step chronicled sent prudent before sees (ih before)
    | none =>
      obtain ⟨nothing, free, stands⟩ := moved.newcomer before attends
      refine new _ _ _ (fun farewell e mem same => ?_) free stands
      rw [nothing, Option.toList_none, List.append_nil] at mem
      obtain ⟨z, attends', -⟩ := chronicled.loyal.own e mem
      rw [same] at attends'
      cases before.symm.trans attends'

/-- What is kept in every move, is kept when a run goes on. -/
theorem onward_induction {P : List Move → List Entry → Registry → Attendant → Prop} {capacity : Nat}
    {first : List Move} (attends : ((empty capacity).run first).attendants[i]? = some x)
    (start : P [] [] ((empty capacity).run first).hub.registry x)
    (step : ∀ {upto : List Move} (m : Move) {log : List Entry} {entry : Option Entry} {s' : Staff}
      {y z : Attendant}, ((empty capacity).run (first ++ upto)).Prudent →
      ((empty capacity).run (first ++ upto)).attendants[i]? = some y →
      ((empty capacity).run (first ++ upto)).Sees i y entry s' z →
      P upto log ((empty capacity).run (first ++ upto)).hub.registry y →
      P (upto ++ [m]) (log ++ entry.toList) s'.hub.registry z)
    (rest : List Move) :
    ∃ y, ((empty capacity).run (first ++ rest)).attendants[i]? = some y ∧
      P rest (((empty capacity).run first).chronicle rest)
        ((empty capacity).run (first ++ rest)).hub.registry y := by
  induction rest using List.reverseRecOn with
  | nil =>
    rw [List.append_nil]
    exact ⟨x, attends, start⟩
  | append_singleton upto m ih =>
    obtain ⟨y, attends', before⟩ := ih
    have sent := sent_run capacity (first ++ upto)
    have prudent := prudent_run capacity (first ++ upto)
    have moved := move_moved ((empty capacity).run (first ++ upto)) m
    obtain ⟨z, attends'', sees⟩ := moved.sees sent prudent attends'
    rw [← List.append_assoc, run_snoc, chronicle_snoc, ← run_append]
    exact ⟨z, attends'', step m prudent attends' sees before⟩

/-! ## After the farewell has looked -/

/-- The farewell has looked where the peer is, these were the actions since then, and it is bound to
take the peer out of a room yet, or of none. In all other rooms the peer is if and only if it was put
there since. -/
structure Straying (i : Nat) (x : Attendant) (g : Registry) (since : List Entry)
    (bound : Option RoomId) : Prop where
  departs : ∃ f, x.farewell = .departing f ∧
    match bound with
    | some c => f = .depart x.peer c false .done
    | none => f.Tells
  rooms : ∀ r, bound ≠ some r → (x.peer ∈ g.members r ↔ PutInto i x.peer r since)
  tells : ∀ r, PutInto i x.peer r since → x.job.Tells
  unvisited : ∀ c, bound = some c →
    ¬ PutInto i x.peer c since ∧ (x.peer ∈ g.members c ∨ x.job.Avoids c)

/-- The work on the event goes on. -/
theorem Straying.work (straying : Straying i x s.hub.registry since bound) (prudent : s.Prudent)
    (attends : s.attendants[i]? = some x) {action : Action} {j' : Job} {g' : Registry}
    (does : x.job.action? s.hub.registry = some action)
    (step : x.job.step? s.hub.registry = some (j', g', action.emission?)) :
    Straying i (x.put j' false) g' (since ++ [⟨⟨i, false⟩, action⟩]) bound := by
  obtain ⟨inside, within, careful⟩ := prudent.works i x attends
  obtain ⟨-, done, -⟩ := careful.step prudent.wf within does step
  refine ⟨straying.departs, fun r other => ?_, fun r put => ?_, fun c binds => ?_⟩
  · show x.peer ∈ _ ↔ PutInto i x.peer r _
    rw [done.mem_iff, putInto_snoc, straying.rooms r other]
    refine or_congr_left (and_iff_left_of_imp fun put outcome left => ?_)
    -- Once it has put the peer into a room, it does nothing but tell things.
    obtain ⟨e, -, said, -⟩ := (straying.tells r put).step does step
    cases left.symm.trans said
  · rcases putInto_snoc.mp put with put | ⟨n, existing, rfl⟩
    · obtain ⟨-, -, -, -, tells⟩ := (straying.tells r put).step does step
      exact tells
    · exact careful.joined does step
  · obtain ⟨never, either⟩ := straying.unvisited c binds
    constructor
    · intro put
      rcases putInto_snoc.mp put with put | ⟨n, existing, rfl⟩
      · exact never put
      · rcases either with mem | avoids
        · exact done.1 mem
        · exact (avoids.step does step).2 _ _ rfl
    · rcases either with mem | avoids
      · by_cases left : ∃ outcome, action = .left c x.peer outcome
        · obtain ⟨outcome, rfl⟩ := left
          exact .inr (careful.left does step).1
        · exact .inl ((done.mem_iff _ c).mpr (.inl ⟨mem, not_exists.mp left⟩))
      · exact .inr (avoids.step does step).1

/-- The farewell goes on. -/
theorem Straying.part (straying : Straying i x s.hub.registry since bound) (prudent : s.Prudent)
    {f f' : Job} {action : Action} {g' : Registry} (departs : x.farewell = .departing f)
    (does : f.action? s.hub.registry = some action)
    (step : f.step? s.hub.registry = some (f', g', action.emission?)) :
    Straying i (x.put f' true) g' (since ++ [⟨⟨i, true⟩, action⟩]) none := by
  have put {r : RoomId} : PutInto i x.peer r (since ++ [⟨⟨i, true⟩, action⟩]) ↔
      PutInto i x.peer r since := putInto_append (by simp [Absent])
  have tells (r : RoomId) (now : PutInto i x.peer r (since ++ [⟨⟨i, true⟩, action⟩])) :
      x.job.Tells := straying.tells r (put.mp now)
  obtain ⟨f₀, departs₀, kind⟩ := straying.departs
  cases departs₀.symm.trans departs
  cases bound with
  | none =>
    obtain ⟨e, rfl, rfl, rfl, tells'⟩ := Job.Tells.step kind does step
    exact ⟨⟨f', rfl, tells'⟩, fun r _ => (straying.rooms r nofun).trans put.symm, tells, nofun⟩
  | some c =>
    subst kind
    have tells' := Job.departed_tells Job.done_tells step
    obtain ⟨-, done, -⟩ := ((Job.Parts.leaving c).careful fun _ => True).step prudent.wf
      (fun _ _ => trivial) does step
    refine ⟨⟨f', rfl, tells'⟩, fun r _ => ?_, tells, nofun⟩
    show x.peer ∈ _ ↔ PutInto i x.peer r _
    cases does
    rw [done.mem_iff, put]
    by_cases here : c = r
    · subst here
      refine ⟨fun either => ?_, fun there => absurd there (straying.unvisited c rfl).1⟩
      exact absurd rfl ((either.resolve_right nofun).2 _)
    · rw [← straying.rooms r fun same => here (Option.some.inj same)]
      refine ⟨fun either => (either.resolve_right nofun).1, fun mem => .inl ⟨mem, ?_⟩⟩
      intro outcome left
      cases left
      exact here rfl

/-- Others do something, which leaves the peer where it is. -/
theorem Straying.apart (straying : Straying i x g since bound) {g' : Registry} {more : List Entry}
    (others : Absent ⟨i, false⟩ more) (rooms : ∀ c, x.peer ∈ g'.members c ↔ x.peer ∈ g.members c) :
    Straying i x g' (since ++ more) bound where
  departs := straying.departs
  rooms r other := by rw [rooms, putInto_append others, straying.rooms r other]
  tells r put := straying.tells r ((putInto_append others).mp put)
  unvisited c binds := by
    rw [rooms, putInto_append others]
    exact straying.unvisited c binds

/-- The farewell has not looked yet where the peer is, or it has, and the rest followed from that. -/
inductive Looking (i : Nat) (g : Registry) (log : List Entry) (x : Attendant) : Prop
  | before (absent : Absent ⟨i, true⟩ log)
      (start : ∀ f, x.farewell = .departing f → f = .ofDisconnect x.peer)
  | after {before since : List Entry} {found bound : Option RoomId}
      (split : log = before ++ ⟨⟨i, true⟩, .looked x.peer found⟩ :: since)
      (absent : Absent ⟨i, true⟩ before) (straying : Straying i x g since bound)

/-- When the farewell looks, it finds the peer in the one room that the peer is in. -/
theorem Prudent.looked (prudent : s.Prudent) {f : Job} (x : Attendant)
    (step : (Job.ofDisconnect x.peer).step? s.hub.registry = some (f, g, none)) :
    Straying i (x.put f true) g [] (s.hub.registry.roomOf? x.peer) := by
  have never (r : RoomId) : ¬ PutInto i x.peer r [] := by simp [PutInto]
  cases step
  refine ⟨?_, fun r other => ?_, fun r put => absurd put (never r), fun c binds => ?_⟩
  · refine ⟨_, rfl, ?_⟩
    cases s.hub.registry.roomOf? x.peer with
    | none => trivial
    | some c => rfl
  · refine ⟨fun mem => ?_, fun put => absurd put (never r)⟩
    exact absurd (prudent.wf.whereabouts.mpr mem) other
  · exact ⟨never c, .inl (prudent.wf.whereabouts.mp binds)⟩

theorem Sees.looking (sees : s.Sees i x entry s' y) (prudent : s.Prudent)
    (attends : s.attendants[i]? = some x) (looking : Looking i s.hub.registry log x) :
    Looking i s'.hub.registry (log ++ entry.toList) y := by
  cases looking with
  | before absent start =>
    cases sees with
    | @acted farewell j j' action _ job does step =>
      cases farewell with
      | false => exact .before (absent.append (by simp [Absent])) start
      | true =>
        obtain rfl := start j (job?_true.mp job)
        cases does
        exact .after rfl absent (prudent.looked x step)
    | began registry free stands =>
      rw [Option.toList_none, List.append_nil]
      exact .before absent start
    | hungUp registry stands =>
      rw [Option.toList_none, List.append_nil]
      exact .before absent nofun
    | forgotten registry begun =>
      rw [Option.toList_none, List.append_nil]
      exact .before absent fun f departs => by cases departs; rfl
    | apart others rooms => exact .before (absent.append (absent_of_others others true)) start
  | @after before since found bound split absent straying =>
    obtain ⟨f, departs, -⟩ := straying.departs
    have on (more : List Entry) :
        log ++ more = before ++ ⟨⟨i, true⟩, .looked x.peer found⟩ :: (since ++ more) := by
      rw [split, List.append_assoc, List.cons_append]
    cases sees with
    | @acted farewell j j' action _ job does step =>
      cases farewell with
      | false =>
        cases job
        exact .after (on _) absent (straying.work prudent attends does step)
      | true => exact .after (on _) absent (straying.part prudent (job?_true.mp job) does step)
    | began _ _ stands | hungUp _ stands => cases stands.symm.trans departs
    | forgotten _ begun => cases begun.symm.trans departs
    | apart others rooms =>
      exact .after (on _) absent (straying.apart (absent_of_others others false) rooms)

theorem looking_run {capacity : Nat} {moves : List Move}
    (attends : ((empty capacity).run moves).attendants[i]? = some x) :
    Looking i ((empty capacity).run moves).hub.registry ((empty capacity).chronicle moves) x := by
  apply attended_induction (P := Looking i) ?_ ?_ attends
  · intro g log x absent free stands
    exact .before (absent true) fun f departs => by cases stands.symm.trans departs
  · intro s s' log entry x y chronicled sent prudent attends sees looking
    exact sees.looking prudent attends looking

/-- No hand of an attendant that is gone has anything left to do. -/
theorem done_of_isGone (gone : x.isGone = true) : x.farewell = .departing .done ∧ x.job = .done := by
  unfold Attendant.isGone at gone
  split at gone
  case h_1 departs free => exact ⟨departs, free⟩
  case h_2 => cases gone

/-- When an attendant is gone, its farewell has looked where the peer was, and the peer is in the rooms
that it was put into since. -/
theorem gone_rooms {capacity : Nat} {moves : List Move}
    (attends : ((empty capacity).run moves).attendants[i]? = some x) (gone : x.isGone = true) :
    ∃ before found since,
      (empty capacity).chronicle moves = before ++ ⟨⟨i, true⟩, .looked x.peer found⟩ :: since ∧
        Absent ⟨i, true⟩ before ∧
          ∀ r, x.peer ∈ ((empty capacity).run moves).hub.registry.members r ↔
            PutInto i x.peer r since := by
  obtain ⟨left, -⟩ := done_of_isGone gone
  cases looking_run attends with
  | before absent start => cases start _ left
  | @after before since found bound split absent straying =>
    -- Nothing is left to be done, so the farewell is bound to no room any more.
    obtain rfl : bound = none := by
      obtain ⟨f, departs, kind⟩ := straying.departs
      cases left.symm.trans departs
      cases bound with
      | none => rfl
      | some c => cases kind
    exact ⟨before, found, since, split, absent, fun r => straying.rooms r nofun⟩

/-! ## Who is told of the peer -/

/-- The attendant has not told others of its peer since it began to work on the event; or it has put
the peer into a room, tells others so, and the peer is in there yet or was taken out by the
farewell. -/
inductive Announcing (i : Nat) (g : Registry) (log : List Entry) (x : Attendant) : Prop
  | silent (sanctioned : x.job.Sanctioned x.peer true fun e => ∀ q r, e ≠ ⟨q, .otherJoin r x.peer⟩)
  | telling (tells : x.job.Tells)
      (known : ∀ q r, ⟨q, .otherJoin r x.peer⟩ ∈ x.job.tellings →
        x.peer ∈ g.members r ∨ TakenOut i x.peer r log)

/-- The attendant does its next action. -/
theorem Announcing.work (announcing : Announcing i s.hub.registry log x) (prudent : s.Prudent)
    (attends : s.attendants[i]? = some x) {action : Action} {j' : Job} {g' : Registry}
    (does : x.job.action? s.hub.registry = some action)
    (step : x.job.step? s.hub.registry = some (j', g', action.emission?)) :
    Announcing i g' (log ++ [⟨⟨i, false⟩, action⟩]) (x.put j' false) := by
  cases announcing with
  | telling tells known =>
    obtain ⟨e, first, -, rfl, tells⟩ := tells.step does step
    rw [first] at known
    refine .telling tells fun q r mem => ?_
    exact (known q r (List.mem_cons_of_mem e mem)).imp_right (·.append _)
  | silent sanctioned =>
    obtain ⟨inside, within, careful⟩ := prudent.works i x attends
    obtain ⟨-, done, -⟩ := careful.step prudent.wf within does step
    obtain ⟨next, -⟩ := sanctioned.step does step
    by_cases put : ∃ r n existing, action = .joined r x.peer (.joined n existing)
    · obtain ⟨r, n, existing, rfl⟩ := put
      refine .telling (careful.joined does step) fun q r' mem => .inl ?_
      rcases next.tellings mem with unsaid | allows
      · exact absurd rfl (unsaid q r')
      · obtain ⟨n', existing', same⟩ := Action.joined_of_announces allows
        exact (done.mem_iff _ _).mpr (.inr ⟨n', existing', same⟩)
    · refine .silent (next.mono fun e may q r same => ?_)
      rcases may with unsaid | allows
      · exact unsaid q r same
      · rw [same] at allows
        exact put ⟨r, Action.joined_of_announces allows⟩

/-- The farewell does its next action. -/
theorem Announcing.part (announcing : Announcing i s.hub.registry log x)
    (chronicled : s.Chronicled log) (sent : s.Sent log) (prudent : s.Prudent)
    (attends : s.attendants[i]? = some x) {f f' : Job} {action : Action} {g' : Registry}
    (job : x.job? true = some f) (does : f.action? s.hub.registry = some action)
    (step : f.step? s.hub.registry = some (f', g', action.emission?)) :
    Announcing i g' (log ++ [⟨⟨i, true⟩, action⟩]) (x.put f' true) := by
  cases announcing with
  | silent sanctioned => exact .silent sanctioned
  | telling tells known =>
    refine .telling tells fun q r mem => ?_
    rcases known q r mem with inside | taken
    · by_cases left : ∃ outcome, action = .left r x.peer outcome
      · obtain ⟨outcome, rfl⟩ := left
        obtain ⟨before, h, n, existing, after, rfl, -⟩ := chronicled.traced.inserted _ r inside
        have hand : h = ⟨i, false⟩ :=
          chronicled.hand_eq sent attends (List.mem_append_right _ List.mem_cons_self) rfl
        rw [hand]
        exact .inr ⟨before, n, existing, after ++ [⟨⟨i, true⟩, .left r x.peer outcome⟩], outcome,
          by simp, by simp⟩
      · obtain ⟨inside', within, careful⟩ := prudent.careful attends job
        obtain ⟨-, done, -⟩ := careful.step prudent.wf within does step
        exact .inl ((done.mem_iff _ r).mpr (.inl ⟨inside, not_exists.mp left⟩))
    · exact .inr (taken.append _)

theorem announcing_run {capacity : Nat} {moves : List Move}
    (attends : ((empty capacity).run moves).attendants[i]? = some x) :
    Announcing i ((empty capacity).run moves).hub.registry ((empty capacity).chronicle moves) x := by
  apply attended_induction (P := Announcing i) ?_ ?_ attends
  · intro g log x absent free stands
    refine .silent ?_
    rw [free]
    trivial
  · intro s s' log entry x y chronicled sent prudent attends sees announcing
    cases sees with
    | @acted farewell j j' action _ job does step =>
      cases farewell with
      | false =>
        cases job
        exact announcing.work prudent attends does step
      | true => exact announcing.part chronicled sent prudent attends job does step
    | began registry free stands => exact .silent (Job.ofSignal_sanctioned ..)
    | hungUp registry | forgotten registry =>
      rw [registry, Option.toList_none, List.append_nil]
      cases announcing with
      | silent sanctioned => exact .silent sanctioned
      | telling tells known => exact .telling tells known
    | apart others rooms =>
      cases announcing with
      | silent sanctioned => exact .silent sanctioned
      | telling tells known =>
        refine .telling tells fun q r mem => ?_
        rw [rooms]
        exact (known q r mem).imp_right (·.append _)

/-! ## Who is told that the peer has left -/

/-- The other one has been told that the peer has left the room, or is told so next by the attendant of
the peer; or the peer is in there. -/
inductive Owed (p q : PeerId) (r : RoomId) (g : Registry) (told : List Entry) (x : Attendant) : Prop
  | told {h : Hand} (mem : ⟨h, .emitted ⟨q, .bye r p⟩⟩ ∈ told)
  | inside (mem : p ∈ g.members r)
  | next (farewell : Bool) {j : Job} (job : x.job? farewell = some j)
      (mem : ⟨q, .bye r p⟩ ∈ j.tellings)

theorem Sees.peer_eq (sees : s.Sees i x entry s' y) : y.peer = x.peer := by
  cases sees with
  | acted => exact put_peer ..
  | began | hungUp | forgotten | apart => rfl

/-- Whoever stays in the room, and is not the peer itself, is told of the peer's leave. -/
theorem Sees.owed (sees : s.Sees i x entry s' y) (prudent : s.Prudent)
    (attends : s.attendants[i]? = some x) (other : q ≠ x.peer) (stays : q ∈ s.hub.registry.members r)
    {told : List Entry} (owed : Owed x.peer q r s.hub.registry told x) :
    Owed x.peer q r s'.hub.registry (told ++ entry.toList) y := by
  cases owed with
  | told mem => exact .told (List.mem_append_left _ mem)
  | inside mem =>
    cases sees with
    | @acted farewell j j' action _ job does step =>
      obtain ⟨inside, within, careful⟩ := prudent.careful attends job
      obtain ⟨-, done, -⟩ := careful.step prudent.wf within does step
      by_cases left : ∃ outcome, action = .left r x.peer outcome
      · obtain ⟨outcome, rfl⟩ := left
        obtain ⟨-, tells⟩ := careful.left does step
        obtain ⟨rfl, -⟩ := done
        exact .next farewell (job?_put ..)
          (tells (by simpa using mem) q (List.mem_filter.mpr ⟨stays, by simpa using other⟩) other)
      · exact .inside ((done.mem_iff _ r).mpr (.inl ⟨mem, not_exists.mp left⟩))
    | began registry | hungUp registry | forgotten registry =>
      rw [← registry] at mem
      exact .inside mem
    | apart others rooms => exact .inside ((rooms r).mpr mem)
  | @next side j₀ job₀ mem =>
    cases sees with
    | @acted farewell j j' action _ job does step =>
      by_cases same : side = farewell
      · subst same
        cases job₀.symm.trans job
        rcases Job.step_tellings mem does step with rfl | mem
        · exact .told (List.mem_append_right _ List.mem_cons_self)
        · exact .next side (job?_put ..) mem
      · exact .next side ((job?_put_other x j' same).trans job₀) mem
    | began _ free stands =>
      cases side with
      | false =>
        obtain rfl := free.symm.trans (Option.some.inj job₀)
        cases mem
      | true => cases stands.symm.trans (job?_true.mp job₀)
    | hungUp _ stands =>
      cases side with
      | false => exact .next false job₀ mem
      | true => cases stands.symm.trans (job?_true.mp job₀)
    | forgotten _ begun =>
      cases side with
      | false => exact .next false job₀ mem
      | true => cases begun.symm.trans (job?_true.mp job₀)
    | apart others rooms => exact .next side job₀ mem

/-- In this move of a run somebody else is told that the peer has joined the room, and stays in there
for the rest of the run. -/
structure Introduced (capacity : Nat) (first : List Move) (m : Move) (rest : List Move)
    (p q : PeerId) (r : RoomId) : Prop where
  told : ∃ h, ((empty capacity).run first).done? m = some ⟨h, .emitted ⟨q, .otherJoin r p⟩⟩
  other : q ≠ p
  stays : ∀ upto, upto <+: rest →
    q ∈ ((empty capacity).run (first ++ m :: upto)).hub.registry.members r

theorem run_stays (attends : s.attendants[i]? = some x) (moves : List Move) :
    ∃ y, (s.run moves).attendants[i]? = some y ∧ y.peer = x.peer := by
  induction moves generalizing s x with
  | nil => exact ⟨x, attends, rfl⟩
  | cons m rest ih =>
    obtain ⟨y, attends', peer, -⟩ := (move_moved s m).stays attends
    obtain ⟨z, attends'', peer'⟩ := ih attends'
    exact ⟨z, attends'', peer'.trans peer⟩

theorem Moved.emitted {h : Hand} {e : Emission} (moved : s.Moved (some ⟨h, .emitted e⟩) s') :
    s'.hub.registry = s.hub.registry ∧ ∃ x next, s.attendants[h.attendant]? = some x ∧
      x.job? h.farewell = some (.emit e next) := by
  cases moved with
  | @acted _ x j _ _ _ attends job does step =>
    cases j with
    | emit e' next =>
      cases does
      cases step
      exact ⟨rfl, x, _, attends, job⟩
    | _ => cases does

section Introduced

variable {capacity : Nat} {first rest : List Move} {m : Move}

/-- It is the attendant of the peer that tells others of it, while it works on an event. -/
theorem Introduced.announced (introduced : Introduced capacity first m rest x.peer q r)
    (attends : ((empty capacity).run (first ++ m :: rest)).attendants[i]? = some x) :
    ((empty capacity).run first).done? m =
        some ⟨⟨i, false⟩, .emitted ⟨q, .otherJoin r x.peer⟩⟩ ∧
      ((empty capacity).run (first ++ [m])).hub.registry =
        ((empty capacity).run first).hub.registry ∧
      ∃ z next, ((empty capacity).run first).attendants[i]? = some z ∧ z.peer = x.peer ∧
        z.job = .emit ⟨q, .otherJoin r x.peer⟩ next := by
  obtain ⟨⟨k, farewell⟩, told⟩ := introduced.told
  have chronicled := chronicled_run capacity first
  have moved := move_moved ((empty capacity).run first) m
  rw [told] at moved
  obtain ⟨registry, z, next, attends', job⟩ := moved.emitted
  -- It has put the peer into the room.
  have sanctioned := chronicled.loyal.sanctioned ⟨k, farewell⟩ z _ attends' job
  obtain ⟨cause, mem, hand, allows⟩ := sanctioned.tellings List.mem_cons_self
  obtain ⟨n, existing, joined⟩ := Action.joined_of_announces allows
  obtain ⟨z', attends'', own⟩ := chronicled.loyal.own cause mem
  rw [hand] at attends''
  cases attends''.symm.trans attends'
  have peer : z.peer = x.peer := (own x.peer (by rw [joined]; rfl)).symm
  obtain rfl : farewell = false := by
    have side := chronicled.loyal.joins cause mem r x.peer _ joined
    rwa [hand] at side
  obtain ⟨y, stays, peer'⟩ := run_stays attends' (m :: rest)
  rw [← run_append] at stays
  obtain rfl : i = k :=
    (sent_run capacity (first ++ m :: rest)).index_unique attends stays (peer'.trans peer)
  rw [run_snoc]
  exact ⟨told, registry, z, next, attends', peer, Option.some.inj job⟩

/-- Whoever is told of the peer while the peer is in the room is told of its leave, as long as the peer
leaves. -/
theorem Introduced.owed (introduced : Introduced capacity first m rest p q r)
    (attends : ((empty capacity).run (first ++ [m])).attendants[i]? = some x) (peer : x.peer = p)
    (inside : p ∈ ((empty capacity).run (first ++ [m])).hub.registry.members r) :
    ∃ y, ((empty capacity).run (first ++ m :: rest)).attendants[i]? = some y ∧
      Owed p q r ((empty capacity).run (first ++ m :: rest)).hub.registry
        (((empty capacity).run (first ++ [m])).chronicle rest) y := by
  have owed := onward_induction
    (P := fun upto log g y => upto <+: rest → y.peer = p ∧ Owed p q r g log y) attends
    (fun _ => ⟨peer, .inside inside⟩) ?_ rest
  · obtain ⟨y, attends', owed⟩ := owed
    rw [List.append_assoc, List.singleton_append] at attends' owed
    exact ⟨y, attends', (owed (List.prefix_refl rest)).2⟩
  · intro upto m' log entry s' y z prudent attends' sees before passed
    have passed' : upto <+: rest := (List.prefix_append _ _).trans passed
    obtain ⟨rfl, owed⟩ := before passed'
    have stays := introduced.stays upto passed'
    rw [← List.singleton_append, ← List.append_assoc] at stays
    exact ⟨sees.peer_eq, sees.owed prudent attends' introduced.other stays owed⟩

/-- In the rest of the run the other one is told that the peer has left the room. -/
def HearsBye (capacity : Nat) (first : List Move) (m : Move) (rest : List Move) (p q : PeerId)
    (r : RoomId) : Prop :=
  ∃ h, ⟨h, .emitted ⟨q, .bye r p⟩⟩ ∈ ((empty capacity).run (first ++ [m])).chronicle rest

/-- When an attendant is gone, whoever was told that its peer had joined a room, and stayed there, was
told of its leave afterwards; unless the peer is in the room still, or the farewell had taken it out
before. -/
theorem gone_byes (introduced : Introduced capacity first m rest x.peer q r)
    (attends : ((empty capacity).run (first ++ m :: rest)).attendants[i]? = some x)
    (gone : x.isGone = true) :
    HearsBye capacity first m rest x.peer q r ∨
      x.peer ∈ ((empty capacity).run (first ++ m :: rest)).hub.registry.members r ∨
      x.peer ∉ ((empty capacity).run first).hub.registry.members r ∧
        TakenOut i x.peer r ((empty capacity).chronicle first) := by
  obtain ⟨-, registry, z, next, attends', peer, job⟩ := introduced.announced attends
  by_cases inside : x.peer ∈ ((empty capacity).run first).hub.registry.members r
  · rw [← registry] at inside
    obtain ⟨z', attends'', peer'⟩ := run_stays attends' [m]
    rw [← run_append] at attends''
    obtain ⟨y, there, owed⟩ := introduced.owed attends'' (peer'.trans peer) inside
    cases there.symm.trans attends
    obtain ⟨left, free⟩ := done_of_isGone gone
    cases owed with
    | @told h mem => exact .inl ⟨h, mem⟩
    | inside mem => exact .inr (.inl mem)
    | next farewell job mem =>
      -- No hand has anything to tell any more.
      cases farewell with
      | false =>
        obtain rfl := free.symm.trans (Option.some.inj job)
        cases mem
      | true =>
        cases left.symm.trans (job?_true.mp job)
        cases mem
  · refine .inr (.inr ⟨inside, ?_⟩)
    have announcing := announcing_run attends'
    rw [← peer] at inside ⊢
    cases announcing with
    | silent sanctioned =>
      rw [job, peer] at sanctioned
      exact absurd rfl (sanctioned.1 q r)
    | telling tells known =>
      refine (known q r ?_).resolve_left inside
      rw [job, peer]
      exact List.mem_cons_self

end Introduced

/-! ## An attendant that has done its work -/

/-- If an attendant has nothing to do when its connection is gone, then its farewell does nothing before
that, and its other hand does nothing after that. -/
theorem rests {capacity : Nat} {first : List Move}
    (attends : ((empty capacity).run first).attendants[i]? = some x) (stands : x.farewell = .notYet)
    (free : x.job = .done) (rest : List Move) :
    Absent ⟨i, true⟩ ((empty capacity).chronicle first) ∧
      Absent ⟨i, false⟩ (((empty capacity).run first).chronicle (.hangUp i :: rest)) := by
  constructor
  · cases looking_run attends with
    | before absent start => exact absent
    | after split absent straying =>
      obtain ⟨f, departs, -⟩ := straying.departs
      cases stands.symm.trans departs
  · have hungUp : ((empty capacity).run (first ++ [.hangUp i])).attendants[i]? =
        some { x with farewell := .begun } := by
      rw [run_snoc]
      show (Staff.turn _ i fun h x => (x.hangUp, h)).attendants[i]? = _
      simp only [turn, attends, Attendant.hangUp, stands]
      exact getElem?_set_same attends
    have still := onward_induction (P := fun _ log _ y => y.job = .done ∧ y.farewell ≠ .notYet ∧
      Absent ⟨i, false⟩ log) hungUp ⟨free, nofun, nofun⟩ ?_ rest
    · obtain ⟨y, -, -, -, absent⟩ := still
      rw [run_append] at absent
      exact absent
    · intro upto m log entry s' y z prudent attends' sees ⟨free, gone, absent⟩
      cases sees with
      | @acted farewell j j' action _ job does step =>
        cases farewell with
        | false =>
          obtain rfl := free.symm.trans (Option.some.inj job)
          cases does
        | true => exact ⟨free, nofun, absent.append (by simp [Absent])⟩
      | began _ _ stands | hungUp _ stands => exact absurd stands gone
      | forgotten => exact ⟨free, nofun, absent.append nofun⟩
      | apart others rooms => exact ⟨free, gone, absent.append (absent_of_others others false)⟩

/-- One hand does nothing after the other one has done something, if the other one does nothing in the
beginning and the one does nothing from then on. -/
theorem absent_after {h h' : Hand} {more before after : List Entry} {e : Entry}
    (absent : Absent h log) (absent' : Absent h' more) (split : log ++ more = before ++ e :: after)
    (hand : e.hand = h) : Absent h' after := by
  rcases append_eq_split.mp split with ⟨between, -, rfl⟩ | ⟨between, -, rfl⟩
  · intro e' mem
    exact absent' e' (List.mem_append_right _ (List.mem_cons_of_mem _ mem))
  · exact absurd hand (absent e (List.mem_append_right _ List.mem_cons_self))

/-- The farewell of such an attendant misses nothing. -/
theorem rested_farewell {capacity : Nat} {moves first rest : List Move}
    (attends : ((empty capacity).run moves).attendants[i]? = some x) (gone : x.isGone = true)
    (split : moves = first ++ .hangUp i :: rest)
    (attends' : ((empty capacity).run first).attendants[i]? = some y) (stands : y.farewell = .notYet)
    (free : y.job = .done) :
    (∀ r, x.peer ∉ ((empty capacity).run moves).hub.registry.members r) ∧
      ∀ first' m rest' q r, moves = first' ++ m :: rest' →
        Introduced capacity first' m rest' x.peer q r →
          HearsBye capacity first' m rest' x.peer q r := by
  obtain ⟨absent, absent'⟩ := rests attends' stands free rest
  have whole := chronicle_append (empty capacity) first (.hangUp i :: rest)
  rw [← split] at whole
  have nowhere (r : RoomId) : x.peer ∉ ((empty capacity).run moves).hub.registry.members r := by
    obtain ⟨before, found, since, looked, -, rooms⟩ := gone_rooms attends gone
    rw [rooms]
    rintro ⟨n, existing, mem⟩
    exact absent_after absent absent' (whole.symm.trans looked) rfl _ mem rfl
  refine ⟨nowhere, fun first' m rest' q r split' introduced => ?_⟩
  subst split'
  rcases gone_byes introduced attends gone with hears | inside | ⟨-, taken⟩
  · exact hears
  · exact absurd inside (nowhere r)
  · -- The announcement would come after the farewell has acted.
    obtain ⟨told, -⟩ := introduced.announced attends
    obtain ⟨before, n, existing, after, outcome, log, mem⟩ := taken
    obtain ⟨between, after', rfl⟩ := List.append_of_mem mem
    have order : (empty capacity).chronicle first ++
        ((empty capacity).run first).chronicle (.hangUp i :: rest) =
          before ++ ⟨⟨i, false⟩, .joined r x.peer (.joined n existing)⟩ :: between ++
            ⟨⟨i, true⟩, .left r x.peer outcome⟩ ::
              (after' ++ ⟨⟨i, false⟩, .emitted ⟨q, .otherJoin r x.peer⟩⟩ ::
                (((empty capacity).run first').move m).chronicle rest') := by
      rw [← whole, chronicle_append, log, chronicle, told]
      simp
    have late := absent_after absent absent' order rfl
    exact (late _ (List.mem_append_right _ List.mem_cons_self) rfl).elim

/-! ## The farewell -/

/-- When an attendant is gone, its peer is in those rooms that it was put into after the farewell had
looked where it was. Whoever was told before that the peer had joined a room, and stayed there, was
told of its leave afterwards; unless the peer is in the room still, or the farewell had taken it out
before the other one was told that it had joined. An attendant that had nothing to do when its
connection was gone leaves its peer in no room, and all of them are told. -/
theorem farewell_misses {capacity : Nat} {moves : List Move}
    (attends : ((empty capacity).run moves).attendants[i]? = some x) (gone : x.isGone = true) :
    (∃ before found since,
      (empty capacity).chronicle moves = before ++ ⟨⟨i, true⟩, .looked x.peer found⟩ :: since ∧
        Absent ⟨i, true⟩ before ∧
          ∀ r, x.peer ∈ ((empty capacity).run moves).hub.registry.members r ↔
            PutInto i x.peer r since) ∧
    (∀ first m rest q r, moves = first ++ m :: rest → Introduced capacity first m rest x.peer q r →
      HearsBye capacity first m rest x.peer q r ∨
        x.peer ∈ ((empty capacity).run moves).hub.registry.members r ∨
        x.peer ∉ ((empty capacity).run first).hub.registry.members r ∧
          TakenOut i x.peer r ((empty capacity).chronicle first)) ∧
    ∀ first rest y, moves = first ++ .hangUp i :: rest →
      ((empty capacity).run first).attendants[i]? = some y → y.farewell = .notYet → y.job = .done →
        (∀ r, x.peer ∉ ((empty capacity).run moves).hub.registry.members r) ∧
          ∀ first' m rest' q r, moves = first' ++ m :: rest' →
            Introduced capacity first' m rest' x.peer q r →
              HearsBye capacity first' m rest' x.peer q r := by
  refine ⟨gone_rooms attends gone, fun first m rest q r split introduced => ?_,
    fun first rest y split attends' stands free => ?_⟩
  · subst split
    exact gone_byes introduced attends gone
  · exact rested_farewell attends gone split attends' stands free

/-- A peer is in a room, and the attendant of another one has begun to work on a join. -/
def visited : List Move :=
  .accept ⟨"b"⟩ [.join ⟨"r"⟩] :: .replicate 5 (.work 0) ++ [.accept ⟨"a"⟩ [.join ⟨"r"⟩], .work 1]

/-- The connection is gone, and the whole farewell takes place before the next action on that join. -/
def haunted : List Move :=
  visited ++ .hangUp 1 :: .replicate 2 (.takeLeave 1) ++ .replicate 4 (.work 1)

/-- The farewell takes place after the other peer was put into the room and before it was told so. -/
def belated : List Move :=
  visited ++ .replicate 2 (.work 1) ++ .hangUp 1 :: .replicate 4 (.takeLeave 1) ++
    .replicate 2 (.work 1)

/-- In the first run the other peer stays in the room, although its attendant is gone. In the second one
it does not, but the peer that is in there hears of its join after its leave. -/
theorem ghost_member :
    (((empty 2).run haunted).attendants[1]? = some ⟨⟨"a"⟩, 1, [], .done, .departing .done⟩ ∧
      ((empty 2).run haunted).hub.registry.members ⟨"r"⟩ = [⟨"b"⟩, ⟨"a"⟩] ∧
      ((empty 2).run haunted).hub.board.queue 0 = [.joined ⟨"r"⟩ ⟨"b"⟩, .otherJoin ⟨"r"⟩ ⟨"a"⟩]) ∧
    ((empty 2).run belated).attendants[1]? = some ⟨⟨"a"⟩, 1, [], .done, .departing .done⟩ ∧
      ((empty 2).run belated).hub.registry.members ⟨"r"⟩ = [⟨"b"⟩] ∧
      ((empty 2).run belated).hub.board.queue 0 =
        [.joined ⟨"r"⟩ ⟨"b"⟩, .bye ⟨"r"⟩ ⟨"a"⟩, .otherJoin ⟨"r"⟩ ⟨"a"⟩] :=
  ⟨⟨rfl, rfl, rfl⟩, rfl, rfl, rfl⟩

/-- In the first run the other peer was put into the room after its farewell had looked. -/
theorem haunted_putInto :
    ∃ before found since,
      (empty 2).chronicle haunted = before ++ ⟨⟨1, true⟩, .looked ⟨"a"⟩ found⟩ :: since ∧
        PutInto 1 ⟨"a"⟩ ⟨"r"⟩ since := by
  have attends : ((empty 2).run haunted).attendants[1]? =
    some ⟨⟨"a"⟩, 1, [], .done, .departing .done⟩ := rfl
  have members : ((empty 2).run haunted).hub.registry.members ⟨"r"⟩ = [⟨"b"⟩, ⟨"a"⟩] := rfl
  obtain ⟨⟨before, found, since, split, -, rooms⟩, -⟩ := farewell_misses attends rfl
  refine ⟨before, found, since, split, (rooms ⟨"r"⟩).mp ?_⟩
  rw [members]
  simp

end Staff

end Parley
