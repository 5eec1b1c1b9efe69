import Parley.Proofs.Hub.Announcement

/-!
# How attendants conduct themselves

An attendant moves its own peer only, and it does so with care: its work puts the peer into a room only
when the peer is in no other one, and has nothing left but to tell things then; whenever it takes the
peer out of a room, it tells everybody who remains there next (`Job.Careful`). The farewell looks where
the peer is, takes it out of there, and tells those who remain (`Job.Parts`). So the registry stays as
it should be, although attendants act side by side (`Staff.prudent_run`).

`Staff.Sees` says what a move means for one attendant; what others do leaves its peer where it is.
-/

namespace Parley

/-- What the registry answers to an action, and who is in its rooms then. -/
def Action.Does (g g' : Registry) : Action → Prop
  | .joined r p (.joined _ existing) => p ∉ g.members r ∧ existing = g.members r ∧
    ∀ c, g'.members c = if c = r then g.members r ++ [p] else g.members c
  | .joined r p (.alreadyMember _) => p ∈ g.members r ∧ g' = g
  | .joined r p .full => p ∉ g.members r ∧ g' = g
  | .left r p outcome => outcome = ⟨(g.members r).filter (· ≠ p), p ∈ g.members r⟩ ∧
    ∀ c, g'.members c = if c = r then (g.members r).filter (· ≠ p) else g.members c
  | .looked p room => room = g.roomOf? p ∧ g' = g
  | _ => g' = g

/-- Whoever is in a room after an action was there before and has not left, or was put into it. -/
theorem Action.Does.mem_iff {action : Action} {g g' : Registry} (does : action.Does g g') (q : PeerId)
    (c : RoomId) : q ∈ g'.members c ↔ (q ∈ g.members c ∧ ∀ outcome, action ≠ .left c q outcome) ∨
      ∃ n existing, action = .joined c q (.joined n existing) := by
  have same (stays : ∀ outcome, action ≠ .left c q outcome)
      (nobody : ∀ n existing, action ≠ .joined c q (.joined n existing)) (same : g' = g) :
      q ∈ g'.members c ↔ (q ∈ g.members c ∧ ∀ outcome, action ≠ .left c q outcome) ∨
        ∃ n existing, action = .joined c q (.joined n existing) := by
    rw [same]
    refine ⟨fun mem => .inl ⟨mem, stays⟩, fun either => ?_⟩
    rcases either with ⟨mem, -⟩ | ⟨n, existing, put⟩
    · exact mem
    · exact absurd put (nobody n existing)
  cases action with
  | looked => exact same nofun nofun does.2
  | asked | listed | emitted => exact same nofun nofun does
  | left r p outcome =>
    obtain ⟨rfl, members⟩ := does
    rw [members]
    split
    case isTrue here =>
      subst here
      rw [List.mem_filter]
      refine ⟨fun ⟨mem, other⟩ => .inl ⟨mem, fun outcome left => ?_⟩, fun either => ?_⟩
      · cases left
        simp at other
      · obtain ⟨mem, stays⟩ := either.resolve_right nofun
        refine ⟨mem, decide_eq_true fun own => ?_⟩
        subst own
        exact stays _ rfl
    case isFalse elsewhere =>
      refine ⟨fun mem => .inl ⟨mem, fun outcome left => ?_⟩, fun either => ?_⟩
      · cases left
        exact elsewhere rfl
      · exact (either.resolve_right nofun).1
  | joined r p outcome =>
    cases outcome with
    | alreadyMember n => exact same nofun nofun does.2
    | full => exact same nofun nofun does.2
    | joined n existing =>
      obtain ⟨-, -, members⟩ := does
      rw [members]
      split
      case isTrue here =>
        subst here
        rw [List.mem_append, List.mem_singleton]
        refine ⟨fun either => ?_, fun either => ?_⟩
        · rcases either with mem | rfl
          · exact .inl ⟨mem, nofun⟩
          · exact .inr ⟨n, existing, rfl⟩
        · rcases either with ⟨mem, -⟩ | ⟨n, existing, put⟩
          · exact .inl mem
          · cases put
            exact .inr rfl
      case isFalse elsewhere =>
        refine ⟨fun mem => .inl ⟨mem, nofun⟩, fun either => ?_⟩
        rcases either with ⟨mem, -⟩ | ⟨n, existing, put⟩
        · exact mem
        · cases put
          exact absurd rfl elsewhere

namespace Job

/-- Nothing is left to do but to tell things. -/
def Tells : Job → Prop
  | .done => True
  | .emit _ next => next.Tells
  | _ => False

/-- What is emitted before anything else is done. -/
def tellings : Job → List Emission
  | .emit e next => e :: next.tellings
  | _ => []

/-- Nothing is left to do but to tell things, and maybe to put the peer into another room then. -/
def Avoids (c : RoomId) : Job → Prop
  | .done => True
  | .emit _ next => next.Avoids c
  | .join r _ next => r ≠ c ∧ ∀ outcome, (next outcome).Tells
  | _ => False

/-- The work for a peer that is in no rooms but these. It puts the peer into a room only if it is in no
other one, and has nothing to do but to tell things then. If it takes the peer out of a room, it tells
those who remain next, and does not put it back. -/
def Careful (p : PeerId) : (RoomId → Prop) → Job → Prop
  | _, .done => True
  | _, .roomOf q next => q = p ∧ ∀ room, (next room).Careful p (room = some ·)
  | inside, .join r q next => q = p ∧ (∀ c, inside c → c = r) ∧ ∀ outcome, (next outcome).Tells
  | inside, .leave r q next => q = p ∧ ∀ outcome,
    (next outcome).Careful p (fun c => inside c ∧ c ≠ r) ∧ (next outcome).Avoids r ∧
      (outcome.wasMember = true →
        ∀ q ∈ outcome.remaining, q ≠ p → ⟨q, .bye r p⟩ ∈ (next outcome).tellings)
  | inside, .isMember _ _ next => ∀ member, (next member).Careful p inside
  | inside, .members _ next => ∀ peers, (next peers).Careful p inside
  | inside, .emit _ next => next.Careful p inside

/-- The work on the disconnect of a peer: to look where it is, to take it out of there, and to tell
others so. -/
inductive Parts (p : PeerId) : Job → Prop
  | looking : Parts p (ofDisconnect p)
  | leaving (c : RoomId) : Parts p (depart p c false .done)
  | telling {j : Job} (tells : j.Tells) : Parts p j

variable {p q : PeerId} {r c : RoomId} {inside : RoomId → Prop} {j j' next : Job}
  {g g' : Registry} {action : Action} {emitted : Option Emission} {recipients : List PeerId}
  {event : ServerEvent} {e : Emission}

theorem done_tells : done.Tells := trivial

theorem Tells.avoids (h : j.Tells) (c : RoomId) : j.Avoids c := by
  induction j with
  | done => trivial
  | emit e next ih => exact ih h
  | _ => exact h.elim

theorem Tells.careful (h : j.Tells) (p : PeerId) (inside : RoomId → Prop) : j.Careful p inside := by
  induction j with
  | done => trivial
  | emit e next ih => exact ih h
  | _ => exact h.elim

/-! ## The work on an event -/

/-- What holds of a job before and after it has told something, holds of one that tells others first. -/
theorem fanOut_induction {P : Job → Prop} (tell : ∀ e j, P j → P (.emit e j)) (rest : P next) :
    P (fanOut recipients p event next) := by
  unfold fanOut
  induction recipients.filter (· ≠ p) with
  | nil => exact rest
  | cons q others ih => exact tell _ _ ih

theorem mem_tellings_fanOut (mem : q ∈ recipients) (other : q ≠ p) :
    ⟨q, event⟩ ∈ (fanOut recipients p event next).tellings := by
  have mem : q ∈ recipients.filter (· ≠ p) := List.mem_filter.mpr ⟨mem, by simpa using other⟩
  unfold fanOut
  generalize recipients.filter (· ≠ p) = others at mem
  induction others with
  | nil => cases mem
  | cons q' others ih =>
    rcases List.mem_cons.mp mem with rfl | mem
    · exact List.mem_cons_self
    · exact List.mem_cons_of_mem _ (ih mem)

theorem fanOut_tells (rest : next.Tells) : (fanOut recipients p event next).Tells :=
  fanOut_induction (fun _ _ h => h) rest

theorem depart_careful {asked : Bool} (rest : next.Careful p fun c => inside c ∧ c ≠ r)
    (avoids : next.Avoids r) : (depart p r asked next).Careful p inside := by
  refine ⟨rfl, fun outcome => ?_⟩
  -- Whether the peer is told that it has left makes no difference here.
  obtain ⟨last, same, careful, avoids⟩ : ∃ last : Job,
      last = (if asked then .emit ⟨p, .leaved r p⟩ next else next) ∧
        (last.Careful p fun c => inside c ∧ c ≠ r) ∧ last.Avoids r := by
    refine ⟨_, rfl, ?_⟩
    split <;> exact ⟨rest, avoids⟩
  dsimp only
  rw [← same]
  split
  case isTrue =>
    exact ⟨fanOut_induction (P := (·.Careful p _)) (fun _ _ h => h) careful,
      fanOut_induction (P := (·.Avoids r)) (fun _ _ h => h) avoids,
      fun _ q mem other => mem_tellings_fanOut mem other⟩
  case isFalse outside => exact ⟨careful, avoids, fun member => absurd member outside⟩

theorem enter_careful (nowhere : ∀ c, inside c → c = r) : (enter p r).Careful p inside := by
  refine ⟨rfl, nowhere, fun outcome => ?_⟩
  cases outcome with
  | full | alreadyMember => trivial
  | joined n existing => exact fanOut_tells trivial

theorem enter_avoids (other : r ≠ c) : (enter p r).Avoids c := by
  refine ⟨other, fun outcome => ?_⟩
  cases outcome with
  | full | alreadyMember => trivial
  | joined n existing => exact fanOut_tells trivial

/-- The work on what a peer asks for is careful, wherever the peer is. -/
theorem ofSignal_careful (p : PeerId) (e : ClientEvent) (inside : RoomId → Prop) :
    (ofEvent (.signal p e)).Careful p inside := by
  cases e with
  | join r =>
    refine ⟨rfl, fun room => ?_⟩
    cases room with
    | none => exact enter_careful nofun
    | some c =>
      show (if c ≠ r then depart p c true (enter p r) else enter p r).Careful p _
      split
      case isTrue other =>
        refine depart_careful (enter_careful fun c' ⟨here, elsewhere⟩ => ?_) (enter_avoids other.symm)
        exact absurd (Option.some.inj here).symm elsewhere
      case isFalse same =>
        exact enter_careful fun c' here => by simpa [← Option.some.inj here] using same
  | leave r => exact depart_careful trivial trivial
  | message r data =>
    intro member
    dsimp only
    split
    · split
      · exact fun peers => (fanOut_tells done_tells).careful p inside
      · trivial
    · trivial

/-! ## One action -/

theorem Tells.step (h : j.Tells) (does : j.action? g = some action)
    (step : j.step? g = some (j', g', emitted)) :
    ∃ e, j = .emit e j' ∧ action = .emitted e ∧ g' = g ∧ j'.Tells := by
  cases j with
  | done => cases does
  | emit e next =>
    cases does
    cases step
    exact ⟨e, rfl, rfl, rfl, h⟩
  | _ => exact h.elim

theorem Avoids.step (h : j.Avoids c) (does : j.action? g = some action)
    (step : j.step? g = some (j', g', emitted)) :
    j'.Avoids c ∧ ∀ q outcome, action ≠ .joined c q outcome := by
  cases j with
  | done => cases does
  | emit e next =>
    cases does
    cases step
    exact ⟨h, nofun⟩
  | join r q next =>
    cases does
    cases step
    exact ⟨(h.2 _).avoids c, fun q outcome same => h.1 (by cases same; rfl)⟩
  | _ => exact h.elim

/-- A job goes on with what it has to tell first. -/
theorem step_tellings (mem : e ∈ j.tellings) (does : j.action? g = some action)
    (step : j.step? g = some (j', g', emitted)) : action = .emitted e ∨ e ∈ j'.tellings := by
  cases j with
  | emit e' next =>
    cases does
    cases step
    rcases List.mem_cons.mp mem with rfl | mem
    · exact .inl rfl
    · exact .inr mem
  | _ => cases mem

/-- A careful job moves its own peer only, which is in the rooms then that it takes it to be in. -/
theorem Careful.step (careful : j.Careful p inside) (wf : g.Wf)
    (within : ∀ c, p ∈ g.members c → inside c) (does : j.action? g = some action)
    (step : j.step? g = some (j', g', emitted)) :
    g'.Wf ∧ action.Does g g' ∧ (∀ q, action.subject? = some q → q = p) ∧
      ∃ inside', (∀ c, p ∈ g'.members c → inside' c) ∧ j'.Careful p inside' := by
  cases j with
  | done => cases does
  | roomOf q next =>
    cases does
    cases step
    obtain ⟨rfl, careful⟩ := careful
    exact ⟨wf, ⟨rfl, rfl⟩, nofun, _, fun c mem => wf.whereabouts.mpr mem, careful _⟩
  | isMember r q next =>
    cases does
    cases step
    exact ⟨wf, rfl, nofun, inside, within, careful _⟩
  | members r next =>
    cases does
    cases step
    exact ⟨wf, rfl, nofun, inside, within, careful _⟩
  | emit e next =>
    cases does
    cases step
    exact ⟨wf, rfl, nofun, inside, within, careful⟩
  | leave r q next =>
    cases does
    cases step
    obtain ⟨rfl, careful⟩ := careful
    refine ⟨wf.leave r q, ⟨g.leave_outcome r q, g.members_leave r q⟩, fun q' own => ?_, _,
      fun c mem => ?_, (careful _).1⟩
    · exact (Option.some.inj own).symm
    · rw [g.members_leave r q] at mem
      split at mem
      · simp at mem
      case isFalse other => exact ⟨within c mem, other⟩
  | join r q next =>
    cases does
    cases step
    obtain ⟨rfl, single, tells⟩ := careful
    have own (q' : PeerId) (same : some q = some q') : q' = q := (Option.some.inj same).symm
    have anywhere (outcome : JoinOutcome) : (next outcome).Careful q fun _ => True :=
      (tells outcome).careful q _
    rcases wf.join_cases fun r' mem => single r' (within r' mem) with
      ⟨mem, n, same⟩ | ⟨outside, same⟩ | ⟨outside, ⟨n, joined⟩, wf', members⟩
    · rw [same]
      exact ⟨wf, ⟨mem, rfl⟩, own, _, fun _ _ => trivial, anywhere _⟩
    · rw [same]
      exact ⟨wf, ⟨outside, rfl⟩, own, _, fun _ _ => trivial, anywhere _⟩
    · rw [joined]
      exact ⟨wf', ⟨outside, rfl, members⟩, own, _, fun _ _ => trivial, anywhere _⟩

/-- After it has put its peer into a room, a careful job tells things and is done. -/
theorem Careful.joined {outcome : JoinOutcome} (careful : j.Careful p inside)
    (does : j.action? g = some (.joined r q outcome)) (step : j.step? g = some (j', g', emitted)) :
    j'.Tells := by
  cases j with
  | join r' q' next =>
    cases does
    cases step
    exact careful.2.2 _
  | _ => cases does

/-- After it has taken its peer out of a room, a careful job tells those who remain there next, and
does not put the peer back. -/
theorem Careful.left {outcome : LeaveOutcome} (careful : j.Careful p inside)
    (does : j.action? g = some (.left r q outcome)) (step : j.step? g = some (j', g', emitted)) :
    j'.Avoids r ∧ (outcome.wasMember = true →
      ∀ q ∈ outcome.remaining, q ≠ p → ⟨q, .bye r p⟩ ∈ j'.tellings) := by
  cases j with
  | leave r' q' next =>
    cases does
    cases step
    exact (careful.2 _).2
  | _ => cases does

/-! ## The work on a disconnect -/

theorem Parts.careful (h : j.Parts p) (inside : RoomId → Prop) : j.Careful p inside := by
  cases h with
  | looking =>
    refine ⟨rfl, fun room => ?_⟩
    cases room with
    | none => trivial
    | some c => exact depart_careful trivial trivial
  | leaving c => exact depart_careful trivial trivial
  | telling tells => exact tells.careful p inside

theorem departed_tells {asked : Bool} (rest : next.Tells)
    (step : (depart p c asked next).step? g = some (j', g', emitted)) : j'.Tells := by
  cases step
  have last : (if asked then .emit ⟨p, .leaved c p⟩ next else next : Job).Tells := by
    split <;> exact rest
  dsimp only
  split
  · exact fanOut_tells last
  · exact last

theorem Parts.step (h : j.Parts p) (does : j.action? g = some action)
    (step : j.step? g = some (j', g', emitted)) :
    j'.Parts p ∧ ∀ r q outcome, action ≠ .joined r q outcome := by
  cases h with
  | looking =>
    cases does
    cases step
    refine ⟨?_, nofun⟩
    cases g.roomOf? p with
    | none => exact .telling trivial
    | some c => exact .leaving c
  | leaving c =>
    have tells := departed_tells done_tells step
    cases does
    exact ⟨.telling tells, nofun⟩
  | telling tells =>
    obtain ⟨e, -, rfl, -, tells⟩ := tells.step does step
    exact ⟨.telling tells, nofun⟩

end Job

namespace Staff

variable {s s' : Staff} {entry : Option Entry} {i k : Nat} {x y : Attendant} {log : List Entry}
  {farewell : Bool} {j : Job}

/-! ## One attendant -/

/-- What a move means for one attendant. Its connection goes on or ends, or one of its hands acts, or
something else happens and its peer stays where it is. -/
inductive Sees (s : Staff) (i : Nat) (x : Attendant) : Option Entry → Staff → Attendant → Prop
  | acted {farewell : Bool} {j j' : Job} {action : Action} {s' : Staff}
      (job : x.job? farewell = some j) (does : j.action? s.hub.registry = some action)
      (step : j.step? s.hub.registry = some (j', s'.hub.registry, action.emission?)) :
      Sees s i x (some ⟨⟨i, farewell⟩, action⟩) s' (x.put j' farewell)
  | began {e : ClientEvent} {rest : List ClientEvent} {s' : Staff}
      (registry : s'.hub.registry = s.hub.registry) (free : x.job = .done)
      (stands : x.farewell = .notYet) :
      Sees s i x none s' { x with waiting := rest, job := .ofEvent (.signal x.peer e) }
  | hungUp {s' : Staff} (registry : s'.hub.registry = s.hub.registry)
      (stands : x.farewell = .notYet) : Sees s i x none s' { x with farewell := .begun }
  | forgotten {s' : Staff} (registry : s'.hub.registry = s.hub.registry)
      (begun : x.farewell = .begun) :
      Sees s i x none s' { x with farewell := .departing (.ofEvent (.disconnected x.peer)) }
  | apart {entry : Option Entry} {s' : Staff} (others : ∀ e, entry = some e → e.hand.attendant ≠ i)
      (rooms : ∀ c, x.peer ∈ s'.hub.registry.members c ↔ x.peer ∈ s.hub.registry.members c) :
      Sees s i x entry s' x

/-- The registry is as it should be, and attendants conduct themselves as they should. -/
structure Prudent (s : Staff) : Prop where
  wf : s.hub.registry.Wf
  works : ∀ (i : Nat) (x : Attendant), s.attendants[i]? = some x →
    ∃ inside, (∀ c, x.peer ∈ s.hub.registry.members c → inside c) ∧ x.job.Careful x.peer inside
  parts : ∀ (i : Nat) (x : Attendant) (f : Job), s.attendants[i]? = some x →
    x.farewell = .departing f → f.Parts x.peer

theorem job?_true {f : Job} : x.job? true = some f ↔ x.farewell = .departing f := by
  cases farewell : x.farewell <;> simp [Attendant.job?, farewell]

/-- Whatever an attendant does is done with care. -/
theorem Prudent.careful (prudent : s.Prudent) (attends : s.attendants[i]? = some x)
    (job : x.job? farewell = some j) :
    ∃ inside, (∀ c, x.peer ∈ s.hub.registry.members c → inside c) ∧ j.Careful x.peer inside := by
  cases farewell with
  | false =>
    cases job
    exact prudent.works i x attends
  | true =>
    have parts := prudent.parts i x j attends (job?_true.mp job)
    exact ⟨fun _ => True, fun _ _ => trivial, parts.careful _⟩

theorem Moved.sees (moved : s.Moved entry s') (sent : s.Sent log) (prudent : s.Prudent)
    (attends : s.attendants[i]? = some x) :
    ∃ y, s'.attendants[i]? = some y ∧ Sees s i x entry s' y := by
  have kept {k : Nat} {z : Attendant} (other : k ≠ i) : (s.attendants.set k z)[i]? = some x :=
    (List.getElem?_set_ne other).trans attends
  cases moved with
  | idle => exact ⟨x, attends, .apart nofun fun _ => .rfl⟩
  | accepted =>
    obtain ⟨lt, -⟩ := List.getElem?_eq_some_iff.mp attends
    exact ⟨x, (List.getElem?_append_left lt).trans attends, .apart nofun fun _ => .rfl⟩
  | @acted h x₀ j₀ j' action registry attends₀ job does step =>
    by_cases same : h.attendant = i
    · subst same
      cases attends₀.symm.trans attends
      exact ⟨_, getElem?_set_same attends, .acted job does step⟩
    · -- Somebody else moves another peer.
      obtain ⟨inside, within, careful⟩ := prudent.careful attends₀ job
      obtain ⟨-, done, own, -⟩ := careful.step prudent.wf within does step
      have another (subject : action.subject? = some x.peer) : False :=
        same (sent.index_unique attends₀ attends (own x.peer subject))
      refine ⟨x, kept same, .apart (fun e said => by cases said; exact same) fun c => ?_⟩
      rw [done.mem_iff]
      constructor
      · rintro (⟨mem, -⟩ | ⟨n, existing, rfl⟩)
        · exact mem
        · exact (another rfl).elim
      · intro mem
        refine .inl ⟨mem, fun outcome left => another ?_⟩
        rw [left]
        rfl
  | @began k x₀ e rest attends₀ free stands =>
    by_cases same : k = i
    · subst same
      cases attends₀.symm.trans attends
      exact ⟨_, getElem?_set_same attends, .began rfl free stands⟩
    · exact ⟨x, kept same, .apart nofun fun _ => .rfl⟩
  | @hungUp k x₀ attends₀ stands =>
    by_cases same : k = i
    · subst same
      cases attends₀.symm.trans attends
      exact ⟨_, getElem?_set_same attends, .hungUp rfl stands⟩
    · exact ⟨x, kept same, .apart nofun fun _ => .rfl⟩
  | @forgotten k x₀ attends₀ begun =>
    by_cases same : k = i
    · subst same
      cases attends₀.symm.trans attends
      exact ⟨_, getElem?_set_same attends, .forgotten rfl begun⟩
    · exact ⟨x, kept same, .apart nofun fun _ => .rfl⟩

/-- An attendant comes with a new connection, and has nothing to do yet. -/
theorem Moved.newcomer (moved : s.Moved entry s') (new : s.attendants[i]? = none)
    (attends : s'.attendants[i]? = some y) :
    entry = none ∧ y.job = .done ∧ y.farewell = .notYet := by
  have set {k : Nat} {z : Attendant} : (s.attendants.set k z)[i]? ≠ some y := by
    intro there
    obtain ⟨lt, -⟩ := List.getElem?_eq_some_iff.mp there
    rw [List.length_set] at lt
    exact absurd (List.getElem?_eq_none_iff.mp new) (by omega)
  cases moved with
  | idle => cases new.symm.trans attends
  | accepted =>
    rcases getElem?_concat_cases attends with ⟨-, there⟩ | ⟨-, rfl⟩
    · cases new.symm.trans there
    · exact ⟨rfl, rfl, rfl⟩
  | acted | began | hungUp | forgotten => exact absurd attends set

theorem Moved.prudent (moved : s.Moved entry s') (sent : s.Sent log) (prudent : s.Prudent) :
    s'.Prudent where
  wf := by
    cases moved with
    | acted attends job does step =>
      obtain ⟨inside, within, careful⟩ := prudent.careful attends job
      exact (careful.step prudent.wf within does step).1
    | idle | accepted | began | hungUp | forgotten => exact prudent.wf
  works i y attends' := by
    cases attends : s.attendants[i]? with
    | none =>
      obtain ⟨-, free, -⟩ := moved.newcomer attends attends'
      rw [free]
      exact ⟨fun _ => True, fun _ _ => trivial, trivial⟩
    | some x =>
      obtain ⟨y', there, sees⟩ := moved.sees sent prudent attends
      cases there.symm.trans attends'
      obtain ⟨inside, within, careful⟩ := prudent.works i x attends
      cases sees with
      | began registry free stands =>
        exact ⟨fun _ => True, fun _ _ => trivial, Job.ofSignal_careful ..⟩
      | hungUp registry | forgotten registry =>
        rw [registry]
        exact ⟨inside, within, careful⟩
      | apart others rooms => exact ⟨inside, fun c mem => within c ((rooms c).mp mem), careful⟩
      | @acted farewell j j' action _ job does step =>
        cases farewell with
        | false =>
          cases job
          obtain ⟨-, -, -, next⟩ := careful.step prudent.wf within does step
          exact next
        | true =>
          -- The farewell puts the peer nowhere.
          have parts := prudent.parts i x j attends (job?_true.mp job)
          obtain ⟨-, nowhere⟩ := parts.step does step
          obtain ⟨-, done, -⟩ := (parts.careful fun _ => True).step prudent.wf
            (fun _ _ => trivial) does step
          refine ⟨inside, fun c mem => ?_, careful⟩
          rcases (done.mem_iff _ c).mp mem with ⟨mem, -⟩ | ⟨n, existing, joined⟩
          · exact within c mem
          · exact (nowhere _ _ _ joined).elim
  parts i y f attends' departs := by
    cases attends : s.attendants[i]? with
    | none =>
      obtain ⟨-, -, stands⟩ := moved.newcomer attends attends'
      cases stands.symm.trans departs
    | some x =>
      obtain ⟨y', there, sees⟩ := moved.sees sent prudent attends
      cases there.symm.trans attends'
      cases sees with
      | began registry free stands => cases stands.symm.trans departs
      | hungUp registry stands => cases departs
      | forgotten registry begun =>
        cases departs
        exact .looking
      | apart others rooms => exact prudent.parts i _ f attends departs
      | @acted farewell j j' action _ job does step =>
        cases farewell with
        | false => exact prudent.parts i x f attends departs
        | true =>
          cases departs
          exact ((prudent.parts i x j attends (job?_true.mp job)).step does step).1

theorem prudent_run (capacity : Nat) (moves : List Move) :
    ((empty capacity).run moves).Prudent := by
  induction moves using List.reverseRecOn with
  | nil => exact ⟨.empty capacity, nofun, nofun⟩
  | append_singleton moves m ih =>
    rw [run_snoc]
    exact (move_moved _ m).prudent (sent_run capacity moves) ih

end Staff

end Parley
