import Parley.Hub.Staff
import Parley.Proofs.History
import Parley.Proofs.Hub.Actions

/-!
# The chronicle of a hub

All actions that the attendants of a hub do, in the order in which they do them. An attendant has two
hands: one works on the events of its connection, and one sees to the farewell. `Staff.Moved` says what
a move does, and the invariants are read off the chronicle: whoever is in a room was put into it and
was not taken out since (`Staff.Traced`), whatever is emitted follows from an earlier action of the
same hand (`Staff.Loyal`), and the hand that has put a peer into a room does nothing before it has said
so to that peer (`Staff.Prompt`).
-/

namespace Parley

/-- A hand of an attendant: the one that works on events, or the one for the farewell. -/
structure Hand where
  attendant : Nat
  farewell : Bool
  deriving DecidableEq

/-- An action, and whose it is. -/
structure Entry where
  hand : Hand
  action : Action

/-- What a hand of an attendant works on. -/
def Attendant.job? (x : Attendant) : Bool → Option Job
  | false => some x.job
  | true =>
    match x.farewell with
    | .departing job => some job
    | _ => none

/-- A hand goes on with a job. -/
def Attendant.put (x : Attendant) (job : Job) : Bool → Attendant
  | false => { x with job }
  | true => { x with farewell := .departing job }

namespace Staff

variable {s s' : Staff} {m : Move} {entry : Option Entry} {h : Hand} {x y : Attendant} {i : Nat}
  {log : List Entry} {p q : PeerId} {r : RoomId} {j : Job}

/-- The next action of a hand. -/
def act? (s : Staff) (h : Hand) : Option Entry :=
  (s.attendants[h.attendant]?).bind fun x =>
    (x.job? h.farewell).bind fun j => (j.action? s.hub.registry).map (⟨h, ·⟩)

/-- The action that is done in a move. -/
def done? (s : Staff) : Move → Option Entry
  | .work i => s.act? ⟨i, false⟩
  | .takeLeave i => s.act? ⟨i, true⟩
  | .accept _ _ | .hangUp _ => none

/-- The actions that are done in a run, in order. -/
def chronicle (s : Staff) : List Move → List Entry
  | [] => []
  | m :: rest => (s.done? m).toList ++ (s.move m).chronicle rest

/-! ## Moves -/

/-- What a move does. -/
inductive Moved (s : Staff) : Option Entry → Staff → Prop
  | idle : Moved s none s
  | accepted {p : PeerId} {events : List ClientEvent} (fresh : ∀ x ∈ s.attendants, x.peer ≠ p) :
      Moved s none (s.accept p events)
  | acted {h : Hand} {x : Attendant} {j j' : Job} {action : Action} {registry : Registry}
      (attends : s.attendants[h.attendant]? = some x) (job : x.job? h.farewell = some j)
      (does : j.action? s.hub.registry = some action)
      (step : j.step? s.hub.registry = some (j', registry, action.emission?)) :
      Moved s (some ⟨h, action⟩)
        ⟨⟨registry, Hub.emitAll s.hub.board action.emission?.toList⟩,
          s.attendants.set h.attendant (x.put j' h.farewell)⟩
  | began {i : Nat} {x : Attendant} {e : ClientEvent} {rest : List ClientEvent}
      (attends : s.attendants[i]? = some x) (free : x.job = .done)
      (stands : x.farewell = .notYet) :
      Moved s none ⟨s.hub, s.attendants.set i
        { x with waiting := rest, job := .ofEvent (.signal x.peer e) }⟩
  | hungUp {i : Nat} {x : Attendant} (attends : s.attendants[i]? = some x)
      (stands : x.farewell = .notYet) :
      Moved s none ⟨s.hub, s.attendants.set i { x with farewell := .begun }⟩
  | forgotten {i : Nat} {x : Attendant} (attends : s.attendants[i]? = some x)
      (begun : x.farewell = .begun) :
      Moved s none ⟨{ s.hub with board := s.hub.board.remove x.peer }, s.attendants.set i
        { x with farewell := .departing (.ofEvent (.disconnected x.peer)) }⟩

theorem set_same {α : Type} {l : List α} {x : α} (there : l[i]? = some x) : l.set i x = l := by
  obtain ⟨lt, rfl⟩ := List.getElem?_eq_some_iff.mp there
  exact List.set_getElem_self lt

theorem getElem?_set_cases {α : Type} {l : List α} {k : Nat} {x y : α}
    (there : (l.set i x)[k]? = some y) : (k = i ∧ y = x) ∨ (k ≠ i ∧ l[k]? = some y) := by
  rw [List.getElem?_set] at there
  split at there
  case isTrue same =>
    split at there
    · cases there
      exact .inl ⟨same.symm, rfl⟩
    · cases there
  case isFalse other => exact .inr ⟨Ne.symm other, there⟩

theorem getElem?_concat_cases {α : Type} {l : List α} {x y : α} {k : Nat}
    (there : (l ++ [x])[k]? = some y) : (k < l.length ∧ l[k]? = some y) ∨ (k = l.length ∧ y = x) := by
  rcases Nat.lt_or_ge k l.length with lt | ge
  · rw [List.getElem?_append_left lt] at there
    exact .inl ⟨lt, there⟩
  · obtain ⟨lt, same⟩ := List.getElem?_eq_some_iff.mp there
    have last : k = l.length := by
      simp only [List.length_append, List.length_singleton] at lt
      omega
    subst last
    simp only [List.getElem_concat_length] at same
    exact .inr ⟨rfl, same.symm⟩

theorem getElem?_set_same {α : Type} {l : List α} {x x' : α} (there : l[i]? = some x) :
    (l.set i x')[i]? = some x' := by
  obtain ⟨lt, -⟩ := List.getElem?_eq_some_iff.mp there
  rw [List.getElem?_set_self lt]

/-- The action of a hand, as the hub does it. -/
theorem act?_cases (attends : s.attendants[h.attendant]? = some x) (job : x.job? h.farewell = some j) :
    (s.act? h = none ∧ j = .done ∧ s.hub.act j = none) ∨
      ∃ action j' registry, s.act? h = some ⟨h, action⟩ ∧
        j.action? s.hub.registry = some action ∧
        j.step? s.hub.registry = some (j', registry, action.emission?) ∧
        s.hub.act j =
          some (j', ⟨registry, Hub.emitAll s.hub.board action.emission?.toList⟩) := by
  unfold act? Hub.act
  rw [attends, Option.bind_some, job, Option.bind_some]
  cases does : j.action? s.hub.registry with
  | none =>
    obtain rfl := Job.action?_eq_none does
    exact .inl ⟨rfl, rfl, rfl⟩
  | some action =>
    obtain ⟨j', registry, step⟩ := Job.step?_of_action? does
    exact .inr ⟨action, j', registry, rfl, rfl, step, by rw [step]; rfl⟩

theorem work_moved (s : Staff) (i : Nat) : Moved s (s.act? ⟨i, false⟩) (s.work i) := by
  unfold work turn
  cases attends : s.attendants[i]? with
  | none =>
    have nothing : s.act? ⟨i, false⟩ = none := by simp [act?, attends]
    rw [nothing]
    exact .idle
  | some x =>
    rcases act?_cases (h := ⟨i, false⟩) attends rfl with
      ⟨none, free, stuck⟩ | ⟨action, j', registry, some, does, step, acts⟩
    · rw [none]
      unfold Attendant.work
      simp only [stuck]
      split
      case h_1 stands _ => exact .began attends free stands
      case h_2 =>
        rw [set_same attends]
        exact .idle
    · rw [some]
      unfold Attendant.work
      simp only [acts]
      exact .acted attends rfl does step

theorem hangUp_moved (s : Staff) (i : Nat) : Moved s none (s.hangUp i) := by
  unfold hangUp turn
  cases attends : s.attendants[i]? with
  | none => exact .idle
  | some x =>
    unfold Attendant.hangUp
    dsimp only
    split
    case h_1 stands => exact .hungUp attends stands
    case h_2 =>
      rw [set_same attends]
      exact .idle

theorem takeLeave_moved (s : Staff) (i : Nat) : Moved s (s.act? ⟨i, true⟩) (s.takeLeave i) := by
  unfold takeLeave turn
  cases attends : s.attendants[i]? with
  | none =>
    have nothing : s.act? ⟨i, true⟩ = none := by simp [act?, attends]
    rw [nothing]
    exact .idle
  | some x =>
    show Moved s _ ⟨(x.takeLeave s.hub).2, s.attendants.set i (x.takeLeave s.hub).1⟩
    -- Without a departure that is worked on, the hand has no action.
    have resting (other : x.job? true = none) : s.act? ⟨i, true⟩ = none := by
      simp [act?, attends, other]
    cases farewell : x.farewell with
    | notYet =>
      have left : x.takeLeave s.hub = (x, s.hub) := by simp [Attendant.takeLeave, farewell]
      rw [resting (by simp [Attendant.job?, farewell]), left, set_same attends]
      exact .idle
    | begun =>
      have left : x.takeLeave s.hub =
          ({ x with farewell := .departing (.ofEvent (.disconnected x.peer)) },
            { s.hub with board := s.hub.board.remove x.peer }) := by
        simp [Attendant.takeLeave, farewell]
      rw [resting (by simp [Attendant.job?, farewell]), left]
      exact .forgotten attends farewell
    | departing j =>
      have job : x.job? true = some j := by simp [Attendant.job?, farewell]
      rcases act?_cases (h := ⟨i, true⟩) attends job with
        ⟨none, -, stuck⟩ | ⟨action, j', registry, some, does, step, acts⟩
      · have left : x.takeLeave s.hub = (x, s.hub) := by
          simp [Attendant.takeLeave, farewell, stuck]
        rw [none, left, set_same attends]
        exact .idle
      · have left : x.takeLeave s.hub = (x.put j' true,
            ⟨registry, Hub.emitAll s.hub.board action.emission?.toList⟩) := by
          simp [Attendant.takeLeave, farewell, acts, Attendant.put]
        rw [some, left]
        exact .acted (h := ⟨i, true⟩) attends job does step

theorem move_moved (s : Staff) (m : Move) : Moved s (s.done? m) (s.move m) := by
  cases m with
  | accept p events =>
    show Moved s none (if s.attendants.any (·.peer = p) then s else s.accept p events)
    split
    · exact .idle
    case isFalse new =>
      refine .accepted fun x mem same => new ?_
      exact List.any_eq_true.mpr ⟨x, mem, by simpa using same⟩
  | work i => exact work_moved s i
  | hangUp i => exact hangUp_moved s i
  | takeLeave i => exact takeLeave_moved s i

/-! ## What hands do -/

theorem job?_put (x : Attendant) (j : Job) (farewell : Bool) :
    (x.put j farewell).job? farewell = some j := by
  cases farewell <;> rfl

theorem job?_put_other (x : Attendant) (j : Job) {farewell other : Bool} (ne : other ≠ farewell) :
    (x.put j farewell).job? other = x.job? other := by
  cases farewell <;> cases other <;> first | rfl | exact absurd rfl ne

@[simp] theorem put_peer (x : Attendant) (j : Job) (farewell : Bool) :
    (x.put j farewell).peer = x.peer := by
  cases farewell <;> rfl

@[simp] theorem put_line (x : Attendant) (j : Job) (farewell : Bool) :
    (x.put j farewell).line = x.line := by
  cases farewell <;> rfl

/-- Where the job of a hand comes from. -/
inductive Handed (s : Staff) (entry : Option Entry) (h : Hand) (y : Attendant) (j : Job) : Prop
  | kept {x : Attendant} (attends : s.attendants[h.attendant]? = some x) (peer : y.peer = x.peer)
      (job : x.job? h.farewell = some j)
  /-- The work on another event begins. -/
  | fresh (sanctioned : ∀ may, j.Sanctioned y.peer (!h.farewell) may)
  /-- The job was continued by an action. -/
  | acted {x : Attendant} {j₀ : Job} {action : Action} {registry : Registry}
      (done : entry = some ⟨h, action⟩) (attends : s.attendants[h.attendant]? = some x)
      (peer : y.peer = x.peer) (job : x.job? h.farewell = some j₀)
      (does : j₀.action? s.hub.registry = some action)
      (step : j₀.step? s.hub.registry = some (j, registry, action.emission?))

theorem Moved.handed (moved : s.Moved entry s') (attends : s'.attendants[h.attendant]? = some y)
    (job : y.job? h.farewell = some j) : s.Handed entry h y j := by
  obtain ⟨i, farewell⟩ := h
  cases moved with
  | idle => exact .kept attends rfl job
  | @accepted p events fresh =>
    rcases getElem?_concat_cases attends with ⟨-, there⟩ | ⟨-, rfl⟩
    · exact .kept there rfl job
    · cases farewell with
      | false =>
        cases job
        exact .fresh fun _ => trivial
      | true => cases job
  | @acted h₀ x₀ _ _ _ _ attends₀ job₀ does step =>
    rcases getElem?_set_cases attends with ⟨rfl, rfl⟩ | ⟨-, attends⟩
    · by_cases same : farewell = h₀.farewell
      · subst same
        cases (job?_put x₀ _ _).symm.trans job
        exact .acted rfl attends₀ (put_peer ..) job₀ does step
      · exact .kept attends₀ (put_peer ..) ((job?_put_other x₀ _ same).symm.trans job)
    · exact .kept attends rfl job
  | began attends₀ free =>
    rcases getElem?_set_cases attends with ⟨rfl, rfl⟩ | ⟨-, attends⟩
    · cases farewell with
      | false =>
        cases job
        exact .fresh fun _ => Job.ofSignal_sanctioned ..
      | true => exact .kept attends₀ rfl job
    · exact .kept attends rfl job
  | hungUp attends₀ =>
    rcases getElem?_set_cases attends with ⟨rfl, rfl⟩ | ⟨-, attends⟩
    · cases farewell with
      | false => exact .kept attends₀ rfl job
      | true => cases job
    · exact .kept attends rfl job
  | forgotten attends₀ =>
    rcases getElem?_set_cases attends with ⟨rfl, rfl⟩ | ⟨-, attends⟩
    · cases farewell with
      | false => exact .kept attends₀ rfl job
      | true =>
        cases job
        exact .fresh fun _ => Job.ofDisconnect_sanctioned _
    · exact .kept attends rfl job

/-- An attendant stays with its peer and its line. -/
theorem Moved.stays (moved : s.Moved entry s') (attends : s.attendants[i]? = some x) :
    ∃ y, s'.attendants[i]? = some y ∧ y.peer = x.peer ∧ y.line = x.line := by
  have set {k : Nat} {z z' : Attendant} (there : s.attendants[k]? = some z)
      (peer : z'.peer = z.peer) (line : z'.line = z.line) :
      ∃ y, (s.attendants.set k z')[i]? = some y ∧ y.peer = x.peer ∧ y.line = x.line := by
    by_cases same : k = i
    · subst same
      cases there.symm.trans attends
      exact ⟨z', getElem?_set_same there, peer, line⟩
    · exact ⟨x, (List.getElem?_set_ne same).trans attends, rfl, rfl⟩
  cases moved with
  | idle => exact ⟨x, attends, rfl, rfl⟩
  | accepted =>
    obtain ⟨lt, -⟩ := List.getElem?_eq_some_iff.mp attends
    exact ⟨x, (List.getElem?_append_left lt).trans attends, rfl, rfl⟩
  | acted attends₀ => exact set attends₀ (put_peer ..) (put_line ..)
  | began attends₀ | hungUp attends₀ | forgotten attends₀ => exact set attends₀ rfl rfl

/-- A hand that is about to emit something does so next. -/
theorem Moved.emits (moved : s.Moved entry s') (attends : s.attendants[h.attendant]? = some x)
    {e : Emission} {rest : Job} (job : x.job? h.farewell = some (.emit e rest)) :
    entry = some ⟨h, .emitted e⟩ ∨ (∀ other, entry = some other → other.hand ≠ h) ∧
      ∃ y, s'.attendants[h.attendant]? = some y ∧ y.peer = x.peer ∧
        y.job? h.farewell = some (.emit e rest) := by
  obtain ⟨i, farewell⟩ := h
  have unset {k : Nat} {z z' : Attendant} (there : s.attendants[k]? = some z)
      (peer : z'.peer = z.peer)
      (same : k = i → z'.job? farewell = z.job? farewell) :
      ∃ y, (s.attendants.set k z')[i]? = some y ∧ y.peer = x.peer ∧
        y.job? farewell = some (.emit e rest) := by
    by_cases here : k = i
    · subst here
      cases there.symm.trans attends
      exact ⟨z', getElem?_set_same there, peer, (same rfl).trans job⟩
    · exact ⟨x, (List.getElem?_set_ne here).trans attends, rfl, job⟩
  cases moved with
  | idle => exact .inr ⟨nofun, x, attends, rfl, job⟩
  | accepted =>
    obtain ⟨lt, -⟩ := List.getElem?_eq_some_iff.mp attends
    exact .inr ⟨nofun, x, (List.getElem?_append_left lt).trans attends, rfl, job⟩
  | @acted h₀ x₀ j₀ _ action _ attends₀ job₀ does step =>
    by_cases same : h₀ = ⟨i, farewell⟩
    · subst same
      cases attends₀.symm.trans attends
      cases job₀.symm.trans job
      cases does
      exact .inl rfl
    · refine .inr ⟨fun other done => by cases done; exact same, ?_⟩
      refine unset attends₀ (put_peer ..) fun here => ?_
      exact job?_put_other x₀ _ fun hand => same (by cases h₀; cases here; cases hand; rfl)
  | began attends₀ free =>
    refine .inr ⟨nofun, unset attends₀ rfl fun here => ?_⟩
    subst here
    cases attends₀.symm.trans attends
    cases farewell with
    | false => cases free.symm.trans (Option.some.inj job)
    | true => rfl
  | hungUp attends₀ stands =>
    refine .inr ⟨nofun, unset attends₀ rfl fun here => ?_⟩
    subst here
    cases farewell with
    | false => rfl
    | true => simp [Attendant.job?, stands]
  | forgotten attends₀ begun =>
    refine .inr ⟨nofun, unset attends₀ rfl fun here => ?_⟩
    subst here
    cases attends₀.symm.trans attends
    cases farewell with
    | false => rfl
    | true => simp [Attendant.job?, begun] at job

/-! ## Who is in a room -/

/-- The peer was put into the room and has not left it since. -/
def Inserted (log : List Entry) (p : PeerId) (r : RoomId) : Prop :=
  ∃ earlier h n existing since, log = earlier ++ ⟨h, .joined r p (.joined n existing)⟩ :: since ∧
    ∀ entry ∈ since, ∀ outcome, entry.action ≠ .left r p outcome

/-- Whoever is in a room was put into it before, and so was whoever was found in one. -/
structure Traced (g : Registry) (log : List Entry) : Prop where
  tidy : g.Tidy
  inserted : ∀ p r, p ∈ g.members r → Inserted log p r
  named : ∀ before entry after p r, log = before ++ entry :: after → entry.action.names r p →
    Inserted before p r

theorem Inserted.snoc (inserted : Inserted log p r) {e : Entry}
    (stays : ∀ outcome, e.action ≠ .left r p outcome) : Inserted (log ++ [e]) p r := by
  obtain ⟨earlier, h, n, existing, since, rfl, lasting⟩ := inserted
  refine ⟨earlier, h, n, existing, since ++ [e], by simp, fun entry mem => ?_⟩
  rcases List.mem_append.mp mem with mem | mem
  · exact lasting entry mem
  · rw [List.mem_singleton.mp mem]
    exact stays

theorem Traced.act (traced : Traced s.hub.registry log) {action : Action} {registry : Registry}
    {j' : Job} (does : j.action? s.hub.registry = some action)
    (step : j.step? s.hub.registry = some (j', registry, action.emission?)) (h : Hand) :
    Traced registry (log ++ [⟨h, action⟩]) := by
  obtain ⟨tidy, members, names⟩ := Job.step_members traced.tidy does step
  refine ⟨tidy, fun p r mem => ?_, fun before entry after p r split named => ?_⟩
  · rcases members p r mem with ⟨before, stays⟩ | ⟨n, existing, rfl⟩
    · exact (traced.inserted p r before).snoc stays
    · exact ⟨log, h, n, existing, [], rfl, nofun⟩
  · rcases split_toList (show log ++ (some ⟨h, action⟩ : Option Entry).toList = _ from split) with
      ⟨same, rfl, -⟩ | ⟨after', -, split⟩
    · cases same
      exact traced.inserted p r (names p r named)
    · exact traced.named before entry after' p r split named

theorem Moved.traced (moved : s.Moved entry s') (traced : Traced s.hub.registry log) :
    Traced s'.hub.registry (log ++ entry.toList) := by
  cases moved with
  | acted _ _ does step => exact traced.act does step _
  | idle | accepted | began | hungUp | forgotten =>
    rw [Option.toList_none, List.append_nil]
    exact traced

/-! ## What is emitted -/

/-- Attendants move their own peers only, and put them into rooms with one hand only; and what their
hands emit, and may emit yet, follows from what those hands have found. -/
structure Loyal (s : Staff) (log : List Entry) : Prop where
  sanctioned : ∀ (h : Hand) (x : Attendant) (j : Job), s.attendants[h.attendant]? = some x →
    x.job? h.farewell = some j →
    j.Sanctioned x.peer (!h.farewell) fun e =>
      ∃ entry ∈ log, entry.hand = h ∧ entry.action.allows e
  allowed : ∀ before h e after, log = before ++ ⟨h, .emitted e⟩ :: after →
    ∃ entry ∈ before, entry.hand = h ∧ entry.action.allows e
  own : ∀ entry ∈ log, ∃ x, s.attendants[entry.hand.attendant]? = some x ∧
    ∀ q, entry.action.subject? = some q → q = x.peer
  joins : ∀ entry ∈ log, ∀ r p outcome, entry.action = .joined r p outcome →
    entry.hand.farewell = false

theorem Moved.loyal (moved : s.Moved entry s') (loyal : s.Loyal log) :
    s'.Loyal (log ++ entry.toList) where
  sanctioned h y j attends job := by
    cases moved.handed attends job with
    | kept attends peer job =>
      rw [peer]
      refine (loyal.sanctioned h _ j attends job).mono fun e ⟨entry, mem, rest⟩ => ?_
      exact ⟨entry, List.mem_append_left _ mem, rest⟩
    | fresh sanctioned => exact sanctioned _
    | @acted _ _ action _ done attends peer job does step =>
      obtain ⟨next, -⟩ := (loyal.sanctioned h _ _ attends job).step does step
      rw [peer]
      refine next.mono fun e may => ?_
      rcases may with ⟨entry, mem, rest⟩ | allows
      · exact ⟨entry, List.mem_append_left _ mem, rest⟩
      · exact ⟨⟨h, action⟩, List.mem_append_right _ (by simp [done]), rfl, allows⟩
  allowed before h e after split := by
    rcases split_toList split with ⟨rfl, rfl, -⟩ | ⟨after', -, split⟩
    · cases moved with
      | acted attends job does step =>
        exact ((loyal.sanctioned h _ _ attends job).step does step).2.1 e rfl
    · exact loyal.allowed before h e after' split
  own e mem := by
    rcases List.mem_append.mp mem with mem | mem
    · obtain ⟨x, attends, own⟩ := loyal.own e mem
      obtain ⟨y, attends', peer, -⟩ := moved.stays attends
      exact ⟨y, attends', fun q subject => (own q subject).trans peer.symm⟩
    · obtain rfl : entry = some e := by simpa using mem
      cases moved with
      | acted attends job does step =>
        refine ⟨_, getElem?_set_same attends, fun q subject => ?_⟩
        rw [put_peer]
        exact ((loyal.sanctioned _ _ _ attends job).step does step).2.2.1 q subject
  joins e mem r p outcome joined := by
    rcases List.mem_append.mp mem with mem | mem
    · exact loyal.joins e mem r p outcome joined
    · obtain rfl : entry = some e := by simpa using mem
      cases moved with
      | acted attends job does step =>
        obtain ⟨-, -, -, next⟩ := (loyal.sanctioned _ _ _ attends job).step does step
        simpa using (next r p outcome joined).1

/-! ## What is said to newcomers -/

/-- A hand does nothing in these entries. -/
def Absent (h : Hand) (entries : List Entry) : Prop := ∀ entry ∈ entries, entry.hand ≠ h

/-- The first that a hand does in these entries is to tell the peer that it is in the room. -/
def Announces (h : Hand) (p : PeerId) (r : RoomId) (entries : List Entry) : Prop :=
  ∃ idle rest, entries = idle ++ ⟨h, .emitted ⟨p, .joined r p⟩⟩ :: rest ∧ Absent h idle

/-- A hand that has put a peer into a room has told it so next, or is about to. -/
def Prompt (s : Staff) (log : List Entry) : Prop :=
  ∀ earlier h r p n existing since,
    log = earlier ++ ⟨h, .joined r p (.joined n existing)⟩ :: since →
      Announces h p r since ∨ Absent h since ∧ ∃ x rest, s.attendants[h.attendant]? = some x ∧
        x.job? h.farewell = some (.emit ⟨p, .joined r p⟩ rest)

theorem announces_append {entries more : List Entry} : Announces h p r (entries ++ more) ↔
    Announces h p r entries ∨ Absent h entries ∧ Announces h p r more := by
  constructor
  · rintro ⟨idle, rest, split, absent⟩
    rcases append_eq_split.mp split with ⟨between, rfl, rfl⟩ | ⟨between, rfl, rfl⟩
    · have absent := List.forall_mem_append.mp absent
      exact .inr ⟨absent.1, between, rest, rfl, absent.2⟩
    · exact .inl ⟨idle, between, rfl, absent⟩
  · rintro (⟨idle, rest, rfl, absent⟩ | ⟨absent, idle, rest, rfl, absent'⟩)
    · exact ⟨idle, rest ++ more, by simp, absent⟩
    · exact ⟨entries ++ idle, rest, by simp, List.forall_mem_append.mpr ⟨absent, absent'⟩⟩

theorem Moved.prompt (moved : s.Moved entry s') (loyal : s.Loyal log) (prompt : s.Prompt log) :
    s'.Prompt (log ++ entry.toList) := by
  intro earlier h r p n existing since split
  rcases split_toList split with ⟨rfl, rfl, rfl⟩ | ⟨since, rfl, before⟩
  · -- The peer has just been put into the room.
    cases moved with
    | acted attends job does step =>
      obtain ⟨-, -, own, next⟩ := (loyal.sanctioned h _ _ attends job).step does step
      obtain ⟨rest, rfl⟩ := (next r p _ rfl).2 n existing rfl
      rw [← own p rfl]
      exact .inr ⟨nofun, _, rest, getElem?_set_same attends, job?_put ..⟩
  · rcases prompt earlier h r p n existing since before with told | ⟨absent, x, rest, attends, job⟩
    · exact .inl (announces_append.mpr (.inl told))
    · rcases moved.emits attends job with rfl | ⟨other, y, attends', -, job'⟩
      · exact .inl ⟨since, [], rfl, absent⟩
      · refine .inr ⟨List.forall_mem_append.mpr ⟨absent, fun e mem => ?_⟩, y, rest, attends', job'⟩
        exact other e (by simpa using mem)

/-! ## Runs -/

theorem run_append (s : Staff) (moves more : List Move) :
    s.run (moves ++ more) = (s.run moves).run more := List.foldl_append

theorem chronicle_append (s : Staff) (moves more : List Move) :
    s.chronicle (moves ++ more) = s.chronicle moves ++ (s.run moves).chronicle more := by
  induction moves generalizing s with
  | nil => rfl
  | cons first rest ih =>
    rw [List.cons_append, chronicle, ih, chronicle, List.append_assoc]
    rfl

theorem chronicle_snoc (s : Staff) (moves : List Move) (m : Move) :
    s.chronicle (moves ++ [m]) = s.chronicle moves ++ ((s.run moves).done? m).toList := by
  rw [chronicle_append]
  simp [chronicle]

theorem run_snoc (s : Staff) (moves : List Move) (m : Move) :
    s.run (moves ++ [m]) = (s.run moves).move m := by
  simp [run]

/-- What holds of a hub and its chronicle at any time. -/
structure Chronicled (s : Staff) (log : List Entry) : Prop where
  traced : Traced s.hub.registry log
  loyal : s.Loyal log
  prompt : s.Prompt log

theorem chronicled_run (capacity : Nat) (moves : List Move) :
    ((empty capacity).run moves).Chronicled ((empty capacity).chronicle moves) := by
  induction moves using List.reverseRecOn with
  | nil =>
    have nobody : ∀ p r, p ∉ (Registry.empty capacity).members r := nofun
    refine ⟨⟨.empty capacity, fun p r mem => absurd mem (nobody p r), ?_⟩, ⟨nofun, ?_, nofun, nofun⟩, ?_⟩
    · intro before entry after p r split
      simp [chronicle] at split
    · intro before h e after split
      simp [chronicle] at split
    · intro earlier h r p n existing since split
      simp [chronicle] at split
  | append_singleton moves m ih =>
    rw [run_snoc, chronicle_snoc]
    have moved := move_moved ((empty capacity).run moves) m
    exact ⟨moved.traced ih.traced, moved.loyal ih.loyal, moved.prompt ih.loyal ih.prompt⟩

end Staff

end Parley
