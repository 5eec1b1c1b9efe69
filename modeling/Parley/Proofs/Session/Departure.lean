import Parley.Proofs.Session.Sound

/-!
# Counterparts that have left

A session tears its negotiation down when its counterpart leaves. A `bye` preempts, an `otherJoin`
waits while something is pending; so a `bye` can be handled before the `otherJoin` of the same peer,
which is still in the backlog. When the turn of that `otherJoin` comes, the session binds a peer
that is gone, and no further `bye` will release it.

`counterpart_departed_iff_overtaken` says that this is the only way: as long as what the session
hears is in the order of the relay, its counterpart is gone exactly if the `bye` overtook an
`otherJoin` in the backlog. `Tracked` is the invariant. It has to speak of the backlog too, since an
`otherJoin` in there is a counterpart to be.
-/

namespace Parley

/-! ## What a session hears -/

/-- An input that a session took, and the inputs that waited in its backlog at that moment. -/
structure Heard where
  input : SessionInput
  waiting : List SessionInput

namespace Heard

/-- Whether a peer came into a room or left it, if that is what was heard. -/
def coming? (room : RoomId) (x : PeerId) (h : Heard) : Option Bool :=
  match h.input with
  | .server (.otherJoin r y) => if r = room ∧ y = x then some true else none
  | .server (.bye r y) => if r = room ∧ y = x then some false else none
  | _ => none

/-- When a peer came and when it left, in order. -/
def comings (room : RoomId) (x : PeerId) (log : List Heard) : List Bool :=
  log.filterMap (coming? room x)

/-- A peer has left and did not come back. -/
def Departed (room : RoomId) (x : PeerId) (log : List Heard) : Prop :=
  (comings room x log).getLast? = some false

/-- A peer has left and did not come back, and its `bye` was taken while an `otherJoin` of the same
peer waited in the backlog. -/
def Overtaken (room : RoomId) (x : PeerId) (log : List Heard) : Prop :=
  ∃ before waiting after, log = before ++ ⟨.server (.bye room x), waiting⟩ :: after ∧
    .server (.otherJoin room x) ∈ waiting ∧ comings room x after = []

/-- The order in which a relay tells a member of a room about the others: a peer comes and leaves by
turns, and between leaving and coming it sends nothing. -/
structure RelayOrder (room : RoomId) (log : List Heard) : Prop where
  alternate : ∀ x, (comings room x log).IsChain (· ≠ ·)
  silent : ∀ x data before waiting after,
    log = before ++ ⟨.server (.message room x data), waiting⟩ :: after → ¬ Departed room x before

variable {room : RoomId} {x : PeerId} {log : List Heard} {h : Heard}

/-- An input is nothing to a peer, or the peer comes, or it leaves. -/
theorem coming?_cases (room : RoomId) (x : PeerId) (i : SessionInput) (waiting : List SessionInput) :
    coming? room x ⟨i, waiting⟩ = none ∨ i = .server (.otherJoin room x) ∨
      i = .server (.bye room x) := by
  unfold coming?
  split
  case h_1 r y hi =>
    by_cases same : r = room ∧ y = x
    · exact .inr (.inl (by rw [← same.1, ← same.2]; exact hi))
    · exact .inl (if_neg same)
  case h_2 r y hi =>
    by_cases same : r = room ∧ y = x
    · exact .inr (.inr (by rw [← same.1, ← same.2]; exact hi))
    · exact .inl (if_neg same)
  case h_3 => exact .inl rfl

theorem comings_snoc (room : RoomId) (x : PeerId) (log : List Heard) (h : Heard) :
    comings room x (log ++ [h]) = comings room x log ++ (coming? room x h).toList := by
  cases hc : coming? room x h <;> simp [comings, hc]

/-- What is no coming or going of a peer changes nothing about its departure. -/
theorem departed_snoc (other : coming? room x h = none) :
    Departed room x (log ++ [h]) ↔ Departed room x log := by
  simp [Departed, comings_snoc, other]

theorem not_departed_coming {waiting : List SessionInput} :
    ¬ Departed room x (log ++ [⟨.server (.otherJoin room x), waiting⟩]) := by
  simp [Departed, comings_snoc, coming?]

theorem Overtaken.snoc (overtaken : Overtaken room x log) (other : coming? room x h = none) :
    Overtaken room x (log ++ [h]) := by
  obtain ⟨before, waiting, after, rfl, queued, still⟩ := overtaken
  refine ⟨before, waiting, after ++ [h], by simp, queued, ?_⟩
  rw [comings_snoc, still, other]
  rfl

/-- Whoever was overtaken is gone. -/
theorem Overtaken.departed (overtaken : Overtaken room x log) : Departed room x log := by
  obtain ⟨before, waiting, after, rfl, -, still⟩ := overtaken
  have split : comings room x (before ++ ⟨.server (.bye room x), waiting⟩ :: after) =
      comings room x before ++ false :: comings room x after := by
    simp [comings, coming?]
  simp [Departed, split, still]

end Heard

namespace Runner

/-- The input that a move puts into the inbox of a session that still runs. -/
def arrival (p : Runner) : Move → Option SessionInput
  | .deliver e => some (.server e)
  | .act .leave => some .leave
  | .act .exit => some .exit
  | .act .rejoin => some .rejoin
  | .act .linkLost => some .linkLost
  | .act (.report e event) => (p.actor.engines[e]?).map (.engine · event)
  | _ => none

/-- What a session takes from its inbox in a move. -/
def hears (p : Runner) : Move → Option Heard
  | .act .takeInput => if p.finished then none else p.inbox.head?.map (⟨·, p.actor.backlog⟩)
  | _ => none

/-- What a session takes from its inbox in a run. -/
def log (a : Answers) (p : Runner) : List Move → List Heard
  | [] => []
  | m :: rest => (p.hears m).toList ++ (p.move a m).log a rest

variable {p : Runner} {m : Act}

theorem hears_of_ne (other : m ≠ .takeInput) : p.hears (.act m) = none := by
  cases m with
  | takeInput => exact absurd rfl other
  | _ => rfl

theorem hears_of_idle (nothing : m = .takeInput → p.finished = true ∨ p.inbox = []) :
    p.hears (.act m) = none := by
  by_cases take : m = .takeInput
  · subst take
    rcases nothing rfl with ended | empty <;> simp [hears, *]
  · exact hears_of_ne take

theorem hears_takeInput {i : SessionInput} {rest : List SessionInput} (next : p.inbox = i :: rest)
    (running : p.finished = false) :
    p.hears (.act .takeInput) = some ⟨i, p.actor.backlog⟩ := by
  simp [hears, next, running]

end Runner

/-! ## What binds a counterpart -/

namespace Actor

variable {a : Answers} {s t : Actor} {i : SessionInput} {x : PeerId}

/-- A counterpart was one before and is not leaving, or it is just coming, or it sent a description
to an engine that was bound to nobody. -/
theorem Handled.counterpart (turn : Handled a s i t) (sound : s.Sound)
    (bound : t.counterpart = some x) :
    (s.counterpart = some x ∧ i ≠ .server (.bye s.room x)) ∨
      i = .server (.otherJoin s.room x) ∨
      ∃ data, i = .server (.message s.room x data) ∧ s.engine ≠ none ∧ s.counterpart = none := by
  cases turn with
  | ignored ignores =>
    refine .inl ⟨bound, ?_⟩
    rintro rfl
    rcases ignores with foreign | outside | elsewhere
    · exact foreign rfl
    · have alone : s.engine = none := sound.resting (by
        cases hs : s.state <;> simp [hs, SessionState.inRoom] at outside ⊢)
      rw [(sound.idle alone).1] at bound
      cases bound
    · simp [boundElsewhere, bound] at elsewhere
  | staleReply reply => exact .inl ⟨bound, by rcases reply with rfl | rfl <;> simp⟩
  | admitted _ init _ engine =>
    have unbound := (sound.idle (sound.resting (.inl init))).1
    have same : s.counterpart = some x := by rcases engine with rfl | rfl <;> exact bound
    rw [unbound] at same
    cases same
  | offered =>
    cases bound
    exact .inr (.inl rfl)
  | unequipped => exact .inl ⟨bound, by simp⟩
  | unbound => cases bound
  | dismissed => cases bound
  | lost => cases bound
  | @tookOffer _ data _ _ _ free engine =>
    cases bound
    cases hc : s.counterpart with
    | none => exact .inr (.inr ⟨data, rfl, by simp [engine], rfl⟩)
    | some c =>
      have : c = x := by simpa [boundElsewhere, hc] using free
      exact .inl ⟨by rw [this], by simp⟩
  | @tookAnswer p data _ _ _ free engine =>
    cases hc : s.counterpart with
    | none =>
      have : p = x := by simpa [answered, hc] using bound
      exact .inr (.inr ⟨data, by rw [this], by simp [engine], rfl⟩)
    | some c =>
      have : c = x := by simpa [answered, hc] using bound
      exact .inl ⟨by rw [this], by simp⟩
  | refused => exact .inl ⟨bound, by simp⟩
  | remoteCandidate => exact .inl ⟨bound, by simp⟩
  | localCandidate => exact .inl ⟨bound, by simp⟩
  | remoteTrack => exact .inl ⟨bound, by simp⟩
  | left => cases bound
  | unprovided => exact .inl ⟨bound, by simp⟩
  | rejoined => exact .inl ⟨bound, by simp⟩

/-! ## The invariant -/

open Heard

/-- A peer that is the counterpart, or that an `otherJoin` in the backlog is about, is gone only if
it was overtaken. -/
structure Tracked (s : Actor) (log : List Heard) : Prop where
  bound : ∀ x, s.counterpart = some x → Departed s.room x log → Overtaken s.room x log
  queued : ∀ x, .server (.otherJoin s.room x) ∈ s.backlog →
    Departed s.room x log → Overtaken s.room x log

variable {log : List Heard}

/-- A handled input binds nobody that is gone, unless it is the input of somebody that is gone. -/
theorem Tracked.handled (sound : s.Sound) (turn : Handled a s i t)
    (bound : ∀ x, s.counterpart = some x → i ≠ .server (.bye s.room x) →
      Departed s.room x log → Overtaken s.room x log)
    (queued : ∀ x, .server (.otherJoin s.room x) ∈ s.backlog →
      Departed s.room x log → Overtaken s.room x log)
    (coming : ∀ x, i = .server (.otherJoin s.room x) →
      Departed s.room x log → Overtaken s.room x log)
    (sending : ∀ x data, i = .server (.message s.room x data) → s.engine ≠ none →
      s.counterpart = none → ¬ Departed s.room x log) : t.Tracked log := by
  have room := turn.room
  constructor
  · intro x now gone
    rw [room] at gone ⊢
    -- One case for each way to become a counterpart.
    rcases turn.counterpart sound now with ⟨before, other⟩ | new | ⟨data, sent, engine, unbound⟩
    · exact bound x before other gone
    · exact coming x new gone
    · exact absurd gone (sending x data sent engine unbound)
  · intro x mem gone
    rw [room] at mem gone ⊢
    rcases turn.backlog with same | empty
    · exact queued x (same ▸ mem) gone
    · rw [empty] at mem
      cases mem

theorem Tracked.drain (h : s.Tracked log) (sound : s.Sound) : (s.drain a).Tracked log := by
  refine Sound.drain_induction (P := fun t => t.Tracked log)
    (fun t i rest u sound h _ hb popped turn => ?_) sound h
  have waited : ∀ j, j = i ∨ j ∈ rest → j ∈ t.backlog := fun j hj => by simpa [hb] using hj
  apply Tracked.handled popped turn
  · exact fun x bound _ => h.bound x bound
  · exact fun x mem => h.queued x (waited _ (.inr mem))
  · exact fun x hi => h.queued x (waited _ (.inl hi.symm))
  · -- While something waits, there is no engine that is bound to nobody.
    intro x data _ engine unbound
    exact absurd unbound ((sound.waiting (by simp [hb])).2 engine)

/-- An input that is heard keeps track of the counterpart, if it is not the message of a peer that
is gone. The `bye` of a peer whose `otherJoin` waits is what an overtaking is. -/
theorem Tracked.handleInput (h : s.Tracked log) (sound : s.Sound)
    (silent : ∀ x data, i = .server (.message s.room x data) → ¬ Departed s.room x log) :
    (s.handleInput a i).Tracked (log ++ [⟨i, s.backlog⟩]) := by
  have bound : ∀ x, s.counterpart = some x → i ≠ .server (.bye s.room x) →
      Departed s.room x (log ++ [⟨i, s.backlog⟩]) →
      Overtaken s.room x (log ++ [⟨i, s.backlog⟩]) := by
    intro x bound other gone
    rcases coming?_cases s.room x i s.backlog with rest | rfl | rfl
    · exact (h.bound x bound ((departed_snoc rest).mp gone)).snoc rest
    · exact absurd gone not_departed_coming
    · exact absurd rfl other
  have queued : ∀ x, .server (.otherJoin s.room x) ∈ s.backlog →
      Departed s.room x (log ++ [⟨i, s.backlog⟩]) →
      Overtaken s.room x (log ++ [⟨i, s.backlog⟩]) := by
    intro x mem gone
    -- The last case is where an overtaking happens.
    rcases coming?_cases s.room x i s.backlog with rest | rfl | rfl
    · exact (h.queued x mem ((departed_snoc rest).mp gone)).snoc rest
    · exact absurd gone not_departed_coming
    · exact ⟨log, s.backlog, [], rfl, mem, rfl⟩
  have coming : ∀ x, i = .server (.otherJoin s.room x) →
      ¬ Departed s.room x (log ++ [⟨i, s.backlog⟩]) := by
    rintro x rfl
    exact not_departed_coming
  unfold Actor.handleInput
  split
  case isTrue busy =>
    have later : i.preempts = false := by
      simp only [Bool.and_eq_true, Bool.not_eq_true'] at busy
      exact busy.2
    constructor
    · exact fun x now => bound x now (by rintro rfl; cases later)
    · intro x mem gone
      rcases List.mem_append.mp mem with mem | new
      · exact queued x mem gone
      · exact absurd gone (coming x (List.mem_singleton.mp new).symm)
  case isFalse =>
    apply Tracked.drain _ (sound.dispatch a i)
    apply Tracked.handled sound (dispatch_handled a s i) bound queued
    · exact fun x hi gone => absurd gone (coming x hi)
    · rintro x data rfl - - gone
      exact silent x data rfl ((departed_snoc rfl).mp gone)

theorem Tracked.complete (h : s.Tracked log) (sound : s.Sound) {c : Completion}
    (bound : c.generation = s.generation → s.counterpart ≠ none) :
    (s.complete a c).Tracked log := by
  by_cases current : c.generation = s.generation
  · rw [complete_of_current current]
    refine Tracked.drain ?_ (sound.applied (bound current) a c)
    refine applied_induction (P := fun t => t.Tracked log) { h with } fun d t _ published => ?_
    cases published <;> exact { h with }
  · rw [complete_of_old current]
    exact h

end Actor

/-! ## Runs -/

namespace Runner

open Heard

variable {a : Answers} {p : Runner} {log : List Heard}

theorem acted_tracked {q : Runner} {m : Act} (sound : p.Sound) (h : p.actor.Tracked log)
    (silent : ∀ x data waiting,
      p.hears (.act m) = some ⟨.server (.message p.actor.room x data), waiting⟩ →
        ¬ Departed p.actor.room x log)
    (done : Acted a p m q) : q.actor.Tracked (log ++ (p.hears (.act m)).toList) := by
  cases done with
  | pushed taken =>
    simpa [hears_of_ne taken] using h
  | handleDropped => simpa [hears, dropHandle] using h
  | idle nothing =>
    simpa [hears_of_idle nothing] using h
  | created =>
    simp only [hears, Option.toList_none, List.append_nil]
    exact { h with }
  | @tookInput i rest next running =>
    rw [hears_takeInput next running] at silent ⊢
    rw [endIfLeaved_actor]
    apply h.handleInput sound.actor
    rintro x data rfl
    exact silent x data _ rfl
  | @tookResult c rest next =>
    simp only [hears, Option.toList_none, List.append_nil, endIfLeaved_actor]
    exact h.complete sound.actor (sound.bound next)
  | abandoned _ _ running =>
    simp only [hears, Option.toList_none, List.append_nil, endIfLeaved_actor]
    rw [Actor.leave_eq (sound.alive running)]
    exact ⟨nofun, nofun⟩

/-- A session keeps track of its counterpart in every move in which it hears no peer that is gone. -/
theorem move_tracked (sound : p.Sound) (h : p.actor.Tracked log) (m : Move)
    (silent : ∀ x data waiting,
      p.hears m = some ⟨.server (.message p.actor.room x data), waiting⟩ →
        ¬ Departed p.actor.room x log) :
    (p.move a m).actor.Tracked (log ++ (p.hears m).toList) := by
  cases m with
  | act m => exact acted_tracked sound h silent (act_acted a p m)
  | deliver e => simpa [hears, move] using h
  | _ =>
    simp only [hears, Option.toList_none, List.append_nil]
    exact { h with }

/-- The same over a run, behind whatever was heard before it. -/
theorem run_tracked (sound : p.Sound) (h : p.actor.Tracked log) (moves : List Move)
    (silent : ∀ x data before waiting after, log ++ p.log a moves =
      before ++ ⟨.server (.message p.actor.room x data), waiting⟩ :: after →
        ¬ Departed p.actor.room x before) :
    (p.run a moves).actor.Tracked (log ++ p.log a moves) := by
  -- What was heard before grows by what is heard in the first move.
  induction moves generalizing p log with
  | nil => simpa [Runner.log, run] using h
  | cons m rest ih =>
    have next := move_tracked (a := a) sound h m (by
      intro x data waiting heard
      exact silent x data log waiting ((p.move a m).log a rest) (by simp [Runner.log, heard]))
    have split : log ++ p.log a (m :: rest) =
        (log ++ (p.hears m).toList) ++ (p.move a m).log a rest := by simp [Runner.log]
    rw [split] at silent ⊢
    rw [← move_room a p m] at silent
    exact ih (sound.move m) next silent

/-- While what a session hears is in the order of the relay, its counterpart is gone exactly if it
was overtaken: its `bye` was taken while its `otherJoin` waited. -/
theorem counterpart_departed_iff_overtaken {r : RoomId} (reachable : Reachable a r p)
    (outside : p.actor.state = .init) (moves : List Move)
    (order : RelayOrder p.actor.room (p.log a moves)) {x : PeerId}
    (bound : (p.run a moves).actor.counterpart = some x) :
    Departed p.actor.room x (p.log a moves) ↔ Overtaken p.actor.room x (p.log a moves) := by
  have sound := reachable.sound
  have unbound := (sound.actor.idle (sound.actor.resting (.inl outside))).1
  have empty := sound.actor.nothing_waits (by rw [outside]; rfl)
  have start : p.actor.Tracked [] := ⟨by simp [unbound], by simp [empty]⟩
  have tracked := run_tracked sound start moves order.silent
  have room : (p.run a moves).actor.room = p.actor.room := run_room a p moves
  constructor
  · intro gone
    rw [← room] at gone ⊢
    exact tracked.bound x bound gone
  · exact Overtaken.departed

/-! ## A short visit -/

/-- What a session hears: `a` comes, then `b` comes and goes, and then `a` goes. -/
def shortVisit : List ServerEvent :=
  let r : RoomId := ⟨"r"⟩
  [.joined r ⟨"me"⟩, .otherJoin r ⟨"a"⟩, .otherJoin r ⟨"b"⟩, .bye r ⟨"b"⟩, .bye r ⟨"a"⟩]

/-- The session takes all of it while the offer to `a` is being created. Then the offer that it
began next is created and sent. -/
def shortVisitMoves : List Move :=
  shortVisit.flatMap (fun e => [.deliver e, .act .takeInput]) ++
    [.act (.finishCreation 1 (some ⟨.offer, "v=0"⟩)), .act .takeResult]

/-- The `otherJoin` of `b` waits until the end. -/
theorem log_shortVisit :
    (Runner.start .obliging ⟨"r"⟩ .fresh).log .obliging shortVisitMoves =
      (shortVisit.zip [[], [], [], [.server (.otherJoin ⟨"r"⟩ ⟨"b"⟩)],
        [.server (.otherJoin ⟨"r"⟩ ⟨"b"⟩)]]).map fun (e, waiting) => ⟨.server e, waiting⟩ :=
  rfl

theorem relayOrder_shortVisit :
    RelayOrder ⟨"r"⟩ ((Runner.start .obliging ⟨"r"⟩ .fresh).log .obliging shortVisitMoves) := by
  rw [log_shortVisit]
  constructor
  · intro x
    by_cases ha : (⟨"a"⟩ : PeerId) = x
    · subst ha
      show [true, false].IsChain (· ≠ ·)
      decide
    · by_cases hb : (⟨"b"⟩ : PeerId) = x
      · subst hb
        show [true, false].IsChain (· ≠ ·)
        decide
      · simp [comings, coming?, shortVisit, List.filterMap_cons, ha, hb]
  · intro x data before waiting after split
    have mem : (⟨.server (.message ⟨"r"⟩ x data), waiting⟩ : Heard) ∈
        before ++ ⟨.server (.message ⟨"r"⟩ x data), waiting⟩ :: after := by simp
    rw [← split] at mem
    simp [shortVisit] at mem

theorem shortVisit_overtaken :
    (Runner.start .obliging ⟨"r"⟩ .fresh).actor.state = .init ∧
      Overtaken ⟨"r"⟩ ⟨"b"⟩
        ((Runner.start .obliging ⟨"r"⟩ .fresh).log .obliging shortVisitMoves) :=
  ⟨rfl, (counterpart_departed_iff_overtaken (a := .obliging) (r := ⟨"r"⟩) (.start .fresh) rfl
    shortVisitMoves relayOrder_shortVisit rfl).mp rfl⟩

/-- After a short visit the session is bound to the visitor, and nothing that waits or is pending
will change that. -/
theorem shortVisit_bound_to_departed :
    let p := Runner.start .obliging ⟨"r"⟩ .fresh
    let q := p.run .obliging shortVisitMoves
    RelayOrder ⟨"r"⟩ (p.log .obliging shortVisitMoves) ∧
      (p.log .obliging shortVisitMoves).map (·.input) = shortVisit.map .server ∧
      q.actor.backlog = [] ∧ q.actor.pending = none ∧
      q.actor.counterpart = some ⟨"b"⟩ ∧
      Departed ⟨"r"⟩ ⟨"b"⟩ (p.log .obliging shortVisitMoves) :=
  ⟨relayOrder_shortVisit, rfl, rfl, rfl, rfl, rfl⟩

end Runner

end Parley
