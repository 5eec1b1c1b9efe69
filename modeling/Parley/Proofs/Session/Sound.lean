import Mathlib.Data.List.Perm.Basic
import Parley.Proofs.Session.Operations

/-!
# What holds of a session at any time

`Actor.Sound` collects what the fields of a session say about each other: what a session of each
state holds, that a negotiation needs a counterpart and a counterpart needs an engine, that a
session in a room waits for no reply, and that the backlog is filled in a room only. It holds at the
start, it survives every input whose turn it is (`Handled.sound`), and so it survives the backlog
and every move of a running session (`Runner.Reachable.sound`).

Engines are told apart by the generation in which they were acquired, and the current engine is the
one of the current generation.
-/

namespace Parley

namespace Actor

/-- What the fields of a session say about each other. -/
structure Sound (s : Actor) : Prop where
  resting : s.state = .init ∨ s.state = .unbound ∨ s.state = .leaved → s.engine = none
  connected : s.state = .connected → s.counterpart ≠ none
  busy : s.pending ≠ none → s.counterpart ≠ none
  described : s.localDescription ≠ none ∨ s.remoteDescription ≠ none → s.counterpart ≠ none
  bound : s.counterpart ≠ none → s.engine ≠ none
  member : s.state.inRoom = true → s.peer ≠ none ∧ s.joinRequested = false ∧ s.staleReplies = 0
  asked : s.joinRequested = true → s.state = .init
  apart : s.state = .init → s.peer = none
  ended : s.state = .leaved → s.link.closed = true ∧ s.tracks = []
  /-- Inputs that preempt never wait. -/
  queued : ∀ i ∈ s.backlog, i.preempts = false
  /-- While inputs wait, an engine is one that is bound to somebody. -/
  waiting : s.backlog ≠ [] → s.state.inRoom = true ∧ (s.engine ≠ none → s.counterpart ≠ none)
  rising : s.engines.Pairwise (· < ·)
  past : ∀ g ∈ s.engines, g ≤ s.generation
  current : ∀ e, s.engine = some e → s.engines[e]? = some s.generation

namespace Sound

variable {a : Answers} {s : Actor}

theorem new (room : RoomId) (link : Link ClientEvent) : (Actor.new room link).Sound := by
  constructor <;> simp [Actor.new, Session.new, SessionState.inRoom]

/-- Without an engine nothing is being negotiated. -/
theorem idle (h : s.Sound) (none : s.engine = none) :
    s.counterpart = .none ∧ s.pending = .none ∧ s.localDescription = .none ∧
      s.remoteDescription = .none := by
  have alone : s.counterpart = .none := by
    cases hc : s.counterpart with
    | none => rfl
    | some c => exact absurd none (h.bound (by simp [hc]))
  refine ⟨alone, ?_, ?_, ?_⟩
  · cases hp : s.pending with
    | none => rfl
    | some k => exact absurd alone (h.busy (by simp [hp]))
  · cases hl : s.localDescription with
    | none => rfl
    | some d => exact absurd alone (h.described (.inl (by simp [hl])))
  · cases hr : s.remoteDescription with
    | none => rfl
    | some d => exact absurd alone (h.described (.inr (by simp [hr])))

/-- Outside the room nothing waits. -/
theorem nothing_waits (h : s.Sound) (outside : s.state.inRoom = false) : s.backlog = [] := by
  cases hb : s.backlog with
  | nil => rfl
  | cons i rest =>
    have := (h.waiting (by simp [hb])).1
    rw [outside] at this
    cases this

/-- Who has an engine is in the room and not unbound. -/
theorem active (h : s.Sound) (engine : s.engine ≠ none) :
    s.state = .joined ∨ s.state = .connected := by
  have resting := fun r => engine (h.resting r)
  cases hs : s.state with
  | joined => exact .inl rfl
  | connected => exact .inr rfl
  | init | unbound | leaved => exact absurd hs (fun e => resting (by simp [e]))

theorem inRoom (h : s.Sound) (engine : s.engine ≠ none) : s.state.inRoom = true := by
  rcases h.active engine with state | state <;> rw [state] <;> rfl

theorem note (h : s.Sound) (r : Request) : (s.note r).Sound := { h with }

theorem send (h : s.Sound) (e : ClientEvent) : (s.send e).Sound :=
  { h with ended := fun l => ⟨by simpa [Actor.send] using (h.ended l).1, (h.ended l).2⟩ }

/-- The numbering of engines survives the acquisition of one more. -/
theorem engines_snoc (h : s.Sound) :
    (s.engines ++ [s.generation + 1]).Pairwise (· < ·) ∧
      ∀ g ∈ s.engines ++ [s.generation + 1], g ≤ s.generation + 1 := by
  constructor
  · rw [List.pairwise_append]
    refine ⟨h.rising, by simp, fun g hg g' hg' => ?_⟩
    have := h.past g hg
    simp only [List.mem_singleton] at hg'
    omega
  · intro g hg
    rcases List.mem_append.mp hg with hg | hg
    · have := h.past g hg
      omega
    · simp only [List.mem_singleton] at hg
      omega

theorem denied (h : s.Sound) (engine : s.engine = none) : s.denied.Sound :=
  { h with
    past := fun g hg => Nat.le_succ_of_le (h.past g hg)
    current := fun e he => by
      have : s.engine = some e := he
      rw [engine] at this
      cases this }

/-- A session in the room binds a peer and negotiates with it on its engine, be it a new one. -/
theorem negotiating (h : s.Sound) (member : s.state.inRoom = true) {state : SessionState}
    (active : state = .joined ∨ state = .connected) {generation : Nat} {engines : List Nat}
    {engine : Option EngineId} (held : engine ≠ none) (rising : engines.Pairwise (· < ·))
    (past : ∀ g ∈ engines, g ≤ generation)
    (current : ∀ e, engine = some e → engines[e]? = some generation) (p : PeerId)
    (d : Option Description) (k : Option SdpKind) (record : List Request)
    (creations : List Creation) :
    Actor.Sound { s with
      state, generation, engines, engine, counterpart := some p, remoteDescription := d
      pending := k, record, creations } := by
  have elsewhere {x : SessionState} (other : x ≠ .joined ∧ x ≠ .connected) : state ≠ x := by
    rintro rfl
    exact active.elim other.1 other.2
  exact
    { h with
      resting := fun r => absurd r (by simp [elsewhere])
      connected := fun _ => Option.some_ne_none p
      busy := fun _ => Option.some_ne_none p
      described := fun _ => Option.some_ne_none p
      bound := fun _ => held
      member := fun _ => h.member member
      asked := fun j => absurd j (by simp [(h.member member).2.1])
      apart := fun i => absurd i (elsewhere (by simp))
      ended := fun l => absurd l (elsewhere (by simp))
      waiting := fun _ =>
        ⟨by rcases active with rfl | rfl <;> rfl, fun _ => Option.some_ne_none p⟩
      rising
      past
      current }

theorem released (h : s.Sound) (member : s.state.inRoom = true) : (s.released .unbound).Sound :=
  { h with
    resting := fun _ => rfl
    connected := fun c => by cases c
    busy := fun b => absurd rfl b
    described := fun d => by simp [Actor.released] at d
    bound := fun b => absurd rfl b
    member := fun _ => h.member member
    asked := fun j => absurd (h.asked j) (by rintro e; rw [e] at member; cases member)
    apart := fun i => by cases i
    ended := fun l => by cases l
    waiting := fun _ => ⟨rfl, fun e => absurd rfl e⟩
    past := fun g hg => Nat.le_succ_of_le (h.past g hg)
    current := fun e he => by cases he }

theorem tornDown (h : s.Sound) : s.tornDown.Sound :=
  { h with
    resting := fun _ => rfl
    connected := fun c => by cases c
    busy := fun b => absurd rfl b
    described := fun d => by simp [Actor.tornDown, Actor.released] at d
    bound := fun b => absurd rfl b
    member := fun m => by cases m
    asked := fun j => by cases j
    apart := fun i => by cases i
    ended := fun _ => ⟨rfl, rfl⟩
    queued := fun i hi => by cases hi
    waiting := fun w => absurd rfl w
    past := fun g hg => Nat.le_succ_of_le (h.past g hg)
    current := fun e he => by cases he }

theorem departed (h : s.Sound) (exit : Bool) : (s.departed exit).Sound :=
  { h with
    resting := fun _ => rfl
    connected := fun c => by cases exit <;> cases c
    busy := fun b => absurd rfl b
    described := fun d => by simp [Actor.departed, Actor.released] at d
    bound := fun b => absurd rfl b
    member := fun m => by cases exit <;> cases m
    asked := fun j => by cases j
    apart := fun _ => rfl
    ended := fun l => by
      cases exit with
      | false => cases l
      | true => exact ⟨rfl, rfl⟩
    queued := fun i hi => by cases hi
    waiting := fun w => absurd rfl w
    past := fun g hg => Nat.le_succ_of_le (h.past g hg)
    current := fun e he => by cases he }

end Sound

/-- A handled input leaves a sound session sound. -/
theorem Handled.sound {a : Answers} {s s' : Actor} {i : SessionInput} (h : s.Sound)
    (turn : Handled a s i s') : s'.Sound := by
  cases turn with
  | ignored => exact h
  | staleReply _ owed =>
    exact { h with member := fun m => absurd (h.member m).2.2 owed }
  | admitted fresh init asked engine =>
    -- Outside the room there is neither an engine nor anything that waits for one.
    have alone : s.engine = none := h.resting (.inl init)
    have empty : s.backlog = [] := h.nothing_waits (by rw [init]; rfl)
    have unbound : s.counterpart = none := (h.idle alone).1
    rcases engine with rfl | rfl
    · exact
        { h with
          resting := fun r => by simp at r
          connected := fun c => by cases c
          bound := fun b => absurd unbound b
          member := fun _ => ⟨by simp [Actor.equipped], rfl, fresh⟩
          asked := fun j => by cases j
          apart := fun i => by cases i
          ended := fun l => by cases l
          waiting := fun w => absurd empty w
          rising := h.engines_snoc.1
          past := h.engines_snoc.2
          current := fun e he => by
            cases he
            simp [Actor.equipped] }
    · exact
        { h with
          resting := fun r => by simp at r
          connected := fun c => by cases c
          member := fun _ => ⟨by simp [Actor.denied], rfl, fresh⟩
          asked := fun j => by cases j
          apart := fun i => by cases i
          ended := fun l => by cases l
          waiting := fun w => absurd empty w
          past := fun g hg => Nat.le_succ_of_le (h.past g hg)
          current := fun e he => by
            have : s.engine = some e := he
            rw [alone] at this
            cases this }
  | offered member free engine =>
    cases engine with
    | held engine =>
      have held : s.engine ≠ none := by simp [engine]
      exact h.negotiating member (.inr rfl) held h.rising h.past h.current _ _ _ _ _
    | acquired =>
      obtain ⟨rising, past⟩ := h.engines_snoc
      refine h.negotiating member (.inr rfl) (Option.some_ne_none _) rising past ?_ _ _ _ _ _
      intro e he
      cases he
      simp
  | unequipped member engine => exact h.denied engine
  | unbound member bound => exact h.released member
  | dismissed => exact h.tornDown
  | lost => exact h.tornDown
  | tookOffer parsed bound engine | tookAnswer parsed bound engine =>
    have held : s.engine ≠ none := by simp [engine]
    exact h.negotiating (h.inRoom held) (h.active held) held h.rising h.past h.current _ _ _ _ _
  | refused => exact h.note _
  | remoteCandidate => exact h.note _
  | localCandidate => exact h.send _
  | remoteTrack => exact h.note _
  | left running => exact h.departed _
  | unprovided => exact h.note _
  | rejoined init reachable =>
    exact
      { h with
        member := fun m => by
          have : s.state.inRoom = true := m
          simp [init, SessionState.inRoom] at this
        asked := fun _ => init
        ended := fun l => by
          have : s.state = .leaved := l
          rw [init] at this
          cases this }

/-! ## Turns -/

/-- A drain stops at a pending step or at the end of the backlog. -/
theorem drainUpTo_settled {a : Answers} :
    ∀ n (s : Actor), s.backlog.length ≤ n →
      (drainUpTo a n s).backlog ≠ [] → (drainUpTo a n s).pending ≠ none := by
  -- Each turn takes an input off the backlog, so as many turns as there are inputs are enough.
  intro n
  induction n with
  | zero =>
    intro s len w
    exact absurd (List.eq_nil_of_length_eq_zero (Nat.le_zero.mp len)) w
  | succ n ih =>
    intro s len
    unfold drainUpTo
    split
    case isTrue busy =>
      intro _
      simpa [Option.isSome_iff_ne_none] using busy
    case isFalse free =>
      split
      case h_1 hb => exact fun w => absurd hb w
      case h_2 i rest hb =>
        apply ih
        rw [hb, List.length_cons] at len
        rcases (dispatch_handled a { s with backlog := rest } i).backlog with h | h
        · rw [h]
          exact Nat.le_of_succ_le_succ len
        · simp [h]

theorem Sound.pop {s : Actor} {i : SessionInput} {rest : List SessionInput} (h : s.Sound)
    (hb : s.backlog = i :: rest) : { s with backlog := rest }.Sound :=
  { h with
    queued := fun j hj => h.queued j (by rw [hb]; exact List.mem_cons_of_mem _ hj)
    waiting := fun _ => h.waiting (by simp [hb]) }

theorem Sound.dispatch {s : Actor} (h : s.Sound) (a : Answers) (i : SessionInput) :
    (s.dispatch a i).Sound :=
  (dispatch_handled a s i).sound h

theorem Sound.drain {s : Actor} (h : s.Sound) (a : Answers) : (s.drain a).Sound :=
  drainUpTo_induction (fun _ _ _ h _ hb => (h.pop hb).dispatch a _) _ s h

/-- What holds of a sound session and is kept by every turn of its backlog, holds at the end. -/
theorem Sound.drain_induction {a : Answers} {P : Actor → Prop}
    (step : ∀ (t : Actor) i rest u, t.Sound → P t → t.pending = none → t.backlog = i :: rest →
      { t with backlog := rest }.Sound → Handled a { t with backlog := rest } i u → P u)
    {s : Actor} (h : s.Sound) (start : P s) : P (s.drain a) := by
  have both : ∀ (t : Actor) i rest, t.Sound ∧ P t → t.pending = none → t.backlog = i :: rest →
      ({ t with backlog := rest }.dispatch a i).Sound ∧
        P ({ t with backlog := rest }.dispatch a i) := by
    intro t i rest ⟨sound, holds⟩ free hb
    have popped := sound.pop hb
    exact ⟨popped.dispatch a i,
      step t i rest _ sound holds free hb popped (dispatch_handled a _ i)⟩
  exact (drainUpTo_induction both _ s ⟨h, start⟩).2

/-- An input that does not preempt waits while something is pending. -/
theorem Sound.wait {s : Actor} {i : SessionInput} (h : s.Sound) (busy : s.pending ≠ none)
    (later : i.preempts = false) : { s with backlog := s.backlog ++ [i] }.Sound :=
  { h with
    queued := fun j hj => by
      rcases List.mem_append.mp hj with hj | hj
      · exact h.queued j hj
      · rw [List.mem_singleton.mp hj]
        exact later
    waiting := fun _ => by
      have bound := h.busy busy
      exact ⟨h.inRoom (h.bound bound), fun _ => bound⟩ }

theorem Sound.handleInput {s : Actor} (h : s.Sound) (a : Answers) (i : SessionInput) :
    (s.handleInput a i).Sound := by
  unfold Actor.handleInput
  split
  case isTrue busy =>
    simp only [Bool.and_eq_true, Bool.not_eq_true', Option.isSome_iff_ne_none] at busy
    exact h.wait busy.1 busy.2
  case isFalse => exact (h.dispatch a i).drain a

theorem Sound.published {s t : Actor} {d : Description} (h : s.Sound) (bound : s.counterpart ≠ none)
    (published : Published d s t) : t.Sound := by
  cases published with
  | nowhere => exact h
  | refused => exact h.note _
  | sent =>
    exact
      { h with
        described := fun _ => bound
        ended := fun l => ⟨by simpa [Actor.published] using (h.ended l).1, (h.ended l).2⟩ }

theorem Sound.applied {s : Actor} (h : s.Sound) (bound : s.counterpart ≠ none) (a : Answers)
    (c : Completion) : (s.applied a c).Sound := by
  have free : { s with pending := none }.Sound := { h with busy := fun b => absurd rfl b }
  exact applied_induction free fun _ _ _ published => free.published bound published

theorem Sound.complete {s : Actor} {c : Completion} (h : s.Sound)
    (bound : c.generation = s.generation → s.counterpart ≠ none) (a : Answers) :
    (s.complete a c).Sound := by
  by_cases current : c.generation = s.generation
  · rw [complete_of_current current]
    exact (h.applied (bound current) a c).drain a
  · rw [complete_of_old current]
    exact h

/-! ## Stamps -/

/-- The generations of what was created and not yet handled: what is still being created, and what
has finished. -/
def unreported (s : Actor) (results : List Completion) : List Nat :=
  s.creations.map (·.generation) ++ results.map (·.generation)

/-- Nothing unreported is of a later generation, and of the current one there is what is pending. -/
structure Stamped (s : Actor) (results : List Completion) : Prop where
  past : ∀ g ∈ s.unreported results, g ≤ s.generation
  current : (s.unreported results).count s.generation = if s.pending.isSome then 1 else 0

namespace Stamped

variable {a : Answers} {s : Actor} {results : List Completion}

/-- A new generation has nothing unreported. -/
theorem count_next (h : s.Stamped results) : (s.unreported results).count (s.generation + 1) = 0 := by
  apply List.count_eq_zero_of_not_mem
  intro mem
  have := h.past _ mem
  omega

theorem past_next (h : s.Stamped results) : ∀ g ∈ s.unreported results, g ≤ s.generation + 1 :=
  fun g hg => Nat.le_succ_of_le (h.past g hg)

/-- What begins is of the current generation, and is the only such thing. -/
theorem begin (h : s.Stamped results) (free : s.pending = none) (c : Creation)
    (now : c.generation = s.generation) (kind : SdpKind) :
    { s with creations := s.creations ++ [c], pending := some kind }.Stamped results := by
  have same : (s.unreported results).count s.generation = 0 := by rw [h.current, free]; rfl
  have split : { s with creations := s.creations ++ [c], pending := some kind }.unreported results =
      s.creations.map (·.generation) ++ s.generation :: results.map (·.generation) := by
    simp [unreported, now]
  constructor
  · intro g hg
    rw [split, List.mem_append, List.mem_cons] at hg
    rcases hg with hg | rfl | hg
    · exact h.past g (List.mem_append_left _ hg)
    · exact Nat.le_refl _
    · exact h.past g (List.mem_append_right _ hg)
  · rw [split, List.count_append, List.count_cons_self]
    simp only [unreported, List.count_append] at same
    simp only [Option.isSome_some, if_true]
    omega

/-- A step into the next generation leaves nothing pending and nothing of the current generation. -/
theorem next (h : s.Stamped results) {t : Actor} (generation : t.generation = s.generation + 1)
    (creations : t.creations = s.creations) (free : t.pending = none) : t.Stamped results := by
  have same : t.unreported results = s.unreported results := by simp [unreported, creations]
  constructor
  · rw [same, generation]
    exact h.past_next
  · rw [same, generation, free]
    exact h.count_next

theorem handled (h : s.Stamped results) (sound : s.Sound) {i : SessionInput} {t : Actor}
    (free : s.pending = none ∨ i.preempts = true) (turn : Handled a s i t) :
    t.Stamped results := by
  cases turn with
  | admitted _ init _ engine =>
    have idle := (sound.idle (sound.resting (.inl init))).2.1
    rcases engine with rfl | rfl <;> exact h.next rfl rfl idle
  | @offered _ e _ member _ engine =>
    have free : s.pending = none := by simpa [SessionInput.preempts] using free
    cases engine with
    | held engine =>
      have next := h.begin free (⟨e, s.generation, .offer⟩ : Creation) rfl .offer
      exact { next with }
    | acquired engine =>
      have equipped : s.equipped.Stamped results := h.next rfl rfl free
      have next := equipped.begin free
        (⟨s.engines.length, s.generation + 1, .offer⟩ : Creation) rfl .offer
      exact { next with }
  | unequipped _ engine => exact h.next rfl rfl (sound.idle engine).2.1
  | unbound => exact h.next rfl rfl rfl
  | dismissed => exact h.next rfl rfl rfl
  | lost => exact h.next rfl rfl rfl
  | @tookOffer _ _ _ e _ _ engine =>
    have free : s.pending = none := by simpa [SessionInput.preempts] using free
    have next := h.begin free (⟨e, s.generation, .answer⟩ : Creation) rfl .answer
    exact { next with }
  | left => exact h.next rfl rfl rfl
  | _ => exact { h with }

theorem dispatch (h : s.Stamped results) (sound : s.Sound) {i : SessionInput}
    (free : s.pending = none ∨ i.preempts = true) : (s.dispatch a i).Stamped results :=
  h.handled sound free (dispatch_handled a s i)

theorem drain (h : s.Stamped results) (sound : s.Sound) : (s.drain a).Stamped results := by
  refine Sound.drain_induction (P := fun t => t.Stamped results)
    (fun t i rest u _ h free _ popped turn => ?_) sound h
  have kept : { t with backlog := rest }.Stamped results := { h with }
  exact kept.handled popped (.inl free) turn

theorem handleInput (h : s.Stamped results) (sound : s.Sound) (i : SessionInput) :
    (s.handleInput a i).Stamped results := by
  unfold Actor.handleInput
  split
  case isTrue => exact { h with }
  case isFalse free =>
    have free : s.pending = none ∨ i.preempts = true := by
      cases hp : s.pending with
      | none => exact .inl rfl
      | some k => exact .inr (by simpa [hp] using free)
    exact (h.dispatch sound free).drain (sound.dispatch a i)

/-- A completion of the current generation is that of the pending step. -/
theorem pending {c : Completion} (h : s.Stamped (c :: results))
    (now : c.generation = s.generation) : s.pending ≠ none := by
  have count := h.current
  intro free
  simp [unreported, free, now] at count

/-- What has finished is taken off the list, and with it what was pending, if it was that. -/
theorem report {c : Completion} (h : s.Stamped (c :: results)) :
    if c.generation = s.generation then { s with pending := none }.Stamped results
    else s.Stamped results := by
  have past : ∀ g ∈ s.unreported results, g ≤ s.generation := by
    intro g hg
    apply h.past
    rcases List.mem_append.mp hg with hg | hg
    · exact List.mem_append_left _ hg
    · exact List.mem_append_right _ (List.mem_cons_of_mem _ hg)
  have count := h.current
  have whole : (s.unreported (c :: results)).count s.generation =
      (s.unreported results).count s.generation + if c.generation = s.generation then 1 else 0 := by
    simp [unreported, List.count_cons]
    omega
  split
  case isTrue now =>
    refine ⟨past, ?_⟩
    show (s.unreported results).count s.generation = 0
    -- What is reported was the only thing of the current generation.
    have bound : (if s.pending.isSome then 1 else 0) ≤ 1 := by split <;> omega
    rw [if_pos now] at whole
    omega
  case isFalse old =>
    refine ⟨past, ?_⟩
    rw [if_neg old] at whole
    omega

/-- When nothing is pending, the results can be dropped. -/
theorem drop (h : s.Stamped results) (free : s.pending = none) : s.Stamped [] := by
  have count := h.current
  constructor
  · intro g hg
    apply h.past
    simp only [unreported, List.map_nil, List.append_nil] at hg
    exact List.mem_append_left _ hg
  · simp only [unreported, List.count_append, List.map_nil, List.append_nil, free] at count ⊢
    simp only [Option.isSome_none, Bool.false_eq_true, if_false] at count ⊢
    omega

theorem complete {c : Completion} (h : s.Stamped (c :: results)) (sound : s.Sound) :
    (s.complete a c).Stamped results := by
  have report := h.report
  by_cases current : c.generation = s.generation
  · rw [if_pos current] at report
    rw [complete_of_current current]
    refine Stamped.drain ?_ (sound.applied (sound.busy (h.pending current)) a c)
    refine applied_induction (P := fun t => t.Stamped results) report fun d t _ published => ?_
    cases published <;> exact { report with }
  · rw [if_neg current] at report
    rw [complete_of_old current]
    exact report

end Stamped

/-- A turn stops at a pending step or at the end of the backlog. -/
theorem handleInput_settled (a : Answers) (s : Actor) (i : SessionInput) :
    (s.handleInput a i).backlog ≠ [] → (s.handleInput a i).pending ≠ none := by
  unfold handleInput
  split
  case isTrue busy =>
    intro _
    have busy := (Bool.and_eq_true _ _ ▸ busy).1
    exact Option.isSome_iff_ne_none.mp busy
  case isFalse => exact drainUpTo_settled _ _ (Nat.le_refl _)

theorem complete_settled (a : Answers) {s : Actor} (c : Completion)
    (settled : s.backlog ≠ [] → s.pending ≠ none) :
    (s.complete a c).backlog ≠ [] → (s.complete a c).pending ≠ none := by
  by_cases current : c.generation = s.generation
  · rw [complete_of_current current]
    exact drainUpTo_settled _ _ (Nat.le_refl _)
  · rw [complete_of_old current]
    exact settled

end Actor

/-! ## Running sessions -/

namespace Runner

/-- What holds of a running session at any time. -/
structure Sound (p : Runner) : Prop where
  actor : p.actor.Sound
  stamped : p.actor.Stamped p.results
  settled : p.actor.backlog ≠ [] → p.actor.pending ≠ none
  finished : p.finished = true ↔ p.actor.state = .leaved
  emptied : p.finished = true → p.inbox = [] ∧ p.results = []

namespace Sound

variable {a : Answers} {p : Runner}

theorem start (a : Answers) (room : RoomId) (link : Link ClientEvent) :
    (Runner.start a room link).Sound := by
  have new := Actor.Sound.new room link
  have stamped : (Actor.new room link).Stamped [] := by
    constructor <;> simp [Actor.unreported, Actor.new, Session.new]
  rcases Actor.enterRoom_cases a (Actor.new room link) with h | h
  · unfold Runner.start
    rw [h]
    exact ⟨new.note _, { stamped with }, fun w => absurd rfl w, by constructor <;> rintro ⟨⟩,
      by rintro ⟨⟩⟩
  · unfold Runner.start
    rw [h]
    refine ⟨?_, { stamped with }, fun w => absurd rfl w, by constructor <;> rintro ⟨⟩,
      by rintro ⟨⟩⟩
    exact { new with
      member := by rintro ⟨⟩
      asked := fun _ => rfl
      ended := by rintro ⟨⟩ }

theorem push (h : p.Sound) (i : SessionInput) : (p.push i).Sound := by
  unfold Runner.push
  split
  case isTrue => exact h
  case isFalse open_ =>
    have running : p.finished = false := by
      cases hf : p.finished with
      | false => rfl
      | true => simp [hf] at open_
    exact { h with emptied := fun f => by simp [running] at f }

/-- The link may change from outside, but a closed one stays closed. -/
theorem onLink (h : p.Sound) {f : Link ClientEvent → Link ClientEvent}
    (closed : p.actor.link.closed = true → (f p.actor.link).closed = true) :
    (p.onLink f).Sound :=
  { h with
    actor := { h.actor with ended := fun l => ⟨closed (h.actor.ended l).1, (h.actor.ended l).2⟩ }
    stamped := { h.stamped with } }

theorem endIfLeaved {q : Runner} (actor : q.actor.Sound) (stamped : q.actor.Stamped q.results)
    (settled : q.actor.backlog ≠ [] → q.actor.pending ≠ none) (running : q.finished = false) :
    q.endIfLeaved.Sound := by
  unfold Runner.endIfLeaved
  split
  case isTrue left =>
    exact
      { actor
        stamped := stamped.drop (actor.idle (actor.resting (.inr (.inr left)))).2.1
        settled
        finished := ⟨fun _ => left, fun _ => rfl⟩
        emptied := fun _ => ⟨rfl, rfl⟩ }
  case isFalse left =>
    exact ⟨actor, stamped, settled, by simp [running, left], by simp [running]⟩

/-- A session that still runs has not left for good. -/
theorem alive (h : p.Sound) (running : p.finished = false) : p.actor.state ≠ .leaved := by
  intro left
  rw [h.finished.mpr left] at running
  cases running

/-- Something waits for a session that still runs only. -/
theorem running_of_inbox (h : p.Sound) {i : SessionInput} {rest : List SessionInput}
    (next : p.inbox = i :: rest) : p.finished = false := by
  by_contra ended
  exact absurd next (by simp [(h.emptied (by simpa using ended)).1])

theorem running_of_results (h : p.Sound) {c : Completion} {rest : List Completion}
    (next : p.results = c :: rest) : p.finished = false := by
  by_contra ended
  exact absurd next (by simp [(h.emptied (by simpa using ended)).2])

/-- A completion of the current generation is that of a pending step, and that is with somebody. -/
theorem bound (h : p.Sound) {c : Completion} {rest : List Completion}
    (next : p.results = c :: rest) (current : c.generation = p.actor.generation) :
    p.actor.counterpart ≠ none := by
  have stamped : p.actor.Stamped (c :: rest) := next ▸ h.stamped
  exact h.actor.busy (stamped.pending current)

/-- What finishes moves from the creations to the results. -/
theorem created (h : p.Sound) {index : Nat} {c : Creation} {result : Option Description}
    (begun : p.actor.creations[index]? = some c) :
    { p with
      actor := { p.actor with creations := p.actor.creations.eraseIdx index }
      results := if p.finished then [] else
        p.results ++ [(⟨c.generation, c.kind, result⟩ : Completion)] }.Sound := by
  obtain ⟨lt, begun⟩ := List.getElem?_eq_some_iff.mp begun
  have gone : p.actor.creations.Perm (c :: p.actor.creations.eraseIdx index) := by
    rw [← begun]
    exact (List.getElem_cons_eraseIdx_perm lt).symm
  -- What finishes only moves from the creations to the results.
  have moved : (p.actor.unreported p.results).Perm
      ({ p.actor with creations := p.actor.creations.eraseIdx index }.unreported
        (p.results ++ [(⟨c.generation, c.kind, result⟩ : Completion)])) := by
    have := (gone.map (·.generation)).append_right (p.results.map (·.generation))
    refine this.trans ?_
    simp only [Actor.unreported, List.map_append, List.map_cons, List.map_nil, List.cons_append]
    rw [← List.append_assoc]
    exact (List.perm_append_singleton _ _).symm
  have stamped : { p.actor with creations := p.actor.creations.eraseIdx index }.Stamped
      (p.results ++ [(⟨c.generation, c.kind, result⟩ : Completion)]) :=
    ⟨fun g hg => h.stamped.past g (moved.mem_iff.mpr hg),
      (moved.count_eq _).symm.trans h.stamped.current⟩
  cases hf : p.finished with
  | false =>
    exact
      { h with
        actor := { h.actor with }
        stamped := by simpa [hf] using stamped
        finished := by simpa [hf] using h.finished
        emptied := nofun }
  | true =>
    have free := (h.actor.idle (h.actor.resting (.inr (.inr (h.finished.mp hf))))).2.1
    exact
      { h with
        actor := { h.actor with }
        stamped := stamped.drop free
        finished := by simpa [hf] using h.finished
        emptied := fun _ => ⟨(h.emptied hf).1, rfl⟩ }

end Sound

/-- Whatever a sound session or its user does, it stays sound. -/
theorem Acted.sound {a : Answers} {p q : Runner} {m : Act} (h : p.Sound) (done : Acted a p m q) :
    q.Sound := by
  cases done with
  | pushed => exact h.push _
  | handleDropped => exact { h with }
  | idle => exact h
  | created begun => exact h.created begun
  | @tookInput i _ _ running =>
    exact .endIfLeaved (h.actor.handleInput a i) (h.stamped.handleInput h.actor i)
      (Actor.handleInput_settled a _ i) running
  | @tookResult c rest next running =>
    have stamped : p.actor.Stamped (c :: rest) := next ▸ h.stamped
    exact .endIfLeaved (h.actor.complete (h.bound next) a) (stamped.complete h.actor)
      (Actor.complete_settled a c h.settled) running
  | abandoned _ _ running =>
    rw [Actor.leave_eq (h.alive running)]
    exact .endIfLeaved (h.actor.departed true) (h.stamped.next rfl rfl rfl)
      (fun w => absurd rfl w) running

/-- Whatever happens to a sound session, it stays sound. -/
theorem Sound.move {a : Answers} {p : Runner} (h : p.Sound) (m : Move) : (p.move a m).Sound := by
  cases m with
  | act m => exact (act_acted a p m).sound h
  | deliver e => exact h.push _
  | receive =>
    refine h.onLink (f := fun l => l.receive.2) fun closed => ?_
    rwa [Link.receive_closed]
  | closeLink => exact h.onLink fun _ => rfl
  | dropReceiver => exact h.onLink fun closed => closed

/-- Whatever happens to a session, it stays sound. -/
theorem Reachable.sound {a : Answers} {room : RoomId} {p : Runner} (h : Reachable a room p) :
    p.Sound := by
  induction h with
  | start link => exact .start a room link
  | move m _ ih => exact ih.move m

/-- What holds of a session that has asked to join, and is kept by every turn and by what comes of a
creation, holds of a session at any time, if it does not depend on what waits or is on its way, and
still holds when a creation has finished. -/
theorem Reachable.actor_induction {a : Answers} {room : RoomId} {P : Actor → Prop}
    (start : ∀ link, P ((Actor.new room link).enterRoom a))
    (aside : ∀ (s : Actor) backlog pending creations link, creations ⊆ s.creations → P s →
      P { s with backlog, pending, creations, link })
    (turn : ∀ s i t, s.Sound → P s → Actor.Handled a s i t → P t)
    (publish : ∀ s d t, s.Sound → P s → Actor.Published d s t → P t)
    {p : Runner} (h : Reachable a room p) : P p.actor := by
  have drain (s : Actor) (sound : s.Sound) (h : P s) : P (s.drain a) := by
    refine Actor.Sound.drain_induction (fun t i rest u _ h _ _ popped done => ?_) sound h
    exact turn _ i u popped (aside t rest t.pending t.creations t.link (List.Subset.refl _) h) done
  induction h with
  | start link => exact start link
  | @move p m reachable ih =>
    have sound := reachable.sound
    have onLink (link : Link ClientEvent) : P { p.actor with link } :=
      aside p.actor p.actor.backlog p.actor.pending p.actor.creations link (List.Subset.refl _) ih
    cases m with
    | deliver e =>
      show P (p.push (.server e)).actor
      rw [push_actor]
      exact ih
    | receive | closeLink | dropReceiver => exact onLink _
    | act m =>
      have done := act_acted a p m
      show P (p.act a m).actor
      generalize p.act a m = q at done ⊢
      cases done with
      | pushed =>
        rw [push_actor]
        exact ih
      | handleDropped | idle => exact ih
      | created =>
        exact aside p.actor p.actor.backlog p.actor.pending _ p.actor.link
          (List.eraseIdx_subset) ih
      | @tookInput i rest =>
        rw [endIfLeaved_actor]
        show P (p.actor.handleInput a i)
        unfold Actor.handleInput
        split
        · exact aside p.actor _ p.actor.pending p.actor.creations p.actor.link
            (List.Subset.refl _) ih
        · exact drain _ (sound.actor.dispatch a i)
            (turn _ i _ sound.actor ih (Actor.dispatch_handled a _ i))
      | @tookResult c rest next =>
        rw [endIfLeaved_actor]
        show P (p.actor.complete a c)
        by_cases current : c.generation = p.actor.generation
        · have bound := sound.bound next current
          have free : P { p.actor with pending := none } :=
            aside p.actor p.actor.backlog none p.actor.creations p.actor.link
              (List.Subset.refl _) ih
          have alone : { p.actor with pending := none }.Sound :=
            { sound.actor with busy := fun b => absurd rfl b }
          rw [Actor.complete_of_current current]
          exact drain _ (sound.actor.applied bound a c)
            (Actor.applied_induction free fun d t _ published => publish _ d t alone free published)
        · rw [Actor.complete_of_old current]
          exact ih
      | abandoned =>
        rw [endIfLeaved_actor]
        exact turn _ _ _ sound.actor ih (Actor.leave_handled a p.actor true)

end Runner

end Parley
