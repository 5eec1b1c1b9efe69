import Parley.Proofs.Session.Beside
import Parley.Proofs.Session.Sound

/-!
# What released engines leave behind

When a session releases an engine, something of it may still be on its way: reports that wait for
their turn, and creations that have not finished. `Actor.without` is the session without that.
Nothing that a session does depends on it: to handle an input and then to forget what is left of the
engine is the same as to forget it first (`without_handleInput`), and an input that is left of it
changes nothing (`without_handleInput_reported`).

The reason is in the stamps. Every engine has the generation in which it was acquired, the current
one that of the session, and what bears an earlier generation is dropped when its turn comes.
-/

namespace Parley

/-- Engines that are gone, and the generations in which they were acquired. -/
structure Bygone where
  engines : List EngineId
  generations : List Nat

namespace Bygone

/-- The input is a report of one of the engines. -/
def reported (b : Bygone) : SessionInput → Bool
  | .engine g _ => b.generations.contains g
  | _ => false

/-- The creation was begun on one of the engines. -/
def began (b : Bygone) (c : Creation) : Bool := b.engines.contains c.engine

/-- The completion is that of a creation on one of the engines. -/
def completed (b : Bygone) (c : Completion) : Bool := b.generations.contains c.generation

end Bygone

namespace Actor

variable {a : Answers} {b : Bygone} {s t : Actor} {i : SessionInput} {e : EngineId}

/-- The engines are gone, and those are their generations. -/
structure Outlived (s : Actor) (b : Bygone) : Prop where
  released : ∀ e ∈ b.engines, (e : Nat) < s.engines.length ∧ s.engine ≠ some e
  past : ∀ g ∈ b.generations, g < s.generation
  stamps : ∀ (e : Nat) g, s.engines[e]? = some g → (g ∈ b.generations ↔ e ∈ b.engines)

/-- The session without what is left of the engines. -/
def without (b : Bygone) (s : Actor) : Actor :=
  { s with
    backlog := s.backlog.filter (!b.reported ·), creations := s.creations.filter (!b.began ·) }

/-! ## Operations -/

theorem without_releaseEngine (b : Bygone) (s : Actor) :
    (s.without b).releaseEngine = s.releaseEngine.without b := by
  rw [releaseEngine_eq, releaseEngine_eq]
  rfl

theorem without_acquireEngine (b : Bygone) (a : Answers) (s : Actor) :
    (s.without b).acquireEngine a = ((s.acquireEngine a).1, (s.acquireEngine a).2.without b) := by
  cases granted : s.grantsEngine a with
  | true =>
    rw [acquireEngine_of_granted granted]
    exact acquireEngine_of_granted granted
  | false =>
    rw [acquireEngine_of_refused granted]
    exact acquireEngine_of_refused granted

/-- What a session begins to create is not left of other engines. -/
theorem without_startStep (other : ∀ e, s.engine = some e → e ∉ b.engines) (kind : SdpKind) :
    (s.without b).startStep kind = (s.startStep kind).without b := by
  cases engine : s.engine with
  | none => simp [startStep, without, engine]
  | some e =>
    have kept : e ∉ b.engines := other e engine
    simp [startStep, without, note, engine, Bygone.began, kept]

theorem without_enterRoom (b : Bygone) (a : Answers) (s : Actor) :
    (s.without b).enterRoom a = (s.enterRoom a).without b := by
  unfold enterRoom
  dsimp only
  by_cases granted : a.grants s.record .acquireMedia = true
  · rw [if_pos granted]
    exact if_pos granted
  · rw [if_neg granted]
    exact if_neg granted

/-! ## Inputs whose turn it is -/

theorem without_tearDown (b : Bygone) (s : Actor) :
    (s.without b).tearDown = s.tearDown.without b := by
  rw [tearDown_eq, tearDown_eq]
  rfl

theorem without_consumeStaleReply (b : Bygone) (s : Actor) :
    (s.without b).consumeStaleReply =
      (s.consumeStaleReply.1, s.consumeStaleReply.2.without b) := by
  unfold consumeStaleReply
  by_cases fresh : s.staleReplies = 0
  · rw [if_pos fresh]
    exact if_pos fresh
  · rw [if_neg fresh]
    exact if_neg fresh

theorem without_onJoined (b : Bygone) (a : Answers) (p : PeerId) (s : Actor) :
    (s.without b).onJoined a p = (s.onJoined a p).without b := by
  unfold onJoined
  rw [without_consumeStaleReply]
  obtain ⟨stale, s⟩ := s.consumeStaleReply
  have acquired := without_acquireEngine b a { s with joinRequested := false, peer := some p }
  dsimp only
  rw [apply_ite (without b), apply_ite (without b)]
  refine if_congr Iff.rfl rfl (if_congr Iff.rfl rfl ?_)
  exact congrArg (fun r : Bool × Actor => { r.2 with state := .joined }) acquired

theorem without_onFull (b : Bygone) (s : Actor) :
    (s.without b).onFull = s.onFull.without b := by
  unfold onFull
  rw [without_consumeStaleReply]
  dsimp only
  rw [without_tearDown, apply_ite (without b)]

theorem without_leave (b : Bygone) (exit : Bool) (s : Actor) :
    (s.without b).leave exit = (s.leave exit).without b := by
  by_cases running : s.state = .leaved
  · unfold leave
    rw [if_pos running]
    exact if_pos running
  · rw [leave_eq running, leave_eq (s := s.without b) running]
    rfl

theorem without_rejoin (b : Bygone) (a : Answers) (s : Actor) :
    (s.without b).rejoin a = (s.rejoin a).without b := by
  unfold rejoin
  rw [without_enterRoom, apply_ite (without b), apply_ite (without b)]
  rfl

theorem without_onBye (b : Bygone) (p : PeerId) (s : Actor) :
    (s.without b).onBye p = (s.onBye p).without b := by
  unfold onBye
  rw [without_releaseEngine, apply_ite (without b), apply_ite (without b)]
  rfl

theorem without_onEngine (b : Bygone) (g : Nat) (event : EngineEvent) (s : Actor) :
    (s.without b).onEngine g event = (s.onEngine g event).without b := by
  unfold onEngine
  rw [apply_ite (without b)]
  cases event <;> rfl

theorem without_offerTo (other : ∀ e, s.engine = some e → e ∉ b.engines) (p : PeerId) :
    (s.without b).offerTo p = (s.offerTo p).without b :=
  without_startStep (s := { s with counterpart := some p, state := .connected }) other .offer

theorem without_onOtherJoin (gone : s.Outlived b) (a : Answers) (p : PeerId) :
    (s.without b).onOtherJoin a p = (s.onOtherJoin a p).without b := by
  unfold onOtherJoin
  rw [without_acquireEngine, apply_ite (without b), apply_ite (without b), apply_ite (without b)]
  refine if_congr Iff.rfl rfl (if_congr Iff.rfl rfl (if_congr Iff.rfl ?_ ?_))
  · exact without_offerTo (fun e engine mem => (gone.released e mem).2 engine) p
  · cases granted : s.grantsEngine a with
    | true =>
      rw [acquireEngine_of_granted granted]
      refine without_offerTo (s := s.equipped) (fun e engine mem => ?_) p
      obtain rfl : s.engines.length = e := by simpa [equipped] using engine
      exact absurd (gone.released _ mem).1 (Nat.lt_irrefl _)
    | false =>
      rw [acquireEngine_of_refused granted]

theorem without_onMessage (gone : s.Outlived b) (a : Answers) (sender : PeerId) (data : Json) :
    (s.without b).onMessage a sender data = (s.onMessage a sender data).without b := by
  unfold onMessage
  cases Message.parse data with
  | error _ => rfl
  | ok message =>
    dsimp only
    rw [apply_ite (without b)]
    refine if_congr Iff.rfl rfl ?_
    have engine' : (s.without b).engine = s.engine := rfl
    cases engine : s.engine with
    | none => rw [engine', engine]
    | some e =>
      have other : ∀ e, s.engine = some e → e ∉ b.engines :=
        fun e engine mem => (gone.released e mem).2 engine
      rw [engine', engine]
      cases message with
      | offer sdp =>
        dsimp only
        rw [apply_ite (without b)]
        refine if_congr Iff.rfl ?_ rfl
        exact without_startStep
          (s := { s.note (.setRemote e ⟨.offer, sdp⟩) with
            counterpart := some sender, remoteDescription := some ⟨.offer, sdp⟩ }) other .answer
      | answer sdp =>
        dsimp only
        rw [apply_ite (without b)]
        rfl
      | candidate c => rfl

/-- A session handles an input as it would without what is left of the engines. -/
theorem without_dispatch (gone : s.Outlived b) (a : Answers) (i : SessionInput) :
    (s.without b).dispatch a i = (s.dispatch a i).without b := by
  cases i with
  | server event =>
    show (s.without b).onServer a event = (s.onServer a event).without b
    unfold onServer
    rw [apply_ite (without b)]
    refine if_congr Iff.rfl rfl ?_
    cases event with
    | joined _ p => exact without_onJoined b a p s
    | otherJoin _ p => exact without_onOtherJoin gone a p
    | full _ _ => exact without_onFull b s
    | bye _ p => exact without_onBye b p s
    | leaved _ _ => rfl
    | message _ sender data => exact without_onMessage gone a sender data
  | engine g event => exact without_onEngine b g event s
  | leave => exact without_leave b false s
  | exit => exact without_leave b true s
  | rejoin => exact without_rejoin b a s
  | linkLost =>
    show (if s.state = .leaved then s.without b else (s.without b).tearDown) = _
    rw [without_tearDown, ← apply_ite (without b)]
    rfl

/-- A report of one of the engines is dropped. -/
theorem dispatch_of_reported (gone : s.Outlived b) (a : Answers) (left : b.reported i = true) :
    s.dispatch a i = s := by
  cases i with
  | engine g event =>
    have mem : g ∈ b.generations := by simpa [Bygone.reported] using left
    have before := gone.past g mem
    show s.onEngine g event = s
    unfold onEngine
    rw [if_pos (.inl (by omega))]
  | _ => cases left

/-- Engines that are gone stay so while the session holds the engine that it held, or none. -/
theorem Outlived.next (gone : s.Outlived b) (engines : t.engines = s.engines)
    (generation : s.generation ≤ t.generation)
    (engine : ∀ e, t.engine = some e → s.engine = some e) : t.Outlived b where
  released e mem := by
    rw [engines]
    exact ⟨(gone.released e mem).1, fun held => (gone.released e mem).2 (engine e held)⟩
  past g mem := Nat.lt_of_lt_of_le (gone.past g mem) generation
  stamps := by
    rw [engines]
    exact gone.stamps

/-- A new engine is none of those that are gone, and neither is its generation. -/
theorem Outlived.equipped (gone : s.Outlived b) : s.equipped.Outlived b where
  released e mem := by
    have lt := (gone.released e mem).1
    constructor
    · simpa [Actor.equipped] using Nat.lt_succ_of_lt lt
    · intro same
      obtain rfl : s.engines.length = e := by simpa [Actor.equipped] using same
      exact Nat.lt_irrefl _ lt
  past g mem := Nat.lt_succ_of_lt (gone.past g mem)
  stamps e g engine := by
    have engine : (s.engines ++ [s.generation + 1])[e]? = some g := engine
    by_cases old : e < s.engines.length
    · rw [List.getElem?_append_left old] at engine
      exact gone.stamps e g engine
    · obtain ⟨lt, same⟩ := List.getElem?_eq_some_iff.mp engine
      have last : e = s.engines.length := by
        rw [List.length_append, List.length_singleton] at lt
        omega
      subst last
      obtain rfl : s.generation + 1 = g := by simpa using same
      refine iff_of_false (fun mem => ?_) fun mem => old (gone.released _ mem).1
      have before := gone.past _ mem
      omega

/-- The engines stay gone. -/
theorem Handled.outlived (turn : Handled a s i t) (gone : s.Outlived b) : t.Outlived b := by
  cases turn with
  | admitted _ _ _ engine =>
    rcases engine with rfl | rfl
    · have equipped := gone.equipped
      exact { equipped with }
    · exact gone.next rfl (Nat.le_succ _) fun _ => id
  | offered _ _ engine =>
    cases engine with
    | held => exact gone.next rfl (Nat.le_refl _) fun _ => id
    | acquired =>
      have equipped := gone.equipped
      exact equipped.next rfl (Nat.le_refl _) fun _ => id
  | unequipped => exact gone.next rfl (Nat.le_succ _) fun _ => id
  | unbound | dismissed | lost | left => exact gone.next rfl (Nat.le_succ _) nofun
  | _ => exact gone.next rfl (Nat.le_refl _) fun _ => id

/-! ## Turns -/

/-- Reports of the engines are passed over, and nothing else depends on what is left of them. -/
theorem without_filters (b : Bygone) (a : Answers) :
    Filters a (·.Outlived b) (!b.reported ·) (without b) where
  pending _ := rfl
  waits _ _ := rfl
  wait _ gone := gone.next rfl (Nat.le_refl _) fun _ => id
  next i gone := (dispatch_handled a _ i).outlived gone
  alike i gone _ := without_dispatch gone a i
  passed i gone left := dispatch_of_reported gone a (by simpa using left)

theorem handleInput_outlived (gone : s.Outlived b) (a : Answers) (i : SessionInput) :
    (s.handleInput a i).Outlived b := by
  unfold handleInput
  split
  · exact gone.next rfl (Nat.le_refl _) fun _ => id
  · exact (without_filters b a).drained ((dispatch_handled a s i).outlived gone)

/-- An input has the effect that it would have without what is left of the engines. -/
theorem without_handleInput (gone : s.Outlived b) (a : Answers) (other : b.reported i = false) :
    (s.without b).handleInput a i = (s.handleInput a i).without b :=
  (without_filters b a).handleInput gone (by simp [other])

/-- A report of one of the engines has no effect, be it that it waits first. -/
theorem without_handleInput_reported (gone : s.Outlived b) (a : Answers)
    (settled : s.backlog ≠ [] → s.pending ≠ none) (left : b.reported i = true) :
    (s.handleInput a i).without b = s.without b :=
  (without_filters b a).handleInput_still gone settled (by simp [left])

theorem without_applyLocal (b : Bygone) (a : Answers) (d : Description) (s : Actor) :
    (s.without b).applyLocal a d = (s.applyLocal a d).without b := by
  have held : (s.without b).engine = s.engine := rfl
  unfold applyLocal
  cases engine : s.engine with
  | none => rw [held, engine]
  | some e =>
    rw [held, engine]
    dsimp only
    rw [apply_ite (without b)]
    rfl

theorem applied_outlived (gone : s.Outlived b) (a : Answers) (c : Completion) :
    (s.applied a c).Outlived b := by
  have free : { s with pending := none }.Outlived b := gone.next rfl (Nat.le_refl _) fun _ => id
  refine applied_induction (P := fun t => t.Outlived b) free fun d t _ published => ?_
  cases published with
  | nowhere => exact free
  | refused | sent => exact gone.next rfl (Nat.le_refl _) fun _ => id

/-- A completion has the effect that it would have without what is left of the engines. -/
theorem without_complete (gone : s.Outlived b) (a : Answers) (c : Completion) :
    (s.without b).complete a c = (s.complete a c).without b := by
  refine (without_filters b a).complete rfl (applied_outlived gone a c) ?_
  unfold Actor.applied
  cases c.result with
  | none => rfl
  | some d => exact without_applyLocal b a d { s with pending := none }

theorem complete_outlived (gone : s.Outlived b) (a : Answers) (c : Completion) :
    (s.complete a c).Outlived b := by
  by_cases current : c.generation = s.generation
  · rw [complete_of_current current]
    exact (without_filters b a).drained (applied_outlived gone a c)
  · rw [complete_of_old current]
    exact gone

/-- The completion of a creation on one of the engines has no effect. -/
theorem complete_of_completed (gone : s.Outlived b) (a : Answers) {c : Completion}
    (left : b.completed c = true) : s.complete a c = s := by
  have mem : c.generation ∈ b.generations := by simpa [Bygone.completed] using left
  have before := gone.past _ mem
  exact complete_of_old (by omega)

end Actor

end Parley
