import Mathlib.Data.List.Destutter
import Parley.Proofs.Session.Authentic
import Parley.Proofs.Session.Bygone
import Parley.Proofs.Session.Engines

/-!
# Released engines are silent

What is left of an engine that was released goes on arriving: creations finish, reports come in, and
some of it waits already. `Runner.spared` is the run in which nothing of this happens. It takes the
session from what it is without any of it (`Runner.without`) to what it becomes without any of it
(`without_run`), and what there is to see on the way is the same (`Reachable.released_unseen`).

An engine is told by its number when it reports something or is done with a creation, and by the
generation in which it was acquired from there on. The two agree, because a creation is stamped with
the generation of its engine (`Reachable.stamped`), and no two engines are acquired in the same
generation (`Reachable.outlived`).
-/

namespace Parley

/-- The engines of a session, with the generations in which it acquired them. -/
def Actor.bygone (s : Actor) (es : List EngineId) : Bygone := ⟨es, es.filterMap (s.engines[·]?)⟩

namespace Runner

/-- The session without what is left of the engines. -/
def without (b : Bygone) (p : Runner) : Runner :=
  { p with
    actor := p.actor.without b, inbox := p.inbox.filter (!b.reported ·)
    results := p.results.filter (!b.completed ·) }

/-- The same move for the session without what is left of the engines. There is none if the move is
about nothing else, or if nothing happens in it, as in an attempt to end before the inbox is
empty. -/
def spare (b : Bygone) (p : Runner) : Move → Option Move
  | .act (.report e event) => if b.engines.contains e then none else some (.act (.report e event))
  | .act (.finishCreation index result) =>
    match p.actor.creations[index]? with
    | none => none
    | some c =>
      if b.began c then none
      else some (.act (.finishCreation ((p.actor.creations.take index).countP (!b.began ·)) result))
  | .act .takeInput => if p.inbox.head?.any b.reported then none else some (.act .takeInput)
  | .act .takeResult => if p.results.head?.any b.completed then none else some (.act .takeResult)
  | .act .shutdown => if p.inbox.isEmpty then some (.act .shutdown) else none
  | m => some m

/-- The same run for the session without what is left of the engines. -/
def spared (a : Answers) (b : Bygone) (p : Runner) : List Move → List Move
  | [] => []
  | m :: rest => (p.spare b m).toList ++ (p.move a m).spared a b rest

/-- What an observer sees before and after each move of a run. -/
def snapshots (a : Answers) (p : Runner) : List Move → List Snapshot
  | [] => [p.snapshot]
  | m :: rest => p.snapshot :: (p.move a m).snapshots a rest

/-- What there is to see of a run from outside. -/
structure Seen where
  /-- All that was asked of the collaborators, in order. -/
  record : List Request
  link : Link ClientEvent
  finished : Bool
  /-- What an observer saw, whenever it changed. -/
  snapshots : List Snapshot

/-- What there is to see of a run. -/
def seen (a : Answers) (p : Runner) (moves : List Move) : Seen where
  record := (p.run a moves).actor.record
  link := (p.run a moves).actor.link
  finished := (p.run a moves).finished
  snapshots := (p.snapshots a moves).destutter (· ≠ ·)

variable {a : Answers} {b : Bygone} {p : Runner}

/-! ## Moves -/

@[simp] theorem without_actor (b : Bygone) (p : Runner) :
    (p.without b).actor = p.actor.without b := rfl

theorem without_endIfLeaved (b : Bygone) (p : Runner) :
    (p.without b).endIfLeaved = p.endIfLeaved.without b := by
  unfold endIfLeaved
  rw [apply_ite (without b)]
  rfl

theorem without_push (p : Runner) {i : SessionInput} (other : b.reported i = false) :
    (p.without b).push i = (p.push i).without b := by
  unfold push
  rw [apply_ite (without b)]
  refine if_congr Iff.rfl rfl ?_
  simp [without, other]

theorem without_push_reported (p : Runner) {i : SessionInput} (left : b.reported i = true) :
    (p.push i).without b = p.without b := by
  unfold push
  split
  · rfl
  · simp [without, left]

/-- A session that still runs has not left for good, whatever is left of engines. -/
theorem without_endIfLeaved_of_running (sound : p.Sound) (running : p.finished = false) :
    (p.without b).endIfLeaved = p.without b :=
  if_neg (sound.alive running)

section Filter

variable {α : Type} {f : α → Bool} {l : List α} {index : Nat} {x : α}

theorem filter_split (at_ : l[index]? = some x) :
    l.filter f = (l.take index).filter f ++ (x :: l.drop (index + 1)).filter f := by
  obtain ⟨lt, rfl⟩ := List.getElem?_eq_some_iff.mp at_
  rw [← List.filter_append, List.getElem_cons_drop, List.take_append_drop]

/-- To take out what is filtered out makes no difference. -/
theorem filter_eraseIdx_of_neg (at_ : l[index]? = some x) (dropped : f x = false) :
    (l.eraseIdx index).filter f = l.filter f := by
  rw [filter_split at_, List.filter_cons_of_neg (by simp [dropped]),
    List.eraseIdx_eq_take_drop_succ, List.filter_append]

/-- What is kept stands behind what is kept of those in front of it. -/
theorem getElem?_filter_countP (at_ : l[index]? = some x) (kept : f x = true) :
    (l.filter f)[(l.take index).countP f]? = some x := by
  rw [filter_split at_, List.filter_cons_of_pos kept, List.countP_eq_length_filter,
    List.getElem?_append_right (Nat.le_refl _), Nat.sub_self]
  rfl

theorem filter_eraseIdx_of_pos (at_ : l[index]? = some x) (kept : f x = true) :
    (l.eraseIdx index).filter f = (l.filter f).eraseIdx ((l.take index).countP f) := by
  rw [filter_split at_, List.filter_cons_of_pos kept, List.countP_eq_length_filter,
    List.eraseIdx_eq_take_drop_succ, List.filter_append,
    List.eraseIdx_append_of_length_le (Nat.le_refl _), Nat.sub_self]
  rfl

end Filter

/-- Without what is left of the engines the session does the same in the move that is spared, if
there is one. -/
def Spares (a : Answers) (b : Bygone) (p : Runner) (m : Move) : Prop :=
  (p.without b).run a (p.spare b m).toList = (p.move a m).without b

/-- A move with nothing but what is left of the engines. -/
theorem Spares.of_none {m : Move} (spare : p.spare b m = none)
    (same : (p.move a m).without b = p.without b) : Spares a b p m := by
  unfold Spares
  rw [spare]
  exact same.symm

theorem Spares.of_some {m : Move} (m' : Move) (spare : p.spare b m = some m')
    (same : (p.without b).move a m' = (p.move a m).without b) : Spares a b p m := by
  unfold Spares
  rw [spare]
  exact same

theorem spares_report (gone : p.actor.Outlived b) (e : EngineId) (event : EngineEvent) :
    Spares a b p (.act (.report e event)) := by
  have held : (p.without b).actor.engines = p.actor.engines := rfl
  by_cases left : e ∈ b.engines
  · refine .of_none (if_pos (by simpa using left)) ?_
    show (p.report e event).without b = p.without b
    unfold report
    cases engine : p.actor.engines[e]? with
    | none => rfl
    | some g =>
      apply without_push_reported
      simpa [Bygone.reported] using (gone.stamps e g engine).mpr left
  · refine .of_some (.act (.report e event)) (if_neg (by simpa using left)) ?_
    show (p.without b).report e event = (p.report e event).without b
    unfold report
    rw [held]
    cases engine : p.actor.engines[e]? with
    | none => rfl
    | some g =>
      apply without_push
      simpa [Bygone.reported] using fun mem => left ((gone.stamps e g engine).mp mem)

theorem spares_finishCreation (sound : p.Sound) (gone : p.actor.Outlived b)
    (stamped : ∀ c ∈ p.actor.creations, p.actor.engines[c.engine]? = some c.generation)
    (index : Nat) (result : Option Description) :
    Spares a b p (.act (.finishCreation index result)) := by
  cases begun : p.actor.creations[index]? with
  | none =>
    refine .of_none (by simp [spare, begun]) ?_
    show (p.finishCreation index result).without b = p.without b
    unfold finishCreation
    rw [begun]
  | some c =>
    have stamp := gone.stamps _ _ (stamped c (List.mem_of_getElem? begun))
    by_cases left : c.engine ∈ b.engines
    · refine .of_none (by simp [spare, begun, Bygone.began, left]) ?_
      show (p.finishCreation index result).without b = p.without b
      have began : b.began c = true := by simpa [Bygone.began] using left
      have completed : b.completed ⟨c.generation, c.kind, result⟩ = true := by
        simpa [Bygone.completed] using stamp.mpr left
      have results : (if p.finished then [] else
          p.results ++ [(⟨c.generation, c.kind, result⟩ : Completion)]).filter (!b.completed ·) =
          p.results.filter (!b.completed ·) := by
        split
        case isTrue ended => rw [(sound.emptied ended).2]
        case isFalse => simp [completed]
      have erased := filter_eraseIdx_of_neg (f := (!b.began ·)) begun (by simp [began])
      unfold finishCreation
      rw [begun]
      simp only [without, Actor.without, results, erased]
    · have began : b.began c = false := by simpa [Bygone.began] using left
      have completed : b.completed ⟨c.generation, c.kind, result⟩ = false := by
        simpa [Bygone.completed] using fun mem => left (stamp.mp mem)
      refine .of_some (.act (.finishCreation _ result)) (by simp [spare, begun, began]; rfl) ?_
      show (p.without b).finishCreation _ result = (p.finishCreation index result).without b
      have erased := filter_eraseIdx_of_pos (f := (!b.began ·)) begun (by simp [began])
      have begun' : (p.without b).actor.creations[(p.actor.creations.take index).countP
          (!b.began ·)]? = some c := getElem?_filter_countP begun (by simp [began])
      have results : (if p.finished then [] else
          p.results ++ [(⟨c.generation, c.kind, result⟩ : Completion)]).filter (!b.completed ·) =
          if p.finished then [] else p.results.filter (!b.completed ·) ++
            [(⟨c.generation, c.kind, result⟩ : Completion)] := by
        split <;> simp [completed]
      unfold finishCreation
      rw [begun, begun']
      simp only [without, Actor.without, results, erased]
      rfl

theorem spares_takeInput (sound : p.Sound) (gone : p.actor.Outlived b) :
    Spares a b p (.act .takeInput) := by
  cases next : p.inbox with
  | nil =>
    refine .of_some (.act .takeInput) (by simp [spare, next]) ?_
    show (p.without b).takeInput a = (p.takeInput a).without b
    have next' : (p.without b).inbox = [] := by simp [without, next]
    unfold takeInput
    rw [next, next']
  | cons i rest =>
    cases left : b.reported i with
    | true =>
      refine .of_none (by simp [spare, next, left]) ?_
      show (p.takeInput a).without b = p.without b
      unfold takeInput
      rw [next]
      dsimp only
      split
      case isTrue => rfl
      case isFalse running =>
        have same : { p with actor := p.actor.handleInput a i, inbox := rest }.without b =
            p.without b := by
          have actor := Actor.without_handleInput_reported gone a sound.settled left
          simp [without, actor, next, left]
        rw [← without_endIfLeaved, same]
        exact without_endIfLeaved_of_running sound (by simpa using running)
    | false =>
      refine .of_some (.act .takeInput) (by simp [spare, next, left]) ?_
      show (p.without b).takeInput a = (p.takeInput a).without b
      have next' : (p.without b).inbox = i :: rest.filter (!b.reported ·) := by
        simp [without, next, left]
      unfold takeInput
      rw [next, next']
      dsimp only
      rw [apply_ite (without b), ← without_endIfLeaved]
      refine if_congr Iff.rfl rfl (congrArg endIfLeaved ?_)
      rw [without_actor, Actor.without_handleInput gone a left]
      rfl

theorem spares_takeResult (sound : p.Sound) (gone : p.actor.Outlived b) :
    Spares a b p (.act .takeResult) := by
  cases next : p.results with
  | nil =>
    refine .of_some (.act .takeResult) (by simp [spare, next]) ?_
    show (p.without b).takeResult a = (p.takeResult a).without b
    have next' : (p.without b).results = [] := by simp [without, next]
    unfold takeResult
    rw [next, next']
  | cons c rest =>
    cases left : b.completed c with
    | true =>
      refine .of_none (by simp [spare, next, left]) ?_
      show (p.takeResult a).without b = p.without b
      unfold takeResult
      rw [next]
      dsimp only
      split
      case isTrue => rfl
      case isFalse running =>
        have same : { p with actor := p.actor.complete a c, results := rest }.without b =
            p.without b := by
          simp [without, Actor.complete_of_completed gone a left, next, left]
        rw [← without_endIfLeaved, same]
        exact without_endIfLeaved_of_running sound (by simpa using running)
    | false =>
      refine .of_some (.act .takeResult) (by simp [spare, next, left]) ?_
      show (p.without b).takeResult a = (p.takeResult a).without b
      have next' : (p.without b).results = c :: rest.filter (!b.completed ·) := by
        simp [without, next, left]
      unfold takeResult
      rw [next, next']
      dsimp only
      rw [apply_ite (without b), ← without_endIfLeaved]
      refine if_congr Iff.rfl rfl (congrArg endIfLeaved ?_)
      rw [without_actor, Actor.without_complete gone a c]
      rfl

theorem spares_shutdown (b : Bygone) (p : Runner) : Spares a b p (.act .shutdown) := by
  cases waits : p.inbox with
  | nil =>
    refine .of_some (.act .shutdown) (by simp [spare, waits]) ?_
    show (p.without b).shutdown = p.shutdown.without b
    have waits' : (p.without b).inbox = [] := by simp [without, waits]
    unfold shutdown
    rw [apply_ite (without b), ← without_endIfLeaved]
    refine if_congr (by rw [waits, waits']; rfl) rfl (congrArg endIfLeaved ?_)
    unfold Actor.shutdown
    rw [without_actor, Actor.without_leave]
    rfl
  | cons i rest =>
    refine .of_none (by simp [spare, waits]) ?_
    show p.shutdown.without b = p.without b
    simp [shutdown, waits]

/-- Each move has the effect that it would have without what is left of the engines. -/
theorem spares_move (sound : p.Sound) (gone : p.actor.Outlived b)
    (stamped : ∀ c ∈ p.actor.creations, p.actor.engines[c.engine]? = some c.generation) (m : Move) :
    Spares a b p m := by
  cases m with
  | deliver e => exact without_push p rfl
  | receive | closeLink | dropReceiver => rfl
  | act m =>
    cases m with
    | leave | exit | rejoin | linkLost => exact without_push p rfl
    | dropHandle => rfl
    | report e event => exact spares_report gone e event
    | finishCreation index result => exact spares_finishCreation sound gone stamped index result
    | takeInput => exact spares_takeInput sound gone
    | takeResult => exact spares_takeResult sound gone
    | shutdown => exact spares_shutdown b p

/-! ## Runs -/

/-- Engines that are gone stay so. -/
theorem Acted.outlived {q : Runner} {m : Act} (gone : p.actor.Outlived b) (done : Acted a p m q) :
    q.actor.Outlived b := by
  cases done with
  | pushed =>
    rw [push_actor]
    exact gone
  | handleDropped | idle => exact gone
  | created => exact gone.next rfl (Nat.le_refl _) fun _ => id
  | tookInput =>
    rw [endIfLeaved_actor]
    exact Actor.handleInput_outlived gone a _
  | tookResult =>
    rw [endIfLeaved_actor]
    exact Actor.complete_outlived gone a _
  | abandoned =>
    rw [endIfLeaved_actor]
    exact (Actor.leave_handled a p.actor true).outlived gone

theorem move_outlived (gone : p.actor.Outlived b) (m : Move) : (p.move a m).actor.Outlived b := by
  cases m with
  | act m => exact (act_acted a p m).outlived gone
  | deliver e =>
    show (p.push _).actor.Outlived b
    rw [push_actor]
    exact gone
  | receive | closeLink | dropReceiver => exact gone.next rfl (Nat.le_refl _) fun _ => id

/-- A creation bears the generation of the engine that it was begun on. -/
theorem Reachable.stamped {room : RoomId} (h : Reachable a room p) :
    ∀ c ∈ p.actor.creations, p.actor.engines[c.engine]? = some c.generation := by
  have began : ∀ c ∈ p.actor.creations, p.actor.Began c := by
    refine h.actor_induction (P := fun s => ∀ c ∈ s.creations, s.Began c) (fun link => ?_)
      (fun s _ _ _ _ fewer h c mem => h c (fewer mem))
      (fun s i t sound h turn c mem => ?_) fun s d t sound h published c mem => ?_
    · rcases Actor.enterRoom_cases a (.new room link) with entered | entered <;>
      · rw [entered]
        exact nofun
    · rcases turn.began sound c mem with old | new
      · exact (h c old).onward turn.onward
      · exact new
    · have old : c ∈ s.creations := by cases published <;> exact mem
      exact (h c old).onward published.onward
  exact fun c mem => (began c mem).1

/-- A session without an engine has moved on from the generations of all its engines. -/
theorem Reachable.generations_past {room : RoomId} (h : Reachable a room p)
    (free : p.actor.engine = none) : ∀ g ∈ p.actor.engines, g < p.actor.generation := by
  refine h.actor_induction (P := fun s => s.engine = none → ∀ g ∈ s.engines, g < s.generation)
    (fun link => ?_) (fun s _ _ _ _ _ h => h) (fun s i t sound h turn => ?_)
    (fun s d t sound h published => ?_) free
  · rcases Actor.enterRoom_cases a (.new room link) with entered | entered <;>
    · rw [entered]
      exact fun _ => nofun
  · have past : ∀ g ∈ s.engines, g < s.generation + 1 :=
      fun g mem => Nat.lt_succ_of_le (sound.past g mem)
    cases turn with
    | admitted _ _ _ engine =>
      rcases engine with rfl | rfl
      · exact nofun
      · exact fun _ => past
    | offered _ _ engine =>
      cases engine with
      | held engine =>
        intro free
        have free : s.engine = none := free
        rw [engine] at free
        cases free
      | acquired => exact nofun
    | unequipped | unbound | dismissed | lost | left => exact fun _ => past
    | _ => exact h
  · cases published <;> exact h

/-- An engine that was closed is gone, and so is its generation. -/
theorem Reachable.outlived {room : RoomId} (h : Reachable a room p) (es : List EngineId)
    (released : ∀ e ∈ es, .closeEngine e ∈ p.actor.record) :
    p.actor.Outlived (p.actor.bygone es) := by
  have sound := h.sound.actor
  have gone : ∀ e ∈ es, (e : Nat) < p.actor.engines.length ∧ p.actor.engine ≠ some e := by
    intro e mem
    have closed : 0 < closings e p.actor.record :=
      List.countP_pos_iff.mpr ⟨_, released e mem, by simp [Request.errand]⟩
    have orderly : Parley.Orderly a _ _ _ := h.orderly
    rw [orderly.closings_eq] at closed
    by_contra held
    rw [if_neg held] at closed
    exact Nat.lt_irrefl 0 closed
  refine ⟨gone, fun g mem => ?_, fun e g engine => ?_⟩
  · obtain ⟨e, mem, engine⟩ := List.mem_filterMap.mp mem
    have old : g ∈ p.actor.engines := List.mem_of_getElem? engine
    cases held : p.actor.engine with
    | none => exact h.generations_past held g old
    | some e' =>
      refine Nat.lt_of_le_of_ne (sound.past g old) fun current => (gone e mem).2 ?_
      have latest : e = e' := sound.engine_eq held (by rw [engine, current])
      rw [held, latest]
  · -- No two engines were acquired in the same generation.
    have lt : e < p.actor.engines.length := (List.getElem?_eq_some_iff.mp engine).1
    have apart : p.actor.engines.Nodup := sound.rising.imp Nat.ne_of_lt
    refine List.mem_filterMap.trans ⟨?_, fun mem => ⟨e, mem, engine⟩⟩
    rintro ⟨e', mem, engine'⟩
    rwa [(List.getElem?_inj lt apart).mp (engine.trans engine'.symm)]

/-- A run has the effect that it would have without what is left of the engines. -/
theorem without_run {room : RoomId} (h : Reachable a room p) (gone : p.actor.Outlived b)
    (moves : List Move) :
    (p.without b).run a (p.spared a b moves) = (p.run a moves).without b := by
  induction moves generalizing p with
  | nil => rfl
  | cons m rest ih =>
    have same : (p.without b).run a (p.spare b m).toList = (p.move a m).without b :=
      spares_move h.sound gone h.stamped m
    have next := ih (h.move m) (move_outlived gone m)
    unfold run at same next ⊢
    rw [spared, List.foldl_append, same]
    exact next

/-- A run begins with what is there. -/
theorem snapshots_cons (a : Answers) (p : Runner) (moves : List Move) :
    ∃ rest, p.snapshots a moves = p.snapshot :: rest := by
  cases moves <;> exact ⟨_, rfl⟩

/-- A move in which nothing changes is not seen. -/
theorem destutter_snapshots_same {q : Runner} (same : p.snapshot = q.snapshot)
    (moves : List Move) :
    (p.snapshot :: q.snapshots a moves).destutter (· ≠ ·) =
      (q.snapshots a moves).destutter (· ≠ ·) := by
  obtain ⟨rest, first⟩ := snapshots_cons a q moves
  rw [first, same]
  simp [List.destutter_cons']

/-- Behind the same snapshot the same is seen, if the same is seen. -/
theorem destutter_snapshots_congr {a' : Answers} {q q' : Runner} (x : Snapshot)
    {moves moves' : List Move} (alike : q.snapshot = q'.snapshot)
    (same : (q.snapshots a moves).destutter (· ≠ ·) =
      (q'.snapshots a' moves').destutter (· ≠ ·)) :
    (x :: q.snapshots a moves).destutter (· ≠ ·) =
      (x :: q'.snapshots a' moves').destutter (· ≠ ·) := by
  obtain ⟨rest, first⟩ := snapshots_cons a q moves
  obtain ⟨rest', first'⟩ := snapshots_cons a' q' moves'
  rw [first, first', ← alike, List.destutter_cons', List.destutter_cons'] at same
  rw [first, first', ← alike, List.destutter_cons_cons, List.destutter_cons_cons, same]
  by_cases new : x = q.snapshot
  · subst new
    simp [same]
  · simp [new]

/-- An observer sees what they would see without what is left of the engines. -/
theorem without_snapshots {room : RoomId} (h : Reachable a room p) (gone : p.actor.Outlived b)
    (moves : List Move) :
    ((p.without b).snapshots a (p.spared a b moves)).destutter (· ≠ ·) =
      (p.snapshots a moves).destutter (· ≠ ·) := by
  induction moves generalizing p with
  | nil => rfl
  | cons m rest ih =>
    have same : (p.without b).run a (p.spare b m).toList = (p.move a m).without b :=
      spares_move h.sound gone h.stamped m
    have next := ih (h.move m) (move_outlived gone m)
    rw [spared]
    cases step : p.spare b m with
    | none =>
      -- The move is left out, and nothing changes in it.
      rw [step] at same
      have same : p.without b = (p.move a m).without b := same
      have still : (p.without b).snapshot = ((p.move a m).without b).snapshot := by rw [same]
      have still : p.snapshot = (p.move a m).snapshot := still
      rw [snapshots, destutter_snapshots_same still, ← next, same]
      rfl
    | some m' =>
      rw [step] at same
      have same : (p.without b).move a m' = (p.move a m).without b := same
      show (p.snapshot :: ((p.without b).move a m').snapshots a
        ((p.move a m).spared a b rest)).destutter (· ≠ ·) = _
      rw [same]
      exact destutter_snapshots_congr p.snapshot rfl next

/-- Once engines are released, what is left of them has no effect, however long the session goes on
and however many engines it acquires and releases: what there is to see of a run is what there would
be to see without it. So the same is seen of two runs that differ in nothing else. -/
theorem Reachable.released_unseen {room : RoomId} (h : Reachable a room p) (es : List EngineId)
    (released : ∀ e ∈ es, .closeEngine e ∈ p.actor.record) (moves : List Move) :
    let b := p.actor.bygone es
    p.seen a moves = (p.without b).seen a (p.spared a b moves) ∧
      ∀ q moves', Reachable a room q → q.without b = p.without b →
        q.spared a b moves' = p.spared a b moves → q.seen a moves' = p.seen a moves := by
  intro b
  have unseen {p : Runner} (h : Reachable a room p) (gone : p.actor.Outlived b)
      (moves : List Move) : p.seen a moves = (p.without b).seen a (p.spared a b moves) := by
    unfold seen
    rw [without_run h gone, without_snapshots h gone]
    rfl
  have gone : p.actor.Outlived b := h.outlived es released
  refine ⟨unseen h gone moves, fun q moves' h' same same' => ?_⟩
  have gone' : q.actor.Outlived b := by
    have record : q.actor.record = p.actor.record := congrArg (·.actor.record) same
    have engines : q.actor.engines = p.actor.engines := congrArg (·.actor.engines) same
    have outlived := h'.outlived es fun e mem => record ▸ released e mem
    have bygone : q.actor.bygone es = b := by
      show Bygone.mk es _ = Bygone.mk es _
      rw [engines]
    rwa [bygone] at outlived
  rw [unseen h gone, unseen h' gone', same, same']

/-! ### A change of counterparts -/

/-- What a session hears of two newcomers. The first leaves while it is being made an offer, so that
the other is made one by a new engine. Something may happen in between. -/
def succession (between : List Move) : List Move :=
  let hear (e : ServerEvent) : List Move := [.deliver e, .act .takeInput]
  let r : RoomId := ⟨"r"⟩
  hear (.joined r ⟨"me"⟩) ++ hear (.otherJoin r ⟨"a"⟩) ++ hear (.otherJoin r ⟨"b"⟩) ++ between ++
    hear (.bye r ⟨"a"⟩)

/-- The session takes the report of an engine. -/
def straggle (e : EngineId) : List Move :=
  [.act (.report e (.localCandidate ⟨"candidate", none, none⟩)), .act .takeInput]

/-- The creation on the released engine finishes, and the engine reports. -/
def noisy : List Move :=
  [.act (.finishCreation 0 (some ⟨.offer, "v=0"⟩)), .act .takeResult] ++ straggle 0 ++
    [.act (.finishCreation 0 (some ⟨.offer, "v=1"⟩)), .act .takeResult]

/-- Only the creation on the new engine finishes. -/
def quiet : List Move := [.act (.finishCreation 1 (some ⟨.offer, "v=1"⟩)), .act .takeResult]

theorem released_unseen_succession :
    let p := (start .obliging ⟨"r"⟩ .fresh).run .obliging (succession (straggle 0))
    let q := (start .obliging ⟨"r"⟩ .fresh).run .obliging (succession [])
    p.actor.backlog.length = 1 ∧ q.actor.backlog = [] ∧ p.actor.engine = some 1 ∧
      .closeEngine 0 ∈ p.actor.record ∧ q.seen .obliging quiet = p.seen .obliging noisy := by
  intro p q
  have closed : .closeEngine 0 ∈ p.actor.record := List.mem_of_getElem? (i := 5) rfl
  refine ⟨rfl, rfl, rfl, closed, ?_⟩
  have reachable : Reachable .obliging ⟨"r"⟩ p := (Reachable.start .fresh).run _
  have reachable' : Reachable .obliging ⟨"r"⟩ q := (Reachable.start .fresh).run _
  have released : ∀ e ∈ [0], .closeEngine e ∈ p.actor.record := by
    intro e mem
    rw [List.mem_singleton.mp mem]
    exact closed
  have unseen := (Reachable.released_unseen reachable [0] released noisy).2 q quiet reachable'
  have bygone : p.actor.bygone [0] = ⟨[0], [1]⟩ := rfl
  rw [bygone] at unseen
  -- Both runs come down to the creation on the new engine.
  have same : q.spared .obliging ⟨[0], [1]⟩ quiet = p.spared .obliging ⟨[0], [1]⟩ noisy := by
    trans [.act (.finishCreation 0 (some ⟨.offer, "v=1"⟩)), .act .takeResult] <;> rfl
  exact unseen rfl same

end Runner

end Parley
