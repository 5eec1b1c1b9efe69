import Parley.Proofs.Session.Beside
import Parley.Proofs.Session.Departure

/-!
# One input at a time

While an offer or answer is being created, inputs wait in the backlog; when it has finished, the
session handles them until the next creation begins. If nothing is torn down and every creation comes
to the same whenever it finishes, then the waiting makes no difference: the session does what it
would do if every creation finished before the next input is handled (`Peacefully.matches_synchronous`).

`Actor.fulfilled` is what a session comes to once what it is creating has finished. It stays the same
while inputs wait, and each input that is handled is served as in the synchronous run
(`drainUpTo_serves`), which is what `Steady` follows move by move.
-/

namespace Parley

/-- What comes of a creation, given all requests so far. The last one is the one for the creation. -/
abbrev Outcomes := List Request → Option Description

namespace Actor

variable {a : Answers} {outcome : Outcomes} {s t : Actor} {i : SessionInput}
  {waiting : List SessionInput} {out : List ClientEvent}

/-- What is being created is what is pending. -/
def Tasked (s : Actor) : Prop :=
  match s.pending with
  | none => s.creations = []
  | some kind => ∃ e, s.creations = [⟨e, s.generation, kind⟩]

/-- The session once what it is creating has finished. -/
def fulfilled (a : Answers) (outcome : Outcomes) (s : Actor) : Actor :=
  match s.pending with
  | none => s
  | some kind => { s with creations := [] }.applied a ⟨s.generation, kind, outcome s.record⟩

/-- Handle an input, and let what it begins to create finish. -/
def serve (a : Answers) (outcome : Outcomes) (s : Actor) (i : SessionInput) : Actor :=
  (s.dispatch a i).fulfilled a outcome

/-- Nothing waits, nothing is being created, and the session is not over. -/
structure Idle (s : Actor) : Prop where
  backlog : s.backlog = []
  free : s.pending = none
  creations : s.creations = []
  running : s.state ≠ .leaved

/-! ## Serving an input -/

theorem fulfilled_of_free (free : s.pending = none) : s.fulfilled a outcome = s := by
  unfold fulfilled
  rw [free]

theorem fulfilled_of_busy {kind : SdpKind} (busy : s.pending = some kind) :
    s.fulfilled a outcome =
      { s with creations := [] }.applied a ⟨s.generation, kind, outcome s.record⟩ := by
  unfold fulfilled
  rw [busy]

theorem beside_fulfilled (s : Actor) :
    (s.beside waiting out).fulfilled a outcome = (s.fulfilled a outcome).beside waiting out := by
  cases busy : s.pending with
  | none => rw [fulfilled_of_free busy, fulfilled_of_free (by exact busy)]
  | some kind =>
    rw [fulfilled_of_busy busy, fulfilled_of_busy (s := s.beside waiting out) busy, ← beside_applied]
    rfl

theorem beside_beside (s : Actor) (waiting' : List SessionInput) (out' : List ClientEvent) :
    (s.beside waiting out).beside waiting' out' = s.beside waiting' (out' ++ out) := by
  simp [beside]

theorem beside_self (empty : s.backlog = []) : s.beside [] [] = s := by
  unfold beside
  rw [← empty]
  rfl

theorem beside_serve (later : i.preempts = false) (s : Actor) :
    (s.beside waiting out).serve a outcome i = (s.serve a outcome i).beside waiting out := by
  unfold serve
  rw [beside_dispatch a later, beside_fulfilled]

/-- An input that does not preempt begins one creation at most, and leaves the backlog alone. -/
theorem Handled.tasked (turn : Handled a s i t) (later : i.preempts = false)
    (free : s.pending = none) (none : s.creations = []) :
    t.Tasked ∧ t.backlog = s.backlog ∧ (t.state = .leaved → s.state = .leaved) := by
  have same {t : Actor} (pending : t.pending = s.pending) (creations : t.creations = s.creations) :
      t.Tasked := by
    unfold Tasked
    rw [pending, free]
    exact creations.trans none
  cases turn with
  | admitted _ _ _ engine =>
    rcases engine with rfl | rfl <;> exact ⟨same rfl rfl, rfl, fun left => by cases left⟩
  | @offered _ e _ _ _ engine =>
    cases engine with
    | held => exact ⟨⟨e, by rw [Actor.offering, none]; rfl⟩, rfl, fun left => by cases left⟩
    | acquired =>
      exact ⟨⟨s.engines.length, by simp [Actor.offering, Actor.equipped, none]⟩, rfl, fun left => by cases left⟩
  | @tookOffer _ _ _ e => exact ⟨⟨e, by rw [Actor.answering, none]; rfl⟩, rfl, id⟩
  | unbound | dismissed | lost => cases later
  | @left exit => cases exit <;> cases later
  | _ => exact ⟨same rfl rfl, rfl, id⟩

/-- What is applied when a creation finishes begins nothing new. -/
theorem applied_free (a : Answers) (s : Actor) (c : Completion) :
    (s.applied a c).pending = none ∧ (s.applied a c).creations = s.creations ∧
      (s.applied a c).backlog = s.backlog ∧ (s.applied a c).state = s.state :=
  applied_induction (P := fun t => t.pending = none ∧ t.creations = s.creations ∧
      t.backlog = s.backlog ∧ t.state = s.state) ⟨rfl, rfl, rfl, rfl⟩
    fun d t _ published => by cases published <;> exact ⟨rfl, rfl, rfl, rfl⟩

variable (a outcome) in
theorem Tasked.fulfilled (task : t.Tasked) :
    (t.fulfilled a outcome).pending = none ∧ (t.fulfilled a outcome).creations = [] ∧
      (t.fulfilled a outcome).backlog = t.backlog ∧ (t.fulfilled a outcome).state = t.state := by
  cases busy : t.pending with
  | none =>
    rw [fulfilled_of_free busy]
    refine ⟨busy, ?_, rfl, rfl⟩
    simpa [Tasked, busy] using task
  | some kind =>
    rw [fulfilled_of_busy busy]
    exact applied_free a { t with creations := [] } _

theorem Idle.serve (idle : s.Idle) (later : i.preempts = false) : (s.serve a outcome i).Idle := by
  obtain ⟨task, backlog, running⟩ :=
    (dispatch_handled a s i).tasked later idle.free idle.creations
  obtain ⟨free, creations, backlog', state⟩ := task.fulfilled a outcome
  refine ⟨backlog'.trans (backlog.trans idle.backlog), free, creations, fun left => ?_⟩
  exact idle.running (running (state.symm.trans left))

theorem Idle.serve_all (idle : s.Idle) {inputs : List SessionInput}
    (later : ∀ i ∈ inputs, i.preempts = false) : (inputs.foldl (Actor.serve a outcome) s).Idle := by
  induction inputs generalizing s with
  | nil => exact idle
  | cons i rest ih =>
    exact ih (idle.serve (later i List.mem_cons_self)) fun j mem =>
      later j (List.mem_cons_of_mem _ mem)

/-- Inputs of the backlog were served on the way from one session to another one, the last of them up
to what it began to create. -/
structure Serves (a : Answers) (outcome : Outcomes) (s : Actor) (served : List SessionInput)
    (t : Actor) : Prop where
  backlog : s.backlog = served ++ t.backlog
  task : t.Tasked
  running : t.state = .leaved → s.state = .leaved
  same : ∀ out, (t.fulfilled a outcome).beside [] out =
    served.foldl (Actor.serve a outcome) (s.beside [] out)

theorem Serves.nothing (free : s.pending = none) (none : s.creations = []) :
    Serves a outcome s [] s where
  backlog := rfl
  task := by simpa [Tasked, free] using none
  running := id
  same out := by
    rw [fulfilled_of_free free]
    rfl

/-- Handling inputs from the backlog until a creation begins is serving so many of them. -/
theorem drainUpTo_serves (a : Answers) (outcome : Outcomes) (n : Nat) (s : Actor)
    (free : s.pending = none) (none : s.creations = [])
    (later : ∀ i ∈ s.backlog, i.preempts = false) (enough : s.backlog.length ≤ n) :
    ∃ served, Serves a outcome s served (drainUpTo a n s) := by
  induction n generalizing s with
  | zero =>
    have empty : s.backlog = [] := List.eq_nil_of_length_eq_zero (Nat.le_zero.mp enough)
    rw [drainUpTo_of_empty a 0 empty]
    exact ⟨[], .nothing free none⟩
  | succ n ih =>
    cases waits : s.backlog with
    | nil =>
      rw [drainUpTo_of_empty a _ waits]
      exact ⟨[], .nothing free none⟩
    | cons i rest =>
      rw [waits] at later enough
      have first := later i List.mem_cons_self
      rw [drainUpTo_of_free a n (by simp [free]) waits]
      obtain ⟨task, backlog, running⟩ :=
        (dispatch_handled a { s with backlog := rest } i).tasked first free none
      -- Serving does not depend on the inputs that are left.
      have same (out : List ClientEvent) :
          (({ s with backlog := rest }.dispatch a i).fulfilled a outcome).beside [] out =
            (s.beside [] out).serve a outcome i :=
        (beside_serve first { s with backlog := rest }).symm
      generalize { s with backlog := rest }.dispatch a i = t at *
      have backlog : t.backlog = rest := backlog
      cases busy : t.pending with
      | some kind =>
        rw [drainUpTo_of_busy a n (by simp [busy])]
        exact ⟨[i], by rw [waits, backlog]; rfl, task, running, same⟩
      | none =>
        have none' : t.creations = [] := by simpa [Tasked, busy] using task
        have later' : ∀ j ∈ t.backlog, j.preempts = false := fun j mem =>
          later j (List.mem_cons_of_mem _ (backlog ▸ mem))
        obtain ⟨served, serves⟩ :=
          ih t busy none' later' (by rw [backlog]; exact Nat.le_of_succ_le_succ enough)
        refine ⟨i :: served, ?_, serves.task, fun left => running (serves.running left), ?_⟩
        · rw [waits, List.cons_append, ← serves.backlog, backlog]
        · intro out
          have idle : t.fulfilled a outcome = t := fulfilled_of_free busy
          rw [serves.same out, ← idle, same]
          rfl

end Actor

/-! ## Runs -/

namespace Runner

/-- The event that is received in a move. -/
def receipt (p : Runner) : Move → Option ClientEvent
  | .receive =>
    match p.actor.link.receive.1 with
    | .value e => some e
    | _ => none
  | _ => none

/-- The inputs that arrive in a run, in order. -/
def arrivals (a : Answers) (p : Runner) : List Move → List SessionInput
  | [] => []
  | m :: rest => (p.arrival m).toList ++ (p.move a m).arrivals a rest

/-- The events that are received in a run, in order. -/
def received (a : Answers) (p : Runner) : List Move → List ClientEvent
  | [] => []
  | m :: rest => (p.receipt m).toList ++ (p.move a m).received a rest

/-- Nothing is torn down, and what finishes comes to what the requests so far say. -/
def Peaceful (outcome : Outcomes) (p : Runner) : Move → Prop
  | .deliver e => (SessionInput.server e).preempts = false
  | .act (.finishCreation _ result) => result = outcome p.actor.record
  | .act .rejoin | .act (.report _ _) | .act .takeInput | .act .takeResult | .receive => True
  | _ => False

/-- All moves of a run are of that kind. -/
def Peacefully (a : Answers) (outcome : Outcomes) (p : Runner) : List Move → Prop
  | [] => True
  | m :: rest => p.Peaceful outcome m ∧ (p.move a m).Peacefully a outcome rest

instance (outcome : Outcomes) (p : Runner) : (m : Move) → Decidable (p.Peaceful outcome m)
  | .deliver _ => inferInstanceAs (Decidable (_ = _))
  | .act (.finishCreation _ _) => inferInstanceAs (Decidable (_ = _))
  | .act .rejoin | .act (.report _ _) | .act .takeInput | .act .takeResult | .receive =>
    inferInstanceAs (Decidable True)
  | .act .leave | .act .exit | .act .linkLost | .act .dropHandle | .act .shutdown | .closeLink
  | .dropReceiver => inferInstanceAs (Decidable False)

instance decidablePeacefully (a : Answers) (outcome : Outcomes) (p : Runner) :
    (moves : List Move) → Decidable (p.Peacefully a outcome moves)
  | [] => inferInstanceAs (Decidable True)
  | m :: rest =>
    have := decidablePeacefully a outcome (p.move a m) rest
    inferInstanceAs (Decidable (p.Peaceful outcome m ∧ (p.move a m).Peacefully a outcome rest))

/-- Put an input into the inbox, handle it, and let what it begins to create finish and be handled. -/
def serve (a : Answers) (outcome : Outcomes) (p : Runner) (i : SessionInput) : Runner :=
  let p := (p.push i).takeInput a
  (p.finishCreation 0 (outcome p.actor.record)).takeResult a

/-- Start a session and serve inputs, one after another. -/
def synchronous (a : Answers) (outcome : Outcomes) (room : RoomId) (link : Link ClientEvent)
    (inputs : List SessionInput) : Runner :=
  inputs.foldl (serve a outcome) (start a room link)

variable {a : Answers} {outcome : Outcomes} {p : Runner} {s : Actor} {out : List ClientEvent}
  {i : SessionInput} {room : RoomId} {link : Link ClientEvent}

/-! ### The synchronous run -/

/-- A session for which nothing waits. -/
def resting (s : Actor) : Runner := ⟨s, [], [], true, false⟩

theorem endIfLeaved_of_running (running : p.actor.state ≠ .leaved) : p.endIfLeaved = p := by
  unfold endIfLeaved
  rw [if_neg running]

/-- Between two inputs of a synchronous run nothing waits and nothing is being created. -/
theorem serve_resting (idle : s.Idle) (later : i.preempts = false) :
    (resting s).serve a outcome i = resting (s.serve a outcome i) := by
  obtain ⟨task, backlog, running⟩ :=
    (Actor.dispatch_handled a s i).tasked later idle.free idle.creations
  have handled : s.handleInput a i = s.dispatch a i := by
    unfold Actor.handleInput
    rw [idle.free]
    exact Actor.drain_of_empty a (backlog.trans idle.backlog)
  have served := (show (s.serve a outcome i).Idle from idle.serve later).running
  unfold Actor.serve at served ⊢
  have took : ((resting s).push i).takeInput a = resting (s.dispatch a i) := by
    show endIfLeaved (resting (s.handleInput a i)) = _
    rw [handled]
    exact endIfLeaved_of_running fun left => idle.running (running left)
  unfold serve
  rw [took]
  have backlog := backlog.trans idle.backlog
  generalize s.dispatch a i = t at *
  show ((resting t).finishCreation 0 (outcome t.record)).takeResult a = _
  cases busy : t.pending with
  | none =>
    have none : t.creations = [] := by simpa [Actor.Tasked, busy] using task
    rw [Actor.fulfilled_of_free busy]
    simp [finishCreation, resting, none, takeResult]
  | some kind =>
    obtain ⟨e, creations⟩ : ∃ e, t.creations = [⟨e, t.generation, kind⟩] := by
      simpa [Actor.Tasked, busy] using task
    have finished : (resting t).finishCreation 0 (outcome t.record) =
        { resting { t with creations := [] } with
          results := [⟨t.generation, kind, outcome t.record⟩] } := by
      simp [finishCreation, resting, creations]
    rw [Actor.fulfilled_of_busy busy] at served ⊢
    rw [finished]
    show endIfLeaved (resting ({ t with creations := [] }.complete a _)) = _
    rw [Actor.complete_of_current (by rfl), Actor.drain_of_empty]
    · exact endIfLeaved_of_running served
    · exact (Actor.applied_free a { t with creations := [] } _).2.2.1.trans backlog

theorem start_idle (a : Answers) (room : RoomId) (link : Link ClientEvent) :
    (start a room link).actor.Idle ∧ start a room link = resting (start a room link).actor := by
  refine ⟨?_, rfl⟩
  unfold start
  rcases Actor.enterRoom_cases a (Actor.new room link) with entered | entered <;>
  · rw [entered]
    exact ⟨rfl, rfl, rfl, nofun⟩

theorem synchronous_resting {inputs : List SessionInput} (later : ∀ i ∈ inputs, i.preempts = false) :
    (inputs.foldl (Actor.serve a outcome) (start a room link).actor).Idle ∧
      synchronous a outcome room link inputs =
        resting (inputs.foldl (Actor.serve a outcome) (start a room link).actor) := by
  obtain ⟨idle, started⟩ := start_idle a room link
  refine ⟨idle.serve_all later, ?_⟩
  unfold synchronous
  rw [started]
  show _ = resting (inputs.foldl (Actor.serve a outcome) (start a room link).actor)
  generalize (start a room link).actor = s at idle
  induction inputs generalizing s with
  | nil => rfl
  | cons i rest ih =>
    have first := later i List.mem_cons_self
    rw [List.foldl_cons, List.foldl_cons, serve_resting idle first]
    exact ih (fun j mem => later j (List.mem_cons_of_mem _ mem)) _ (idle.serve first)

/-! ### Any run -/

/-- How far the creation has got that is pending. -/
inductive Underway (outcome : Outcomes) (p : Runner) : Prop
  | free (pending : p.actor.pending = none) (creations : p.actor.creations = [])
      (results : p.results = [])
  | begun {e : EngineId} {kind : SdpKind} (pending : p.actor.pending = some kind)
      (creations : p.actor.creations = [⟨e, p.actor.generation, kind⟩]) (results : p.results = [])
  | finished {kind : SdpKind} (pending : p.actor.pending = some kind)
      (creations : p.actor.creations = [])
      (results : p.results = [⟨p.actor.generation, kind, outcome p.actor.record⟩])

theorem Underway.of_tasked (task : p.actor.Tasked) (results : p.results = []) :
    p.Underway outcome := by
  cases pending : p.actor.pending with
  | none => exact .free pending (by simpa [Actor.Tasked, pending] using task) results
  | some kind =>
    obtain ⟨e, begun⟩ : ∃ e, p.actor.creations = [⟨e, p.actor.generation, kind⟩] := by
      simpa [Actor.Tasked, pending] using task
    exact .begun pending begun results

/-- What leaves the creation alone does not change how far it has got. -/
theorem Underway.keep (h : p.Underway outcome) {q : Runner}
    (same : q.actor.pending = p.actor.pending ∧ q.actor.creations = p.actor.creations ∧
      q.actor.generation = p.actor.generation ∧ q.actor.record = p.actor.record)
    (results : q.results = p.results) : q.Underway outcome := by
  obtain ⟨pending, creations, generation, record⟩ := same
  cases h with
  | free free none handled =>
    exact .free (pending.trans free) (creations.trans none) (results.trans handled)
  | begun busy task none =>
    exact .begun (pending.trans busy) (by rw [creations, generation]; exact task)
      (results.trans none)
  | finished busy none report =>
    refine .finished (pending.trans busy) (creations.trans none) ?_
    rw [results, generation, record]
    exact report

/-- The session will be where the synchronous run is, once what is pending has finished; `out` is what
was received so far. -/
structure Steady (a : Answers) (outcome : Outcomes) (p : Runner) (out : List ClientEvent)
    (s : Actor) : Prop where
  running : p.finished = false
  handle : p.handle = true
  alive : p.actor.state ≠ .leaved
  later : ∀ i ∈ p.actor.backlog ++ p.inbox, i.preempts = false
  settled : p.actor.backlog ≠ [] → p.actor.pending ≠ none
  underway : p.Underway outcome
  same : (p.actor.fulfilled a outcome).beside [] out = s

/-- On the way from one session to another one inputs arrived and events were received; some of the
inputs were served, and all others wait in their order. -/
def Advances (a : Answers) (outcome : Outcomes) (p : Runner) (out : List ClientEvent) (s : Actor)
    (arrived : List SessionInput) (received : List ClientEvent) (q : Runner) : Prop :=
  ∃ served, p.actor.backlog ++ p.inbox ++ arrived = served ++ (q.actor.backlog ++ q.inbox) ∧
    Steady a outcome q (out ++ received) (served.foldl (Actor.serve a outcome) s)

theorem Steady.stay (h : Steady a outcome p out s) : Advances a outcome p out s [] [] p :=
  ⟨[], by simp, by simpa using h⟩

theorem Steady.push (h : Steady a outcome p out s) (later : i.preempts = false) :
    Advances a outcome p out s [i] [] (p.push i) := by
  have pushed : p.push i = { p with inbox := p.inbox ++ [i] } := by
    simp [Runner.push, h.running, h.handle]
  rw [pushed]
  refine ⟨[], by simp, ?_⟩
  rw [List.append_nil]
  have later' : ∀ j ∈ p.actor.backlog ++ (p.inbox ++ [i]), j.preempts = false := by
    intro j mem
    rw [← List.append_assoc] at mem
    rcases List.mem_append.mp mem with mem | mem
    · exact h.later j mem
    · rw [List.mem_singleton.mp mem]
      exact later
  exact { h with later := later', underway := h.underway.keep ⟨rfl, rfl, rfl, rfl⟩ rfl }

/-- An input that has to wait makes no difference to what is pending. -/
theorem Steady.wait (h : Steady a outcome p out s) {rest : List SessionInput}
    (next : p.inbox = i :: rest) {kind : SdpKind} (busy : p.actor.pending = some kind) :
    Advances a outcome p out s [] []
      (endIfLeaved { p with actor := p.actor.handleInput a i, inbox := rest }) := by
  have first : i.preempts = false := h.later i (by simp [next])
  have waits : p.actor.handleInput a i = p.actor.beside (p.actor.backlog ++ [i]) [] :=
    if_pos (by simp [busy, first])
  rw [waits, endIfLeaved_of_running (by exact h.alive)]
  refine ⟨[], by simp [next, Actor.beside], h.running, h.handle, h.alive, fun j mem => ?_, ?_,
    h.underway.keep ⟨rfl, rfl, rfl, rfl⟩ rfl, ?_⟩
  · refine h.later j ?_
    rw [next]
    simpa [Actor.beside, or_assoc] using mem
  · exact fun _ => by simp [Actor.beside, busy]
  · show ((p.actor.beside (p.actor.backlog ++ [i]) []).fulfilled a outcome).beside [] _ = s
    rw [Actor.beside_fulfilled, Actor.beside_beside, List.append_nil, List.append_nil]
    exact h.same

/-- An input that does not have to wait is served. -/
theorem Steady.attend (h : Steady a outcome p out s) {rest : List SessionInput}
    (next : p.inbox = i :: rest) (free : p.actor.pending = none) :
    Advances a outcome p out s [] []
      (endIfLeaved { p with actor := p.actor.handleInput a i, inbox := rest }) := by
  have first : i.preempts = false := h.later i (by simp [next])
  have empty : p.actor.backlog = [] := by
    by_contra waits
    exact h.settled waits free
  cases h.underway with
  | begun pending | finished pending => simp [pending] at free
  | free _ creations results =>
    obtain ⟨task, backlog, running⟩ :=
      (Actor.dispatch_handled a p.actor i).tasked first free creations
    have backlog := backlog.trans empty
    have handled : p.actor.handleInput a i = p.actor.dispatch a i := by
      unfold Actor.handleInput
      rw [free]
      exact Actor.drain_of_empty a backlog
    have served : ((p.actor.dispatch a i).fulfilled a outcome).beside [] out =
        s.serve a outcome i := by
      rw [← h.same, Actor.fulfilled_of_free free, Actor.beside_serve first]
      rfl
    have alive : (p.actor.dispatch a i).state ≠ .leaved := fun left => h.alive (running left)
    rw [handled, endIfLeaved_of_running (by exact alive)]
    generalize p.actor.dispatch a i = t at *
    refine ⟨[i], by simp [next, empty, backlog], h.running, h.handle, alive, fun j mem => ?_,
      fun waits => absurd backlog waits, .of_tasked task results, ?_⟩
    · refine h.later j ?_
      rw [next]
      exact List.mem_append_right _ (List.mem_cons_of_mem _ (by simpa [backlog] using mem))
    · rw [List.append_nil]
      exact served

/-- An input whose turn it is waits behind the others, or is served at once. -/
theorem Steady.takeInput (h : Steady a outcome p out s) :
    Advances a outcome p out s [] [] (p.takeInput a) := by
  unfold Runner.takeInput
  cases next : p.inbox with
  | nil => exact h.stay
  | cons i rest =>
    show Advances a outcome p out s [] [] (if p.finished then p else _)
    rw [if_neg (by simp [h.running])]
    cases busy : p.actor.pending with
    | some kind => exact h.wait next busy
    | none => exact h.attend next busy

/-- A creation that finishes comes to what it is expected to. -/
theorem Steady.finishCreation (h : Steady a outcome p out s) (index : Nat) :
    Advances a outcome p out s [] [] (p.finishCreation index (outcome p.actor.record)) := by
  unfold Runner.finishCreation
  split
  case h_1 => exact h.stay
  case h_2 c found =>
    cases h.underway with
    | free _ creations | finished _ creations => simp [creations] at found
    | @begun e kind pending creations results =>
      rw [creations] at found
      obtain ⟨rfl, rfl⟩ : index = 0 ∧ c = ⟨e, p.actor.generation, kind⟩ := by
        cases index with
        | zero => exact ⟨rfl, by simpa using found.symm⟩
        | succ => simp at found
      refine ⟨[], by simp, h.running, h.handle, h.alive, h.later, h.settled, ?_, ?_⟩
      · exact .finished pending (by simp [creations]) (by simp [h.running, results])
      · have same := h.same
        rw [Actor.fulfilled_of_busy pending] at same
        have erased : ([⟨e, p.actor.generation, kind⟩] : List Creation).eraseIdx 0 = [] := rfl
        dsimp only
        rw [creations, erased, Actor.fulfilled_of_busy (by exact pending), List.append_nil]
        exact same

/-- When a creation that has finished is handled, inputs of the backlog are served. -/
theorem Steady.takeResult (h : Steady a outcome p out s) :
    Advances a outcome p out s [] [] (p.takeResult a) := by
  cases h.underway with
  | free _ _ results | begun _ _ results =>
    have same : p.takeResult a = p := by
      unfold Runner.takeResult
      rw [results]
    rw [same]
    exact h.stay
  | @finished kind pending creations results =>
    have took : p.takeResult a = endIfLeaved { p with
        actor := (p.actor.applied a
          ⟨p.actor.generation, kind, outcome p.actor.record⟩).drain a
        results := [] } := by
      unfold Runner.takeResult
      rw [results]
      simp only [h.running, Bool.false_eq_true, if_false]
      rw [Actor.complete_of_current (by rfl)]
    have fulfilled : p.actor.fulfilled a outcome =
        p.actor.applied a ⟨p.actor.generation, kind, outcome p.actor.record⟩ := by
      rw [Actor.fulfilled_of_busy pending, ← creations]
    have same := h.same
    rw [fulfilled] at same
    rw [took]
    obtain ⟨free, none, backlog, state⟩ :=
      Actor.applied_free a p.actor ⟨p.actor.generation, kind, outcome p.actor.record⟩
    generalize p.actor.applied a ⟨p.actor.generation, kind, outcome p.actor.record⟩ = t at *
    have later : ∀ i ∈ t.backlog, i.preempts = false := fun i mem =>
      h.later i (List.mem_append_left _ (backlog ▸ mem))
    obtain ⟨served, serves⟩ := Actor.drainUpTo_serves a outcome
      t.backlog.length t free (none.trans creations) later (Nat.le_refl _)
    have settled := Actor.drainUpTo_settled (a := a) t.backlog.length t (Nat.le_refl _)
    change Actor.Serves a outcome t served (t.drain a) at serves
    change (t.drain a).backlog ≠ [] → (t.drain a).pending ≠ .none at settled
    generalize t.drain a = u at *
    have alive : u.state ≠ .leaved := fun left => h.alive (state ▸ serves.running left)
    rw [endIfLeaved_of_running (by exact alive)]
    refine ⟨served, ?_, h.running, h.handle, alive, ?_, settled, ?_, ?_⟩
    · rw [← backlog, serves.backlog]
      simp
    · intro i mem
      refine h.later i ?_
      rw [← backlog, serves.backlog]
      rcases List.mem_append.mp mem with mem | mem
      · simp [mem]
      · exact List.mem_append_right _ mem
    · exact .of_tasked serves.task rfl
    · rw [List.append_nil, ← same]
      exact serves.same out

/-- What is received makes no difference but that it is not on the link any more. -/
theorem Steady.receive (h : Steady a outcome p out s) :
    Advances a outcome p out s [] (p.receipt .receive).toList
      (p.onLink fun l => l.receive.2) := by
  have taken : ∃ e, p.receipt .receive = e ∧
      p.actor = (p.onLink fun l => l.receive.2).actor.beside p.actor.backlog e.toList := by
    refine ⟨_, rfl, ?_⟩
    obtain ⟨⟨session, link, record, engines, trackTotal, creations⟩, inbox, results, handle,
      finished⟩ := p
    obtain ⟨queue, closed, dropped⟩ := link
    cases dropped <;> cases queue <;> cases closed <;> rfl
  obtain ⟨e, receipt, before⟩ := taken
  rw [receipt]
  refine ⟨[], by simp [onLink], h.running, h.handle, h.alive, h.later, h.settled,
    h.underway.keep ⟨rfl, rfl, rfl, rfl⟩ rfl, ?_⟩
  have same := h.same
  rw [before, Actor.beside_fulfilled, Actor.beside_beside] at same
  exact same

/-- Whatever happens in peace, the session follows the synchronous run. -/
theorem Steady.move (h : Steady a outcome p out s) {m : Move} (peaceful : p.Peaceful outcome m) :
    Advances a outcome p out s (p.arrival m).toList (p.receipt m).toList (p.move a m) := by
  cases m with
  | deliver e => exact h.push peaceful
  | receive => exact h.receive
  | closeLink | dropReceiver => cases peaceful
  | act m =>
    cases m with
    | rejoin => exact h.push rfl
    | report e event =>
      show Advances a outcome p out s ((p.actor.engines[e]?).map (.engine · event)).toList []
        (p.report e event)
      unfold Runner.report
      cases p.actor.engines[e]? with
      | none => exact h.stay
      | some generation => exact h.push rfl
    | takeInput => exact h.takeInput
    | takeResult => exact h.takeResult
    | finishCreation index result =>
      cases peaceful
      exact h.finishCreation index
    | leave | exit | linkLost | dropHandle | shutdown => cases peaceful

theorem Steady.run (h : Steady a outcome p out s) {moves : List Move}
    (peacefully : p.Peacefully a outcome moves) :
    Advances a outcome p out s (p.arrivals a moves) (p.received a moves) (p.run a moves) := by
  induction moves generalizing p out s with
  | nil => exact h.stay
  | cons m rest ih =>
    obtain ⟨first, others⟩ := peacefully
    obtain ⟨served, waiting, steady⟩ := h.move first
    obtain ⟨served', waiting', steady'⟩ := ih steady others
    refine ⟨served ++ served', ?_, ?_⟩
    · show _ ++ ((p.arrival m).toList ++ (p.move a m).arrivals a rest) = _
      rw [← List.append_assoc, waiting, List.append_assoc served, waiting', ← List.append_assoc]
      rfl
    · show Steady a outcome _ (out ++ ((p.receipt m).toList ++ (p.move a m).received a rest)) _
      rw [← List.append_assoc, List.foldl_append]
      exact steady'

theorem Steady.start (a : Answers) (outcome : Outcomes) (room : RoomId) (link : Link ClientEvent) :
    Steady a outcome (start a room link) [] (start a room link).actor := by
  obtain ⟨idle, -⟩ := start_idle a room link
  refine ⟨rfl, rfl, idle.running, ?_, ?_, .free idle.free idle.creations rfl, ?_⟩
  · rw [idle.backlog]
    nofun
  · exact fun waits => absurd idle.backlog waits
  · rw [Actor.fulfilled_of_free idle.free]
    exact Actor.beside_self idle.backlog

theorem Peacefully.arrivals {moves : List Move} (peacefully : p.Peacefully a outcome moves) :
    ∀ i ∈ p.arrivals a moves, i.preempts = false := by
  induction moves generalizing p with
  | nil => nofun
  | cons m rest ih =>
    obtain ⟨first, others⟩ := peacefully
    intro i mem
    rcases List.mem_append.mp mem with mem | mem
    · cases m with
      | deliver e =>
        obtain rfl : i = .server e := by simpa [arrival] using mem
        exact first
      | receive | closeLink | dropReceiver => simp [arrival] at mem
      | act m =>
        cases m with
        | rejoin =>
          obtain rfl : i = .rejoin := by simpa [arrival] using mem
          rfl
        | report e event =>
          obtain ⟨generation, -, rfl⟩ : ∃ generation, p.actor.engines[e]? = some generation ∧
              .engine generation event = i := by simpa [arrival] using mem
          rfl
        | leave | exit | linkLost => cases first
        | _ => simp [arrival] at mem
    · exact ih others i mem

/-! ## The asynchronous run and the synchronous one -/

/-- What a session has done so far, with events received meanwhile, is what another one has done. -/
structure Matches (p : Runner) (received : List ClientEvent) (q : Runner) : Prop where
  /-- They have asked the same of engines, media and link, in the same order. -/
  requests : p.actor.record = q.actor.record
  /-- They have sent the same. -/
  outbound : received ++ p.actor.link.queue = q.actor.link.queue
  snapshot : p.snapshot = q.snapshot
  rest : p.actor.beside [] received = q.actor

/-- If nothing is torn down and every creation that began has finished and was handled, a session has
done with the inputs that it has taken what it would have done with them one at a time. -/
theorem Peacefully.matches_synchronous {moves : List Move}
    (peacefully : (start a room link).Peacefully a outcome moves)
    (creations : ((start a room link).run a moves).actor.creations = [])
    (results : ((start a room link).run a moves).results = []) :
    ∃ taken, (start a room link).arrivals a moves =
        taken ++ ((start a room link).run a moves).inbox ∧
      ((start a room link).run a moves).Matches ((start a room link).received a moves)
        (Runner.synchronous a outcome room link taken) ∧
      ∀ earlier, earlier <+: taken →
        ∃ s : Actor, s.Idle ∧ Runner.synchronous a outcome room link earlier = resting s := by
  obtain ⟨idle, -⟩ := start_idle a room link
  obtain ⟨taken, waiting, steady⟩ := (Steady.start a outcome room link).run peacefully
  have later := peacefully.arrivals
  have nothing : (start a room link).inbox = [] := rfl
  rw [idle.backlog, nothing, List.nil_append, List.nil_append] at waiting
  generalize (start a room link).run a moves = p at *
  generalize (start a room link).received a moves = received at *
  have free : p.actor.pending = none := by
    cases steady.underway with
    | free pending => exact pending
    | begun _ begun => simp [begun] at creations
    | finished _ _ finished => simp [finished] at results
  have empty : p.actor.backlog = [] := by
    by_contra waits
    exact steady.settled waits free
  have arrived : (start a room link).arrivals a moves = taken ++ p.inbox := by
    rw [waiting, empty]
    rfl
  have peaceful (inputs : List SessionInput) (part : inputs <+: taken) :
      ∀ i ∈ inputs, i.preempts = false := fun i mem =>
    later i (by rw [arrived]; exact List.mem_append_left _ (part.subset mem))
  have same := steady.same
  rw [Actor.fulfilled_of_free free, List.nil_append] at same
  refine ⟨taken, arrived, ?_, fun earlier part => ?_⟩
  · rw [(synchronous_resting (peaceful taken (List.prefix_refl _))).2, ← same]
    exact ⟨rfl, rfl, rfl, rfl⟩
  · exact ⟨_, synchronous_resting (peaceful earlier part)⟩

/-! ### Two creations in a row -/

/-- Everything is created as it is asked for. -/
def promptly : Outcomes := fun record =>
  match record.getLast? with
  | some (.create _ kind) => some ⟨kind, "v=0"⟩
  | _ => none

/-- While the offer to a newcomer is being created, an offer and a candidate of the newcomer come in.
They wait; then the answer is created while the candidate waits on. -/
def crossing : List Move :=
  let r : RoomId := ⟨"r"⟩
  let hear (e : ServerEvent) : List Move := [.deliver e, .act .takeInput]
  let finish (kind : SdpKind) : List Move :=
    [.act (.finishCreation 0 (some ⟨kind, "v=0"⟩)), .act .takeResult]
  hear (.joined r ⟨"me"⟩) ++ [.receive] ++ hear (.otherJoin r ⟨"a"⟩) ++
    hear (.message r ⟨"a"⟩ (Message.offer "v=1").toPayload) ++
    hear (.message r ⟨"a"⟩ (Message.candidate ⟨"candidate", none, none⟩).toPayload) ++
    finish .offer ++ finish .answer

/-- A session that has asked to join. -/
def newcomer : Runner := start .obliging ⟨"r"⟩ .fresh

theorem crossing_matches_synchronous :
    newcomer.Peacefully .obliging promptly crossing ∧
      (newcomer.run .obliging crossing).actor.creations = [] ∧
      (newcomer.run .obliging crossing).results = [] ∧
      (newcomer.run .obliging (crossing.take 9)).actor.backlog.length = 2 ∧
      ∃ taken, newcomer.arrivals .obliging crossing =
          taken ++ (newcomer.run .obliging crossing).inbox ∧
        (newcomer.run .obliging crossing).Matches (newcomer.received .obliging crossing)
          (Runner.synchronous .obliging promptly ⟨"r"⟩ .fresh taken) := by
  have peacefully : newcomer.Peacefully .obliging promptly crossing := by decide +kernel
  have creations : (newcomer.run .obliging crossing).actor.creations = [] := by decide +kernel
  have results : (newcomer.run .obliging crossing).results = [] := by decide +kernel
  have waiting : (newcomer.run .obliging (crossing.take 9)).actor.backlog.length = 2 := by
    decide +kernel
  obtain ⟨taken, arrived, same, -⟩ := Peacefully.matches_synchronous peacefully creations results
  exact ⟨peacefully, creations, results, waiting, taken, arrived, same⟩

end Runner

end Parley
