import Parley.Proofs.Session.Onward
import Parley.Proofs.Session.Sound

/-!
# Turns

In one move a session may handle several inputs: the one that it takes from its inbox, and those
that waited in the backlog for a step that is over now. `Runner.turns` lists these turns, each with
the session as it was when the turn came. Between them they make up the record (`drainUpTo_record`,
`handleInput_record`), so what a session requests of an engine can be traced back to the input that
made it do so: `Handled.asked` says which input makes it send something, or give something to an
engine.
-/

namespace Parley

/-- The session asks this on its own account: it is about its media, its tracks or its engines as
such. -/
def Request.own : Request → Bool
  | .send _ | .setLocal _ _ | .setRemote _ _ | .addCandidate _ _ => false
  | _ => true

/-- A session and the input whose turn it is. -/
structure Turn where
  session : Actor
  input : SessionInput

namespace Turn

/-- What is requested in a turn. -/
def requests (a : Answers) (t : Turn) : List Request :=
  (t.session.dispatch a t.input).record.drop t.session.record.length

/-- The turn is that of a message with a description, which the session applies to its engine. -/
structure Applies (t : Turn) (e : EngineId) (d : Description) (sender : PeerId) : Prop where
  message : ∃ data, t.input = .server (.message t.session.room sender data) ∧
    Message.parse data = .ok (.ofDescription d)
  engine : t.session.engine = some e
  bound : t.session.boundElsewhere sender = false

end Turn

namespace Actor

variable {a : Answers} {s t : Actor} {i : SessionInput} {e : EngineId} {d : Description}

/-- The turns of a backlog, at most so many of them. -/
def drainTurns (a : Answers) : Nat → Actor → List Turn
  | 0, _ => []
  | n + 1, s =>
    if s.pending.isSome then []
    else
      match s.backlog with
      | [] => []
      | i :: rest =>
        ⟨{ s with backlog := rest }, i⟩ :: drainTurns a n ({ s with backlog := rest }.dispatch a i)

/-- The turns that an input sets off when it arrives. -/
def inputTurns (a : Answers) (s : Actor) (i : SessionInput) : List Turn :=
  if s.pending.isSome && !i.preempts then []
  else ⟨s, i⟩ :: drainTurns a (s.dispatch a i).backlog.length (s.dispatch a i)

/-- The turns that a completion sets off. -/
def completeTurns (a : Answers) (s : Actor) (c : Completion) : List Turn :=
  if c.generation ≠ s.generation then []
  else drainTurns a (s.applied a c).backlog.length (s.applied a c)

theorem dispatch_record (a : Answers) (s : Actor) (i : SessionInput) :
    (s.dispatch a i).record = s.record ++ (Turn.requests a ⟨s, i⟩) := by
  obtain ⟨new, record⟩ := (dispatch_handled a s i).onward.record
  simp [Turn.requests, ← record]

theorem drainUpTo_record (a : Answers) (n : Nat) (s : Actor) :
    (drainUpTo a n s).record = s.record ++ (drainTurns a n s).flatMap (·.requests a) := by
  -- The turns are taken off the backlog just as the drain takes them.
  induction n generalizing s with
  | zero => simp [drainUpTo, drainTurns]
  | succ n ih =>
    unfold drainUpTo drainTurns
    split
    case isTrue => simp
    case isFalse =>
      cases hb : s.backlog with
      | nil => simp
      | cons i rest =>
        dsimp only
        rw [ih, dispatch_record, List.flatMap_cons, List.append_assoc]

/-- What a session requests when an input arrives is what it requests in the turns. -/
theorem handleInput_record (a : Answers) (s : Actor) (i : SessionInput) :
    (s.handleInput a i).record = s.record ++ (s.inputTurns a i).flatMap (·.requests a) := by
  unfold handleInput inputTurns
  split
  · simp
  · unfold drain
    rw [drainUpTo_record, dispatch_record, List.flatMap_cons, List.append_assoc]

/-- What a session requests on a completion is what it sends out, and what it requests in the
turns. -/
theorem complete_record {c : Completion} (current : c.generation = s.generation) :
    (s.complete a c).record =
      (s.applied a c).record ++ (s.completeTurns a c).flatMap (·.requests a) := by
  rw [complete_of_current current]
  unfold completeTurns drain
  rw [if_neg (by simpa using current), drainUpTo_record]

theorem applied_backlog (a : Answers) (s : Actor) (c : Completion) :
    (s.applied a c).backlog = s.backlog :=
  applied_induction (P := fun t => t.backlog = s.backlog) rfl fun _ _ _ published => by
    cases published <;> rfl

/-- A completion has nothing applied that comes from others. -/
theorem applied_setRemote {c : Completion} (mem : .setRemote e d ∈ (s.applied a c).record) :
    .setRemote e d ∈ s.record := by
  revert mem
  refine applied_induction (P := fun t => .setRemote e d ∈ t.record → .setRemote e d ∈ s.record) id
    fun d' t _ published => ?_
  cases published with
  | nowhere => exact id
  | refused => simp [note]
  | sent => simp [Actor.published]

theorem drain_backlog (a : Answers) (s : Actor) : (s.drain a).backlog ⊆ s.backlog := by
  refine drainUpTo_induction (P := fun t => t.backlog ⊆ s.backlog) (fun t i rest kept _ hb => ?_) _ s
    (List.Subset.refl _)
  have popped : rest ⊆ s.backlog := fun j mem => kept (hb ▸ List.mem_cons_of_mem _ mem)
  rcases (dispatch_handled a { t with backlog := rest } i).backlog with same | empty
  · rw [same]
    exact popped
  · rw [empty]
    exact List.nil_subset _

/-- What waits after an input has arrived waited before, or is the input. -/
theorem handleInput_backlog {j : SessionInput} (mem : j ∈ (s.handleInput a i).backlog) :
    j = i ∨ j ∈ s.backlog := by
  unfold handleInput at mem
  split at mem
  · exact (List.mem_append.mp mem).symm.imp_left List.mem_singleton.mp
  · have waits := drain_backlog a _ mem
    rcases (dispatch_handled a s i).backlog with same | empty
    · exact .inr (same ▸ waits)
    · rw [empty] at waits
      cases waits

theorem complete_backlog (a : Answers) (s : Actor) (c : Completion) :
    (s.complete a c).backlog ⊆ s.backlog := by
  by_cases current : c.generation = s.generation
  · rw [complete_of_current current, ← applied_backlog a s c]
    exact drain_backlog a _
  · rw [complete_of_old current]
    exact List.Subset.refl _

/-- In the turns of a backlog a sound session goes on, and handles what waited there. -/
theorem Sound.drainTurns (h : s.Sound) (a : Answers) (n : Nat) :
    ∀ t ∈ drainTurns a n s, t.session.Sound ∧ s.Onward t.session ∧ t.input ∈ s.backlog := by
  induction n generalizing s with
  | zero =>
    intro t mem
    cases mem
  | succ n ih =>
    intro t mem
    unfold Actor.drainTurns at mem
    split at mem
    · cases mem
    · cases hb : s.backlog with
      | nil =>
        rw [hb] at mem
        cases mem
      | cons i rest =>
        rw [hb] at mem
        have popped := h.pop hb
        have kept : s.Onward { s with backlog := rest } := .of_link rfl rfl rfl List.prefix_rfl
        have turn := dispatch_handled a { s with backlog := rest } i
        rcases List.mem_cons.mp mem with rfl | mem
        · exact ⟨popped, kept, List.mem_cons_self⟩
        · obtain ⟨sound, onward, waits⟩ := ih (popped.dispatch a i) t mem
          refine ⟨sound, (kept.trans turn.onward).trans onward, ?_⟩
          rcases turn.backlog with same | empty
          · rw [same] at waits
            exact List.mem_cons_of_mem _ waits
          · rw [empty] at waits
            cases waits

theorem Sound.inputTurns (h : s.Sound) (a : Answers) (i : SessionInput) :
    ∀ t ∈ s.inputTurns a i,
      t.session.Sound ∧ s.Onward t.session ∧ (t.input = i ∨ t.input ∈ s.backlog) := by
  intro t mem
  unfold Actor.inputTurns at mem
  split at mem
  · cases mem
  · have turn := dispatch_handled a s i
    rcases List.mem_cons.mp mem with rfl | mem
    · exact ⟨h, .refl s, .inl rfl⟩
    · obtain ⟨sound, onward, waits⟩ := (h.dispatch a i).drainTurns a _ t mem
      refine ⟨sound, turn.onward.trans onward, .inr ?_⟩
      rcases turn.backlog with same | empty
      · exact same ▸ waits
      · rw [empty] at waits
        cases waits

/-- Why something is requested in a turn. -/
inductive Asked (s : Actor) : SessionInput → Actor → Request → Prop
  | own {i : SessionInput} {t : Actor} {r : Request} (h : r.own = true) : Asked s i t r
  | join {t : Actor} : Asked s .rejoin t (.send (.join s.room))
  | leave {exit : Bool} :
      Asked s (if exit then .exit else .leave) (s.departed exit) (.send (.leave s.room))
  | candidate {c : Candidate} (engine : s.engine ≠ none) :
      Asked s (.engine s.generation (.localCandidate c)) (s.sendMessage (.candidate c))
        (.send (.message s.room (Message.candidate c).toPayload))
  | applied {p : PeerId} {data : Json} {e : EngineId} {d : Description} {t : Actor}
      (parsed : Message.parse data = .ok (.ofDescription d)) (bound : s.boundElsewhere p = false)
      (engine : s.engine = some e) :
      Asked s (.server (.message s.room p data)) t (.setRemote e d)
  | added {p : PeerId} {data : Json} {e : EngineId} {c : Candidate} {t : Actor}
      (parsed : Message.parse data = .ok (.candidate c)) (bound : s.boundElsewhere p = false)
      (engine : s.engine = some e) :
      Asked s (.server (.message s.room p data)) t (.addCandidate e c)

theorem Handled.asked (turn : Handled a s i t) {r : Request}
    (mem : r ∈ t.record.drop s.record.length) : Asked s i t r := by
  have own {rs : List Request} (record : t.record = s.record ++ rs)
      (all : ∀ r ∈ rs, r.own = true) : Asked s i t r := by
    rw [record, List.drop_left] at mem
    exact .own (all r mem)
  cases turn with
  | ignored | staleReply => exact own (List.append_nil _).symm (by simp)
  | admitted _ _ _ engine =>
    rcases engine with rfl | rfl
    · exact own rfl (by simp [Request.own])
    · exact own rfl (by simp [Request.own])
  | offered _ _ engine =>
    cases engine with
    | held => exact own rfl (by simp [Request.own])
    | acquired =>
      exact own (List.append_assoc _ _ _) (by simp [Request.own, or_imp, forall_and])
  | unequipped | unbound | remoteTrack | unprovided => exact own rfl (by simp [Request.own])
  | dismissed | lost =>
    exact own (List.append_assoc _ _ _) (by simp [Request.own, or_imp, forall_and])
  | tookOffer parsed bound engine =>
    simp only [answering, List.drop_left, List.mem_cons, List.not_mem_nil, or_false] at mem
    rcases mem with rfl | rfl
    · exact .applied (d := ⟨.offer, _⟩) parsed bound engine
    · exact .own rfl
  | tookAnswer parsed bound engine =>
    simp only [answered, List.drop_left, List.mem_singleton] at mem
    rw [mem]
    exact .applied (d := ⟨.answer, _⟩) parsed bound engine
  | refused parsed bound engine =>
    simp only [note, List.drop_left, List.mem_singleton] at mem
    rw [mem]
    exact .applied parsed bound engine
  | remoteCandidate parsed bound engine =>
    simp only [note, List.drop_left, List.mem_singleton] at mem
    rw [mem]
    exact .added parsed bound engine
  | localCandidate engine =>
    simp only [sendMessage, Actor.send, note, List.drop_left, List.mem_singleton] at mem
    rw [mem]
    exact .candidate engine
  | @left exit =>
    have rest : ∀ r ∈ s.engine.toList.map Request.closeEngine ++
        .releaseMedia :: (if exit then [.closeLink] else []), r.own = true := by
      cases exit <;> simp [Request.own, or_imp, forall_and]
    simp only [departed, List.append_assoc, List.cons_append, List.drop_left, List.mem_cons] at mem
    rcases mem with rfl | mem
    · exact .leave
    · exact .own (rest r mem)
  | rejoined =>
    simp only [joining, List.drop_left, List.mem_cons, List.not_mem_nil, or_false] at mem
    rcases mem with rfl | rfl
    · exact .own rfl
    · exact .join

/-- Only the turn of a message with a description has a description applied. -/
theorem Handled.applies (turn : Handled a s i t)
    (mem : .setRemote e d ∈ t.record.drop s.record.length) :
    ∃ sender, Turn.Applies ⟨s, i⟩ e d sender := by
  cases turn.asked mem with
  | own other => cases other
  | applied parsed bound engine => exact ⟨_, ⟨_, rfl, parsed⟩, engine, bound⟩

theorem Handled.setRemote (turn : Handled a s i t) (mem : .setRemote e d ∈ t.record) :
    .setRemote e d ∈ s.record ∨ ∃ sender, Turn.Applies ⟨s, i⟩ e d sender := by
  obtain ⟨new, record⟩ := turn.onward.record
  rw [← record] at mem
  -- The new requests are those behind the old record.
  refine (List.mem_append.mp mem).imp_right fun mem => turn.applies ?_
  rw [← record, List.drop_left]
  exact mem

end Actor

namespace Turn

variable {a : Answers} {t : Turn} {e : EngineId} {d : Description}

theorem applies (mem : .setRemote e d ∈ t.requests a) : ∃ sender, t.Applies e d sender :=
  (Actor.dispatch_handled a t.session t.input).applies mem

end Turn

/-! ## Running sessions -/

namespace Runner

variable {a : Answers} {p q : Runner} {m : Act} {e : EngineId} {d : Description}

/-- The turns of a move. -/
def turns (a : Answers) (p : Runner) : Act → List Turn
  | .takeInput =>
    match p.inbox with
    | i :: _ => if p.finished then [] else p.actor.inputTurns a i
    | [] => []
  | .takeResult =>
    match p.results with
    | c :: _ => if p.finished then [] else p.actor.completeTurns a c
    | [] => []
  | _ => []

/-- What waits to be handled. -/
def Awaits (p : Runner) (i : SessionInput) : Prop := i ∈ p.inbox ∨ i ∈ p.actor.backlog

/-- The turns are those of inputs that wait, and the session has not gone back when they come. -/
theorem Sound.turns (h : p.Sound) (a : Answers) (m : Act) :
    ∀ t ∈ p.turns a m, t.session.Sound ∧ p.actor.Onward t.session ∧ p.Awaits t.input := by
  intro t mem
  cases m with
  | takeInput =>
    unfold Runner.turns at mem
    dsimp only at mem
    split at mem
    case h_1 i rest next =>
      split at mem
      · cases mem
      · obtain ⟨sound, onward, waits⟩ := h.actor.inputTurns a i t mem
        refine ⟨sound, onward, ?_⟩
        rcases waits with rfl | waits
        · exact .inl (by simp [next])
        · exact .inr waits
    case h_2 => cases mem
  | takeResult =>
    unfold Runner.turns at mem
    dsimp only at mem
    split at mem
    case h_1 c rest next =>
      split at mem
      · cases mem
      · unfold Actor.completeTurns at mem
        split at mem
        · cases mem
        case isFalse current =>
          have current : c.generation = p.actor.generation := by simpa using current
          have bound := h.bound next current
          obtain ⟨sound, onward, waits⟩ := (h.actor.applied bound a c).drainTurns a _ t mem
          refine ⟨sound, (Actor.applied_onward a p.actor c).trans onward, .inr ?_⟩
          exact Actor.applied_backlog a p.actor c ▸ waits
    case h_2 => cases mem
  | _ => cases mem

/-- Whatever an engine was told to apply, it was told before or in a turn of the move. -/
theorem Acted.setRemote (done : Acted a p m q) (mem : .setRemote e d ∈ q.actor.record) :
    .setRemote e d ∈ p.actor.record ∨ ∃ t ∈ p.turns a m, ∃ sender, t.Applies e d sender := by
  have inTurns {ts : List Turn} (mem : .setRemote e d ∈ ts.flatMap (·.requests a)) :
      ∃ t ∈ ts, ∃ sender, t.Applies e d sender := by
    obtain ⟨t, there, requested⟩ := List.mem_flatMap.mp mem
    exact ⟨t, there, Turn.applies requested⟩
  cases done with
  | pushed =>
    rw [push_actor] at mem
    exact .inl mem
  | handleDropped | idle | created => exact .inl mem
  | @tookInput i rest next running =>
    rw [endIfLeaved_actor] at mem
    change _ ∈ (p.actor.handleInput a i).record at mem
    rw [Actor.handleInput_record] at mem
    have turns : p.turns a .takeInput = p.actor.inputTurns a i := by simp [turns, next, running]
    rw [turns]
    exact (List.mem_append.mp mem).imp_right inTurns
  | @tookResult c rest next running =>
    rw [endIfLeaved_actor] at mem
    change _ ∈ (p.actor.complete a c).record at mem
    have turns : p.turns a .takeResult = p.actor.completeTurns a c := by simp [turns, next, running]
    rw [turns]
    by_cases current : c.generation = p.actor.generation
    · rw [Actor.complete_record current] at mem
      exact (List.mem_append.mp mem).imp Actor.applied_setRemote inTurns
    · rw [Actor.complete_of_old current] at mem
      exact .inl mem
  | abandoned =>
    rw [endIfLeaved_actor] at mem
    refine (Actor.leave_handled a p.actor true).setRemote mem |>.imp_right fun ⟨_, applies⟩ => ?_
    obtain ⟨data, same, -⟩ := applies.message
    cases same

theorem push_awaits {i j : SessionInput} (waits : (p.push i).Awaits j) : p.Awaits j ∨ j = i := by
  unfold Awaits push at waits
  split at waits
  · exact .inl waits
  · rcases waits with mem | mem
    · exact (List.mem_append.mp mem).imp .inl List.mem_singleton.mp
    · exact .inl (.inr mem)

/-- What waits after a move waited before, or does not come from the relay. -/
theorem Acted.awaits {i : SessionInput} (done : Acted a p m q) (waits : q.Awaits i) :
    p.Awaits i ∨ ∀ event, i ≠ .server event := by
  have inbox {p' : Runner} (mem : i ∈ p'.endIfLeaved.inbox) : i ∈ p'.inbox := by
    unfold endIfLeaved at mem
    split at mem
    · cases mem
    · exact mem
  cases done with
  | @pushed _ j _ own =>
    rcases push_awaits waits with old | rfl
    · exact .inl old
    · exact .inr own
  | handleDropped | idle | created => exact .inl waits
  | @tookInput j rest next =>
    unfold Awaits at waits
    rw [endIfLeaved_actor] at waits
    rcases waits with mem | mem
    · exact .inl (.inl (next ▸ List.mem_cons_of_mem _ (inbox mem)))
    · rcases Actor.handleInput_backlog mem with rfl | mem
      · exact .inl (.inl (next ▸ List.mem_cons_self))
      · exact .inl (.inr mem)
  | @tookResult c =>
    unfold Awaits at waits
    rw [endIfLeaved_actor] at waits
    rcases waits with mem | mem
    · have mem := inbox mem
      exact .inl (.inl mem)
    · exact .inl (.inr (Actor.complete_backlog a _ c mem))
  | abandoned =>
    unfold Awaits at waits
    rw [endIfLeaved_actor] at waits
    rcases waits with mem | mem
    · have mem := inbox mem
      exact .inl (.inl mem)
    · rcases (Actor.leave_handled a p.actor true).backlog with same | empty
      · exact .inl (.inr (same ▸ mem))
      · rw [empty] at mem
        cases mem

end Runner

end Parley
