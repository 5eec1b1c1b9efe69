import Parley.Proofs.History
import Parley.Proofs.Session.Turns

/-!
# The course of a run

What a session does in a run comes down to a sequence of `Deed`s: it handles an input whose turn it
is, or what became of the creation that was pending. `Runner.course` lists the deeds of a run, each
with the session as it was before. They make up the record (`course_record`), and each deed finds
the session as the one before has left it (`course_linked`), but for the inputs that wait, the
creations that are under way and what has become of the link meanwhile (`Alike`). So what one deed
preserves, a whole run preserves, and it may depend on all that was done before
(`Runner.Sound.course_induction`).
-/

namespace Parley

/-- Something that a session does. -/
inductive Deed where
  /-- It handles an input whose turn it is. -/
  | turn (turn : Turn)
  /-- It handles what became of the creation that was pending. -/
  | finish (session : Actor) (completion : Completion)

namespace Deed

/-- The input whose turn it is. -/
def input? : Deed → Option SessionInput
  | turn t => some t.input
  | finish _ _ => none

/-- The session before. -/
def before : Deed → Actor
  | turn t => t.session
  | finish s _ => s

/-- The session afterwards. -/
def after (a : Answers) : Deed → Actor
  | turn t => t.session.dispatch a t.input
  | finish s c => s.applied a c

/-- What is requested in a deed. -/
def requests (a : Answers) (d : Deed) : List Request :=
  (d.after a).record.drop d.before.record.length

theorem onward (a : Answers) (d : Deed) : d.before.Onward (d.after a) := by
  cases d with
  | turn t => exact (Actor.dispatch_handled a t.session t.input).onward
  | finish s c => exact Actor.applied_onward a s c

theorem after_record (a : Answers) (d : Deed) :
    (d.after a).record = d.before.record ++ d.requests a := by
  obtain ⟨new, record⟩ := (d.onward a).record
  simp [requests, ← record]

/-- A deed is done when it may be: an input that does not preempt is handled when nothing is
pending, and a completion is that of what is pending. -/
inductive Timely : Deed → Prop
  | turn {t : Turn} (sound : t.session.Sound)
      (free : t.session.pending = none ∨ t.input.preempts = true) : Timely (.turn t)
  | finish {s : Actor} {c : Completion} (sound : s.Sound) (busy : s.pending ≠ none)
      (current : c.generation = s.generation) : Timely (.finish s c)

theorem Timely.before {d : Deed} (h : d.Timely) : d.before.Sound := by
  cases h with
  | turn sound | finish sound => exact sound

theorem Timely.after {d : Deed} (h : d.Timely) (a : Answers) : (d.after a).Sound := by
  cases h with
  | turn sound => exact sound.dispatch a _
  | finish sound busy => exact sound.applied (sound.busy busy) a _

end Deed

/-! ## One deed after another -/

namespace Actor

/-- The sessions are the same, apart from the inputs that wait, the creations that are under way and
the link. -/
def Alike (s t : Actor) : Prop :=
  ∃ backlog creations link, t = { s with backlog, creations, link }

variable {a : Answers} {s t u : Actor} {i : SessionInput} {deeds deeds' : List Deed} {d : Deed}

theorem Alike.refl (s : Actor) : s.Alike s := ⟨s.backlog, s.creations, s.link, rfl⟩

theorem Alike.trans (h : s.Alike t) (h' : t.Alike u) : s.Alike u := by
  obtain ⟨_, _, _, rfl⟩ := h
  obtain ⟨backlog, creations, link, rfl⟩ := h'
  exact ⟨backlog, creations, link, rfl⟩

/-- The deeds lead from one session to another. -/
inductive Linked (a : Answers) : Actor → List Deed → Actor → Prop
  | nil {s t : Actor} (alike : s.Alike t) : Linked a s [] t
  | cons {s t : Actor} {d : Deed} {deeds : List Deed} (alike : s.Alike d.before)
      (rest : Linked a (d.after a) deeds t) : Linked a s (d :: deeds) t

namespace Linked

theorem alike (same : s.Alike t) (h : Linked a t deeds u) : Linked a s deeds u := by
  cases h with
  | nil same' => exact .nil (same.trans same')
  | cons same' rest => exact .cons (same.trans same') rest

theorem append (h : Linked a s deeds t) (h' : Linked a t deeds' u) :
    Linked a s (deeds ++ deeds') u := by
  induction h with
  | nil same => exact h'.alike same
  | cons same _ ih => exact .cons same (ih h')

/-- What comes after a deed of a sequence. -/
theorem behind (h : Linked a s (deeds ++ d :: deeds') t) : Linked a (d.after a) deeds' t := by
  induction deeds generalizing s with
  | nil =>
    cases h with
    | cons _ rest => exact rest
  | cons _ _ ih =>
    cases h with
    | cons _ rest => exact ih rest

theorem record (h : Linked a s deeds t) :
    t.record = s.record ++ deeds.flatMap (·.requests a) := by
  induction h with
  | nil same =>
    obtain ⟨_, _, _, rfl⟩ := same
    simp
  | @cons s t d deeds same _ ih =>
    obtain ⟨_, _, _, same⟩ := same
    have record : d.before.record = s.record := by rw [same]
    rw [ih, d.after_record, record, List.flatMap_cons, List.append_assoc]

/-- What is on record in the end was on record before, or was requested in a deed, behind what was
on record then. -/
theorem requested (h : Linked a s deeds t) {before after : List Request} {r : Request}
    (split : t.record = before ++ r :: after) :
    (∃ back, s.record = before ++ r :: back) ∨ ∃ d ∈ deeds, ∃ front back,
      d.requests a = front ++ r :: back ∧ before = d.before.record ++ front := by
  induction h with
  | nil same =>
    obtain ⟨_, _, _, rfl⟩ := same
    exact .inl ⟨after, split⟩
  | @cons s t d deeds same _ ih =>
    obtain ⟨_, _, _, same⟩ := same
    have record : d.before.record = s.record := by rw [same]
    rcases ih split with ⟨back, now⟩ | ⟨d', mem, requests⟩
    · rw [d.after_record] at now
      rcases append_eq_split.mp now with ⟨front, rfl, requests⟩ | ⟨back, -, earlier⟩
      · exact .inr ⟨d, List.mem_cons_self, front, back, requests, rfl⟩
      · exact .inl ⟨back, record ▸ earlier⟩
    · exact .inr ⟨d', List.mem_cons_of_mem d mem, requests⟩

/-- What was on record before a deed of a sequence is the beginning of what is on record in the
end. -/
theorem record_prefix (h : Linked a s deeds t) (mem : d ∈ deeds) : (d.after a).record <+: t.record := by
  obtain ⟨past, future, rfl⟩ := List.append_of_mem mem
  rw [h.behind.record]
  exact List.prefix_append _ _

/-- What each deed preserves, and what does not depend on the link and what waits, holds before each
deed and in the end. It may refer to the deeds so far. -/
theorem induction {P : List Deed → Actor → Prop} (h : Linked a s deeds t)
    (aside : ∀ past s t, s.Alike t → P past s → P past t)
    (step : ∀ past, ∀ d ∈ deeds, P past d.before → P (past ++ [d]) (d.after a))
    (past : List Deed) (start : P past s) :
    (∀ earlier d later, deeds = earlier ++ d :: later → P (past ++ earlier) d.before) ∧
      P (past ++ deeds) t := by
  induction h generalizing past with
  | nil same =>
    refine ⟨fun earlier d later split => ?_, ?_⟩
    · simp at split
    · rw [List.append_nil]
      exact aside past _ _ same start
  | @cons s t d deeds same _ ih =>
    have here := aside past _ _ same start
    have next := step past d List.mem_cons_self here
    obtain ⟨at_, end_⟩ := ih (fun past d mem => step past d (List.mem_cons_of_mem _ mem)) _ next
    rw [List.append_assoc] at end_
    refine ⟨fun earlier d' later split => ?_, end_⟩
    cases earlier with
    | nil =>
      obtain ⟨rfl, -⟩ := List.cons.inj split
      rwa [List.append_nil]
    | cons first earlier =>
      obtain ⟨rfl, tail⟩ := List.cons.inj split
      have before := at_ earlier d' later tail
      rwa [List.append_assoc] at before

end Linked

/-! ## The deeds of a turn and of a completion -/

theorem drainUpTo_linked (a : Answers) (n : Nat) (s : Actor) :
    Linked a s ((drainTurns a n s).map .turn) (drainUpTo a n s) := by
  induction n generalizing s with
  | zero => exact .nil (.refl s)
  | succ n ih =>
    unfold drainTurns drainUpTo
    split
    · exact .nil (.refl s)
    · cases hb : s.backlog with
      | nil => exact .nil (.refl s)
      | cons i rest =>
        have popped : s.Alike { s with backlog := rest } := ⟨rest, s.creations, s.link, rfl⟩
        exact .cons popped (ih _)

theorem handleInput_linked (a : Answers) (s : Actor) (i : SessionInput) :
    Linked a s ((s.inputTurns a i).map .turn) (s.handleInput a i) := by
  unfold inputTurns handleInput
  split
  · exact .nil ⟨s.backlog ++ [i], s.creations, s.link, rfl⟩
  · exact .cons (.refl s) (drainUpTo_linked a _ _)

theorem complete_linked {c : Completion} (current : c.generation = s.generation) :
    Linked a s (.finish s c :: (s.completeTurns a c).map .turn) (s.complete a c) := by
  rw [complete_of_current current]
  unfold completeTurns drain
  rw [if_neg (by simpa using current)]
  exact .cons (.refl s) (drainUpTo_linked a _ _)

/-- The turn of an input from the backlog comes when nothing is pending. -/
theorem Sound.drainTurns_timely (h : s.Sound) (a : Answers) (n : Nat) :
    ∀ t ∈ Actor.drainTurns a n s, (Deed.turn t).Timely := by
  induction n generalizing s with
  | zero =>
    intro t mem
    cases mem
  | succ n ih =>
    intro t mem
    unfold Actor.drainTurns at mem
    split at mem
    case isTrue => cases mem
    case isFalse free =>
      cases hb : s.backlog with
      | nil =>
        rw [hb] at mem
        cases mem
      | cons i rest =>
        rw [hb] at mem
        have popped := h.pop hb
        rcases List.mem_cons.mp mem with rfl | mem
        · exact .turn popped (.inl (by simpa using free))
        · exact ih (popped.dispatch a i) t mem

theorem Sound.inputTurns_timely (h : s.Sound) (a : Answers) (i : SessionInput) :
    ∀ t ∈ s.inputTurns a i, (Deed.turn t).Timely := by
  intro t mem
  unfold Actor.inputTurns at mem
  split at mem
  case isTrue => cases mem
  case isFalse now =>
    rcases List.mem_cons.mp mem with rfl | mem
    · refine .turn h ?_
      cases hp : s.pending with
      | none => exact .inl rfl
      | some k => exact .inr (by simpa [hp] using now)
    · exact (h.dispatch a i).drainTurns_timely a _ t mem

end Actor

/-! ## Runs -/

namespace Runner

variable {a : Answers} {p : Runner} {m : Move} {d : Deed}

/-- What has become of the pending creation, if the session handles that next. -/
def finishing (p : Runner) : Option Deed :=
  match p.results with
  | c :: _ => if p.finished || c.generation != p.actor.generation then none
    else some (.finish p.actor c)
  | [] => none

/-- What a session does in a move. -/
def deeds (a : Answers) (p : Runner) : Move → List Deed
  | .act .takeInput => (p.turns a .takeInput).map .turn
  | .act .takeResult => p.finishing.toList ++ (p.turns a .takeResult).map .turn
  | .act .shutdown =>
    if p.handle || !p.inbox.isEmpty || p.finished then [] else [.turn ⟨p.actor, .exit⟩]
  | _ => []

/-- What a session does in a run. -/
def course (a : Answers) (p : Runner) : List Move → List Deed
  | [] => []
  | m :: rest => p.deeds a m ++ (p.move a m).course a rest

/-! ### One move -/

theorem finishing_cons {c : Completion} {rest : List Completion} (next : p.results = c :: rest)
    (running : p.finished = false) :
    p.finishing = if c.generation = p.actor.generation then some (.finish p.actor c) else none := by
  by_cases current : c.generation = p.actor.generation <;> simp [finishing, next, running, current]

/-- A completion that is handled comes first in its move, and then the backlog has its turns. -/
theorem deeds_completion {c : Completion} {rest : List Completion} (next : p.results = c :: rest)
    (running : p.finished = false) (current : c.generation = p.actor.generation) :
    p.deeds a (.act .takeResult) = .finish p.actor c ::
      (Actor.drainTurns a p.actor.backlog.length (p.actor.applied a c)).map .turn := by
  have turns : p.turns a .takeResult =
      Actor.drainTurns a p.actor.backlog.length (p.actor.applied a c) := by
    simp only [Runner.turns, next, running]
    rw [if_neg (by simp), Actor.completeTurns, if_neg (by simpa using current),
      Actor.applied_backlog]
  simp [deeds, finishing_cons next running, current, turns]

/-- An input is handled as soon as it is taken, if nothing is pending. -/
theorem turn_mem_deeds {i : SessionInput} {rest : List SessionInput} (next : p.inbox = i :: rest)
    (running : p.finished = false) (free : p.actor.pending = none) :
    .turn ⟨p.actor, i⟩ ∈ p.deeds a (.act .takeInput) := by
  refine List.mem_map_of_mem ?_
  simp [turns, next, running, Actor.inputTurns, free]

/-- An event that comes in while nothing waits and nothing is pending has its turn at once, and
nothing else is done. -/
theorem course_heard {e : ServerEvent} (empty : p.inbox = []) (running : p.finished = false)
    (handle : p.handle = true) (free : p.actor.pending = none) (idle : p.actor.backlog = []) :
    p.course a [.deliver e, .act .takeInput] = [.turn ⟨p.actor, .server e⟩] := by
  have pushed : p.push (.server e) = { p with inbox := [.server e] } := by
    simp [push, running, handle, empty]
  have still : (p.actor.dispatch a (.server e)).backlog = [] := by
    rcases (Actor.dispatch_handled a p.actor (.server e)).backlog with same | none
    · exact same.trans idle
    · exact none
  have turns : p.actor.inputTurns a (.server e) = [⟨p.actor, .server e⟩] := by
    rw [Actor.inputTurns, if_neg (by simp [free]), still]
    rfl
  show [] ++ ((p.push (.server e)).deeds a (.act .takeInput) ++ []) = _
  simp [pushed, deeds, Runner.turns, running, turns]

theorem takeInput_linked (a : Answers) (p : Runner) :
    Actor.Linked a p.actor (p.deeds a (.act .takeInput)) (p.takeInput a).actor := by
  unfold deeds turns takeInput
  dsimp only
  cases p.inbox with
  | nil => exact .nil (.refl p.actor)
  | cons i rest =>
    dsimp only
    split
    · exact .nil (.refl p.actor)
    · rw [endIfLeaved_actor]
      exact Actor.handleInput_linked a p.actor i

theorem takeResult_linked (a : Answers) (p : Runner) :
    Actor.Linked a p.actor (p.deeds a (.act .takeResult)) (p.takeResult a).actor := by
  unfold deeds turns takeResult
  dsimp only
  cases next : p.results with
  | nil =>
    simp only [finishing, next]
    exact .nil (.refl p.actor)
  | cons c rest =>
    dsimp only
    split
    case isTrue ended =>
      simp only [finishing, next, ended]
      exact .nil (.refl p.actor)
    case isFalse running =>
      rw [endIfLeaved_actor, finishing_cons next (by simpa using running)]
      -- A completion of an earlier generation is dropped: nothing is done then.
      by_cases current : c.generation = p.actor.generation
      · rw [if_pos current]
        exact Actor.complete_linked current
      · rw [if_neg current, Actor.completeTurns, if_pos (by simpa using current)]
        show Actor.Linked a p.actor [] (p.actor.complete a c)
        rw [Actor.complete_of_old current]
        exact .nil (.refl p.actor)

theorem deeds_shutdown (a : Answers) (p : Runner) :
    p.deeds a (.act .shutdown) = if p.handle || !p.inbox.isEmpty || p.finished then []
      else [.turn ⟨p.actor, .exit⟩] :=
  rfl

theorem shutdown_linked (a : Answers) (p : Runner) :
    Actor.Linked a p.actor (p.deeds a (.act .shutdown)) p.shutdown.actor := by
  rw [deeds_shutdown]
  unfold shutdown
  split
  · exact .nil (.refl p.actor)
  · rw [endIfLeaved_actor]
    exact .cons (.refl p.actor) (.nil (.refl _))

/-- The deeds of a move lead from the session before to the session after it. -/
theorem move_linked (a : Answers) (p : Runner) (m : Move) :
    Actor.Linked a p.actor (p.deeds a m) (p.move a m).actor := by
  have still {q : Runner} (same : q.actor = p.actor) : Actor.Linked a p.actor [] q.actor := by
    rw [same]
    exact .nil (.refl p.actor)
  cases m with
  | deliver e => exact still (push_actor p _)
  | receive | closeLink | dropReceiver =>
    exact .nil ⟨p.actor.backlog, p.actor.creations, _, rfl⟩
  | act m =>
    cases m with
    | leave | exit | rejoin | linkLost => exact still (push_actor p _)
    | dropHandle => exact still rfl
    | report e event =>
      refine still ?_
      show (p.report e event).actor = p.actor
      unfold report
      split
      · exact push_actor p _
      · rfl
    | finishCreation index result =>
      show Actor.Linked a p.actor [] (p.finishCreation index result).actor
      unfold finishCreation
      split
      · exact .nil (.refl p.actor)
      · exact .nil ⟨p.actor.backlog, _, p.actor.link, rfl⟩
    | takeInput => exact takeInput_linked a p
    | takeResult => exact takeResult_linked a p
    | shutdown => exact shutdown_linked a p

/-- The deeds of a sound session are timely. -/
theorem Sound.deeds_timely (h : p.Sound) (a : Answers) (m : Move) :
    ∀ d ∈ p.deeds a m, d.Timely := by
  intro d mem
  cases m with
  | act m =>
    cases m with
    | takeInput =>
      obtain ⟨t, there, same⟩ := List.mem_map.mp mem
      subst same
      cases next : p.inbox with
      | nil => simp [Runner.turns, next] at there
      | cons i rest =>
        have turns : p.turns a .takeInput = p.actor.inputTurns a i := by
          simp [Runner.turns, next, h.running_of_inbox next]
        exact h.actor.inputTurns_timely a i t (turns ▸ there)
    | takeResult =>
      cases next : p.results with
      | nil => simp [deeds, finishing, Runner.turns, next] at mem
      | cons c rest =>
        have running := h.running_of_results next
        have turns : p.turns a .takeResult = p.actor.completeTurns a c := by
          simp [Runner.turns, next, running]
        simp only [deeds, finishing_cons next running, turns] at mem
        by_cases current : c.generation = p.actor.generation
        · have stamped : p.actor.Stamped (c :: rest) := next ▸ h.stamped
          rw [if_pos current] at mem
          rcases List.mem_append.mp mem with here | there
          · obtain rfl : d = .finish p.actor c := by simpa using here
            exact .finish h.actor (stamped.pending current) current
          · obtain ⟨t, waits, same⟩ := List.mem_map.mp there
            subst same
            rw [Actor.completeTurns, if_neg (by simpa using current)] at waits
            exact (h.actor.applied (h.bound next current) a c).drainTurns_timely a _ t waits
        · rw [if_neg current, Actor.completeTurns, if_pos (by simpa using current)] at mem
          simp at mem
    | shutdown =>
      rw [deeds_shutdown] at mem
      split at mem
      · cases mem
      · rw [List.mem_singleton.mp mem]
        exact .turn h.actor (.inr rfl)
    | _ => cases mem
  | _ => cases mem

/-! ### Many moves -/

theorem run_append (a : Answers) (p : Runner) (moves moves' : List Move) :
    p.run a (moves ++ moves') = (p.run a moves).run a moves' :=
  List.foldl_append

/-- The deeds of a run lead from the session before to the session after it. -/
theorem course_linked (a : Answers) (p : Runner) (moves : List Move) :
    Actor.Linked a p.actor (p.course a moves) (p.run a moves).actor := by
  induction moves generalizing p with
  | nil => exact .nil (.refl p.actor)
  | cons m rest ih => exact (move_linked a p m).append (ih (p.move a m))

/-- What a session requests in a run is what it requests in its deeds. -/
theorem course_record (a : Answers) (p : Runner) (moves : List Move) :
    (p.run a moves).actor.record =
      p.actor.record ++ (p.course a moves).flatMap (·.requests a) :=
  (course_linked a p moves).record

theorem course_append (a : Answers) (p : Runner) (moves moves' : List Move) :
    p.course a (moves ++ moves') = p.course a moves ++ (p.run a moves).course a moves' := by
  induction moves generalizing p with
  | nil => rfl
  | cons m rest ih =>
    show p.deeds a m ++ (p.move a m).course a (rest ++ moves') = _
    rw [ih, ← List.append_assoc]
    rfl

/-- A deed of a run is one of a move, and the deeds before it are those of the moves before and the
earlier ones of the move. -/
theorem course_split {moves : List Move} {past future : List Deed}
    (split : p.course a moves = past ++ d :: future) :
    ∃ before m after earlier later, moves = before ++ m :: after ∧
      past = p.course a before ++ earlier ∧ (p.run a before).deeds a m = earlier ++ d :: later := by
  induction moves generalizing p past with
  | nil => simp [course] at split
  | cons m rest ih =>
    change p.deeds a m ++ (p.move a m).course a rest = _ at split
    rcases append_eq_split.mp split with ⟨front, rfl, there⟩ | ⟨back, rfl, here⟩
    · -- The deed is one of a later move.
      obtain ⟨before, m', after, earlier, later, rfl, rfl, deeds⟩ := ih there
      exact ⟨m :: before, m', after, earlier, later, rfl, by simp [course], deeds⟩
    · exact ⟨[], m, rest, past, back, rfl, rfl, here⟩

theorem Sound.run (h : p.Sound) (a : Answers) (moves : List Move) : (p.run a moves).Sound := by
  induction moves generalizing p with
  | nil => exact h
  | cons m rest ih => exact ih (h.move m)

theorem Sound.course_timely (h : p.Sound) (a : Answers) (moves : List Move) :
    ∀ d ∈ p.course a moves, d.Timely := by
  intro d mem
  obtain ⟨past, future, split⟩ := List.append_of_mem mem
  obtain ⟨before, m, -, earlier, later, -, -, deeds⟩ := course_split split
  exact (h.run a before).deeds_timely a m d (by simp [deeds])

/-- What each deed of a sound session preserves, and what does not depend on the link and what
waits, holds before each deed of a run and in the end. It may refer to the deeds so far. -/
theorem Sound.course_induction {P : List Deed → Actor → Prop} (h : p.Sound) (moves : List Move)
    (aside : ∀ past s t, s.Alike t → P past s → P past t)
    (step : ∀ past d, d.Timely → P past d.before → P (past ++ [d]) (d.after a))
    (start : P [] p.actor) :
    (∀ past d future, p.course a moves = past ++ d :: future → P past d.before) ∧
      P (p.course a moves) (p.run a moves).actor := by
  have timely := h.course_timely a moves
  exact (course_linked a p moves).induction aside (fun past d mem => step past d (timely d mem))
    [] start

end Runner

end Parley
