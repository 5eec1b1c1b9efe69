import Parley.Proofs.Session.Departure
import Parley.Proofs.Session.Ending

/-!
# The backlog

An input that does not preempt goes to the end of the backlog while something is pending, and its
turn comes when the step is over. The backlog is filled in one place and drained in two, and a drain
can begin the next step. `Runner.backlog_in_turn` says that nothing gets lost, comes twice or comes
out of order on the way: number the inputs as the session takes them, and their turns come by rising
numbers, none left out but those that were waiting when the session left its room. The turns are
those in the course of the run, so they are what makes the session what it becomes.

`Accounted` is the invariant. One turn moves the input at the head of the backlog to the end of those
whose turn has come (`Accounted.proceed`), and a teardown writes off whatever waits
(`Accounted.abandon`).
-/

namespace Parley

/-! ## Accounts -/

/-- Where the inputs are that a session took and that do not preempt. They are numbered in the order
in which it took them. -/
structure Accounted (taken served waiting : List SessionInput) (abandoned : Nat → Prop) : Prop where
  /-- The last ones wait. -/
  waits : waiting <:+ taken
  /-- The turn of the others came once each and by rising numbers, unless they were abandoned. -/
  served : ∃ numbers : List Nat, numbers.Pairwise (· < ·) ∧
    served.map some = numbers.map (taken[·]?) ∧
    ∀ n, n ∈ numbers ↔ n + waiting.length < taken.length ∧ ¬ abandoned n
  past : ∀ n, abandoned n → n + waiting.length < taken.length

namespace Accounted

variable {taken served waiting new turn waiting' : List SessionInput} {abandoned : Nat → Prop}

theorem nothing : Accounted [] [] [] fun _ => False :=
  ⟨List.suffix_rfl, ⟨[], .nil, rfl, by simp⟩, fun _ => False.elim⟩

/-- The turns of some inputs come, and others begin to wait. -/
theorem proceed (h : Accounted taken served waiting abandoned)
    (same : waiting ++ new = turn ++ waiting') :
    Accounted (taken ++ new) (served ++ turn) waiting' abandoned := by
  obtain ⟨front, rfl⟩ := h.waits
  obtain ⟨numbers, rising, numbered, whole⟩ := h.served
  have split : front ++ waiting ++ new = front ++ (turn ++ waiting') := by
    rw [List.append_assoc, same]
  have before {n : Nat} : n + waiting.length < (front ++ waiting).length ↔ n < front.length := by
    simp
  rw [split]
  refine ⟨⟨front ++ turn, by simp⟩, ⟨numbers ++ List.range' front.length turn.length, ?_, ?_, ?_⟩,
    fun n past => ?_⟩
  · refine List.pairwise_append.mpr ⟨rising, List.pairwise_lt_range', fun n mem m later => ?_⟩
    have old := before.mp ((whole n).mp mem).1
    have next := (List.mem_range'_1.mp later).1
    omega
  · rw [List.map_append, List.map_append, numbered]
    congr 1
    · -- The old numbers stand for what they stood for.
      refine List.map_congr_left fun n mem => ?_
      have old := before.mp ((whole n).mp mem).1
      rw [List.getElem?_append_left old, List.getElem?_append_left old]
    · refine List.ext_getElem (by simp) fun n lt _ => ?_
      have lt : n < turn.length := by simpa using lt
      simp [List.getElem?_append_right, List.getElem?_append_left, lt]
  · intro n
    rw [List.mem_append, whole, List.mem_range'_1, before]
    have past : abandoned n → n < front.length := fun gone => before.mp (h.past n gone)
    simp only [List.length_append]
    constructor
    · rintro (⟨old, kept⟩ | ⟨le, lt⟩)
      · exact ⟨by omega, kept⟩
      · exact ⟨by omega, fun gone => absurd (past gone) (by omega)⟩
    · rintro ⟨lt, kept⟩
      by_cases old : n < front.length
      · exact .inl ⟨old, kept⟩
      · exact .inr ⟨by omega, by omega⟩
  · have old := before.mp (h.past n past)
    simp only [List.length_append]
    omega

/-- Whatever waits is abandoned. -/
theorem abandon (h : Accounted taken served waiting abandoned) :
    Accounted taken served [] fun n =>
      abandoned n ∨ (taken.length ≤ n + waiting.length ∧ n < taken.length) := by
  obtain ⟨numbers, rising, numbered, whole⟩ := h.served
  refine ⟨List.nil_suffix, ⟨numbers, rising, numbered, fun n => ?_⟩, fun n gone => ?_⟩
  · rw [whole, List.length_nil]
    constructor
    · rintro ⟨lt, kept⟩
      exact ⟨by omega, fun gone => gone.elim kept fun late => by omega⟩
    · rintro ⟨lt, kept⟩
      have lt' : n + waiting.length < taken.length := by
        by_contra late
        exact kept (.inr ⟨by omega, lt⟩)
      exact ⟨lt', fun gone => kept (.inl gone)⟩
  · rw [List.length_nil]
    rcases gone with gone | late
    · have old := h.past n gone
      omega
    · exact late.2

theorem congr {abandoned' : Nat → Prop} (h : Accounted taken served waiting abandoned)
    (same : ∀ n, abandoned n ↔ abandoned' n) : Accounted taken served waiting abandoned' := by
  have same : abandoned = abandoned' := funext fun n => propext (same n)
  rwa [← same]

end Accounted

/-! ## Turns -/

namespace Actor

variable {a : Answers} {s t : Actor} {i : SessionInput}

/-- The input makes the session leave its room, or give up its attempt to enter it. -/
def Quits (s : Actor) : SessionInput → Prop
  | .server (.full r _) => r = s.room ∧ s.staleReplies = 0
  | .leave | .exit | .linkLost => s.state ≠ .leaved
  | _ => False

/-- The input is of another room, or a peer leaves that is not the counterpart. -/
def Disregards (s : Actor) : SessionInput → Prop
  | .server (.full r _) => r ≠ s.room
  | .server (.bye r p) => r ≠ s.room ∨ s.counterpart ≠ some p
  | _ => False

theorem not_quits (later : i.preempts = false) : ¬ s.Quits i := by
  cases i with
  | server event => cases event <;> first | exact id | cases later
  | engine | rejoin => exact id
  | leave | exit | linkLost => cases later

theorem preempts_of_disregards (aside : s.Disregards i) : i.preempts = true := by
  cases i with
  | server event => cases event <;> first | rfl | exact aside.elim
  | _ => exact aside.elim

/-- The backlog is given up with the room. -/
theorem Handled.quit (turn : Handled a s i t) (quits : s.Quits i) : t.backlog = [] := by
  cases turn with
  | ignored h =>
    cases i with
    | server event =>
      cases event with
      | full r p => exact (h.elim (absurd quits.1) False.elim)
      | _ => exact quits.elim
    | engine | rejoin => exact quits.elim
    | leave | exit | linkLost => exact absurd h quits
  | staleReply reply owed =>
    rcases reply with rfl | rfl
    · exact quits.elim
    · exact absurd quits.2 owed
  | dismissed | lost | left => rfl
  | _ => exact quits.elim

theorem Handled.stay (turn : Handled a s i t) (stays : ¬ s.Quits i) : t.backlog = s.backlog := by
  cases turn with
  | admitted _ _ _ engine => rcases engine with rfl | rfl <;> rfl
  | offered _ _ engine => cases engine <;> rfl
  | dismissed fresh => exact absurd ⟨rfl, fresh⟩ stays
  | lost running => exact absurd running stays
  | @left exit running => cases exit <;> exact absurd running stays
  | _ => rfl

/-- The inputs whose turn comes are those at the head of the backlog. -/
theorem drainTurns_inputs (a : Answers) (n : Nat) (queued : ∀ i ∈ s.backlog, i.preempts = false) :
    (drainTurns a n s).map (·.input) ++ (drainUpTo a n s).backlog = s.backlog := by
  induction n generalizing s with
  | zero => rfl
  | succ n ih =>
    unfold drainTurns drainUpTo
    split
    case isTrue => rfl
    case isFalse =>
      cases hb : s.backlog with
      | nil => exact hb
      | cons i rest =>
        have later := queued i (hb ▸ List.mem_cons_self)
        have kept : ({ s with backlog := rest }.dispatch a i).backlog = rest :=
          (dispatch_handled a _ i).stay (not_quits later)
        dsimp only
        rw [List.map_cons, List.cons_append, ih, kept]
        rw [kept]
        exact fun j mem => queued j (hb ▸ List.mem_cons_of_mem i mem)

/-- An input that does not preempt goes to the end of the backlog. -/
theorem inputTurns_inputs (sound : s.Sound) (settled : s.backlog ≠ [] → s.pending ≠ none)
    (a : Answers) (later : i.preempts = false) :
    (s.inputTurns a i).map (·.input) ++ (s.handleInput a i).backlog = s.backlog ++ [i] := by
  unfold inputTurns handleInput
  split
  case isTrue => rfl
  case isFalse free =>
    have empty : s.backlog = [] := by
      by_contra waits
      simp [later, Option.isSome_iff_ne_none.mpr (settled waits)] at free
    have kept : (s.dispatch a i).backlog = s.backlog :=
      (dispatch_handled a s i).stay (not_quits later)
    have drained := drainTurns_inputs a (s.dispatch a i).backlog.length (sound.dispatch a i).queued
    rw [List.map_cons, List.cons_append, drain, drained, kept, empty]
    rfl

/-- An input that preempts is handled at once, and after it the head of the backlog, unless that was
given up. -/
theorem inputTurns_of_preempts (sound : s.Sound) (a : Answers) (now : i.preempts = true) :
    ∃ rest, s.inputTurns a i = ⟨s, i⟩ :: rest ∧ (∀ t ∈ rest, t.input.preempts = false) ∧
      (s.Quits i → rest = [] ∧ (s.handleInput a i).backlog = []) ∧
      (¬ s.Quits i → rest.map (·.input) ++ (s.handleInput a i).backlog = s.backlog) := by
  have here : ¬ (s.pending.isSome && !i.preempts) = true := by simp [now]
  have turn := dispatch_handled a s i
  have queued := (sound.dispatch a i).queued
  have drained := drainTurns_inputs a (s.dispatch a i).backlog.length queued
  unfold inputTurns handleInput
  rw [if_neg here, if_neg here]
  refine ⟨_, rfl, fun t mem => ?_, fun quits => ?_, fun stays => ?_⟩
  · exact queued _ (((sound.dispatch a i).drainTurns a _ t mem).2.2)
  · have empty := turn.quit quits
    rw [drain, empty]
    exact ⟨rfl, (congrArg (·.backlog) (drainUpTo_of_empty a 0 empty)).trans empty⟩
  · rw [drain, drained]
    exact turn.stay stays

/-- A completion brings the turns of the head of the backlog. -/
theorem completeTurns_inputs (sound : s.Sound) (a : Answers) (c : Completion) :
    (s.completeTurns a c).map (·.input) ++ (s.complete a c).backlog = s.backlog := by
  unfold completeTurns
  split
  case isTrue old => rw [complete_of_old old]; rfl
  case isFalse current =>
    have same := applied_backlog a s c
    have queued : ∀ i ∈ (s.applied a c).backlog, i.preempts = false := same ▸ sound.queued
    rw [complete_of_current (by simpa using current), drain, drainTurns_inputs a _ queued, same]

/-- What does not concern the session changes neither the backlog nor what is pending. -/
theorem handleInput_of_disregards (sound : s.Sound) (settled : s.backlog ≠ [] → s.pending ≠ none)
    (a : Answers) (aside : s.Disregards i) :
    (s.handleInput a i).backlog = s.backlog ∧ (s.handleInput a i).pending = s.pending := by
  have here : ¬ (s.pending.isSome && !i.preempts) = true := by simp [preempts_of_disregards aside]
  have same : (s.dispatch a i).backlog = s.backlog ∧ (s.dispatch a i).pending = s.pending := by
    have turn := dispatch_handled a s i
    generalize s.dispatch a i = t at turn
    cases turn with
    | ignored => exact ⟨rfl, rfl⟩
    | unbound _ bound =>
      -- Without a counterpart nothing is pending.
      have alone : s.counterpart = none := by
        rcases aside with foreign | other
        · exact absurd rfl foreign
        · cases hc : s.counterpart with
          | none => rfl
          | some c => simp_all [boundElsewhere]
      have free : s.pending = none := by
        by_contra busy
        exact sound.busy busy alone
      exact ⟨rfl, free.symm⟩
    | staleReply => exact ⟨rfl, rfl⟩
    | dismissed => exact absurd rfl aside
    | @left exit => cases exit <;> exact aside.elim
    | _ => exact aside.elim
  unfold handleInput
  rw [if_neg here, ← same.1, ← same.2]
  rw [← same.1, ← same.2] at settled
  cases hp : (s.dispatch a i).pending with
  | some kind =>
    rw [drain, drainUpTo_of_busy a _ (by simp [hp])]
    exact ⟨rfl, hp⟩
  | none =>
    have empty : (s.dispatch a i).backlog = [] := by
      by_contra waits
      exact settled waits hp
    rw [drain_of_empty a empty]
    exact ⟨rfl, hp⟩

end Actor

/-! ## Running sessions -/

namespace Runner

variable {a : Answers} {p q : Runner} {m : Move} {n : Nat}

/-- What comes into the inbox in a move. Nothing does without a handle, or after the end. -/
def incoming (p : Runner) (m : Move) : List SessionInput :=
  if p.handle && !p.finished then (p.arrival m).toList else []

/-- The inputs that a session receives in a run. -/
def inputs (a : Answers) (p : Runner) : List Move → List SessionInput
  | [] => []
  | m :: rest => p.incoming m ++ (p.move a m).inputs a rest

/-- The inputs that do not preempt, as a session takes them. -/
def taken (a : Answers) (p : Runner) (moves : List Move) : List SessionInput :=
  ((p.log a moves).map (·.input)).filter (!·.preempts)

/-- The inputs that do not preempt, as their turns come in the course of a run. -/
def served (a : Answers) (p : Runner) (moves : List Move) : List SessionInput :=
  ((p.course a moves).filterMap Deed.input?).filter (!·.preempts)

/-- The session leaves its room: it is turned away, leaves, loses its link or is given up. -/
def Quits (p : Runner) (m : Move) : Prop :=
  (∃ h, p.hears m = some h ∧ p.actor.Quits h.input) ∨
    (m = .act .shutdown ∧ p.handle = false ∧ p.inbox = [] ∧ p.finished = false)

/-- The input of that number was waiting when the session left its room. -/
def Abandoned (a : Answers) (p : Runner) (moves : List Move) (n : Nat) : Prop :=
  ∃ before m after, moves = before ++ m :: after ∧ (p.run a before).Quits m ∧
    (p.taken a before).length ≤ n + (p.run a before).actor.backlog.length ∧
    n < (p.taken a before).length

/-- What preempts is handled when it is taken, and what waits is left alone by what does not concern
the session. -/
structure Prompt (a : Answers) (p : Runner) (m : Move) : Prop where
  first : ∀ h, p.hears m = some h → h.input.preempts = true →
    ∃ rest, p.deeds a m = .turn ⟨p.actor, h.input⟩ :: rest ∧
      ∀ i ∈ rest.filterMap Deed.input?, i.preempts = false
  /-- Besides, a session that is given up exits. -/
  only : (∀ h, p.hears m = some h → h.input.preempts = false) → m ≠ .act .shutdown →
    ∀ i ∈ (p.deeds a m).filterMap Deed.input?, i.preempts = false
  aside : ∀ h, p.hears m = some h → p.actor.Disregards h.input →
    (p.move a m).actor.backlog = p.actor.backlog ∧ (p.move a m).actor.pending = p.actor.pending

theorem run_snoc (a : Answers) (p : Runner) (moves : List Move) (m : Move) :
    p.run a (moves ++ [m]) = (p.run a moves).move a m := by
  simp [run]

theorem log_snoc (a : Answers) (p : Runner) (moves : List Move) (m : Move) :
    p.log a (moves ++ [m]) = p.log a moves ++ ((p.run a moves).hears m).toList := by
  induction moves generalizing p with
  | nil => simp [log, run]
  | cons m' rest ih => simp [log, ih, run]

theorem abandoned_snoc (a : Answers) (p : Runner) (moves : List Move) (m : Move) (n : Nat) :
    p.Abandoned a (moves ++ [m]) n ↔ p.Abandoned a moves n ∨ ((p.run a moves).Quits m ∧
      (p.taken a moves).length ≤ n + (p.run a moves).actor.backlog.length ∧
      n < (p.taken a moves).length) := by
  constructor
  · rintro ⟨before, m', after, split, quits, waits⟩
    rcases snoc_eq_split.mp split with ⟨rfl, rfl, rfl⟩ | ⟨after', rfl, rfl⟩
    · exact .inr ⟨quits, waits⟩
    · exact .inl ⟨before, m', after', rfl, quits, waits⟩
  · rintro (⟨before, m', after, rfl, quits, waits⟩ | ⟨quits, waits⟩)
    · exact ⟨before, m', after ++ [m], by simp, quits, waits⟩
    · exact ⟨moves, m, [], rfl, quits, waits⟩

/-! ### One move -/

/-- The turns of a list of turns are those of their inputs. -/
theorem input?_turns (ts : List Turn) :
    (ts.map Deed.turn).filterMap Deed.input? = ts.map (·.input) := by
  rw [List.filterMap_map, ← List.filterMap_eq_map]
  rfl

theorem deeds_takeInput {i : SessionInput} {rest : List SessionInput} (next : p.inbox = i :: rest)
    (running : p.finished = false) :
    p.deeds a (.act .takeInput) = (p.actor.inputTurns a i).map .turn ∧
      (p.move a (.act .takeInput)).actor = p.actor.handleInput a i := by
  constructor
  · simp [deeds, turns, next, running]
  · show (p.takeInput a).actor = _
    simp [takeInput, next, running]

/-- What became of a creation is no input. -/
theorem inputs_takeResult {c : Completion} {rest : List Completion} (next : p.results = c :: rest)
    (running : p.finished = false) :
    (p.deeds a (.act .takeResult)).filterMap Deed.input? =
        (p.actor.completeTurns a c).map (·.input) ∧
      (p.move a (.act .takeResult)).actor = p.actor.complete a c := by
  constructor
  · have turns : p.turns a .takeResult = p.actor.completeTurns a c := by
      simp [turns, next, running]
    rw [deeds, turns, finishing_cons next running, List.filterMap_append, input?_turns]
    split <;> rfl
  · show (p.takeResult a).actor = _
    simp [takeResult, next, running]

/-- A move in which nothing is taken has no turns and leaves the backlog alone, unless the session
leaves its room in it. -/
structure Still (a : Answers) (p : Runner) (m : Move) : Prop where
  deaf : p.hears m = none
  deeds : p.deeds a m = [] ∨ m = .act .shutdown ∧ p.deeds a m = [.turn ⟨p.actor, .exit⟩]
  backlog : ¬ p.Quits m → (p.move a m).actor.backlog = p.actor.backlog
  quit : p.Quits m → (p.move a m).actor.backlog = []

theorem Still.of_backlog (deaf : p.hears m = none) (nothing : p.deeds a m = [])
    (other : m ≠ .act .shutdown) (backlog : (p.move a m).actor.backlog = p.actor.backlog) :
    p.Still a m where
  deaf
  deeds := .inl nothing
  backlog _ := backlog
  quit quits := by
    rcases quits with ⟨h, heard, -⟩ | ⟨shutdown, -⟩
    · rw [deaf] at heard
      cases heard
    · exact absurd shutdown other

theorem Sound.still_shutdown (h : p.Sound) (a : Answers) : p.Still a (.act .shutdown) where
  deaf := rfl
  deeds := by
    rw [deeds_shutdown]
    split
    · exact .inl rfl
    · exact .inr ⟨rfl, rfl⟩
  backlog stays := by
    have here : (p.handle || !p.inbox.isEmpty || p.finished) = true := by
      by_contra alone
      exact stays (.inr ⟨rfl, by simpa [and_assoc] using alone⟩)
    show p.shutdown.actor.backlog = _
    rw [shutdown, if_pos here]
  quit quits := by
    rcases quits with ⟨_, heard, -⟩ | ⟨-, alone, empty, running⟩
    · cases heard
    · show p.shutdown.actor.backlog = _
      rw [shutdown, if_neg (by simp [alone, empty, running]), endIfLeaved_actor]
      show (p.actor.leave true).backlog = []
      rw [Actor.leave_eq (h.alive running)]
      rfl

/-- A move brings the turns of an input that is taken, the turns of a completion, or none. -/
theorem Sound.move_cases (h : p.Sound) (a : Answers) (m : Move) :
    p.Still a m ∨
      (m = .act .takeInput ∧ ∃ i rest, p.inbox = i :: rest ∧ p.finished = false) ∨
      (m = .act .takeResult ∧ ∃ c rest, p.results = c :: rest ∧ p.finished = false) := by
  cases m with
  | deliver e =>
    refine .inl (.of_backlog rfl rfl (by simp) ?_)
    exact congrArg (·.backlog) (push_actor p _)
  | receive | closeLink | dropReceiver => exact .inl (.of_backlog rfl rfl (by simp) rfl)
  | act m =>
    cases m with
    | leave | exit | rejoin | linkLost =>
      refine .inl (.of_backlog rfl rfl (by simp) ?_)
      exact congrArg (·.backlog) (push_actor p _)
    | dropHandle => exact .inl (.of_backlog rfl rfl (by simp) rfl)
    | report e event =>
      refine .inl (.of_backlog rfl rfl (by simp) ?_)
      show (p.report e event).actor.backlog = _
      unfold report
      split <;> simp
    | finishCreation index result =>
      refine .inl (.of_backlog rfl rfl (by simp) ?_)
      show (p.finishCreation index result).actor.backlog = _
      unfold finishCreation
      split <;> rfl
    | shutdown => exact .inl (h.still_shutdown a)
    | takeInput =>
      cases next : p.inbox with
      | nil =>
        refine .inl (.of_backlog (by simp [hears, next]) ?_ (by simp) ?_)
        · simp [deeds, Runner.turns, next]
        show (p.takeInput a).actor.backlog = _
        simp [takeInput, next]
      | cons i rest => exact .inr (.inl ⟨rfl, i, rest, rfl, h.running_of_inbox next⟩)
    | takeResult =>
      cases next : p.results with
      | nil =>
        refine .inl (.of_backlog rfl (by simp [deeds, finishing, Runner.turns, next]) (by simp) ?_)
        show (p.takeResult a).actor.backlog = _
        simp [takeResult, next]
      | cons c rest => exact .inr (.inr ⟨rfl, c, rest, rfl, h.running_of_results next⟩)

/-- What a move takes and what turns it brings, as far as the inputs do not preempt. -/
structure Balanced (a : Answers) (p : Runner) (m : Move) (new turn : List SessionInput) : Prop where
  stay : ¬ p.Quits m → p.actor.backlog ++ new = turn ++ (p.move a m).actor.backlog
  quit : p.Quits m → new = [] ∧ turn = [] ∧ (p.move a m).actor.backlog = []

/-- Inputs that do not preempt are all kept by the filter. -/
theorem filter_later {inputs : List SessionInput} (later : ∀ i ∈ inputs, i.preempts = false) :
    inputs.filter (!·.preempts) = inputs :=
  List.filter_eq_self.mpr fun i mem => by simp [later i mem]

theorem Sound.balanced (h : p.Sound) (a : Answers) (m : Move) :
    p.Balanced a m (((p.hears m).toList.map (·.input)).filter (!·.preempts))
      (((p.deeds a m).filterMap Deed.input?).filter (!·.preempts)) := by
  have queued := h.actor.queued
  rcases h.move_cases a m with still | ⟨rfl, i, rest, next, running⟩ | ⟨rfl, c, rest, next, running⟩
  · have none : ((p.deeds a m).filterMap Deed.input?).filter (!·.preempts) = [] := by
      rcases still.deeds with nothing | ⟨-, exits⟩
      · rw [nothing]
        rfl
      · rw [exits]
        rfl
    rw [still.deaf, none]
    exact ⟨fun stays => by simp [still.backlog stays], fun quits => ⟨rfl, rfl, still.quit quits⟩⟩
  · have heard := hears_takeInput next running
    obtain ⟨turns, moved⟩ := deeds_takeInput (a := a) next running
    have quits : p.Quits (.act .takeInput) ↔ p.actor.Quits i := by simp [Quits, heard]
    rw [heard, turns, input?_turns]
    cases now : i.preempts with
    | false =>
      have inputs := Actor.inputTurns_inputs h.actor h.settled a now
      have later : ∀ j ∈ p.actor.backlog ++ [i], j.preempts = false := by
        intro j mem
        rcases List.mem_append.mp mem with mem | mem
        · exact queued j mem
        · rw [List.mem_singleton.mp mem]
          exact now
      rw [filter_later fun j mem => later j (inputs ▸ List.mem_append_left _ mem)]
      refine ⟨fun _ => ?_, fun q => absurd (quits.mp q) (Actor.not_quits now)⟩
      rw [moved, inputs]
      simp [now]
    | true =>
      obtain ⟨tail, first, later, quit, stay⟩ := Actor.inputTurns_of_preempts h.actor a now
      have later : ∀ j ∈ tail.map (·.input), j.preempts = false := by
        intro j mem
        obtain ⟨t, there, rfl⟩ := List.mem_map.mp mem
        exact later t there
      have same : ((p.actor.inputTurns a i).map (·.input)).filter (!·.preempts) =
          tail.map (·.input) := by
        rw [first, List.map_cons, List.filter_cons_of_neg (by simp [now]), filter_later later]
      rw [same]
      refine ⟨fun stays => ?_, fun q => ?_⟩
      · rw [moved, stay fun q => stays (quits.mpr q)]
        simp [now]
      · obtain ⟨none, empty⟩ := quit (quits.mp q)
        exact ⟨by simp [now], by rw [none]; rfl, by rw [moved, empty]⟩
  · obtain ⟨turns, moved⟩ := inputs_takeResult (a := a) next running
    have inputs := Actor.completeTurns_inputs h.actor a c
    have stays : ¬ p.Quits (.act .takeResult) := by simp [Quits, hears]
    rw [turns, filter_later fun j mem => queued j (inputs ▸ List.mem_append_left _ mem)]
    refine ⟨fun _ => ?_, fun q => absurd q stays⟩
    rw [moved, inputs]
    exact List.append_nil _

/-- The turns that come after the first one of a move are those of inputs that waited, and what
preempts never waits. -/
theorem Sound.prompt (h : p.Sound) (a : Answers) (m : Move) : p.Prompt a m := by
  have queued := h.actor.queued
  rcases h.move_cases a m with still | ⟨rfl, i, rest, next, running⟩ | ⟨rfl, c, rest, next, running⟩
  · refine ⟨fun _ heard => ?_, fun _ other i mem => ?_, fun _ heard => ?_⟩
    · rw [still.deaf] at heard
      cases heard
    · rw [still.deeds.resolve_right fun exits => other exits.1] at mem
      cases mem
    · rw [still.deaf] at heard
      cases heard
  · have heard := hears_takeInput next running
    obtain ⟨turns, moved⟩ := deeds_takeInput (a := a) next running
    have only {x : Heard} (taken : p.hears (.act .takeInput) = some x) : x.input = i := by
      rw [heard] at taken
      cases taken
      rfl
    have inputs {ts : List Turn} (later : ∀ t ∈ ts, t.input.preempts = false) :
        ∀ i ∈ (ts.map Deed.turn).filterMap Deed.input?, i.preempts = false := by
      rw [input?_turns]
      exact List.forall_mem_map.mpr later
    refine ⟨fun x taken now => ?_, fun later _ => ?_, fun x taken aside => ?_⟩
    · rw [only taken] at now ⊢
      obtain ⟨tail, first, later, -⟩ := Actor.inputTurns_of_preempts h.actor a now
      rw [turns, first]
      exact ⟨tail.map .turn, rfl, inputs later⟩
    · have later : i.preempts = false := later _ heard
      rw [turns]
      refine inputs fun t mem => ?_
      rcases (h.actor.inputTurns a i t mem).2.2 with own | waited
      · rw [own]
        exact later
      · exact queued _ waited
    · rw [only taken] at aside
      rw [moved]
      exact Actor.handleInput_of_disregards h.actor h.settled a aside
  · obtain ⟨turns, moved⟩ := inputs_takeResult (a := a) next running
    have inputs := Actor.completeTurns_inputs h.actor a c
    refine ⟨nofun, fun _ _ i mem => ?_, nofun⟩
    rw [turns] at mem
    exact queued _ (inputs ▸ List.mem_append_left _ mem)

/-- What is taken is the first input in the inbox. -/
theorem hears_from_inbox (p : Runner) (m : Move) :
    (p.hears m).toList.map (·.input) <+: p.inbox := by
  unfold hears
  split
  case h_1 =>
    split
    · exact List.nil_prefix
    · cases p.inbox with
      | nil => exact List.nil_prefix
      | cons i rest => exact ⟨rest, rfl⟩
  case h_2 => exact List.nil_prefix

theorem incoming_of_silent (none : p.arrival m = none) : p.incoming m = [] := by
  unfold incoming
  rw [none]
  exact ite_self []

/-- A session takes the first input of its inbox. -/
theorem takeInput_inbox (running : (p.takeInput a).finished = false) :
    p.inbox = (p.hears (.act .takeInput)).toList.map (·.input) ++ (p.takeInput a).inbox := by
  unfold takeInput at running ⊢
  cases next : p.inbox with
  | nil => simp [hears, next]
  | cons i rest =>
    simp only [next] at running ⊢
    split at running
    case isTrue ended =>
      rw [ended] at running
      cases running
    case isFalse on =>
      rw [hears_takeInput next (by simpa using on), if_neg on, endIfLeaved_inbox running]
      rfl

theorem takeResult_inbox (running : (p.takeResult a).finished = false) :
    (p.takeResult a).inbox = p.inbox := by
  unfold takeResult at running ⊢
  split at running
  · split at running
    case isTrue ended => rw [if_pos ended]
    case isFalse on => rw [if_neg on, endIfLeaved_inbox running]
  · rfl

theorem shutdown_inbox (running : p.shutdown.finished = false) : p.shutdown.inbox = p.inbox := by
  unfold shutdown at running ⊢
  split at running
  case isTrue stays => rw [if_pos stays]
  case isFalse goes => rw [if_neg goes, endIfLeaved_inbox running]

/-- What is in the inbox of a session that still runs was there or came in, and was not taken. -/
theorem inbox_move (a : Answers) (p : Runner) (m : Move)
    (running : (p.move a m).finished = false) :
    p.inbox ++ p.incoming m = (p.hears m).toList.map (·.input) ++ (p.move a m).inbox := by
  have silent (none : p.arrival m = none) : p.inbox ++ p.incoming m = p.inbox := by
    rw [incoming_of_silent none, List.append_nil]
  cases m with
  | deliver e => exact (push_inbox p _).symm
  | receive | closeLink | dropReceiver => exact silent rfl
  | act m =>
    cases m with
    | leave | exit | rejoin | linkLost => exact (push_inbox p _).symm
    | dropHandle => exact silent rfl
    | report e event =>
      show p.inbox ++ p.incoming _ = (p.report e event).inbox
      unfold report
      cases known : p.actor.engines[e]? with
      | none => exact silent (by simp [arrival, known])
      | some generation =>
        rw [push_inbox]
        simp [incoming, arrival, known]
    | finishCreation index result =>
      refine (silent rfl).trans ?_
      show p.inbox = (p.finishCreation index result).inbox
      unfold finishCreation
      split <;> rfl
    | takeInput => exact (silent rfl).trans (takeInput_inbox running)
    | takeResult => exact (silent rfl).trans (takeResult_inbox running).symm
    | shutdown => exact (silent rfl).trans (shutdown_inbox running).symm

/-! ### Runs -/

theorem taken_snoc (a : Answers) (p : Runner) (moves : List Move) (m : Move) :
    p.taken a (moves ++ [m]) = p.taken a moves ++
      (((p.run a moves).hears m).toList.map (·.input)).filter (!·.preempts) := by
  simp only [taken, log_snoc, List.map_append, List.filter_append]

theorem inputs_snoc (a : Answers) (p : Runner) (moves : List Move) (m : Move) :
    p.inputs a (moves ++ [m]) = p.inputs a moves ++ (p.run a moves).incoming m := by
  induction moves generalizing p with
  | nil => simp [inputs, run]
  | cons m' rest ih => simp [inputs, ih, run]

/-- A session takes the inputs in the order in which it receives them, and while it runs, the others
are in its inbox. -/
theorem inputs_heard (a : Answers) (p : Runner) (empty : p.inbox = []) (moves : List Move) :
    (p.log a moves).map (·.input) <+: p.inputs a moves ∧
      ((p.run a moves).finished = false →
        p.inputs a moves = (p.log a moves).map (·.input) ++ (p.run a moves).inbox) := by
  induction moves using List.reverseRecOn with
  | nil => exact ⟨List.nil_prefix, fun _ => by rw [run, List.foldl_nil, empty]; rfl⟩
  | append_singleton moves m ih =>
    obtain ⟨before, waiting⟩ := ih
    rw [log_snoc, inputs_snoc, run_snoc, List.map_append]
    cases ended : (p.run a moves).finished with
    | true =>
      have deaf : (p.run a moves).hears m = none := by
        cases m with
        | act m => exact hears_of_idle fun _ => .inl ended
        | _ => rfl
      have shut : (p.run a moves).incoming m = [] := by simp [incoming, ended]
      rw [deaf, shut, List.append_nil]
      refine ⟨(List.append_nil _).symm ▸ before, fun running => ?_⟩
      rw [(Over.move ended a m).finished] at running
      cases running
    | false =>
      rw [waiting ended, List.append_assoc]
      refine ⟨?_, fun running => ?_⟩
      · exact (List.prefix_append_right_inj _).mpr
          ((hears_from_inbox _ m).trans (List.prefix_append _ _))
      · rw [inbox_move a _ m running, List.append_assoc]

theorem served_snoc (a : Answers) (p : Runner) (moves : List Move) (m : Move) :
    p.served a (moves ++ [m]) = p.served a moves ++
      (((p.run a moves).deeds a m).filterMap Deed.input?).filter (!·.preempts) := by
  simp only [served, course_append, course, List.append_nil, List.filterMap_append,
    List.filter_append]

/-- The accounts of a session that has nothing in its backlog yet are right after every run. -/
theorem Reachable.accounted {room : RoomId} (h : Reachable a room p) (empty : p.actor.backlog = [])
    (moves : List Move) :
    Accounted (p.taken a moves) (p.served a moves) (p.run a moves).actor.backlog
      (p.Abandoned a moves) := by
  induction moves using List.reverseRecOn with
  | nil =>
    show Accounted [] [] p.actor.backlog _
    rw [empty]
    exact Accounted.nothing.congr fun n => ⟨False.elim, fun ⟨_, _, _, split, _⟩ => by simp at split⟩
  | append_singleton moves m ih =>
    have balanced := (h.run moves).sound.balanced a m
    rw [taken_snoc, served_snoc, run_snoc]
    by_cases quits : (p.run a moves).Quits m
    · obtain ⟨new, turn, backlog⟩ := balanced.quit quits
      rw [new, turn, backlog, List.append_nil, List.append_nil]
      refine ih.abandon.congr fun n => ?_
      simp [abandoned_snoc, quits]
    · refine (ih.proceed (balanced.stay quits)).congr fun n => ?_
      simp [abandoned_snoc, quits]

/-- In every run, the course of a session leads from its start to what it has become, and makes up
its record. The session takes the inputs in the order in which it receives them. Nothing waits
without a pending step. The inputs that do not preempt have their turns in the course, once each and
in the order in which the session took them, all of them but those that still wait and those that
were waiting when the session left its room. What preempts has its turn when it is taken, and what
does not concern the session leaves the backlog and the pending step alone. -/
theorem backlog_in_turn (a : Answers) (room : RoomId) (link : Link ClientEvent)
    (moves : List Move) :
    let p := start a room link
    let q := p.run a moves
    (Actor.Linked a p.actor (p.course a moves) q.actor ∧
      q.actor.record = p.actor.record ++ (p.course a moves).flatMap (·.requests a)) ∧
      ((p.log a moves).map (·.input) <+: p.inputs a moves ∧
        (q.finished = false → p.inputs a moves = (p.log a moves).map (·.input) ++ q.inbox)) ∧
      (q.actor.pending = none → q.actor.backlog = []) ∧
      Accounted (p.taken a moves) (p.served a moves) q.actor.backlog (p.Abandoned a moves) ∧
      ∀ m, Actor.Linked a q.actor (q.deeds a m) (q.move a m).actor ∧ q.Prompt a m := by
  intro p q
  have reachable : Reachable a room p := .start link
  have sound : q.Sound := (reachable.run moves).sound
  have outside : p.actor.state.inRoom = false := by
    rcases Actor.enterRoom_cases a (.new room link) with entered | entered <;>
    · show ((Actor.new room link).enterRoom a).state.inRoom = false
      rw [entered]
      rfl
  refine ⟨⟨course_linked a p moves, course_record a p moves⟩, inputs_heard a p rfl moves,
    fun free => ?_, reachable.accounted (reachable.sound.actor.nothing_waits outside) moves,
    fun m => ⟨move_linked a q m, sound.prompt a m⟩⟩
  by_contra waits
  exact sound.settled waits free

/-- Two newcomers wait while an offer to the first is being created; the session leaves and comes
back. -/
example :
    let r : RoomId := ⟨"r"⟩
    let take (i : SessionInput) : List Move :=
      match i with
      | .server e => [.deliver e, .act .takeInput]
      | .leave => [.act .leave, .act .takeInput]
      | _ => [.act .rejoin, .act .takeInput]
    let moves := [.server (.joined r ⟨"me"⟩), .server (.otherJoin r ⟨"a"⟩),
      .server (.otherJoin r ⟨"b"⟩), .server (.otherJoin r ⟨"c"⟩), .leave, .rejoin].flatMap take
    let p := start .obliging r .fresh
    p.taken .obliging moves = [.server (.joined r ⟨"me"⟩), .server (.otherJoin r ⟨"a"⟩),
        .server (.otherJoin r ⟨"b"⟩), .server (.otherJoin r ⟨"c"⟩), .rejoin] ∧
      p.served .obliging moves =
        [.server (.joined r ⟨"me"⟩), .server (.otherJoin r ⟨"a"⟩), .rejoin] :=
  ⟨rfl, rfl⟩

end Runner

end Parley
