import Parley.Proofs.Session.Past
import Parley.Proofs.Session.Silence

/-!
# Leaving makes a session new

A session that has left its room and comes back is as good as new: it does what a session does that
is started for the same room on the same link and gets to deal with the same, less what is left of
the engines of its earlier life, and less the first replies to joins, one for each join that it had
given up (`Runner.Reachable.renewal`).

The two sessions run side by side. What is left of old engines is taken out first
(`spares_move`); what remains of the session is the new one with a past (`Renewed`), and each move
of the one is a move of the other or a reply that is passed over (`Renewed.step`).
-/

namespace Parley

/-! ## Passing over -/

section PassOver

variable {α : Type} {f : α → Bool} {k : Nat} {l : List α} {x : α}

/-- The list without the first `k` elements of the kind. -/
def passOver (f : α → Bool) (k : Nat) (l : List α) : List α := (List.eraseP f)^[k] l

theorem passOver_nil (f : α → Bool) (k : Nat) : passOver f k [] = [] :=
  Function.iterate_fixed List.eraseP_nil k

theorem passOver_cons_of_pos (kind : f x = true) :
    passOver f (k + 1) (x :: l) = passOver f k l := by
  unfold passOver
  rw [Function.iterate_succ_apply, List.eraseP_cons_of_pos kind]

theorem passOver_cons_of_neg (other : f x = false) :
    passOver f k (x :: l) = x :: passOver f k l := by
  unfold passOver
  induction k generalizing l with
  | zero => rfl
  | succ k ih =>
    rw [Function.iterate_succ_apply, Function.iterate_succ_apply,
      List.eraseP_cons_of_neg (by simp [other]), ih]

/-- What comes last stays last, unless it is passed over. -/
theorem passOver_concat (f : α → Bool) (k : Nat) (l : List α) (x : α) :
    passOver f k (l ++ [x]) = passOver f k l ++ [x] ∨ passOver f k (l ++ [x]) = passOver f k l := by
  induction l generalizing k with
  | nil =>
    rw [List.nil_append, passOver_nil]
    cases k with
    | zero => exact .inl rfl
    | succ k =>
      cases kind : f x with
      | true => exact .inr (by rw [passOver_cons_of_pos kind, passOver_nil])
      | false => exact .inl (by rw [passOver_cons_of_neg kind, passOver_nil, List.nil_append])
  | cons y rest ih =>
    rw [List.cons_append]
    cases kind : f y with
    | true =>
      cases k with
      | zero => exact .inl rfl
      | succ k =>
        rw [passOver_cons_of_pos kind, passOver_cons_of_pos kind]
        exact ih k
    | false =>
      rw [passOver_cons_of_neg kind, passOver_cons_of_neg kind]
      exact (ih k).imp (congrArg (y :: ·)) (congrArg (y :: ·))

theorem passOver_subset (f : α → Bool) (k : Nat) (l : List α) : passOver f k l ⊆ l := by
  unfold passOver
  induction k generalizing l with
  | zero => exact List.Subset.refl l
  | succ k ih => exact List.Subset.trans (ih _) List.eraseP_subset

end PassOver

/-! ## What a session deals with -/

/-- What a session has to deal with. -/
inductive Stimulus where
  | input (i : SessionInput)
  | completion (c : Completion)
  /-- Nobody can drive the session any more. -/
  | abandonment
  /-- What the session has sent is received. -/
  | receipt
  | linkClosed
  | receiverDropped

namespace Stimulus

/-- The same in a session that has a past. -/
def after (past : Past) : Stimulus → Stimulus
  | input i => input (past.input i)
  | completion c => completion (past.completion c)
  | x => x

/-- It is left of one of the engines. -/
def leftOf (b : Bygone) : Stimulus → Bool
  | input i => b.reported i
  | completion c => b.completed c
  | _ => false

/-- It is a reply to a join. -/
def repliesIn (room : RoomId) : Stimulus → Bool
  | input i => i.repliesIn room
  | _ => false

/-- It comes from an engine or happens to the link. -/
def aside : Stimulus → Bool
  | input (.engine _ _) | completion _ | receipt | linkClosed | receiverDropped => true
  | input _ | abandonment => false

end Stimulus

/-- The engines of the past and all generations before. -/
def Past.bygone (past : Past) : Bygone :=
  ⟨List.range past.engines.length, List.range past.generation⟩

/-- What the session did and acquired so far. -/
def Actor.past (s : Actor) : Past := ⟨s.record, s.engines, s.generation, s.trackTotal, s.staleReplies⟩

namespace Runner

variable {a : Answers} {past : Past} {room : RoomId} {p w f : Runner} {m m' : Move} {k : Nat}

/-- What a session deals with in a move. -/
def heeds (p : Runner) : Move → Option Stimulus
  | .act .takeInput => if p.finished then none else p.inbox.head?.map .input
  | .act .takeResult => if p.finished then none else p.results.head?.map .completion
  | .act .shutdown =>
    if p.handle || !p.inbox.isEmpty || p.finished then none else some .abandonment
  | .receive => some .receipt
  | .closeLink => some .linkClosed
  | .dropReceiver => some .receiverDropped
  | _ => none

/-- What a session deals with in a run. -/
def heeded (a : Answers) (p : Runner) : List Move → List Stimulus
  | [] => []
  | m :: rest => (p.heeds m).toList ++ (p.move a m).heeded a rest

/-- The session with a past, and these inputs in its inbox. -/
def after (past : Past) (inbox : List SessionInput) (f : Runner) : Runner :=
  { f with actor := f.actor.after past, inbox, results := f.results.map past.completion }

/-- The one session is the other with a past, and has the same before it but for the replies that it
will pass over. -/
structure Renewed (past : Past) (room : RoomId) (w f : Runner) : Prop where
  same : w = f.after past w.inbox
  inbox : passOver (·.repliesIn room) past.staleReplies w.inbox = f.inbox.map past.input
  room : f.actor.room = room

/-- What the one session does in a move, the other does in a move of its own, unless it is spared the
move. -/
structure Follows (a : Answers) (past : Past) (room : RoomId) (w : Runner) (m : Move) (f : Runner)
    (m' : Option Move) (k : Nat) : Prop where
  renewed : Renewed { past with staleReplies := k } room (w.move a m)
    (f.run (past.answers a) m'.toList)
  heeds : ∀ xs, passOver (·.repliesIn room) past.staleReplies ((w.heeds m).toList ++ xs) =
    (m'.bind f.heeds).toList.map (Stimulus.after past) ++ passOver (·.repliesIn room) k xs

/-! ## Moves -/

theorem takeInput_idle (nothing : p.finished = true ∨ p.inbox = []) :
    p.takeInput a = p ∧ p.heeds (.act .takeInput) = none := by
  unfold takeInput heeds
  rcases nothing with ended | empty
  · rw [ended]
    exact ⟨by split <;> rfl, rfl⟩
  · rw [empty]
    exact ⟨rfl, ite_self _⟩

theorem takeInput_next {i : SessionInput} {rest : List SessionInput} (next : p.inbox = i :: rest)
    (running : p.finished = false) :
    p.takeInput a = endIfLeaved { p with actor := p.actor.handleInput a i, inbox := rest } ∧
      p.heeds (.act .takeInput) = some (.input i) := by
  simp [takeInput, heeds, next, running]

/-- The session goes on to the next input, or there is nothing for it to take. -/
theorem takeInput_cases (a : Answers) (p : Runner) :
    (p.takeInput a = p ∧ p.heeds (.act .takeInput) = none) ∨
      ∃ i rest, p.inbox = i :: rest ∧ p.finished = false := by
  cases running : p.finished with
  | true => exact .inl (takeInput_idle (.inl running))
  | false =>
    cases next : p.inbox with
    | nil => exact .inl (takeInput_idle (.inr next))
    | cons i rest => exact .inr ⟨i, rest, rfl, rfl⟩

theorem takeResult_idle (nothing : p.finished = true ∨ p.results = []) :
    p.takeResult a = p ∧ p.heeds (.act .takeResult) = none := by
  unfold takeResult heeds
  rcases nothing with ended | empty
  · rw [ended]
    exact ⟨by split <;> rfl, rfl⟩
  · rw [empty]
    exact ⟨rfl, ite_self _⟩

theorem takeResult_next {c : Completion} {rest : List Completion} (next : p.results = c :: rest)
    (running : p.finished = false) :
    p.takeResult a = endIfLeaved { p with actor := p.actor.complete a c, results := rest } ∧
      p.heeds (.act .takeResult) = some (.completion c) := by
  simp [takeResult, heeds, next, running]

/-- The session goes on to the next completion, or there is nothing for it to take. -/
theorem takeResult_cases (a : Answers) (p : Runner) :
    (p.takeResult a = p ∧ p.heeds (.act .takeResult) = none) ∨
      ∃ c rest, p.results = c :: rest ∧ p.finished = false := by
  cases running : p.finished with
  | true => exact .inl (takeResult_idle (.inl running))
  | false =>
    cases next : p.results with
    | nil => exact .inl (takeResult_idle (.inr next))
    | cons c rest => exact .inr ⟨c, rest, rfl, rfl⟩

namespace Follows

theorem silent {m' : Option Move} (deaf : w.heeds m = none) (deaf' : m'.bind f.heeds = none)
    (renewed : Renewed past room (w.move a m) (f.run (past.answers a) m'.toList)) :
    Follows a past room w m f m' past.staleReplies := by
  refine ⟨renewed, fun xs => ?_⟩
  rw [deaf, deaf']
  rfl

theorem alike (heeds : w.heeds m = (f.heeds m').map (Stimulus.after past))
    (due : ∀ x, w.heeds m = some x → past.staleReplies = 0 ∨ x.repliesIn room = false)
    (renewed : Renewed past room (w.move a m) (f.move (past.answers a) m')) :
    Follows a past room w m f (some m') past.staleReplies := by
  refine ⟨renewed, fun xs => ?_⟩
  show _ = (f.heeds m').toList.map (Stimulus.after past) ++ _
  cases heard : f.heeds m' with
  | none =>
    rw [heeds, heard]
    rfl
  | some x =>
    rw [heard] at heeds
    rw [heeds]
    rcases due _ heeds with none | other
    · rw [none]
      rfl
    · exact passOver_cons_of_neg other

end Follows

namespace Renewed

theorem link (h : Renewed past room w f) (change : Link ClientEvent → Link ClientEvent) :
    Renewed past room (w.onLink change) (f.onLink change) where
  same := by
    conv => lhs; rw [h.same]
    rfl
  inbox := h.inbox
  room := h.room

theorem endIfLeaved (h : Renewed past room w f) :
    Renewed past room w.endIfLeaved f.endIfLeaved := by
  have state : w.actor.state = f.actor.state := by
    rw [h.same]
    rfl
  unfold Runner.endIfLeaved
  rw [state]
  split
  · refine ⟨?_, passOver_nil _ _, h.room⟩
    conv => lhs; rw [h.same]
    rfl
  · exact h

/-- The other session gets the same input, or is spared it. -/
theorem push (h : Renewed past room w f) (i : SessionInput) :
    Renewed past room (w.push (past.input i)) (f.push i) ∨
      Renewed past room (w.push (past.input i)) f := by
  have shut : (w.finished || !w.handle) = (f.finished || !f.handle) := by
    rw [h.same]
    rfl
  unfold Runner.push
  rw [shut]
  split
  · exact .inr h
  · refine (passOver_concat (·.repliesIn room) past.staleReplies w.inbox (past.input i)).imp
      (fun kept => ⟨?_, ?_, h.room⟩) fun passed => ⟨?_, passed.trans h.inbox, h.room⟩
    · conv => lhs; rw [h.same]
      rfl
    · show passOver _ _ (w.inbox ++ [past.input i]) = _
      rw [kept, h.inbox]
      simp
    · conv => lhs; rw [h.same]
      rfl

/-- While replies are to be passed over, nothing waits. -/
theorem quiet (h : Renewed past room w f) (sound : w.actor.Sound) :
    past.staleReplies = 0 ∨ f.actor.backlog = [] := by
  rw [h.same] at sound
  by_cases none : past.staleReplies = 0
  · exact .inl none
  · right
    have outside : (f.actor.after past).state.inRoom = false := by
      cases inside : (f.actor.after past).state.inRoom with
      | false => rfl
      | true =>
        have owed : past.staleReplies + f.actor.staleReplies = 0 := (sound.member inside).2.2
        omega
    exact List.map_eq_nil_iff.mp (sound.nothing_waits outside)

/-- There is nothing to take for either. -/
theorem stay (h : Renewed past room w f) (still : w.move a m = w ∧ w.heeds m = none) :
    ∃ m' k, Follows a past room w m f m' k := by
  refine ⟨none, _, .silent still.2 rfl ?_⟩
  show Renewed past room (w.move a m) f
  rwa [still.1]

/-- A reply to a join that was given up is passed over. -/
theorem step_stale (h : Renewed past room w f) (sound : w.actor.Sound)
    (alive : w.actor.state ≠ .leaved) (running : w.finished = false) {i : SessionInput}
    {rest : List SessionInput} (next : w.inbox = i :: rest) (reply : i.repliesIn room = true)
    (owed : past.staleReplies = k + 1) : Follows a past room w (.act .takeInput) f none k := by
  obtain ⟨taken, heard⟩ := takeInput_next (a := a) next running
  have inboxes := h.inbox
  rw [next, owed, passOver_cons_of_pos reply] at inboxes
  have actor : w.actor = f.actor.after past := by
    rw [h.same]
    rfl
  have count : w.actor.staleReplies = k + f.actor.staleReplies + 1 := by
    rw [actor]
    show past.staleReplies + f.actor.staleReplies = _
    omega
  have passed : w.actor.handleInput a i = f.actor.after { past with staleReplies := k } := by
    have reply' : i.repliesIn w.actor.room = true := by
      rw [actor]
      show i.repliesIn f.actor.room = true
      rwa [h.room]
    rw [sound.handleInput_stale a reply' (by omega), count, actor]
    rfl
  have left : ¬ (w.actor.handleInput a i).state = .leaved := by
    rw [passed]
    rw [actor] at alive
    exact alive
  refine ⟨?_, fun xs => ?_⟩
  · show Renewed _ room (w.takeInput a) f
    rw [taken, Runner.endIfLeaved, if_neg left, passed]
    refine ⟨?_, inboxes, h.room⟩
    conv => lhs; rw [h.same]
    rfl
  · rw [heard, owed]
    exact passOver_cons_of_pos reply

theorem step_takeInput (h : Renewed past room w f) (sound : w.actor.Sound)
    (alive : w.finished = false → w.actor.state ≠ .leaved) :
    ∃ m' k, Follows a past room w (.act .takeInput) f m' k := by
  have quiet := h.quiet sound
  rcases takeInput_cases a w with still | ⟨i, rest, next, running⟩
  · exact h.stay still
  by_cases passes : i.repliesIn room = true ∧ past.staleReplies ≠ 0
  · obtain ⟨k, owed⟩ : ∃ k, past.staleReplies = k + 1 := ⟨past.staleReplies - 1, by omega⟩
    exact ⟨none, k, h.step_stale sound (alive running) running next passes.1 owed⟩
  · have due : past.staleReplies = 0 ∨ i.repliesIn room = false := by
      rw [not_and_or, not_not, Bool.not_eq_true] at passes
      exact passes.symm
    have kept : passOver (·.repliesIn room) past.staleReplies (i :: rest) =
        i :: passOver (·.repliesIn room) past.staleReplies rest := by
      rcases due with none | other
      · rw [none]
        rfl
      · exact passOver_cons_of_neg other
    have inboxes := h.inbox
    rw [next, kept] at inboxes
    obtain ⟨i', rest', next', rfl, behind⟩ := List.map_eq_cons_iff.mp inboxes.symm
    have running' : f.finished = false := by
      rw [h.same] at running
      exact running
    obtain ⟨taken, heard⟩ := takeInput_next (a := a) next running
    obtain ⟨taken', heard'⟩ := takeInput_next (a := past.answers a) next' running'
    refine ⟨some (.act .takeInput), _, .alike ?_ (fun x heard'' => ?_) ?_⟩
    · rw [heard, heard']
      rfl
    · rw [heard] at heard''
      cases heard''
      exact due
    · have handled : w.actor.handleInput a (past.input i') =
          (f.actor.handleInput (past.answers a) i').after past := by
        rw [h.same]
        refine Actor.after_handleInput a f.actor i' ?_
        rcases due with none | other
        · exact .inl none
        · refine quiet.imp_right fun empty => ⟨?_, empty⟩
          rw [h.room]
          rwa [Past.input_repliesIn] at other
      show Renewed past room (w.takeInput a) (f.takeInput (past.answers a))
      rw [taken, taken', handled]
      refine Renewed.endIfLeaved ⟨?_, behind.symm, (Actor.handleInput_room _ _ _).trans h.room⟩
      conv => lhs; rw [h.same]
      rfl

theorem step_takeResult (h : Renewed past room w f) (sound : w.actor.Sound) :
    ∃ m' k, Follows a past room w (.act .takeResult) f m' k := by
  have quiet := h.quiet sound
  rcases takeResult_cases a w with still | ⟨c', rest', next, running⟩
  · exact h.stay still
  have results : f.results.map past.completion = c' :: rest' := by
    rw [← next, h.same]
    rfl
  obtain ⟨c, rest, next', rfl, rfl⟩ := List.map_eq_cons_iff.mp results
  have running' : f.finished = false := by
    rw [h.same] at running
    exact running
  obtain ⟨taken, heard⟩ := takeResult_next (a := a) next running
  obtain ⟨taken', heard'⟩ := takeResult_next (a := past.answers a) next' running'
  refine ⟨some (.act .takeResult), _, .alike ?_ (fun x heard'' => ?_) ?_⟩
  · rw [heard, heard']
    rfl
  · rw [heard] at heard''
    cases heard''
    exact .inr rfl
  · have completed : w.actor.complete a (past.completion c) =
        (f.actor.complete (past.answers a) c).after past := by
      rw [h.same]
      exact Actor.after_complete a f.actor c quiet
    show Renewed past room (w.takeResult a) (f.takeResult (past.answers a))
    rw [taken, taken', completed]
    refine Renewed.endIfLeaved ⟨?_, h.inbox, (Actor.complete_room _ _ _).trans h.room⟩
    conv => lhs; rw [h.same]
    rfl

theorem step_shutdown (h : Renewed past room w f) :
    ∃ m' k, Follows a past room w (.act .shutdown) f m' k := by
  have renewed := h
  obtain ⟨same, inboxes, here⟩ := h
  generalize w.inbox = inbox at same inboxes
  subst same
  by_cases goes : (f.handle || !inbox.isEmpty || f.finished) = true
  · exact renewed.stay ⟨if_pos goes, if_pos goes⟩
  · have alone : f.handle = false ∧ inbox = [] ∧ f.finished = false := by
      simpa [and_assoc] using goes
    obtain ⟨dropped, rfl, running⟩ := alone
    have empty : f.inbox = [] := List.map_eq_nil_iff.mp (inboxes.symm.trans (passOver_nil _ _))
    have goes' : ¬ (f.handle || !f.inbox.isEmpty || f.finished) = true := by
      simp [dropped, empty, running]
    refine ⟨some (.act .shutdown), _, .alike ?_ (fun x heard => ?_) ?_⟩
    · refine (if_neg goes).trans ?_
      simp [heeds, dropped, empty, running, Stimulus.after]
    · have heard' : (f.after past []).heeds (.act .shutdown) = some .abandonment := if_neg goes
      rw [heard'] at heard
      cases heard
      exact .inr rfl
    · have left : (f.after past []).shutdown =
          Runner.endIfLeaved { f.after past [] with actor := (f.actor.after past).leave true } :=
        if_neg goes
      have left' : f.shutdown = Runner.endIfLeaved { f with actor := f.actor.leave true } :=
        if_neg goes'
      show Renewed past room (f.after past []).shutdown f.shutdown
      rw [left, left', Actor.after_leave]
      refine Renewed.endIfLeaved ⟨rfl, inboxes, ?_⟩
      exact (Actor.leave_handled (past.answers a) f.actor true).room.trans here

theorem step_finishCreation (h : Renewed past room w f) (index : Nat)
    (result : Option Description) :
    ∃ m' k, Follows a past room w (.act (.finishCreation index result)) f m' k := by
  obtain ⟨same, inboxes, here⟩ := h
  generalize w.inbox = inbox at same inboxes
  subst same
  refine ⟨some (.act (.finishCreation index result)), _, .silent rfl rfl ?_⟩
  show Renewed past room ((f.after past inbox).finishCreation index result)
    (f.finishCreation index result)
  have begun : (f.after past inbox).actor.creations[index]? =
      (f.actor.creations[index]?).map past.creation := List.getElem?_map
  unfold finishCreation
  rw [begun]
  cases f.actor.creations[index]? with
  | none => exact ⟨rfl, inboxes, here⟩
  | some c =>
    refine ⟨?_, inboxes, here⟩
    have gone : (f.actor.creations.map past.creation).eraseIdx index =
        (f.actor.creations.eraseIdx index).map past.creation := List.eraseIdx_map _ _ _
    cases running : f.finished <;>
      simp [after, Actor.after, running, gone, Past.creation, Past.completion]

theorem step_report (h : Renewed past room w f) {e : EngineId} (new : past.engines.length ≤ e)
    (event : EngineEvent) : ∃ m' k, Follows a past room w (.act (.report e event)) f m' k := by
  have engine : w.actor.engines[e]? =
      (f.actor.engines[e - past.engines.length]?).map past.stamp := by
    rw [h.same]
    show (past.engines ++ f.actor.engines.map past.stamp)[e]? = _
    rw [List.getElem?_append_right new, List.getElem?_map]
  cases known : f.actor.engines[e - past.engines.length]? with
  | none =>
    rw [known] at engine
    refine h.stay ⟨?_, rfl⟩
    show w.report e event = w
    unfold report
    rw [engine]
    rfl
  | some g =>
    rw [known] at engine
    have reported : w.report e event = w.push (past.input (.engine g event)) := by
      unfold report
      rw [engine]
      rfl
    have reported' : f.report (e - past.engines.length) event = f.push (.engine g event) := by
      unfold report
      rw [known]
    rcases h.push (.engine g event) with renewed | renewed
    · refine ⟨some (.act (.report (e - past.engines.length) event)), _, .silent rfl rfl ?_⟩
      show Renewed past room (w.report e event) (f.report _ event)
      rwa [reported, reported']
    · refine ⟨none, _, .silent rfl rfl ?_⟩
      show Renewed past room (w.report e event) f
      rwa [reported]

/-- Each move of the one session is followed by the other. -/
theorem step (h : Renewed past room w f) (sound : w.actor.Sound)
    (alive : w.finished = false → w.actor.state ≠ .leaved)
    (new : ∀ e event, m = .act (.report e event) → past.engines.length ≤ e) :
    ∃ m' k, Follows a past room w m f m' k := by
  have pushed (i : SessionInput) (own : past.input i = i) (deaf : w.heeds m = none)
      (deaf' : f.heeds m = none) (moved : w.move a m = w.push i)
      (moved' : f.move (past.answers a) m = f.push i) :
      ∃ m' k, Follows a past room w m f m' k := by
    have both := h.push i
    rw [own] at both
    rcases both with renewed | renewed
    · refine ⟨some m, _, .silent deaf deaf' ?_⟩
      show Renewed past room (w.move a m) (f.move (past.answers a) m)
      rwa [moved, moved']
    · refine ⟨none, _, .silent deaf rfl ?_⟩
      show Renewed past room (w.move a m) f
      rwa [moved]
  have outside (change : Link ClientEvent → Link ClientEvent) {x : Stimulus}
      (heard : w.heeds m = some x) (heard' : f.heeds m = some x) (own : x.after past = x)
      (other : x.repliesIn room = false) (moved : w.move a m = w.onLink change)
      (moved' : f.move (past.answers a) m = f.onLink change) :
      ∃ m' k, Follows a past room w m f m' k := by
    refine ⟨some m, _, .alike ?_ (fun y heard'' => ?_) ?_⟩
    · rw [heard, heard', Option.map_some, own]
    · rw [heard] at heard''
      cases heard''
      exact .inr other
    · rw [moved, moved']
      exact h.link change
  cases m with
  | deliver e => exact pushed (.server e) rfl rfl rfl rfl rfl
  | receive => exact outside (fun l => l.receive.2) rfl rfl rfl rfl rfl rfl
  | closeLink => exact outside Link.close rfl rfl rfl rfl rfl rfl
  | dropReceiver => exact outside Link.dropReceiver rfl rfl rfl rfl rfl rfl
  | act m =>
    cases m with
    | leave => exact pushed .leave rfl rfl rfl rfl rfl
    | exit => exact pushed .exit rfl rfl rfl rfl rfl
    | rejoin => exact pushed .rejoin rfl rfl rfl rfl rfl
    | linkLost => exact pushed .linkLost rfl rfl rfl rfl rfl
    | dropHandle =>
      refine ⟨some (.act .dropHandle), _, .silent rfl rfl ⟨?_, h.inbox, h.room⟩⟩
      show w.dropHandle = _
      conv => lhs; rw [h.same]
      rfl
    | report e event => exact h.step_report (new e event rfl) event
    | finishCreation index result => exact h.step_finishCreation index result
    | takeInput => exact h.step_takeInput sound alive
    | takeResult => exact h.step_takeResult sound
    | shutdown => exact h.step_shutdown

theorem snapshot (h : Renewed past room w f) : w.snapshot = f.snapshot := by
  rw [h.same]
  rfl

end Renewed

/-! ## Runs -/

theorem heeds_spare_takeInput (sound : p.Sound) (b : Bygone) :
    (p.heeds (.act .takeInput)).toList.filter (!·.leftOf b) =
      ((p.spare b (.act .takeInput)).bind (p.without b).heeds).toList := by
  cases next : p.inbox with
  | nil =>
    rw [(takeInput_idle (a := .obliging) (.inr next)).2]
    have next' : (p.without b).inbox = [] := by simp [without, next]
    simp [spare, next, (takeInput_idle (a := .obliging) (.inr next')).2]
  | cons i rest =>
    have running := sound.running_of_inbox next
    rw [(takeInput_next (a := .obliging) next running).2]
    cases left : b.reported i with
    | true => simp [spare, next, left, Stimulus.leftOf]
    | false =>
      have next' : (p.without b).inbox = i :: rest.filter (!b.reported ·) := by
        simp [without, next, left]
      simp [spare, next, left, Stimulus.leftOf, (takeInput_next (a := .obliging) next' running).2]

theorem heeds_spare_takeResult (sound : p.Sound) (b : Bygone) :
    (p.heeds (.act .takeResult)).toList.filter (!·.leftOf b) =
      ((p.spare b (.act .takeResult)).bind (p.without b).heeds).toList := by
  cases next : p.results with
  | nil =>
    rw [(takeResult_idle (a := .obliging) (.inr next)).2]
    have next' : (p.without b).results = [] := by simp [without, next]
    simp [spare, next, (takeResult_idle (a := .obliging) (.inr next')).2]
  | cons c rest =>
    have running := sound.running_of_results next
    rw [(takeResult_next (a := .obliging) next running).2]
    cases left : b.completed c with
    | true => simp [spare, next, left, Stimulus.leftOf]
    | false =>
      have next' : (p.without b).results = c :: rest.filter (!b.completed ·) := by
        simp [without, next, left]
      simp [spare, next, left, Stimulus.leftOf, (takeResult_next (a := .obliging) next' running).2]

theorem heeds_spare_shutdown (p : Runner) (b : Bygone) :
    (p.heeds (.act .shutdown)).toList.filter (!·.leftOf b) =
      ((p.spare b (.act .shutdown)).bind (p.without b).heeds).toList := by
  cases waits : p.inbox with
  | nil =>
    have waits' : (p.without b).inbox = [] := by simp [without, waits]
    have same : (p.without b).heeds (.act .shutdown) = p.heeds (.act .shutdown) := by
      show (if (p.handle || !(p.without b).inbox.isEmpty || p.finished) = true then _ else _) =
        (if (p.handle || !p.inbox.isEmpty || p.finished) = true then _ else _)
      rw [waits, waits']
    have spared : p.spare b (.act .shutdown) = some (.act .shutdown) := by simp [spare, waits]
    rw [spared, Option.bind_some, same]
    by_cases goes : (p.handle || !p.inbox.isEmpty || p.finished) = true
    · have deaf : p.heeds (.act .shutdown) = none := if_pos goes
      rw [deaf]
      rfl
    · have heard : p.heeds (.act .shutdown) = some .abandonment := if_neg goes
      rw [heard]
      rfl
  | cons i rest => simp [spare, heeds, waits]

/-- What is left of engines is all that a session deals with in a move that is spared. -/
theorem heeds_spare (sound : p.Sound) (b : Bygone) (m : Move) :
    (p.heeds m).toList.filter (!·.leftOf b) = ((p.spare b m).bind (p.without b).heeds).toList := by
  cases m with
  | deliver | receive | closeLink | dropReceiver => rfl
  | act m =>
    cases m with
    | leave | exit | rejoin | linkLost | dropHandle => rfl
    | report e event =>
      unfold spare
      dsimp only
      split <;> rfl
    | finishCreation index result =>
      unfold spare
      dsimp only
      split
      · rfl
      · split <;> rfl
    | takeInput => exact heeds_spare_takeInput sound b
    | takeResult => exact heeds_spare_takeResult sound b
    | shutdown => exact heeds_spare_shutdown p b

/-- What a move spares is no report of the engines. -/
theorem not_report_of_spare {b : Bygone} {e : EngineId} {event : EngineEvent}
    (spare : p.spare b m = some (.act (.report e event))) : e ∉ b.engines := by
  cases m with
  | deliver | receive | closeLink | dropReceiver => cases spare
  | act m =>
    cases m with
    | leave | exit | rejoin | linkLost | dropHandle => cases spare
    | report e' event' =>
      unfold Runner.spare at spare
      dsimp only at spare
      split at spare
      · cases spare
      case isFalse other =>
        cases spare
        simpa using other
    | finishCreation index result =>
      unfold Runner.spare at spare
      dsimp only at spare
      split at spare
      · cases spare
      · split at spare <;> cases spare
    | takeInput | takeResult | shutdown =>
      unfold Runner.spare at spare
      dsimp only at spare
      split at spare <;> cases spare

end Runner

theorem Actor.Sound.without {s : Actor} (h : s.Sound) (b : Bygone) : (s.without b).Sound :=
  { h with
    queued := fun i mem => h.queued i (List.mem_filter.mp mem).1
    waiting := fun waits => h.waiting fun empty => waits (by simp [Actor.without, empty]) }

namespace Runner

variable {a : Answers} {past : Past} {room : RoomId} {p f : Runner}

/-- A whole run of the one session is followed by the other. -/
theorem Renewed.run (reachable : Reachable a room p) (gone : p.actor.Outlived past.bygone)
    (h : Renewed past room (p.without past.bygone) f) (moves : List Move) :
    ∃ moves' k,
      Renewed { past with staleReplies := k } room ((p.run a moves).without past.bygone)
        (f.run (past.answers a) moves') ∧
      (f.heeded (past.answers a) moves').map (Stimulus.after past) =
        passOver (·.repliesIn room) past.staleReplies
          ((p.heeded a moves).filter (!·.leftOf past.bygone)) ∧
      (p.snapshots a moves).destutter (· ≠ ·) =
        (f.snapshots (past.answers a) moves').destutter (· ≠ ·) := by
  induction moves generalizing p f past with
  | nil =>
    refine ⟨[], past.staleReplies, h, (passOver_nil _ _).symm, ?_⟩
    have same : p.snapshot = f.snapshot := h.snapshot
    simp [snapshots, same]
  | cons m rest ih =>
    have next := reachable.move m
    have gone' := move_outlived (a := a) gone m
    have spared := spares_move (a := a) reachable.sound gone reachable.stamped m
    have heard := heeds_spare reachable.sound past.bygone m
    have seen : p.snapshot = f.snapshot := h.snapshot
    unfold Spares at spared
    rw [heeded, List.filter_append, heard]
    cases spare : p.spare past.bygone m with
    | none =>
      rw [spare] at spared
      have still : (p.move a m).without past.bygone = p.without past.bygone := spared.symm
      obtain ⟨moves', k, renewed, dealt, shown⟩ := ih next gone' (by rwa [still])
      refine ⟨moves', k, renewed, dealt, ?_⟩
      have same : (p.without past.bygone).snapshot = ((p.move a m).without past.bygone).snapshot := by
        rw [still]
      have same : p.snapshot = (p.move a m).snapshot := same
      rw [← shown]
      exact destutter_snapshots_same same rest
    | some m₁ =>
      rw [spare] at spared
      have moved : (p.without past.bygone).move a m₁ = (p.move a m).without past.bygone := spared
      obtain ⟨m', k, follows⟩ := h.step (a := a) (m := m₁) (reachable.sound.actor.without _)
        (fun running => reachable.sound.alive running) fun e event report => by
          have other := not_report_of_spare (spare.trans (congrArg some report))
          simpa [Past.bygone] using other
      have renewed := follows.renewed
      rw [moved] at renewed
      have gone' : (p.move a m).actor.Outlived ({ past with staleReplies := k } : Past).bygone := gone'
      obtain ⟨moves', k', renewed', dealt, shown⟩ := ih next gone' renewed
      have after : (p.move a m).snapshot = (f.run (past.answers a) m'.toList).snapshot :=
        renewed.snapshot
      refine ⟨m'.toList ++ moves', k', ?_, ?_, ?_⟩
      · unfold Runner.run at renewed' ⊢
        rw [List.foldl_append]
        exact renewed'
      · refine Eq.trans ?_ (follows.heeds _).symm
        cases m' with
        | none => exact dealt
        | some m' =>
          show ((f.heeds m').toList ++ _).map _ = _
          rw [List.map_append]
          exact congrArg _ dealt
      · cases m' with
        | none =>
          refine (destutter_snapshots_same (p := p) ?_ rest).trans shown
          exact seen.trans after.symm
        | some m' =>
          show (p.snapshot :: (p.move a m).snapshots a rest).destutter (· ≠ ·) =
            (f.snapshot :: (f.move (past.answers a) m').snapshots _ moves').destutter (· ≠ ·)
          rw [seen]
          exact destutter_snapshots_congr f.snapshot after shown

end Runner

end Parley
