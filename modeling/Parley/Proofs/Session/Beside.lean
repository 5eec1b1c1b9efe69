import Mathlib.Logic.Basic
import Parley.Proofs.Session.Operations

/-!
# What a session does not look at

A session that handles an input looks neither at what else waits nor at what its link holds to be
received. So it does the same with other inputs in its backlog and more events on its link
(`Actor.beside_dispatch`), and so does one that publishes a description (`Actor.beside_applied`).
Inputs that preempt may empty the backlog, and are left out here.

Some inputs a session passes over when their turn comes. In a view of the session in which they do
not wait (`Actor.Filters`), all others have the effect that they have beside them.
-/

namespace Parley

namespace Actor

variable {a : Answers} {s t : Actor} {i : SessionInput} {waiting : List SessionInput}
  {out : List ClientEvent}

/-- The session with these inputs in its backlog, and with these events in front of those that its
link holds. -/
def beside (waiting : List SessionInput) (out : List ClientEvent) (s : Actor) : Actor :=
  { s with backlog := waiting, link := { s.link with queue := out ++ s.link.queue } }

/-! ## Operations -/

theorem beside_send (e : ClientEvent) :
    (s.beside waiting out).send e = (s.send e).beside waiting out := by
  have pushed : (s.beside waiting out).link.push e =
      { s.link.push e with queue := out ++ (s.link.push e).queue } := by
    by_cases reachable : s.link.isOpen = true
    · rw [Link.push_of_isOpen reachable, Link.push_of_isOpen (by exact reachable)]
      simp [beside]
    · rw [Link.push_of_not_isOpen reachable, Link.push_of_not_isOpen (by exact reachable)]
      rfl
  unfold send
  rw [pushed]
  rfl

theorem beside_acquireEngine (a : Answers) (s : Actor) :
    (s.beside waiting out).acquireEngine a =
      ((s.acquireEngine a).1, (s.acquireEngine a).2.beside waiting out) := by
  cases granted : s.grantsEngine a with
  | true =>
    rw [acquireEngine_of_granted granted]
    exact acquireEngine_of_granted granted
  | false =>
    rw [acquireEngine_of_refused granted]
    exact acquireEngine_of_refused granted

theorem beside_startStep (kind : SdpKind) (s : Actor) :
    (s.beside waiting out).startStep kind = (s.startStep kind).beside waiting out := by
  cases engine : s.engine with
  | none => simp [startStep, beside, engine]
  | some e => simp [startStep, beside, note, engine]

theorem beside_enterRoom (a : Answers) (s : Actor) :
    (s.beside waiting out).enterRoom a = (s.enterRoom a).beside waiting out := by
  unfold enterRoom
  dsimp only
  by_cases granted : a.grants s.record .acquireMedia = true
  · rw [if_pos granted, if_pos (by exact granted)]
    exact congrArg (fun t : Actor => { t with joinRequested := true })
      (beside_send (s := { s.note .acquireMedia with
        tracks := (List.range (a.trackCount s.record)).map (s.trackTotal + ·)
        trackTotal := s.trackTotal + a.trackCount s.record }) (.join s.room))
  · rw [if_neg granted, if_neg (by exact granted)]
    rfl

theorem beside_consumeStaleReply (s : Actor) :
    (s.beside waiting out).consumeStaleReply =
      (s.consumeStaleReply.1, s.consumeStaleReply.2.beside waiting out) := by
  unfold consumeStaleReply
  by_cases fresh : s.staleReplies = 0
  · rw [if_pos fresh]
    exact if_pos fresh
  · rw [if_neg fresh]
    exact if_neg fresh

/-! ## Inputs whose turn it is -/

theorem beside_onJoined (a : Answers) (p : PeerId) (s : Actor) :
    (s.beside waiting out).onJoined a p = (s.onJoined a p).beside waiting out := by
  unfold onJoined
  rw [beside_consumeStaleReply]
  obtain ⟨stale, s⟩ := s.consumeStaleReply
  have acquired (s : Actor) : (s.beside waiting out).acquireEngine a =
      ((s.acquireEngine a).1, (s.acquireEngine a).2.beside waiting out) := beside_acquireEngine a s
  have acquired := acquired { s with joinRequested := false, peer := some p }
  dsimp only
  rw [apply_ite (beside waiting out), apply_ite (beside waiting out)]
  refine if_congr Iff.rfl rfl (if_congr Iff.rfl rfl ?_)
  exact congrArg (fun r : Bool × Actor => { r.2 with state := .joined }) acquired

theorem beside_offerTo (p : PeerId) (s : Actor) :
    (s.beside waiting out).offerTo p = (s.offerTo p).beside waiting out :=
  beside_startStep .offer { s with counterpart := some p, state := .connected }

theorem beside_onOtherJoin (a : Answers) (p : PeerId) (s : Actor) :
    (s.beside waiting out).onOtherJoin a p = (s.onOtherJoin a p).beside waiting out := by
  unfold onOtherJoin
  rw [beside_acquireEngine, apply_ite (beside waiting out), apply_ite (beside waiting out),
    apply_ite (beside waiting out)]
  refine if_congr Iff.rfl rfl (if_congr Iff.rfl rfl (if_congr Iff.rfl (beside_offerTo p s) ?_))
  obtain ⟨granted, t⟩ := s.acquireEngine a
  cases granted with
  | true => exact beside_offerTo p t
  | false => rfl

theorem beside_onMessage (a : Answers) (sender : PeerId) (data : Json) (s : Actor) :
    (s.beside waiting out).onMessage a sender data =
      (s.onMessage a sender data).beside waiting out := by
  unfold onMessage
  cases Message.parse data with
  | error _ => rfl
  | ok message =>
    dsimp only
    rw [apply_ite (beside waiting out)]
    refine if_congr Iff.rfl rfl ?_
    have engine' : (s.beside waiting out).engine = s.engine := rfl
    cases engine : s.engine with
    | none => rw [engine', engine]
    | some e =>
      rw [engine', engine]
      cases message with
      | offer sdp =>
        dsimp only
        rw [apply_ite (beside waiting out)]
        refine if_congr Iff.rfl ?_ rfl
        exact beside_startStep .answer { s.note (.setRemote e ⟨.offer, sdp⟩) with
          counterpart := some sender, remoteDescription := some ⟨.offer, sdp⟩ }
      | answer sdp =>
        dsimp only
        rw [apply_ite (beside waiting out)]
        rfl
      | candidate c => rfl

theorem beside_onEngine (g : Nat) (event : EngineEvent) (s : Actor) :
    (s.beside waiting out).onEngine g event = (s.onEngine g event).beside waiting out := by
  unfold onEngine
  rw [apply_ite (beside waiting out)]
  refine if_congr Iff.rfl rfl ?_
  cases event with
  | localCandidate c => exact beside_send _
  | remoteTrack t => rfl

theorem beside_rejoin (a : Answers) (s : Actor) :
    (s.beside waiting out).rejoin a = (s.rejoin a).beside waiting out := by
  unfold rejoin
  rw [beside_enterRoom, apply_ite (beside waiting out), apply_ite (beside waiting out)]
  rfl

/-- A session handles an input that does not preempt as it would beside other inputs and with other
events on its link. -/
theorem beside_dispatch (a : Answers) (later : i.preempts = false) (s : Actor) :
    (s.beside waiting out).dispatch a i = (s.dispatch a i).beside waiting out := by
  cases i with
  | server event =>
    show (s.beside waiting out).onServer a event = (s.onServer a event).beside waiting out
    unfold onServer
    rw [apply_ite (beside waiting out)]
    refine if_congr Iff.rfl rfl ?_
    cases event with
    | joined _ p => exact beside_onJoined a p s
    | otherJoin _ p => exact beside_onOtherJoin a p s
    | full _ _ | bye _ _ => cases later
    | leaved _ _ => rfl
    | message _ sender data => exact beside_onMessage a sender data s
  | engine g event => exact beside_onEngine g event s
  | rejoin => exact beside_rejoin a s
  | leave | exit | linkLost => cases later

/-! ## Completions -/

theorem beside_applyLocal (a : Answers) (d : Description) (s : Actor) :
    (s.beside waiting out).applyLocal a d = (s.applyLocal a d).beside waiting out := by
  unfold applyLocal
  have engine' : (s.beside waiting out).engine = s.engine := rfl
  cases engine : s.engine with
  | none => rw [engine', engine]
  | some e =>
    rw [engine', engine]
    dsimp only
    rw [apply_ite (beside waiting out)]
    refine if_congr Iff.rfl ?_ rfl
    exact beside_send (s := { s.note (.setLocal e d) with localDescription := some d }) _

theorem beside_applied (a : Answers) (c : Completion) (s : Actor) :
    (s.beside waiting out).applied a c = (s.applied a c).beside waiting out := by
  unfold applied
  cases c.result with
  | none => rfl
  | some d => exact beside_applyLocal a d { s with pending := none }

/-! ## Inputs that are passed over -/

/-- A view of sessions in which only inputs of a kind wait. Sessions of which `P` holds pass over all
others when their turn comes, and do in the view what they do. -/
structure Filters (a : Answers) (P : Actor → Prop) (kept : SessionInput → Bool)
    (view : Actor → Actor) : Prop where
  pending : ∀ s, (view s).pending = s.pending
  waits : ∀ s rest, view { s with backlog := rest } = { view s with backlog := rest.filter kept }
  wait : ∀ {s} rest, P s → P { s with backlog := rest }
  next : ∀ {s} i, P s → P (s.dispatch a i)
  alike : ∀ {s} i, P s → kept i = true → (view s).dispatch a i = view (s.dispatch a i)
  passed : ∀ {s} i, P s → kept i = false → s.dispatch a i = s

namespace Filters

variable {P : Actor → Prop} {kept : SessionInput → Bool} {view : Actor → Actor}

theorem backlog (h : Filters a P kept view) (s : Actor) :
    (view s).backlog = s.backlog.filter kept :=
  congrArg (·.backlog) (h.waits s s.backlog)

/-- Both backlogs are handled to the same effect, what is passed over in the one being missing in the
other. -/
theorem drainUpTo (h : Filters a P kept view) (n m : Nat) (s : Actor) (ok : P s)
    (enough : s.backlog.length ≤ n) (enough' : (view s).backlog.length ≤ m) :
    drainUpTo a m (view s) = view (drainUpTo a n s) := by
  induction n generalizing s m with
  | zero =>
    have empty : s.backlog = [] := List.eq_nil_of_length_eq_zero (Nat.le_zero.mp enough)
    exact drainUpTo_of_empty a m (by rw [h.backlog, empty, List.filter_nil])
  | succ n ih =>
    by_cases busy : s.pending.isSome = true
    · rw [drainUpTo_of_busy a _ busy]
      exact drainUpTo_of_busy a m (h.pending s ▸ busy)
    · cases waits : s.backlog with
      | nil =>
        rw [drainUpTo_of_empty a _ waits]
        exact drainUpTo_of_empty a m (by rw [h.backlog, waits, List.filter_nil])
      | cons i rest =>
        have popped : P { s with backlog := rest } := h.wait rest ok
        have waits' := h.backlog s
        rw [drainUpTo_of_free a n busy waits]
        rw [waits] at waits'
        rw [waits, List.length_cons] at enough
        cases kind : kept i with
        | false =>
          -- The input is passed over here, and does not wait there.
          have missing : (i :: rest).filter kept = rest.filter kept :=
            List.filter_cons_of_neg (by simp [kind])
          have same : view s = view { s with backlog := rest } := by
            rw [h.waits s rest, ← missing, ← waits']
          rw [h.passed i popped kind, same]
          rw [same] at enough'
          exact ih m _ popped (Nat.le_of_succ_le_succ enough) enough'
        | true =>
          rw [List.filter_cons_of_pos kind] at waits'
          rw [waits', List.length_cons] at enough'
          obtain ⟨m, rfl⟩ : ∃ k, m = k + 1 := ⟨m - 1, by omega⟩
          rw [drainUpTo_of_free a m (h.pending s ▸ busy) waits', ← h.waits s rest,
            h.alike i popped kind]
          refine ih m _ (h.next i popped) ?_ ?_
          · rcases (dispatch_handled a { s with backlog := rest } i).backlog with kept | emptied
            · rw [kept]
              exact Nat.le_of_succ_le_succ enough
            · simp [emptied]
          · rw [h.backlog]
            rcases (dispatch_handled a { s with backlog := rest } i).backlog with kept | emptied
            · rw [kept]
              exact Nat.le_of_succ_le_succ enough'
            · simp [emptied]

theorem drain (h : Filters a P kept view) (ok : P s) : (view s).drain a = view (s.drain a) :=
  h.drainUpTo _ _ s ok (Nat.le_refl _) (Nat.le_refl _)

theorem drained (h : Filters a P kept view) (ok : P s) : P (s.drain a) :=
  drainUpTo_induction (P := P) (fun _ i rest ok _ _ => h.next i (h.wait rest ok)) _ s ok

/-- An input of the kind has the same effect in the view. -/
theorem handleInput (h : Filters a P kept view) (ok : P s) (kind : kept i = true) :
    (view s).handleInput a i = view (s.handleInput a i) := by
  have joined : view { s with backlog := s.backlog ++ [i] } =
      { view s with backlog := (view s).backlog ++ [i] } := by
    rw [h.waits s (s.backlog ++ [i]), List.filter_append, List.filter_cons_of_pos kind,
      List.filter_nil, h.backlog]
  unfold Actor.handleInput
  rw [h.alike i ok kind, h.drain (h.next i ok), apply_ite view, joined]
  exact if_congr (by rw [h.pending]) rfl rfl

/-- Any other input does no more in the view than to let the backlog go on. -/
theorem handleInput_other (h : Filters a P kept view) (ok : P s) (other : kept i = false) :
    view (s.handleInput a i) =
      if s.pending.isSome && !i.preempts then view s else (view s).drain a := by
  have missing : [i].filter kept = [] := List.filter_cons_of_neg (by simp [other])
  have waiting : view { s with backlog := s.backlog ++ [i] } = view s := by
    rw [h.waits s (s.backlog ++ [i]), List.filter_append, missing, List.append_nil, ← h.backlog]
  unfold Actor.handleInput
  rw [h.passed i ok other, h.drain ok, apply_ite view, waiting]

/-- Any other input has no effect in the view, be it that it waits first. -/
theorem handleInput_still (h : Filters a P kept view) (ok : P s)
    (settled : s.backlog ≠ [] → s.pending ≠ none) (other : kept i = false) :
    view (s.handleInput a i) = view s := by
  have still : s.drain a = s := by
    cases free : s.pending with
    | some _ => exact drainUpTo_of_busy a _ (by rw [free]; rfl)
    | none => exact drain_of_empty a (by_contra fun waits => settled waits free)
  rw [h.handleInput_other ok other, h.drain ok, still, ite_self]

/-- What an input does in the view depends on nothing that the view leaves out. -/
theorem handleInput_congr (h : Filters a P kept view) (ok : P s) (ok' : P t)
    (same : view s = view t) (i : SessionInput) :
    view (s.handleInput a i) = view (t.handleInput a i) := by
  cases kind : kept i with
  | true => rw [← h.handleInput ok kind, ← h.handleInput ok' kind, same]
  | false =>
    have pending : s.pending = t.pending := by rw [← h.pending s, same, h.pending t]
    rw [h.handleInput_other ok kind, h.handleInput_other ok' kind, pending, same]

/-- A completion has the same effect in the view, if the description that was created has. -/
theorem complete (h : Filters a P kept view) {c : Completion}
    (generation : (view s).generation = s.generation) (ok : P (s.applied a c))
    (applied : (view s).applied a c = view (s.applied a c)) :
    (view s).complete a c = view (s.complete a c) := by
  by_cases current : c.generation = s.generation
  · rw [complete_of_current current, complete_of_current (current.trans generation.symm), applied]
    exact h.drain ok
  · rw [complete_of_old current]
    exact complete_of_old fun same => current (same.trans generation)

end Filters

end Actor

end Parley
