import Mathlib.Data.List.Induction
import Parley.Proofs.Session.Sound

/-!
# The life of an engine

A session acquires an engine, works with it, and closes it. `Orderly` says of a record that this is
how each engine in it is treated, one engine after the other: what is asked of an engine is asked
between its acquisition and its close. The record of a session is orderly at any time, with the
engine that the session holds as the one that is not closed yet (`Reachable.orderly`), and
`Reachable.engine_lifecycle` reads off the record what that means.

Which acquisitions were granted is told by the answers, so nothing here depends on what the session
itself believes to hold.
-/

namespace Parley

/-! ## Records -/

/-- What a request means for an engine. -/
inductive Errand where
  /-- It asks for a new engine. -/
  | acquire
  /-- It asks something of an engine. -/
  | use (engine : EngineId)
  | close (engine : EngineId)
  /-- It has nothing to do with engines. -/
  | other
  deriving DecidableEq

/-- What the request means for an engine. -/
def Request.errand : Request → Errand
  | .acquireEngine _ => .acquire
  | .addTrack e _ | .create e _ | .setLocal e _ | .setRemote e _ | .addCandidate e _ => .use e
  | .closeEngine e => .close e
  | .send _ | .closeLink | .acquireMedia | .releaseMedia | .remoteTrack _ => .other

/-- How many engines are acquired by requests that come after others. -/
def Answers.acquiredAfter (a : Answers) (before : List Request) : List Request → Nat
  | [] => 0
  | r :: rest =>
    (if r.errand = .acquire ∧ a.grants before r = true then 1 else 0) +
      a.acquiredAfter (before ++ [r]) rest

/-- How many engines are acquired in the course of a record: they are numbered in this order, from
zero on. -/
def Answers.acquired (a : Answers) (record : List Request) : Nat := a.acquiredAfter [] record

/-- How often an engine is closed in the course of a record. -/
def closings (e : EngineId) (record : List Request) : Nat :=
  record.countP fun r => r.errand = .close e

/-- An engine was acquired and not closed. -/
def Unclosed (a : Answers) (record : List Request) (e : Nat) : Prop :=
  e < a.acquired record ∧ closings e record = 0

/-- So many engines were acquired one after the other, each was closed before the next, and what was
asked of an engine was asked while it was the one that is not closed. -/
inductive Orderly (a : Answers) : List Request → Nat → Option EngineId → Prop
  | nil : Orderly a [] 0 none
  | acquired {l : List Request} {n : Nat} {r : Request} (before : Orderly a l n none)
      (errand : r.errand = .acquire) (granted : a.grants l r = true) :
      Orderly a (l ++ [r]) (n + 1) (some n)
  | refused {l : List Request} {n : Nat} {r : Request} (before : Orderly a l n none)
      (errand : r.errand = .acquire) (refused : a.grants l r = false) : Orderly a (l ++ [r]) n none
  | used {l : List Request} {n : Nat} {e : EngineId} {r : Request} (before : Orderly a l n (some e))
      (errand : r.errand = .use e) : Orderly a (l ++ [r]) n (some e)
  | closed {l : List Request} {n : Nat} {e : EngineId} {r : Request}
      (before : Orderly a l n (some e)) (errand : r.errand = .close e) : Orderly a (l ++ [r]) n none
  | other {l : List Request} {n : Nat} {held : Option EngineId} {r : Request}
      (before : Orderly a l n held) (errand : r.errand = .other) : Orderly a (l ++ [r]) n held

variable {a : Answers} {l l' rs : List Request} {r : Request} {n : Nat} {held : Option EngineId}
  {e : Nat}

theorem Answers.acquiredAfter_append (a : Answers) (before l l' : List Request) :
    a.acquiredAfter before (l ++ l') =
      a.acquiredAfter before l + a.acquiredAfter (before ++ l) l' := by
  induction l generalizing before with
  | nil => simp [acquiredAfter]
  | cons r rest ih =>
    simp only [List.cons_append, acquiredAfter]
    rw [ih, List.append_assoc, List.singleton_append]
    omega

theorem Answers.acquired_snoc (a : Answers) (l : List Request) (r : Request) :
    a.acquired (l ++ [r]) =
      a.acquired l + if r.errand = .acquire ∧ a.grants l r = true then 1 else 0 := by
  simp [acquired, acquiredAfter_append, acquiredAfter]

theorem closings_snoc (e : Nat) (l : List Request) (r : Request) :
    closings e (l ++ [r]) = closings e l + if r.errand = .close e then 1 else 0 := by
  simp [closings, List.countP_append, List.countP_cons]

namespace Orderly

/-- The engines of an orderly record are those that were granted. -/
theorem acquired_eq (h : Orderly a l n held) : a.acquired l = n := by
  induction h with
  | nil => rfl
  | acquired _ errand granted ih => simp [Answers.acquired_snoc, ih, errand, granted]
  | refused _ errand refused ih => simp [Answers.acquired_snoc, ih, errand, refused]
  | used _ errand ih | closed _ errand ih | other _ errand ih =>
    simp [Answers.acquired_snoc, ih, errand]

/-- The engine that is not closed is the latest. -/
theorem held_latest (h : Orderly a l n held) : ∀ e : Nat, held = some e → e + 1 = n := by
  induction h with
  | acquired => rintro e ⟨⟩; rfl
  | used _ _ ih | other _ _ ih => exact ih
  | nil | refused | closed => rintro e ⟨⟩

/-- Every engine that was acquired is closed once, but for the one that is not closed yet. -/
theorem closings_eq (h : Orderly a l n held) (e : Nat) :
    closings e l = if e < n ∧ held ≠ some e then 1 else 0 := by
  induction h with
  | nil => simp [closings]
  | @acquired l n r before errand _ ih =>
    rw [closings_snoc, errand, ih]
    by_cases latest : n = e
    · simp [latest]
    · have : e < n + 1 ↔ e < n := by omega
      simp [latest, this]
  | refused _ errand _ ih | used _ errand ih | other _ errand ih =>
    rw [closings_snoc, errand, ih]
    simp
  | @closed l n e' r before errand ih =>
    rw [closings_snoc, errand, ih]
    have latest := before.held_latest e' rfl
    by_cases same : e' = e
    · subst same
      have lt : e' < n := latest ▸ Nat.lt_succ_self e'
      simp [lt]
    · simp [same]

theorem unclosed_iff (h : Orderly a l n held) : Unclosed a l e ↔ held = some e := by
  unfold Unclosed
  rw [h.acquired_eq, h.closings_eq]
  constructor
  · rintro ⟨lt, open_⟩
    by_contra other
    simp [lt, other] at open_
  · intro same
    have latest := h.held_latest e same
    exact ⟨by omega, by simp [same]⟩

theorem dropLast (h : Orderly a (l ++ [r]) n held) : ∃ n' held', Orderly a l n' held' := by
  generalize whole : l ++ [r] = record at h
  cases h with
  | nil => simp at whole
  | acquired before | refused before | used before | closed before | other before =>
    obtain ⟨rfl, -⟩ := List.append_inj' whole rfl
    exact ⟨_, _, before⟩

/-- A record was orderly all the time. -/
theorem of_prefix (h : Orderly a l n held) (before : l' <+: l) :
    ∃ n' held', Orderly a l' n' held' := by
  obtain ⟨rest, rfl⟩ := before
  induction rest using List.reverseRecOn generalizing n held with
  | nil => exact ⟨n, held, by simpa using h⟩
  | append_singleton rest r ih =>
    rw [← List.append_assoc] at h
    obtain ⟨n', held', shorter⟩ := h.dropLast
    exact ih shorter

/-- What is used is not closed. -/
theorem unclosed_of_use (h : Orderly a (l ++ [r]) n held) (errand : r.errand = .use e) :
    Unclosed a l e := by
  generalize whole : l ++ [r] = record at h
  cases h with
  | nil => simp at whole
  | acquired _ errand' | refused _ errand' | closed _ errand' | other _ errand' =>
    obtain ⟨-, last⟩ := List.append_inj' whole rfl
    obtain rfl : r = _ := by simpa using last
    rw [errand] at errand'
    cases errand'
  | used before errand' =>
    obtain ⟨rfl, last⟩ := List.append_inj' whole rfl
    obtain rfl : r = _ := by simpa using last
    rw [errand] at errand'
    cases errand'
    exact before.unclosed_iff.mpr rfl

/-- Behind its close nothing is asked of an engine. -/
theorem unused_after_close (h : Orderly a (l ++ r :: rs) n held) (errand : r.errand = .close e) :
    ∀ r' ∈ rs, r'.errand ≠ .use e := by
  intro r' mem use
  obtain ⟨before, after, rfl⟩ := List.append_of_mem mem
  have split : l ++ r :: (before ++ r' :: after) = (l ++ r :: before) ++ [r'] ++ after := by simp
  rw [split] at h
  obtain ⟨n', held', orderly⟩ := h.of_prefix (List.prefix_append _ after)
  have unclosed := (orderly.unclosed_of_use use).2
  simp [closings, errand] at unclosed

/-! What is asked of an orderly record's engine keeps it orderly, and so does what has nothing to do
with engines. -/

theorem uses (h : Orderly a l n (some e)) (rs : List Request) (on : ∀ r ∈ rs, r.errand = .use e) :
    Orderly a (l ++ rs) n (some e) := by
  induction rs generalizing l with
  | nil => simpa using h
  | cons r rest ih =>
    rw [List.append_cons]
    exact ih (h.used (on r List.mem_cons_self)) fun r' mem => on r' (List.mem_cons_of_mem _ mem)

theorem others (h : Orderly a l n held) (rs : List Request) (on : ∀ r ∈ rs, r.errand = .other) :
    Orderly a (l ++ rs) n held := by
  induction rs generalizing l with
  | nil => simpa using h
  | cons r rest ih =>
    rw [List.append_cons]
    exact ih (h.other (on r List.mem_cons_self)) fun r' mem => on r' (List.mem_cons_of_mem _ mem)

/-- The engine is closed, if there is one. -/
theorem close (h : Orderly a l n held) : Orderly a (l ++ held.toList.map .closeEngine) n none := by
  cases held with
  | none => simpa using h
  | some e => exact h.closed rfl

end Orderly

/-! ## Sessions -/

namespace Actor

variable {s t : Actor} {i : SessionInput}

/-- The record of the session is orderly, with the engine that it holds. -/
def Orderly (a : Answers) (s : Actor) : Prop := Parley.Orderly a s.record s.engines.length s.engine

/-- An engine that is granted is acquired, and the tracks are attached to it. -/
theorem Orderly.equipped (h : s.Orderly a) (free : s.engine = none)
    (granted : s.grantsEngine a = true) : s.equipped.Orderly a := by
  unfold Orderly at h ⊢
  rw [free] at h
  have acquired := h.acquired (r := .acquireEngine (s.generation + 1)) rfl granted
  have attached := acquired.uses (s.tracks.map (.addTrack s.engines.length))
    (by simp [Request.errand])
  simpa [Actor.equipped] using attached

theorem Orderly.denied (h : s.Orderly a) (free : s.engine = none)
    (refused : s.grantsEngine a = false) : s.denied.Orderly a := by
  unfold Orderly at h ⊢
  rw [free] at h
  have denied := h.refused (r := .acquireEngine (s.generation + 1)) rfl refused
  simpa [Actor.denied, free] using denied

/-- The session works with its engine. -/
theorem Orderly.use (h : s.Orderly a) (engine : s.engine = some e) (held : t.engine = s.engine)
    (engines : t.engines = s.engines) (record : t.record = s.record ++ rs)
    (on : ∀ r ∈ rs, r.errand = .use e) : t.Orderly a := by
  unfold Orderly at h ⊢
  rw [record, engines, held, engine]
  rw [engine] at h
  exact h.uses rs on

theorem Handled.orderly (sound : s.Sound) (h : s.Orderly a) (turn : Handled a s i t) :
    t.Orderly a := by
  cases turn with
  | ignored | staleReply => exact h
  | @admitted p t fresh waiting asked engine answer =>
    have free := sound.resting (.inl waiting)
    have alike : { s with joinRequested := false, peer := some p }.Orderly a := h
    rcases engine with rfl | rfl
    · have granted : s.grantsEngine a = true := by
        simpa [Actor.equipped] using answer
      exact alike.equipped free granted
    · have refused : s.grantsEngine a = false := by
        simpa [Actor.denied] using answer
      exact alike.denied free refused
  | @offered p e _ _ _ engine answer =>
    cases engine with
    | held engine => exact h.use engine rfl rfl rfl (by simp [Request.errand])
    | acquired free =>
      have equipped := h.equipped free (answer free)
      exact equipped.use rfl rfl rfl rfl (by simp [Request.errand])
  | unequipped _ free refused => exact h.denied free refused
  | unbound => exact h.close
  | dismissed | lost =>
    have closed : Parley.Orderly a _ _ _ := h.close
    have rest := closed.others [.releaseMedia, .closeLink] (by simp [Request.errand])
    exact rest
  | tookOffer _ _ engine | tookAnswer _ _ engine | refused _ _ engine
  | remoteCandidate _ _ engine =>
    exact h.use engine rfl rfl rfl (by simp [Request.errand])
  | localCandidate | remoteTrack | unprovided => exact Parley.Orderly.other h rfl
  | rejoined => exact Parley.Orderly.others h _ (by simp [Request.errand])
  | @left exit running =>
    have told : Parley.Orderly a _ _ _ := h.other (r := .send (.leave s.room)) rfl
    have closed := told.close
    have rest := closed.others (.releaseMedia :: if exit then [.closeLink] else [])
      (by cases exit <;> simp [Request.errand])
    show Parley.Orderly a (s.departed exit).record s.engines.length none
    simpa [departed] using rest

theorem Published.orderly {d : Description} (h : s.Orderly a) (published : Published d s t) :
    t.Orderly a := by
  cases published with
  | nowhere => exact h
  | refused engine => exact h.use engine rfl rfl rfl (by simp [Request.errand])
  | @sent e engine =>
    have set : (s.note (.setLocal e d)).Orderly a :=
      h.use engine rfl rfl rfl (by simp [Request.errand])
    have sent : Parley.Orderly a _ _ _ := set.other
      (r := .send (.message s.room (Message.ofDescription d).toPayload)) rfl
    simpa [Orderly, published, note] using sent

end Actor

/-! ## Running sessions -/

namespace Runner

variable {room : RoomId} {p : Runner}

/-- The record of a session is orderly at any time. -/
theorem Reachable.orderly (h : Reachable a room p) : p.actor.Orderly a := by
  refine h.actor_induction (P := Actor.Orderly a) (fun link => ?_) (fun s _ _ _ _ _ h => h)
    (fun s i t sound h turn => turn.orderly sound h) fun s d t _ h published => published.orderly h
  have new : (Actor.new room link).Orderly a := Parley.Orderly.nil
  rcases Actor.enterRoom_cases a (.new room link) with entered | entered
  · rw [entered]
    exact Parley.Orderly.other new rfl
  · rw [entered]
    exact Parley.Orderly.others new _ (by simp [Request.errand])

/-- Whatever happens to a session and whatever its collaborators refuse: of the engines it has
acquired at most one is not closed, at any time; each is closed once at most, and exactly once as
soon as the session is out of the negotiation; and behind its close nothing is asked of an
engine. -/
theorem Reachable.engine_lifecycle (h : Reachable a room p) :
    (∀ l, l <+: p.actor.record →
      ∀ e e', Unclosed a l e → Unclosed a l e' → e = e') ∧
    (∀ e, closings e p.actor.record ≤ 1) ∧
    (p.actor.state = .init ∨ p.actor.state = .unbound ∨ p.actor.state = .leaved →
      ∀ e < a.acquired p.actor.record, closings e p.actor.record = 1) ∧
    (∀ e before r after, p.actor.record = before ++ r :: after → r.errand = .close e →
      ∀ r' ∈ after, r'.errand ≠ .use e) := by
  have orderly : Parley.Orderly a _ _ _ := h.orderly
  refine ⟨fun l before e e' unclosed unclosed' => ?_, fun e => ?_, fun resting e lt => ?_, ?_⟩
  · obtain ⟨n, held, then_⟩ := orderly.of_prefix before
    have held := then_.unclosed_iff.mp unclosed
    rw [then_.unclosed_iff.mp unclosed'] at held
    exact (Option.some.inj held).symm
  · rw [orderly.closings_eq]
    split <;> omega
  · have free := h.sound.actor.resting resting
    rw [orderly.acquired_eq] at lt
    rw [orderly.closings_eq, if_pos ⟨lt, by simp [free]⟩]
  · intro e before r after split errand
    rw [split] at orderly
    exact orderly.unused_after_close errand

/-- A session makes an offer to a newcomer that leaves again before the offer is created, then one
to the next newcomer, and leaves. -/
def changeover : List Move :=
  let r : RoomId := ⟨"r"⟩
  [.deliver (.joined r ⟨"me"⟩), .act .takeInput, .deliver (.otherJoin r ⟨"a"⟩), .act .takeInput,
    .deliver (.bye r ⟨"a"⟩), .act .takeInput, .act (.finishCreation 0 (some ⟨.offer, "v=0"⟩)),
    .act .takeResult, .deliver (.otherJoin r ⟨"b"⟩), .act .takeInput,
    .act (.finishCreation 0 (some ⟨.offer, "v=1"⟩)), .act .takeResult, .act .leave, .act .takeInput]

theorem engine_lifecycle_changeover :
    let p := (Runner.start .obliging ⟨"r"⟩ .fresh).run .obliging changeover
    Reachable .obliging ⟨"r"⟩ p ∧ p.actor.state = .init ∧
      Answers.obliging.acquired p.actor.record = 2 ∧ ∀ e < 2, closings e p.actor.record = 1 := by
  intro p
  have reachable : Reachable .obliging ⟨"r"⟩ p := (Reachable.start .fresh).run changeover
  exact ⟨reachable, rfl, rfl, (Reachable.engine_lifecycle reachable).2.2.1 (.inl rfl)⟩

end Runner

end Parley
