import Parley.Proofs.History
import Parley.Proofs.Session.Setbacks

/-!
# Offers on one engine

A session makes an offer to a newcomer by having its engine create one (`Deed.Attempts`). The
attempt has failed if the next completion that the session handles comes to nothing (`Failed`). As
long as every attempt on an engine has failed, nothing is set on it (`Attempted`), and a newcomer is
made an offer whoever it is.

Once an attempt has not failed, newcomers are passed over, but for one: if the counterpart itself is
announced again, the session makes it another offer on the same engine, whatever became of the one
before (`Deed.Restrained.repeated`).
-/

namespace Parley

variable {a : Answers}

namespace Deed

/-- The deed begins an offer on an engine. -/
def Attempts (a : Answers) (d : Deed) (e : EngineId) : Prop := .create e .offer ∈ d.requests a

/-- A completion is handled. -/
def finishes : Deed → Bool
  | turn _ => false
  | finish _ _ => true

end Deed

/-- The first completion that was handled since came to nothing, and it was one of the engine. -/
def Failed (a : Answers) (e : EngineId) (since : List Deed) : Prop :=
  ∃ before d after, since = before ++ d :: after ∧ (∀ d' ∈ before, d'.finishes = false) ∧
    d.before.engine = some e ∧ d.Fruitless a

/-- All offers that were attempted on an engine have failed. -/
def AllFailed (a : Answers) (e : EngineId) (past : List Deed) : Prop :=
  ∀ before d since, past = before ++ d :: since → d.Attempts a e → Failed a e since

/-- What a session does about offers, after what it has done before. -/
structure Deed.Restrained (a : Answers) (past : List Deed) (d : Deed) : Prop where
  /-- One offer is begun at a time, for a peer that is announced. It is not the first on its engine
  that can succeed, only if the peer is the counterpart already. -/
  attempt : ∀ e, d.Attempts a e → ∃ x rs, d.Welcomes x ∧ d.before.pending = none ∧
    (d.after a).engine = some e ∧ (d.after a).counterpart = some x ∧
    (d.requests a = rs ++ [.create e .offer] ∧ ∀ e' kind, .create e' kind ∉ rs) ∧
    (AllFailed a e past ∨ d.before.engine = some e ∧ d.before.counterpart = some x)
  /-- While there is an attempt that has not failed, it is just the counterpart that is made another
  offer when it is announced. -/
  repeated : ∀ e x, d.Welcomes x → d.before.engine = some e → ¬ AllFailed a e past →
    (d.Attempts a e ↔ d.before.counterpart = some x)
  /-- The same holds while an offer is set, and nothing at all is done about others. -/
  described : ∀ e x offer, d.Welcomes x → d.before.engine = some e →
    d.before.localDescription = some offer →
      d.after a = if d.before.counterpart = some x then d.before.offering e x else d.before

/-! ## Attempts -/

namespace Actor

variable {s t : Actor} {i : SessionInput} {e : EngineId}

/-- An offer is begun for a newcomer only. -/
theorem Handled.attempts (turn : Handled a s i t)
    (mem : .create e .offer ∈ t.record.drop s.record.length) :
    ∃ x u, i = .server (.otherJoin s.room x) ∧ s.Provided e u ∧ t = u.offering e x := by
  cases turn with
  | offered _ _ engine =>
    cases engine with
    | held engine =>
      obtain rfl : e = _ := by simpa [offering] using mem
      exact ⟨_, _, rfl, .held engine, rfl⟩
    | acquired engine =>
      obtain rfl : e = _ := by simpa [offering, equipped] using mem
      exact ⟨_, _, rfl, .acquired engine, rfl⟩
  | admitted _ _ _ engine => rcases engine with rfl | rfl <;> simp [equipped, denied] at mem
  | @left exit => cases exit <;> simp [departed] at mem
  | unequipped | unbound | dismissed | lost => simp [denied, released, tornDown] at mem
  | tookOffer | tookAnswer | refused | remoteCandidate => simp [answering, answered, note] at mem
  | ignored | staleReply => simp at mem
  | localCandidate | remoteTrack | unprovided | rejoined =>
    simp [sendMessage, send, note, joining] at mem

theorem Concluded.attempts_nothing {c : Completion} (done : Concluded a s c t) :
    .create e .offer ∉ t.record.drop s.record.length := by
  cases done <;> simp [note, published]

/-- What is pending stays so as long as the session has an engine. -/
theorem Handled.busy (turn : Handled a s i t) (engine : t.engine = some e)
    (busy : s.pending ≠ none) : t.pending ≠ none := by
  cases turn with
  | admitted _ _ _ acquired => rcases acquired with rfl | rfl <;> exact busy
  | offered | tookOffer => exact Option.some_ne_none _
  | unbound | dismissed | lost | left => cases engine
  | _ => exact busy

/-- If nothing is set on the engine after a completion, it came to nothing. -/
theorem Concluded.undescribed {c : Completion} (done : Concluded a s c t)
    (engine : s.engine = some e) (unset : ¬ t.Described) :
    c.result = none ∨
      ∃ e d, Refuses a s.record (t.record.drop s.record.length) (.setLocal e d) := by
  cases done with
  | nothing result =>
    refine .inl (result.resolve_right fun none => ?_)
    rw [engine] at none
    cases none
  | @refused e d _ _ answer =>
    refine .inr ⟨e, d, [], [], ?_, by rwa [List.append_nil]⟩
    rw [note, List.drop_left]
    rfl
  | sent => exact absurd (.inl (Option.some_ne_none _)) unset

end Actor

namespace Deed

variable {d : Deed} {e : EngineId} {past : List Deed}

theorem attempts (h : d.Attempts a e) :
    ∃ x u, d.Welcomes x ∧ d.before.Provided e u ∧ d.after a = u.offering e x := by
  cases d with
  | turn t =>
    obtain ⟨x, u, joins, provided, after⟩ :=
      (Actor.dispatch_handled a t.session t.input).attempts h
    exact ⟨x, u, congrArg (fun i => Deed.turn ⟨t.session, i⟩) joins, provided, after⟩
  | finish s c => exact absurd h (Actor.applied_concluded a s c).attempts_nothing

theorem requests_of_attempt {x : PeerId} {u : Actor} (provided : d.before.Provided e u)
    (after : d.after a = u.offering e x) :
    ∃ rs, d.requests a = rs ++ [.create e .offer] ∧ ∀ e' kind, .create e' kind ∉ rs := by
  cases provided with
  | held =>
    refine ⟨[], requests_of_record ?_, by simp⟩
    rw [after]
    rfl
  | acquired =>
    refine ⟨.acquireEngine (d.before.generation + 1) ::
      d.before.tracks.map (.addTrack d.before.engines.length), requests_of_record ?_, by simp⟩
    rw [after]
    exact List.append_assoc _ _ _

end Deed

/-! ## What has become of them -/

theorem Failed.snoc {e : EngineId} {since : List Deed} (h : Failed a e since) (d : Deed) :
    Failed a e (since ++ [d]) := by
  obtain ⟨before, d', after, rfl, rest⟩ := h
  exact ⟨before, d', after ++ [d], by simp, rest⟩

/-- What holds of the attempts of a session: they were made on engines that it has acquired, and as
long as nothing is set on its engine, they have failed or the last one is pending. -/
structure Attempted (a : Answers) (past : List Deed) (s : Actor) : Prop where
  acquired : ∀ d ∈ past, ∀ e, d.Attempts a e → e < s.engines.length
  settled : ∀ e, s.engine = some e → ¬ s.Described →
    ∀ before d since, past = before ++ d :: since → d.Attempts a e →
      Failed a e since ∨ s.pending ≠ none ∧ ∀ d' ∈ since, d'.finishes = false

namespace Attempted

variable {past : List Deed} {s t : Actor} {d : Deed} {e : EngineId}

theorem start (a : Answers) (s : Actor) : Attempted a [] s where
  acquired d mem := absurd mem List.not_mem_nil
  settled e _ _ before d since split := by simp at split

theorem alike (h : Attempted a past s) (same : s.Alike t) : Attempted a past t := by
  obtain ⟨_, _, _, rfl⟩ := same
  exact ⟨h.acquired, h.settled⟩

/-- An engine that was not acquired yet has no attempts. -/
theorem allFailed_of_new (h : Attempted a past s) : AllFailed a s.engines.length past := by
  intro before d since split attempt
  have old := h.acquired d (by simp [split]) _ attempt
  exact absurd old (Nat.lt_irrefl _)

/-- If nothing is pending and nothing is set, all has failed. -/
theorem allFailed (h : Attempted a past s) (engine : s.engine = some e) (free : s.pending = none)
    (unset : ¬ s.Described) : AllFailed a e past := by
  intro before d since split attempt
  exact (h.settled e engine unset before d since split attempt).resolve_right fun busy =>
    busy.1 free

end Attempted

/-- What is done when it may be keeps account of the attempts. -/
theorem Deed.Timely.attempted {past : List Deed} {d : Deed} (timely : d.Timely)
    (h : Attempted a past d.before) : Attempted a (past ++ [d]) (d.after a) where
  acquired d' mem e attempt := by
    have grown := (d.onward a).engines.length_le
    rcases List.mem_append.mp mem with mem | new
    · exact Nat.lt_of_lt_of_le (h.acquired d' mem e attempt) grown
    · rw [List.mem_singleton.mp new] at attempt
      obtain ⟨x, u, -, provided, after⟩ := Deed.attempts attempt
      rw [after]
      cases provided with
      | held engine => exact timely.before.engine_lt engine
      | acquired => simp [Actor.offering, Actor.equipped]
  settled e engine unset before d' since split attempt := by
    rcases snoc_eq_split.mp split with ⟨rfl, rfl, rfl⟩ | ⟨since, rfl, rfl⟩
    · -- An attempt that is made now is pending.
      obtain ⟨x, u, -, -, after⟩ := Deed.attempts attempt
      refine .inr ⟨?_, fun _ mem => absurd mem List.not_mem_nil⟩
      rw [after]
      exact Option.some_ne_none _
    · have kept := Deed.keeps engine (h.acquired d' (by simp) e attempt)
      have unset' : ¬ d.before.Described := fun set => unset (kept.described set)
      rcases h.settled e kept.engine unset' before d' since rfl attempt with failed | ⟨busy, quiet⟩
      · exact .inl (failed.snoc d)
      · cases d with
        | turn t =>
          refine .inr ⟨(Actor.dispatch_handled a t.session t.input).busy engine busy, ?_⟩
          intro d'' mem
          rcases List.mem_append.mp mem with mem | new
          · exact quiet d'' mem
          · rw [List.mem_singleton.mp new]
            rfl
        | finish s c =>
          have failed := (Actor.applied_concluded a s c).undescribed kept.engine unset
          exact .inl ⟨since, _, [], rfl, quiet, kept.engine, s, c, rfl, failed⟩

namespace Deed

variable {d : Deed} {e : EngineId} {x : PeerId} {past : List Deed}

/-- While something is being negotiated, it is just the counterpart that is made an offer. -/
theorem Welcomes.after_of_described (h : d.Welcomes x) (timely : d.Timely)
    (engine : d.before.engine = some e) (described : d.before.Described) (a : Answers) :
    d.after a = if d.before.counterpart = some x then d.before.offering e x else d.before := by
  rw [h.after_of_engine timely engine a, described.hasNegotiated, Bool.and_true]
  obtain ⟨y, bound⟩ := Option.ne_none_iff_exists'.mp (timely.before.described described)
  by_cases same : y = x
  · simp [Actor.boundElsewhere, bound, same]
  · simp [Actor.boundElsewhere, bound, same]

theorem Welcomes.attempts_iff (h : d.Welcomes x) (timely : d.Timely)
    (engine : d.before.engine = some e) (described : d.before.Described) :
    d.Attempts a e ↔ d.before.counterpart = some x := by
  have after := h.after_of_described timely engine described a
  by_cases same : d.before.counterpart = some x
  · rw [if_pos same] at after
    have requests : d.requests a = [.create e .offer] := by
      apply requests_of_record
      rw [after]
      rfl
    simp [Attempts, requests, same]
  · rw [if_neg same] at after
    have requests : d.requests a = [] := by
      apply requests_of_record
      rw [after, List.append_nil]
    simp [Attempts, requests, same]

/-- What is done when it may be is restrained. -/
theorem Timely.restrained (timely : d.Timely) (h : Attempted a past d.before) :
    d.Restrained a past := by
  have begun {e : EngineId} {x : PeerId} (welcomes : d.Welcomes x)
      (engine : d.before.engine = some e) (some : ¬ AllFailed a e past) : d.before.Described := by
    by_contra unset
    exact some (h.allFailed engine (welcomes.free timely) unset)
  refine ⟨fun e attempt => ?_, fun e x welcomes engine some => ?_,
    fun e x offer welcomes engine set => ?_⟩
  · obtain ⟨x, u, welcomes, provided, after⟩ := attempts attempt
    obtain ⟨rs, requests, once⟩ := requests_of_attempt provided after
    have held : (d.after a).engine = Option.some e := by
      rw [after]
      cases provided with
      | held engine => exact engine
      | acquired => rfl
    refine ⟨x, rs, welcomes, welcomes.free timely, held, by rw [after]; rfl, ⟨requests, once⟩, ?_⟩
    cases provided with
    | acquired => exact .inl h.allFailed_of_new
    | held engine =>
      by_cases all : AllFailed a e past
      · exact .inl all
      · have described := begun welcomes engine all
        exact .inr ⟨engine, (welcomes.attempts_iff timely engine described).mp attempt⟩
  · exact welcomes.attempts_iff timely engine (begun welcomes engine some)
  · exact welcomes.after_of_described timely engine (.inl (by simp [set])) a

end Deed

/-! ## Running sessions -/

namespace Runner

/-- **Offers on one engine.** In every run, all offers are begun in deeds of the session, one at a
time. Another one is begun on the same engine only when all before have failed, or when the
counterpart is announced again; and in that case it is, even if an offer is set. -/
theorem offer_repeated_iff (a : Answers) (room : RoomId) (link : Link ClientEvent)
    (moves : List Move) :
    let p := start a room link
    Actor.Linked a p.actor (p.course a moves) (p.run a moves).actor ∧
    (∀ e, .create e .offer ∈ (p.run a moves).actor.record →
      ∃ d ∈ p.course a moves, d.Attempts a e) ∧
    ∀ past d future, p.course a moves = past ++ d :: future → d.Restrained a past := by
  intro p
  have sound : p.Sound := Sound.start a room link
  refine ⟨course_linked a p moves, fun e mem => ?_, fun past d future split => ?_⟩
  · rw [course_record] at mem
    rcases List.mem_append.mp mem with begun | done
    · rcases start_record a room link _ begun with other | other <;> cases other
    · exact List.mem_flatMap.mp done
  · obtain ⟨before, -⟩ := sound.course_induction (P := Attempted a) moves
      (fun _ _ _ same h => h.alike same) (fun _ _ timely h => timely.attempted h)
      (.start a p.actor)
    have timely := sound.course_timely a moves d (by simp [split])
    exact timely.restrained (before past d future split)

/-- Somebody is announced to the session. -/
def newcomerMoves : List Move := [.deliver (.otherJoin ⟨"r"⟩ ⟨"a"⟩), .act .takeInput]

/-- It was just let in, and begins an offer. -/
def welcoming : Deed :=
  .turn ⟨((start .obliging ⟨"r"⟩ .fresh).run .obliging admittedMoves).actor,
    .server (.otherJoin ⟨"r"⟩ ⟨"a"⟩)⟩

/-- It has announced its offer, and hears of its counterpart again. -/
def repeating : Deed :=
  .turn ⟨((start .obliging ⟨"r"⟩ .fresh).run .obliging announcedMoves).actor,
    .server (.otherJoin ⟨"r"⟩ ⟨"a"⟩)⟩

theorem course_created :
    (start .obliging ⟨"r"⟩ .fresh).course .obliging createdMoves =
      (start .obliging ⟨"r"⟩ .fresh).course .obliging admittedMoves ++ [welcoming] := by
  have moves : createdMoves = admittedMoves ++ (newcomerMoves ++
      [.act (.finishCreation 0 (some ⟨.offer, "v=0"⟩))]) := rfl
  rw [moves, course_append, course_append, newcomerMoves, course_heard rfl rfl rfl rfl rfl]
  rfl

theorem course_repeated :
    (start .obliging ⟨"r"⟩ .fresh).course .obliging (announcedMoves ++ newcomerMoves) =
      (start .obliging ⟨"r"⟩ .fresh).course .obliging announcedMoves ++ [repeating] := by
  rw [course_append, newcomerMoves, course_heard rfl rfl rfl rfl rfl]
  rfl

/-- The offer is set, and no attempt on the engine has failed. Yet the session begins another. -/
theorem repeated_announcement :
    let p := start .obliging ⟨"r"⟩ .fresh
    let past := p.course .obliging announcedMoves
    p.course .obliging (announcedMoves ++ newcomerMoves) = past ++ [repeating] ∧
      repeating.Welcomes ⟨"a"⟩ ∧ repeating.before.engine = some 0 ∧
      repeating.before.localDescription = some ⟨.offer, "v=0"⟩ ∧
      ¬ AllFailed .obliging 0 past ∧ repeating.requests .obliging = [.create 0 .offer] := by
  intro p past
  refine ⟨course_repeated, rfl, rfl, rfl, fun all => ?_, rfl⟩
  have split : past = p.course .obliging admittedMoves ++ welcoming :: [announcing] := by
    show p.course .obliging announcedMoves = _
    rw [course_announced, course_created, List.append_assoc]
    rfl
  have attempt : welcoming.Attempts .obliging 0 := List.mem_cons_self
  obtain ⟨before, d, after, only, -, -, s, c, finish, failed⟩ := all _ _ _ split attempt
  obtain rfl : d = announcing := by
    have mem : d ∈ [announcing] := by simp [only]
    exact List.mem_singleton.mp mem
  cases finish
  rcases failed with none | ⟨e, desc, _, _, _, refused⟩
  · cases none
  · cases refused

end Runner

end Parley
