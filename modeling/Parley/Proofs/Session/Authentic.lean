import Parley.Proofs.Session.Turns
import Parley.Proofs.Signal.Message

/-!
# Where the descriptions of a session come from

A description that a session has set on one of its engines was created by that engine: an offer
(`Offered`), or an answer to an offer that the engine had applied before (`Answered`). A creation
that finishes late does not get in the way, because it is told by its generation.

This rests on engines that create what they are asked for (`Runner.Act.Genuine`).
-/

namespace Parley

/-! ## Records -/

/-- The engine created the offer, and the session set it. -/
def Offered (record : List Request) (e : EngineId) (offer : String) : Prop :=
  List.Sublist [.create e .offer, .setLocal e ⟨.offer, offer⟩] record

/-- The engine applied the offer and created the answer to it, and the session set the answer. -/
def Answered (record : List Request) (e : EngineId) (offer answer : String) : Prop :=
  List.Sublist
    [.setRemote e ⟨.offer, offer⟩, .create e .answer, .setLocal e ⟨.answer, answer⟩] record

/-- The engine began to create a description, an answer only after it applied an offer. -/
inductive Begun (record : List Request) (e : EngineId) : SdpKind → Prop
  | offer (asked : .create e .offer ∈ record) : Begun record e .offer
  | answer {offer : String}
      (asked : List.Sublist [.setRemote e ⟨.offer, offer⟩, .create e .answer] record) :
      Begun record e .answer

/-- The engine created the description. -/
inductive Made (record : List Request) (e : EngineId) : Description → Prop
  | offer {offer : String} (offered : Offered record e offer) : Made record e ⟨.offer, offer⟩
  | answer {offer answer : String} (answered : Answered record e offer answer) :
      Made record e ⟨.answer, answer⟩

variable {record record' : List Request} {e : EngineId} {d : Description}

theorem Begun.mono {kind : SdpKind} (h : Begun record e kind) (grown : record <+: record') :
    Begun record' e kind := by
  cases h with
  | offer asked => exact .offer (grown.subset asked)
  | answer asked => exact .answer (asked.trans grown.sublist)

theorem Made.mono (h : Made record e d) (grown : record <+: record') : Made record' e d := by
  cases h with
  | offer offered => exact .offer (List.Sublist.trans offered grown.sublist)
  | answer answered => exact .answer (List.Sublist.trans answered grown.sublist)

/-- What was begun is made when it is set. -/
theorem Begun.made (h : Begun record e d.kind) : Made (record ++ [.setLocal e d]) e d := by
  obtain ⟨kind, sdp⟩ := d
  cases h with
  | offer asked =>
    exact .offer (List.Sublist.append (List.singleton_sublist.mpr asked) (List.Sublist.refl _))
  | answer asked => exact .answer (List.Sublist.append asked (List.Sublist.refl _))

/-! ## Sessions -/

namespace Actor

variable {a : Answers} {s t : Actor} {i : SessionInput}

/-- The creation was begun by an engine of the session. -/
def Began (s : Actor) (c : Creation) : Prop :=
  s.engines[c.engine]? = some c.generation ∧ Begun s.record c.engine c.kind

/-- The completion is that of a creation, and what was created is of the kind that was asked for. -/
def Reported (s : Actor) (c : Completion) : Prop :=
  (∃ e, s.engines[e]? = some c.generation ∧ Begun s.record e c.kind) ∧
    ∀ d, c.result = some d → d.kind = c.kind

/-- What a session creates and sets, its engines create. -/
structure Authentic (s : Actor) : Prop where
  begun : ∀ c ∈ s.creations, s.Began c
  made : ∀ e d, .setLocal e d ∈ s.record → Made s.record e d ∧ e < s.engines.length

theorem engines_mono (onward : s.Onward t) {g : Nat} (engine : s.engines[e]? = some g) :
    t.engines[e]? = some g := by
  obtain ⟨more, same⟩ := onward.engines
  obtain ⟨lt, -⟩ := List.getElem?_eq_some_iff.mp engine
  rw [← same, List.getElem?_append_left lt]
  exact engine

theorem Began.onward {c : Creation} (h : s.Began c) (onward : s.Onward t) : t.Began c :=
  ⟨engines_mono onward h.1, h.2.mono onward.record⟩

theorem Reported.onward {c : Completion} (h : s.Reported c) (onward : s.Onward t) :
    t.Reported c := by
  obtain ⟨⟨e, engine, begun⟩, genuine⟩ := h
  exact ⟨⟨e, engines_mono onward engine, begun.mono onward.record⟩, genuine⟩

/-- The current engine is the latest. -/
theorem Sound.engine_latest (h : s.Sound) {e' : EngineId} (engine : s.engine = some e)
    (held : e' < s.engines.length) : e' ≤ e := by
  obtain ⟨lt, same⟩ := List.getElem?_eq_some_iff.mp (h.current e engine)
  by_contra after
  have rising := List.pairwise_iff_getElem.mp h.rising e e' lt held (Nat.lt_of_not_le after)
  have past := h.past _ (List.getElem_mem held)
  omega

/-- The current engine is the one of the current generation. -/
theorem Sound.engine_eq (h : s.Sound) {e' : EngineId} (engine : s.engine = some e)
    (current : s.engines[e']? = some s.generation) : e' = e := by
  obtain ⟨lt, same⟩ := List.getElem?_eq_some_iff.mp (h.current e engine)
  obtain ⟨lt', same'⟩ := List.getElem?_eq_some_iff.mp current
  rcases Nat.lt_or_eq_of_le (h.engine_latest engine lt') with before | same
  · have rising := List.pairwise_iff_getElem.mp h.rising e' e lt' lt before
    omega
  · exact same

theorem Sound.engine_lt (h : s.Sound) (engine : s.engine = some e) : e < s.engines.length :=
  (List.getElem?_eq_some_iff.mp (h.current e engine)).1

namespace Authentic

theorem onward (h : s.Authentic) (onward : s.Onward t)
    (begun : ∀ c ∈ t.creations, c ∈ s.creations ∨ t.Began c)
    (made : ∀ e d, .setLocal e d ∈ t.record →
      .setLocal e d ∈ s.record ∨ Made t.record e d ∧ e < t.engines.length) : t.Authentic where
  begun c mem := (begun c mem).elim (fun old => (h.begun c old).onward onward) id
  made e d mem := by
    rcases made e d mem with old | new
    · obtain ⟨made, lt⟩ := h.made e d old
      exact ⟨made.mono onward.record, Nat.lt_of_lt_of_le lt onward.engines.length_le⟩
    · exact new

end Authentic

/-- A turn sets no description of the session itself. -/
theorem Handled.setLocal (turn : Handled a s i t) (mem : .setLocal e d ∈ t.record) :
    .setLocal e d ∈ s.record := by
  obtain ⟨new, record⟩ := turn.onward.record
  rw [← record] at mem
  refine (List.mem_append.mp mem).resolve_right fun mem => ?_
  have asked : .setLocal e d ∈ t.record.drop s.record.length := by
    rw [← record, List.drop_left]
    exact mem
  cases turn.asked asked with
  | own other => cases other

/-- What begins in a turn, begins on an engine of the session. -/
theorem Handled.began (turn : Handled a s i t) (sound : s.Sound) :
    ∀ c ∈ t.creations, c ∈ s.creations ∨ t.Began c := by
  intro c mem
  cases turn with
  | @offered p e _ _ _ engine =>
    cases engine with
    | held engine =>
      refine (List.mem_append.mp mem).imp_right fun new => ?_
      rw [List.mem_singleton.mp new]
      exact ⟨sound.current _ engine, .offer (by simp [offering])⟩
    | acquired =>
      refine (List.mem_append.mp mem).imp_right fun new => ?_
      rw [List.mem_singleton.mp new]
      exact ⟨by simp [offering, equipped], .offer (by simp [offering])⟩
  | @tookOffer p data sdp e parsed bound engine =>
    refine (List.mem_append.mp mem).imp_right fun new => ?_
    rw [List.mem_singleton.mp new]
    exact ⟨sound.current _ engine, .answer (List.sublist_append_right _ _)⟩
  | admitted _ _ _ engine => rcases engine with rfl | rfl <;> exact .inl mem
  | _ => exact .inl mem

namespace Authentic

theorem handled (h : s.Authentic) (sound : s.Sound) (turn : Handled a s i t) : t.Authentic :=
  h.onward turn.onward (turn.began sound) fun _ _ mem => .inl (turn.setLocal mem)

theorem dispatch (h : s.Authentic) (sound : s.Sound) (a : Answers) (i : SessionInput) :
    (s.dispatch a i).Authentic :=
  h.handled sound (dispatch_handled a s i)

theorem drain (h : s.Authentic) (sound : s.Sound) (a : Answers) : (s.drain a).Authentic := by
  refine Sound.drain_induction (P := Authentic) (fun t i rest u _ h _ hb popped turn => ?_) sound h
  have kept : { t with backlog := rest }.Authentic := ⟨h.begun, h.made⟩
  exact kept.handled popped turn

theorem handleInput (h : s.Authentic) (sound : s.Sound) (a : Answers) (i : SessionInput) :
    (s.handleInput a i).Authentic := by
  unfold Actor.handleInput
  split
  · exact ⟨h.begun, h.made⟩
  · exact (h.dispatch sound a i).drain (sound.dispatch a i) a

/-- A completion of the current generation is that of the current engine. -/
theorem published (h : s.Authentic) (sound : s.Sound) {c : Completion} (reported : s.Reported c)
    (current : c.generation = s.generation) (result : c.result = some d)
    (published : Published d s t) : t.Authentic := by
  obtain ⟨⟨e', engine', begun⟩, genuine⟩ := reported
  rw [current] at engine'
  rw [← genuine d result] at begun
  -- The engine that created it is the current one: they have the generation in common.
  have made {e : EngineId} (engine : s.engine = some e) :
      Made (s.record ++ [.setLocal e d]) e d ∧ e < s.engines.length := by
    rw [sound.engine_eq engine engine'] at begun
    exact ⟨begun.made, sound.engine_lt engine⟩
  refine h.onward published.onward (fun c mem => ?_) fun e' d' mem => ?_
  · cases published <;> exact .inl mem
  · cases published with
    | nowhere => exact .inl mem
    | refused engine =>
      rcases List.mem_append.mp mem with mem | new
      · exact .inl mem
      · cases List.mem_singleton.mp new
        exact .inr (made engine)
    | sent engine =>
      rcases List.mem_append.mp mem with mem | new
      · exact .inl mem
      · obtain ⟨rfl, rfl⟩ : e' = _ ∧ d' = d := by simpa using new
        refine .inr ((made engine).imp_left fun made => made.mono ?_)
        exact ⟨_, List.append_assoc _ _ _⟩

theorem complete (h : s.Authentic) (sound : s.Sound) {c : Completion} (reported : s.Reported c)
    (bound : c.generation = s.generation → s.counterpart ≠ none) (a : Answers) :
    (s.complete a c).Authentic := by
  by_cases current : c.generation = s.generation
  · rw [complete_of_current current]
    refine drain ?_ (sound.applied (bound current) a c) a
    have free : { s with pending := none }.Authentic := ⟨h.begun, h.made⟩
    have idle : { s with pending := none }.Sound := { sound with busy := fun b => absurd rfl b }
    exact applied_induction free fun d t result published =>
      free.published idle reported current result published
  · rw [complete_of_old current]
    exact h

end Authentic

end Actor

/-! ## Running sessions -/

namespace Runner

variable {a : Answers} {p q : Runner} {m : Act}

/-- If an engine creates anything, it is what it was asked for. -/
def Act.Genuine (p : Runner) : Act → Prop
  | .finishCreation index (some d) => ∀ c, p.actor.creations[index]? = some c → d.kind = c.kind
  | _ => True

/-- What a session creates and sets, its engines create, and what they report is genuine. -/
structure Authentic (p : Runner) : Prop where
  actor : p.actor.Authentic
  results : ∀ c ∈ p.results, p.actor.Reported c

theorem Authentic.start (a : Answers) (r : RoomId) (link : Link ClientEvent) :
    (Runner.start a r link).Authentic := by
  unfold Runner.start
  rcases Actor.enterRoom_cases a (.new r link) with h | h
  · rw [h]
    refine ⟨⟨fun c mem => ?_, by simp [Actor.new, Actor.note]⟩, fun c mem => ?_⟩ <;> cases mem
  · rw [h]
    refine ⟨⟨fun c mem => ?_, by simp [Actor.new, Actor.joining]⟩, fun c mem => ?_⟩ <;> cases mem

theorem Authentic.endIfLeaved (actor : p.actor.Authentic)
    (results : ∀ c ∈ p.results, p.actor.Reported c) : p.endIfLeaved.Authentic := by
  unfold Runner.endIfLeaved
  split
  · exact ⟨actor, nofun⟩
  · exact ⟨actor, results⟩

theorem Authentic.push (h : p.Authentic) (i : SessionInput) : (p.push i).Authentic := by
  unfold Runner.push
  split <;> exact ⟨h.actor, h.results⟩

/-- Whatever a session or its user does, what it sets comes from its engines. -/
theorem Acted.authentic (done : Acted a p m q) (sound : p.Sound) (genuine : m.Genuine p)
    (h : p.Authentic) : q.Authentic := by
  cases done with
  | pushed => exact h.push _
  | handleDropped | idle => exact ⟨h.actor, h.results⟩
  | @created index c result begun =>
    -- What finishes was begun by an engine, and keeps its generation.
    have mem : c ∈ p.actor.creations := List.mem_of_getElem? begun
    obtain ⟨engine, asked⟩ := h.actor.begun c mem
    refine ⟨⟨fun c' mem' => h.actor.begun c' (List.mem_of_mem_eraseIdx mem'), h.actor.made⟩, ?_⟩
    intro c' mem'
    split at mem'
    · cases mem'
    · rcases List.mem_append.mp mem' with mem' | new
      · exact h.results c' mem'
      · rw [List.mem_singleton.mp new]
        refine ⟨⟨c.engine, engine, asked⟩, fun d created => ?_⟩
        cases created
        exact genuine c begun
  | @tookInput i rest next running =>
    have onward := Actor.handleInput_onward a p.actor i
    exact .endIfLeaved (h.actor.handleInput sound.actor a i) fun c mem =>
      (h.results c mem).onward onward
  | @tookResult c rest next running =>
    have reported : p.actor.Reported c := h.results c (by simp [next])
    have onward := Actor.complete_onward a p.actor c
    refine .endIfLeaved (h.actor.complete sound.actor reported (sound.bound next) a) ?_
    exact fun c' mem => (h.results c' (by simp [next, mem])).onward onward
  | abandoned =>
    have turn := Actor.leave_handled a p.actor true
    exact .endIfLeaved (h.actor.handled sound.actor turn) fun c mem =>
      (h.results c mem).onward turn.onward

end Runner

end Parley
