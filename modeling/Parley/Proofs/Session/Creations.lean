import Mathlib.Data.List.Induction
import Parley.Proofs.Session.Authentic
import Parley.Proofs.Session.Course

/-!
# What becomes of a creation

A creation is begun on an engine, in the engine's generation, and finishes whenever it does. When
the session handles its completion, it was finished in some move of the run (`Produced`). If the
generation is still the current one, the engine is still the one that the session holds, and a
session that asked for an offer is still connected (`Filed`).
-/

namespace Parley

namespace Actor

variable {a : Answers} {s t : Actor} {i : SessionInput} {c : Creation} {deeds : List Deed}

/-! ## What is under way -/

/-- The creation is one of the session's. Its generation tells the engine, and as long as it is the
current one, a session that has an offer created is connected. -/
structure Filed (s : Actor) (c : Creation) : Prop where
  engine : s.engines[c.engine]? = some c.generation
  past : c.generation ≤ s.generation
  offer : c.generation = s.generation → c.kind = .offer → s.state = .connected

namespace Filed

/-- The session goes on with its engine. -/
theorem stay (h : s.Filed c) (engines : t.engines = s.engines)
    (generation : t.generation = s.generation) (state : t.state = s.state ∨ t.state = .connected) :
    t.Filed c where
  engine := engines ▸ h.engine
  past := generation ▸ h.past
  offer current kind := by
    rcases state with same | connected
    · rw [same]
      exact h.offer (current.trans generation) kind
    · exact connected

/-- The session is in the next generation. -/
theorem next (h : s.Filed c) (engines : s.engines <+: t.engines)
    (generation : t.generation = s.generation + 1) : t.Filed c where
  engine := by
    obtain ⟨more, same⟩ := engines
    obtain ⟨lt, -⟩ := List.getElem?_eq_some_iff.mp h.engine
    rw [← same, List.getElem?_append_left lt]
    exact h.engine
  past := by
    have past := h.past
    omega
  offer current := by
    have past := h.past
    omega

theorem alike (h : s.Filed c) (same : s.Alike t) : t.Filed c := by
  obtain ⟨_, _, _, rfl⟩ := same
  exact h.stay rfl rfl (.inl rfl)

end Filed

theorem Handled.filed (turn : Handled a s i t) (h : s.Filed c) : t.Filed c := by
  cases turn with
  | admitted _ _ _ engine =>
    rcases engine with rfl | rfl
    · exact h.next (List.prefix_append _ _) rfl
    · exact h.next List.prefix_rfl rfl
  | offered _ _ engine =>
    cases engine with
    | held => exact h.stay rfl rfl (.inr rfl)
    | acquired => exact h.next (List.prefix_append _ _) rfl
  | unequipped | unbound | dismissed | lost | left => exact h.next List.prefix_rfl rfl
  | _ => exact h.stay rfl rfl (.inl rfl)

/-- What begins in a turn is one of the session's creations. -/
theorem Handled.files (turn : Handled a s i t) (sound : s.Sound)
    (whole : ∀ c ∈ s.creations, s.Filed c) : ∀ c ∈ t.creations, t.Filed c := by
  intro c mem
  have old (mem : c ∈ s.creations) : t.Filed c := turn.filed (whole c mem)
  cases turn with
  | @offered p e _ _ _ engine =>
    cases engine with
    | held engine =>
      rcases List.mem_append.mp mem with mem | new
      · exact old mem
      · rw [List.mem_singleton.mp new]
        exact ⟨sound.current e engine, Nat.le_refl _, fun _ _ => rfl⟩
    | acquired =>
      rcases List.mem_append.mp mem with mem | new
      · exact old mem
      · rw [List.mem_singleton.mp new]
        exact ⟨by simp [offering, equipped], Nat.le_refl _, fun _ _ => rfl⟩
  | tookOffer _ _ engine =>
    rcases List.mem_append.mp mem with mem | new
    · exact old mem
    · rw [List.mem_singleton.mp new]
      exact ⟨sound.current _ engine, Nat.le_refl _, fun _ offer => by cases offer⟩
  | admitted _ _ _ engine => rcases engine with rfl | rfl <;> exact old mem
  | _ => exact old mem

theorem Linked.filed (h : Linked a s deeds t) (filed : s.Filed c) : t.Filed c := by
  induction h with
  | nil same => exact filed.alike same
  | @cons s t d deeds same _ ih =>
    have before := filed.alike same
    refine ih ?_
    cases d with
    | turn t => exact (dispatch_handled a t.session t.input).filed before
    | finish s c' =>
      refine applied_induction (P := fun t => t.Filed c) (before.stay rfl rfl (.inl rfl)) ?_
      intro d t _ published
      cases published <;> exact before.stay rfl rfl (.inl rfl)

/-! ## What is handled -/

/-- What becomes of a session that handles a completion of the current generation. -/
inductive Concluded (a : Answers) (s : Actor) (c : Completion) : Actor → Prop
  /-- Nothing was created, or there is nothing to set it on. -/
  | nothing (result : c.result = none ∨ s.engine = none) :
      Concluded a s c { s with pending := none }
  | refused {e : EngineId} {d : Description} (engine : s.engine = some e)
      (result : c.result = some d) (answer : a.grants s.record (.setLocal e d) = false) :
      Concluded a s c ({ s with pending := none }.note (.setLocal e d))
  | sent {e : EngineId} {d : Description} (engine : s.engine = some e)
      (result : c.result = some d) (answer : a.grants s.record (.setLocal e d) = true) :
      Concluded a s c ({ s with pending := none }.published e d)

theorem applied_concluded (a : Answers) (s : Actor) (c : Completion) :
    Concluded a s c (s.applied a c) := by
  unfold applied
  split
  case h_1 d result =>
    unfold applyLocal
    split
    case h_1 engine => exact .nothing (.inr engine)
    case h_2 e engine =>
      dsimp only
      split
      case isTrue answer =>
        rw [sendMessage_eq_published]
        exact .sent engine result answer
      case isFalse answer => exact .refused engine result (by simpa using answer)
  case h_2 result => exact .nothing (.inl result)

end Actor

/-! ## Running sessions -/

namespace Runner

variable {a : Answers} {p : Runner} {moves : List Move} {past : List Deed} {k : Creation}

/-- The creation finishes in a run, after no more than has been done already. -/
def Produced (a : Answers) (p : Runner) (moves : List Move) (past : List Deed) (k : Creation)
    (result : Option Description) : Prop :=
  ∃ before index after, moves = before ++ .act (.finishCreation index result) :: after ∧
    (p.run a before).actor.creations[index]? = some k ∧ p.course a before <+: past

theorem Produced.mono {moves' : List Move} {past' : List Deed} {result : Option Description}
    (h : Produced a p moves past k result) (longer : moves <+: moves') (later : past <+: past') :
    Produced a p moves' past' k result := by
  obtain ⟨more, rfl⟩ := longer
  obtain ⟨before, index, after, rfl, begun, done⟩ := h
  exact ⟨before, index, after ++ more, by simp, begun, done.trans later⟩

/-- Whatever engines create in a run, it is what they were asked for. -/
def Genuine (a : Answers) (p : Runner) (moves : List Move) : Prop :=
  ∀ before m after, moves = before ++ .act m :: after → m.Genuine (p.run a before)

theorem Genuine.nil : Genuine a p [] := by
  intro before m after split
  simp at split

theorem Genuine.cons {m : Move} (first : ∀ act, m = .act act → act.Genuine p)
    (rest : Genuine a (p.move a m) moves) : Genuine a p (m :: moves) := by
  intro before act after split
  cases before with
  | nil => exact first act (List.cons.inj split).1
  | cons m' before =>
    obtain ⟨rfl, later⟩ := List.cons.inj split
    exact rest before act after later

theorem Produced.kind_eq {d : Description} (h : Produced a p moves past k (some d))
    (genuine : Genuine a p moves) : d.kind = k.kind := by
  obtain ⟨before, index, after, split, begun, -⟩ := h
  exact genuine before _ after split k begun

/-- What is under way is known to the session. -/
theorem Reachable.creations_filed {room : RoomId} (h : Reachable a room p) :
    ∀ k ∈ p.actor.creations, p.actor.Filed k := by
  refine h.actor_induction (P := fun s => ∀ k ∈ s.creations, s.Filed k)
    (fun link => Actor.enterRoom_induction (P := fun s => ∀ k ∈ s.creations, s.Filed k)
      (fun _ mem => by cases mem) fun _ mem => by cases mem)
    (fun s _ _ _ _ fewer whole k mem => (whole k (fewer mem)).stay rfl rfl (.inl rfl))
    (fun s i t sound whole turn => turn.files sound whole) fun s d t _ whole published k mem => ?_
  cases published <;> exact (whole k mem).stay rfl rfl (.inl rfl)

/-- What waits to be handled after a move waited before, or has finished in the move. -/
theorem move_results {m : Move} {c : Completion} (mem : c ∈ (p.move a m).results) :
    c ∈ p.results ∨ ∃ index k, m = .act (.finishCreation index c.result) ∧
      p.actor.creations[index]? = some k ∧ c.generation = k.generation ∧ c.kind = k.kind := by
  have ended {q : Runner} (mem : c ∈ q.endIfLeaved.results) : c ∈ q.results :=
    q.endIfLeaved_waiting.2.subset mem
  have pushed (i : SessionInput) : (p.push i).results = p.results := by
    unfold push
    split <;> rfl
  cases m with
  | deliver e => exact .inl (pushed _ ▸ mem)
  | receive | closeLink | dropReceiver => exact .inl mem
  | act m =>
    have done := act_acted a p m
    change c ∈ (p.act a m).results at mem
    generalize p.act a m = q at done mem
    cases done with
    | pushed => exact .inl (pushed _ ▸ mem)
    | handleDropped | idle => exact .inl mem
    | @created index k result begun =>
      split at mem
      · cases mem
      · refine (List.mem_append.mp mem).imp_right fun new => ?_
        rw [List.mem_singleton.mp new]
        exact ⟨index, k, rfl, begun, rfl, rfl⟩
    | tookInput =>
      have waited := ended mem
      exact .inl waited
    | tookResult next =>
      have waited := ended mem
      exact .inl (next ▸ List.mem_cons_of_mem _ waited)
    | abandoned =>
      have waited := ended mem
      exact .inl waited

/-- What waits to be handled comes from the session's creations, and finished in the run. -/
theorem results_produced {room : RoomId} (h : Reachable a room p) (none : p.results = [])
    (moves : List Move) :
    ∀ c ∈ (p.run a moves).results, ∃ k, Produced a p moves (p.course a moves) k c.result ∧
      c.generation = k.generation ∧ c.kind = k.kind ∧ (p.run a moves).actor.Filed k := by
  induction moves using List.reverseRecOn with
  | nil =>
    intro c mem
    change c ∈ p.results at mem
    rw [none] at mem
    cases mem
  | append_singleton moves m ih =>
    intro c mem
    rw [run_append] at mem
    have linked := move_linked a (p.run a moves) m
    rw [run_append, course_append]
    rcases move_results mem with old | ⟨index, k, rfl, begun, generation, kind⟩
    · obtain ⟨k, produced, generation, kind, filed⟩ := ih c old
      exact ⟨k, produced.mono (List.prefix_append _ _) (List.prefix_append _ _), generation, kind,
        linked.filed filed⟩
    · have filed := (h.run moves).creations_filed k (List.mem_of_getElem? begun)
      exact ⟨k, ⟨moves, index, [], rfl, begun, List.prefix_append _ _⟩, generation, kind,
        linked.filed filed⟩

/-- A completion that is handled is the next that waits, and of the current generation. -/
theorem finish_mem {m : Move} {s : Actor} {c : Completion} (mem : .finish s c ∈ p.deeds a m) :
    m = .act .takeResult ∧ s = p.actor ∧ p.finished = false ∧
      c.generation = p.actor.generation ∧ ∃ rest, p.results = c :: rest := by
  have inTurns {turns : List Turn} : .finish s c ∉ turns.map Deed.turn := by simp
  cases m with
  | act m =>
    cases m with
    | takeInput => exact absurd mem inTurns
    | takeResult =>
      have first := (List.mem_append.mp mem).resolve_right inTurns
      unfold finishing at first
      split at first
      case h_1 c' rest next =>
        split at first
        case isTrue => cases first
        case isFalse handles =>
          obtain ⟨rfl, rfl⟩ : s = p.actor ∧ c = c' := by simpa using first
          obtain ⟨running, current⟩ : p.finished = false ∧ c.generation = p.actor.generation := by
            simpa using handles
          exact ⟨rfl, rfl, running, current, rest, next⟩
      case h_2 => cases first
    | shutdown =>
      rw [deeds_shutdown] at mem
      split at mem
      · cases mem
      · cases List.mem_singleton.mp mem
    | _ => cases mem
  | _ => cases mem

/-- A completion that is handled was produced on the engine that the session holds, and a session
that asked for an offer is still connected. -/
theorem finish_produced {room : RoomId} {link : Link ClientEvent} {s : Actor} {c : Completion}
    {e : EngineId} {future : List Deed}
    (split : (start a room link).course a moves = past ++ .finish s c :: future)
    (engine : s.engine = some e) :
    Produced a (start a room link) moves past ⟨e, s.generation, c.kind⟩ c.result ∧
      (c.kind = .offer → s.state = .connected) := by
  have reachable : Reachable a room (start a room link) := .start link
  obtain ⟨before, m, after, earlier, later, rfl, rfl, deeds⟩ := course_split split
  have mem : .finish s c ∈ ((start a room link).run a before).deeds a m := by simp [deeds]
  obtain ⟨-, rfl, -, current, rest, next⟩ := finish_mem mem
  obtain ⟨k, produced, generation, kind, filed⟩ :=
    results_produced reachable rfl before c (by simp [next])
  -- The generation is the current one, so the engine is the current one, too.
  have sound := (reachable.run before).sound.actor
  have now := generation.symm.trans current
  have same : k.engine = e := sound.engine_eq engine (now ▸ filed.engine)
  refine ⟨?_, fun offer => filed.offer now (kind ▸ offer)⟩
  have whole : k = ⟨e, ((start a room link).run a before).actor.generation, c.kind⟩ := by
    rw [← same, ← now, kind]
  rw [← whole]
  exact produced.mono (List.prefix_append _ _) (List.prefix_append _ _)

end Runner

end Parley
