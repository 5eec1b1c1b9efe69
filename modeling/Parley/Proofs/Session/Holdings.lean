import Parley.Proofs.Session.Sound

/-!
# What a session holds

`Representation` says what the parts of a session tell about one another between two of its turns:
which of them a session in each state holds, that a description needs a counterpart and a
counterpart needs an engine, and that a pending step is one creation of the current engine's
generation whose end the session has not seen yet. `Reachable.representation` says that no input, no
failure and no timing of completions gets a session out of this.
-/

namespace Parley

namespace Runner

/-- How many creations of the current generation there are whose end the session has not handled,
finished or not. -/
def openCreations (p : Runner) : Nat :=
  (p.actor.creations.countP fun c => c.generation == p.actor.generation) +
    p.results.countP fun c => c.generation == p.actor.generation

/-- What a session holds between two of its turns. -/
structure Representation (p : Runner) : Prop where
  /-- Before, between and after negotiations there is nothing of one. -/
  resting : p.actor.state = .init ∨ p.actor.state = .unbound ∨ p.actor.state = .leaved →
    p.actor.engine = none ∧ p.actor.pending = none ∧ p.actor.counterpart = none ∧
      p.actor.localDescription = none ∧ p.actor.remoteDescription = none
  connected : p.actor.state = .connected → p.actor.engine ≠ none ∧ p.actor.counterpart ≠ none
  described : p.actor.localDescription ≠ none ∨ p.actor.remoteDescription ≠ none →
    p.actor.counterpart ≠ none
  bound : p.actor.counterpart ≠ none → p.actor.engine ≠ none
  /-- What is pending is being created, or was and is not handled yet. -/
  busy : p.actor.pending ≠ none →
    p.actor.engine ≠ none ∧ p.actor.counterpart ≠ none ∧ p.openCreations = 1
  free : p.actor.pending = none → p.openCreations = 0
  /-- A member knows who it is and waits for no reply. -/
  member : p.actor.state = .joined ∨ p.actor.state = .connected ∨ p.actor.state = .unbound →
    p.actor.peer ≠ none ∧ p.actor.joinRequested = false ∧ p.actor.staleReplies = 0
  asked : p.actor.joinRequested = true → p.actor.state = .init
  apart : p.actor.state = .init → p.actor.peer = none
  ended : p.actor.state = .leaved → p.actor.link.closed = true ∧ p.actor.tracks = []

variable {a : Answers} {room : RoomId} {p : Runner}

theorem openCreations_eq (p : Runner) :
    p.openCreations = (p.actor.unreported p.results).count p.actor.generation := by
  simp [openCreations, Actor.unreported, List.count_eq_countP, List.countP_map, Function.comp_def]

/-- Whatever happens to a session, it holds what a session in its state holds. -/
theorem Reachable.representation (h : Reachable a room p) : p.Representation := by
  have sound := h.sound.actor
  have stamped := h.sound.stamped.current
  rw [← openCreations_eq] at stamped
  constructor
  case resting =>
    intro rest
    have free := sound.resting rest
    obtain ⟨alone, idle, unset, unset'⟩ := sound.idle free
    exact ⟨free, idle, alone, unset, unset'⟩
  case connected =>
    intro connected
    have bound := sound.connected connected
    exact ⟨sound.bound bound, bound⟩
  case described => exact sound.described
  case bound => exact sound.bound
  case busy =>
    intro busy
    have bound := sound.busy busy
    rw [if_pos (Option.isSome_iff_ne_none.mpr busy)] at stamped
    exact ⟨sound.bound bound, bound, stamped⟩
  case free =>
    intro free
    simpa [free] using stamped
  case member =>
    intro inside
    apply sound.member
    rcases inside with state | state | state <;> rw [state] <;> rfl
  case asked => exact sound.asked
  case apart => exact sound.apart
  case ended => exact sound.ended

/-- A session that was let in and makes an offer to a newcomer. -/
def offeringMoves : List Move :=
  let r : RoomId := ⟨"r"⟩
  [.deliver (.joined r ⟨"me"⟩), .act .takeInput, .deliver (.otherJoin r ⟨"a"⟩), .act .takeInput]

theorem representation_offering :
    let p := (Runner.start .obliging ⟨"r"⟩ .fresh).run .obliging offeringMoves
    Reachable .obliging ⟨"r"⟩ p ∧ p.actor.pending = some .offer ∧ p.actor.engine = some 0 ∧
      p.Representation ∧ p.openCreations = 1 := by
  intro p
  have reachable : Reachable .obliging ⟨"r"⟩ p := (Reachable.start .fresh).run offeringMoves
  have representation : p.Representation := Reachable.representation reachable
  exact ⟨reachable, rfl, rfl, representation, (representation.busy nofun).2.2⟩

end Runner

end Parley
