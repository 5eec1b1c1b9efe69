import Parley.Proofs.Relay.Emissions

/-!
# Events one after another

What the relay does about a sequence of events. A peer that asks for a room while it is in another
one is treated as if it had left that one first (`Wf.handle_move`); so whatever the event, the relay
does one or two of the things that `Relayed` names (`Wf.handle_treated`), and the registry stays as it
should be all along (`Wf.relay`).
-/

namespace Parley

/-- A peer that has left the room that it was in is nowhere. -/
theorem Relayed.nowhere {g g' : Registry} {es : List Emission} {p : PeerId} {c : RoomId}
    (left : Relayed g (.signal p (.leave c)) g' es) (wf : g.Wf) (inside : p ∈ g.members c)
    (r : RoomId) : p ∉ g'.members r := by
  cases left with
  | left members =>
    intro mem
    rw [members] at mem
    split at mem
    · simp at mem
    case isFalse elsewhere => exact elsewhere (wf.one_room mem inside)

namespace Registry

/-- Handle events one after another: the registry after them, and all that is emitted. -/
def relay (g : Registry) : List TransportEvent → Registry × List Emission
  | [] => (g, [])
  | e :: rest => (((g.handle e).1.relay rest).1, (g.handle e).2 ++ ((g.handle e).1.relay rest).2)

variable {g : Registry} {e : TransportEvent} {p : PeerId} {r c : RoomId}

theorem relay_append (g : Registry) (before after : List TransportEvent) :
    g.relay (before ++ after) =
      (((g.relay before).1.relay after).1, (g.relay before).2 ++ ((g.relay before).1.relay after).2) := by
  induction before generalizing g with
  | nil => rfl
  | cons e rest ih => simp only [List.cons_append, relay, ih, List.append_assoc]

theorem relay_snoc (g : Registry) (before : List TransportEvent) (e : TransportEvent) :
    g.relay (before ++ [e]) =
      (((g.relay before).1.handle e).1, (g.relay before).2 ++ ((g.relay before).1.handle e).2) := by
  simp [relay_append, relay]

theorem handle_leave (g : Registry) (p : PeerId) (c : RoomId) :
    g.handle (.signal p (.leave c)) =
      ((g.leave c p).2, g.tell p c (.bye c p) ++ [⟨p, .leaved c p⟩]) := by
  show (Job.depart p c true .done).run g = _
  simp [Job.run_depart, Job.run]

/-- A peer that moves to another room leaves the one it is in and then joins the other one. -/
theorem Wf.handle_move (h : g.Wf) (inside : p ∈ g.members c) (other : c ≠ r) :
    g.handle (.signal p (.join r)) =
      (((g.handle (.signal p (.leave c))).1.handle (.signal p (.join r))).1,
        (g.handle (.signal p (.leave c))).2 ++
          ((g.handle (.signal p (.leave c))).1.handle (.signal p (.join r))).2) := by
  have left := g.handle_leave p c
  obtain ⟨wf, relayed⟩ := h.handle_relayed (e := .signal p (.leave c)) trivial
  rw [left] at wf relayed
  have nowhere : (g.leave c p).2.whereabouts.get? p = none := by
    cases found : (g.leave c p).2.whereabouts.get? p with
    | none => rfl
    | some r' => exact absurd (wf.whereabouts.mp found) (relayed.nowhere h inside r')
  have joins : (g.leave c p).2.handle (.signal p (.join r)) = (Job.enter p r).run (g.leave c p).2 := by
    show (Job.ofJoin p r).run _ = _
    simp [Job.ofJoin, Job.run, roomOf?, nowhere]
  have moves : g.handle (.signal p (.join r)) = (Job.depart p c true (.enter p r)).run g := by
    show (Job.ofJoin p r).run g = _
    simp [Job.ofJoin, Job.run, roomOf?, h.whereabouts.mpr inside, other]
  rw [moves, Job.run_depart, left, joins]
  rfl

end Registry

open Registry

/-- What the relay does about any event. -/
inductive Treated (g : Registry) : TransportEvent → Registry → List Emission → Prop
  | once {e : TransportEvent} {g' : Registry} {es : List Emission} (relayed : Relayed g e g' es) :
      Treated g e g' es
  /-- The peer leaves the room that it is in and joins another one. -/
  | moved {p : PeerId} {c r : RoomId} {g₁ g' : Registry} {es es' : List Emission}
      (inside : p ∈ g.members c) (other : c ≠ r)
      (left : Relayed g (.signal p (.leave c)) g₁ es) (wf : g₁.Wf)
      (joined : Relayed g₁ (.signal p (.join r)) g' es') :
      Treated g (.signal p (.join r)) g' (es ++ es')

namespace Registry

variable {g : Registry}

/-- Whatever the event, the relay does one or two of the things that are named above. -/
theorem Wf.handle_treated (h : g.Wf) (e : TransportEvent) :
    (g.handle e).1.Wf ∧ Treated g e (g.handle e).1 (g.handle e).2 := by
  by_cases single : e.Single g
  · obtain ⟨wf, relayed⟩ := h.handle_relayed single
    exact ⟨wf, .once relayed⟩
  · obtain ⟨p, r, rfl⟩ : ∃ p r, e = .signal p (.join r) := by
      match e, single with
      | .signal p (.join r), _ => exact ⟨p, r, rfl⟩
      | .signal p (.leave r), single | .signal p (.message r data), single
      | .disconnected p, single => exact absurd trivial single
    obtain ⟨c, inside, other⟩ : ∃ c, p ∈ g.members c ∧ c ≠ r := by
      simpa [TransportEvent.Single] using single
    obtain ⟨wf₁, left⟩ := h.handle_relayed (e := .signal p (.leave c)) trivial
    have alone : TransportEvent.Single (g.handle (.signal p (.leave c))).1 (.signal p (.join r)) :=
      fun r' mem => absurd mem (left.nowhere h inside r')
    obtain ⟨wf, joined⟩ := wf₁.handle_relayed alone
    rw [h.handle_move inside other]
    exact ⟨wf, .moved inside other left wf₁ joined⟩

theorem Wf.handle (h : g.Wf) (e : TransportEvent) : (g.handle e).1.Wf := (h.handle_treated e).1

theorem Wf.relay (h : g.Wf) (events : List TransportEvent) : (g.relay events).1.Wf := by
  induction events generalizing g with
  | nil => exact h
  | cons e rest ih => exact ih (h.handle e)

end Registry

end Parley
