import Parley.Signal.Message

/-!
# What becomes of a message as a payload

A description that is sent as a payload is read as the same description. A candidate is read as a
candidate, if it can be read at all, and never as a description.
-/

namespace Parley

namespace Message

open Parley.Json Parley.Shape

theorem ofDescription_injective {d d' : Description} (same : ofDescription d = ofDescription d') :
    d = d' := by
  obtain ⟨kind, sdp⟩ := d
  obtain ⟨kind', sdp'⟩ := d'
  cases kind <;> cases kind' <;> cases same <;> rfl

theorem parse_ofDescription (d : Description) :
    parse (ofDescription d).toPayload = .ok (.ofDescription d) := by
  obtain ⟨kind, sdp⟩ := d
  cases kind <;> rfl

/-- An object that calls itself a candidate is read as one. -/
theorem ofJson_of_candidate {members : List (String × Json)}
    (type : (Json.object members).member? "type" = some (.string Kind.candidate.name)) :
    ofJson (.object members) =
      (Candidate.ofMembers (Doc.ofMembers (members.filter fun m => m.1 != "type")) none).map
        .candidate := by
  have kind : kindOf (.string Kind.candidate.name) = .ok .candidate := rfl
  simp only [ofJson, type, kind]
  rfl

theorem parse_candidate {c : Candidate} {m : Message}
    (parsed : parse (candidate c).toPayload = .ok m) : ∃ c', m = .candidate c' := by
  obtain ⟨members, payload, type⟩ : ∃ members, (candidate c).toPayload = .object members ∧
      (Json.object members).member? "type" = some (.string Kind.candidate.name) := by
    obtain ⟨text, mid, index⟩ := c
    cases mid <;> cases index <;> exact ⟨_, rfl, rfl⟩
  rw [payload] at parsed
  unfold parse at parsed
  rw [ofJson_of_candidate type] at parsed
  split at parsed
  case h_1 m' found =>
    cases parsed
    cases read : Candidate.ofMembers (Doc.ofMembers (members.filter fun m => m.1 != "type")) none with
    | ok c' =>
      rw [read] at found
      cases found
      exact ⟨c', rfl⟩
    | error =>
      rw [read] at found
      cases found
  case h_2 | h_3 => cases parsed

end Message

end Parley
