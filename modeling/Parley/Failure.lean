import Parley.Id

/-!
# Failures

What can go wrong while a room is coordinated. None of these ends the relay or a peer: each is
reported as an event, or dropped.
-/

namespace Parley

/-- Why an operation failed. -/
inductive Failure where
  | capacityExceeded (room : RoomId)
  | invalidMessage (reason : String)
  | staleOperation
  | negotiationFailure (reason : String)
  | linkLost
  | media (reason : String)
  deriving DecidableEq

/-- The wording of a failure. -/
def Failure.message : Failure → String
  | .capacityExceeded room => "room " ++ room.text ++ " is at capacity"
  | .invalidMessage reason => "invalid message: " ++ reason
  | .staleOperation => "operation belongs to a torn down negotiation"
  | .negotiationFailure reason => "negotiation failed: " ++ reason
  | .linkLost => "signaling link lost"
  | .media reason => "media source error: " ++ reason

end Parley
