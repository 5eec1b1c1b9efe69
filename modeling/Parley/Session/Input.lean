import Parley.Media
import Parley.Signal.Event

/-!
# Inputs of a session

Everything that a session reacts to. Inputs that may tear down what the session is doing preempt:
they are handled at once even while an offer or answer is being created. The others wait.
-/

namespace Parley

/-- What an engine reports. -/
inductive EngineEvent where
  | localCandidate (candidate : Candidate)
  | remoteTrack (track : RemoteTrack)

/-- What a session reacts to. -/
inductive SessionInput where
  | server (event : ServerEvent)
  /-- A report of the engine that was acquired in a generation. -/
  | engine (generation : Nat) (event : EngineEvent)
  | leave
  | exit
  | rejoin
  | linkLost

namespace SessionInput

/-- The input is handled at once. -/
def preempts : SessionInput → Bool
  | .server (.bye _ _) | .server (.full _ _) | .leave | .exit | .linkLost => true
  | _ => false

/-- The name of an input. -/
def name : SessionInput → String
  | .server event => event.name
  | .engine _ _ => "engine"
  | .leave => "leave"
  | .exit => "exit"
  | .rejoin => "rejoin"
  | .linkLost => "link_lost"

end SessionInput

end Parley
