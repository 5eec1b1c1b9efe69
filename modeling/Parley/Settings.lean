import Parley.Address
import Parley.Id
import Parley.Signal.Description

/-!
# Settings

What a relay and a client are started with, and why the one cannot listen or the other not connect.
-/

namespace Parley

/-- The settings of a relay. -/
structure RelaySettings where
  bind : Address
  /-- How many members a room has at most; less than one counts as one. -/
  capacity : Nat

/-- A relay listens on port 3000 of every IPv4 address and lets three peers into a room. -/
def RelaySettings.default : RelaySettings := ⟨⟨.v4 0 0 0 0, 3000⟩, 3⟩

/-- The settings of a client. -/
structure ClientSettings where
  /-- Where the relay accepts connections. -/
  url : String
  room : RoomId
  iceServers : List IceServer

/-- A client that names no servers uses the default ones. -/
def ClientSettings.new (url : String) (room : RoomId) : ClientSettings := ⟨url, room, [.default]⟩

/-- Why no service could be had. -/
inductive ServiceFailure where
  /-- The relay does not answer at the url. -/
  | unreachable (url : String)
  /-- The address cannot be listened on. -/
  | notBound (address : Address)

/-- The wording of such a failure. -/
def ServiceFailure.message : ServiceFailure → String
  | .unreachable url => "Failed to connect to relay at " ++ url
  | .notBound address => "Failed to bind " ++ address.text

/-- A host that lets its services listen on every IPv4 address, whether the address is its own or
not, also where an IPv6 address stands for it, but among the other IPv6 addresses only on its own:
the wildcard and the loopback address. -/
def Address.canBind (a : Address) : Bool :=
  match a.ip with
  | .v4 _ _ _ _ => true
  | .v6 [0, 0, 0, 0, 0, 0xFFFF, _, _] _ => true
  | .v6 groups _ => groups.dropLast.all (· = 0) && groups.getLast?.any (· ≤ 1)

/-- Start to listen on an address. -/
def listen (a : Address) : Except ServiceFailure Unit :=
  if a.canBind then .ok () else .error (.notBound a)

end Parley
