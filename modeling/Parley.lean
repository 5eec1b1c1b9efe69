import Parley.Client
import Parley.Hub.Staff
import Parley.Link.Shared
import Parley.Network.Rehearsal
import Parley.Room.Crowd
import Parley.Server
import Parley.Settings
import Parley.Proofs.Hub.Farewell
import Parley.Proofs.Link.Shared
import Parley.Proofs.Network.Agreement
import Parley.Proofs.Network.Provenance
import Parley.Proofs.Relay.Commuting
import Parley.Proofs.Relay.Replay
import Parley.Proofs.Relay.Routing
import Parley.Proofs.Room.Race
import Parley.Proofs.Session.Backlog
import Parley.Proofs.Session.Counterpart
import Parley.Proofs.Session.Departure
import Parley.Proofs.Session.Ending
import Parley.Proofs.Session.Irrelevant
import Parley.Proofs.Session.Offers
import Parley.Proofs.Session.Provision
import Parley.Proofs.Session.Replies
import Parley.Proofs.Session.Return
import Parley.Proofs.Session.Setbacks
import Parley.Proofs.Session.Silence
import Parley.Proofs.Session.Synchronous
import Parley.Proofs.Signal.RoundTrip
