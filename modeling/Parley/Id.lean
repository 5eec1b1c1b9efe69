/-!
# Identifiers

Rooms and peers are named by texts that nothing looks into: they are compared as they are, and the
empty text is a name like any other.
-/

namespace Parley

/-- The name of a room. -/
structure RoomId where
  text : String
  deriving DecidableEq, Repr, Inhabited

/-- The name of a peer. The transport assigns it when it accepts a connection. -/
structure PeerId where
  text : String
  deriving DecidableEq, Repr, Inhabited

end Parley
