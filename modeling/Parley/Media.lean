/-!
# Media

A media source supplies the tracks that the local side sends and is told about the tracks of the
remote side. The static source has a single Opus track with no capture behind it.
-/

namespace Parley

/-- A track of the remote side. -/
structure RemoteTrack where
  id : String
  stream : String
  kind : String
  deriving DecidableEq, Repr

/-- A track of the local side. -/
structure LocalTrack where
  id : String
  stream : String
  kind : String
  deriving DecidableEq, Repr

/-- A source with one audio track. -/
structure StaticMedia where
  stream : String
  /-- The track was acquired and not released since. -/
  active : Bool

namespace StaticMedia

/-- The format of the track. -/
def mimeType : String := "audio/opus"

/-- A source whose track belongs to a stream. -/
def new (stream : String) : StaticMedia := ⟨stream, false⟩

/-- The source of a client that names no stream. -/
def default : StaticMedia := new "huddle"

/-- The only track. -/
def track (m : StaticMedia) : LocalTrack := ⟨"audio", m.stream, "audio"⟩

/-- Acquire the track. -/
def acquire (m : StaticMedia) : List LocalTrack × StaticMedia := ([m.track], { m with active := true })

/-- Stop using the track. -/
def release (m : StaticMedia) : StaticMedia := { m with active := false }

/-- Take note of a remote track, which makes no difference. -/
def noteRemote (m : StaticMedia) (_ : RemoteTrack) : StaticMedia := m

end StaticMedia

end Parley
