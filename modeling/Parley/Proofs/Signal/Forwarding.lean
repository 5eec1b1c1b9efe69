import Parley.Proofs.Json.Written
import Parley.Proofs.Relay.Routing
import Parley.Proofs.Shape.Keyless

/-!
# What is passed on can be read

The relay reads a message off a frame and writes it out again for each other member. The payload is
a free value. So what is written may nest deeper than what was read, where a part of the payload was
given as its text, and sorting may bring the key of given values to the front of an object, where it
has a meaning. A member can read the frame that it gets exactly if the frame does not nest too deep
and no object in it starts with this key; if it can, it reads the message that was passed on.
-/

namespace Parley

open Parley.Json Parley.Shape

/-! ## The payload that the relay reads -/

/-- The payload, as far as it was read, is a free value that stands in one of the members. -/
def EventFields.Within (f : EventFields) (members : List (Quoted × Doc)) : Prop :=
  ∀ v, f.data = some v → ∃ medium, ∃ m ∈ members, value medium payloadLevels m.2 = .ok v

theorem EventFields.Within.step {members : List (Quoted × Doc)} {f f' : EventFields}
    {medium : Medium} {shape : EventShape} {key : String} {m : Quoted × Doc} (mem : m ∈ members)
    (within : f.Within members) (stepped : EventFields.step medium shape f key m.2 = .ok f') :
    f'.Within members := by
  simp only [EventFields.step] at stepped
  split at stepped
  · simp only [bind_eq_ok, pure_eq_ok] at stepped
    obtain ⟨_, -, rfl⟩ := stepped
    exact within
  split at stepped
  · simp only [bind_eq_ok, pure_eq_ok] at stepped
    obtain ⟨_, -, rfl⟩ := stepped
    exact within
  split at stepped
  · simp only [bind_eq_ok, pure_eq_ok] at stepped
    obtain ⟨data, given, rfl⟩ := stepped
    intro v found
    cases seen : f.data with
    | some _ =>
      rw [seen] at given
      cases given
    | none =>
      rw [seen] at given
      obtain ⟨w, read, rfl⟩ := map_eq_ok.mp given
      cases found
      exact ⟨medium, m, mem, read⟩
  · simp only [skip, bind_eq_ok, pure_eq_ok] at stepped
    obtain ⟨_, -, rfl⟩ := stepped
    exact within

/-- The payload of an event is a free value. -/
theorem value_of_readFields {medium : Medium} {owner title : String} {shape : EventShape} {d : Doc}
    {f : EventFields} {v : Json} (read : readFields medium owner title shape d = .ok f)
    (found : f.data = some v) :
    ∃ medium d', value medium payloadLevels d' = .ok v ∧ (WithoutKey d → WithoutKey d') := by
  cases d with
  | object members stop =>
    have within : f.Within members :=
      foldMembers_keeps (P := fun f : EventFields => f.Within members)
        (fun m mem s k s' => EventFields.Within.step mem) (fun v found => by cases found) read
    obtain ⟨medium', m, mem, read⟩ := within v found
    exact ⟨medium', m.2, read, fun without => withoutKey_of_mem without m mem⟩
  | number taken skimmed => cases taken <;> cases read
  | string text =>
    obtain ⟨taken, skimmed⟩ := text
    cases taken <;> cases read
  | _ => cases read

/-- The payload of a message that a peer sends is a free value. -/
theorem ClientEvent.value_of_ofWire {t : String} {r : RoomId} {v : Json}
    (read : ofWire t = .ok (message r v)) :
    ∃ medium d, value medium payloadLevels d = .ok v ∧
      (WithoutKey (Text.read t).root → WithoutKey d) := by
  obtain ⟨medium, tag, d, content, inside⟩ := content_of_tagBeside (ofString_eq_ok.mp read).1
  unfold ClientEvent.content at content
  split at content
  · simp only [bind_eq_ok, pure_eq_ok] at content
    obtain ⟨_, -, _, -, other⟩ := content
    cases other
  split at content
  · simp only [bind_eq_ok, pure_eq_ok] at content
    obtain ⟨_, -, _, -, other⟩ := content
    cases other
  · simp only [bind_eq_ok, pure_eq_ok, required_eq_ok] at content
    obtain ⟨f, fields, room, -, data, found, same⟩ := content
    cases same
    obtain ⟨medium', d', read, within⟩ := value_of_readFields fields found
    exact ⟨medium', d', read, fun without => within (inside without)⟩

/-! ## The frame that was written -/

/-- Reading the frame of an event comes down to reading its fields. -/
theorem ofString_render_eventJson {α : Type} {title : String} {names : List String}
    {content : Medium → String → Doc → Reading α} {name : String} {fields : List (String × Json)}
    (named : name ∈ names) (integral : AllMembers Integral fields) :
    ofString (tagBeside title names content) (eventJson name fields).render =
      content .text name (Doc.ofJson (.object fields)) := by
  have text : Text.read (eventJson name fields).render =
      ⟨Doc.ofJson (eventJson name fields), false⟩ :=
    read_render ⟨trivial, trivial, ⟨trivial, integral⟩, trivial⟩
  have tag : variant names (.string (.ofString name)) = .ok name := if_pos named
  have parts : tagBeside title names content (Doc.ofJson (eventJson name fields)) = (do
      let tag ← variant names (.string (.ofString name))
      let a ← content .text tag (Doc.ofJson (.object fields))
      noMoreHalves none []
      return a) := rfl
  simp only [ofString, text, parts, tag, bind, Except.bind]
  cases content .text name (Doc.ofJson (.object fields)) <;> rfl

namespace ClientEvent

/-- Reading the frame of a message comes down to reading its payload. -/
theorem ofWire_wire_message {r : RoomId} {v : Json} (integral : v.All Integral) :
    ofWire (message r v).wire = (value .text payloadLevels (Doc.ofJson v)).map (message r) := by
  have frame : ofWire (message r v).wire =
      content .text "message" (Doc.ofJson (.object [("roomId", .string r.text), ("data", v)])) :=
    ofString_render_eventJson (show "message" ∈ names by decide) ⟨trivial, integral, trivial⟩
  rw [frame]
  cases read : value .text payloadLevels (Doc.ofJson v) <;>
    simp [content, readFields, Doc.ofJson, Doc.ofMembers, foldMembers, EventFields.step, once,
      ofText, Quoted.ofString, Shape.string, read, bind, Except.bind, Except.map, Doc.stopped, pure,
      Except.pure, required]

end ClientEvent

namespace ServerEvent

/-- The frame nests two levels deeper than the payload. -/
theorem depth_message (r : RoomId) (p : PeerId) (v : Json) :
    (message r p v).toJson.depth = v.depth + 2 := by
  simp [toJson, eventJson, Json.depth, depthMembers]

/-- Reading the frame of a message comes down to reading its payload. -/
theorem ofWire_wire_message {r : RoomId} {p : PeerId} {v : Json} (integral : v.All Integral) :
    ofWire (message r p v).wire =
      (value .text payloadLevels (Doc.ofJson v)).map (message r p) := by
  have frame : ofWire (message r p v).wire = content .text "message" (Doc.ofJson (.object
      [("roomId", .string r.text), ("from", .string p.text), ("data", v)])) :=
    ofString_render_eventJson (show "message" ∈ names by decide)
      ⟨trivial, trivial, integral, trivial⟩
  rw [frame]
  cases read : value .text payloadLevels (Doc.ofJson v) <;>
    simp [content, readFields, Doc.ofJson, Doc.ofMembers, foldMembers, EventFields.step, once,
      ofText, Quoted.ofString, Shape.string, read, bind, Except.bind, Except.map, Doc.stopped, pure,
      Except.pure, required]

/-- The member reads the message that was passed on, or nothing: the payload may nest too deep, or
hold an object that starts with the key of given values. -/
theorem ofWire_wire_message_iff {r : RoomId} {p : PeerId} {v : Json} (integral : v.All Integral)
    (sorted : v.All Sorted) (notGiven : v.All NotGiven) (e : ServerEvent) :
    ofWire (message r p v).wire = .ok e ↔
      e = message r p v ∧ (message r p v).toJson.depth ≤ nestingLimit ∧ v.All Plain := by
  rw [ofWire_wire_message integral, map_eq_ok, depth_message]
  have fits : v.depth + 2 ≤ nestingLimit ↔ v.depth ≤ payloadLevels := by
    simp only [payloadLevels, nestingLimit]
    omega
  rw [fits]
  constructor
  · rintro ⟨w, read, rfl⟩
    obtain ⟨rfl, fits, plain⟩ := (value_ofJson_eq_ok sorted notGiven).mp read
    exact ⟨rfl, fits, plain⟩
  · rintro ⟨rfl, fits, plain⟩
    exact ⟨v, (value_ofJson_eq_ok sorted notGiven).mpr ⟨rfl, fits, plain⟩, rfl⟩

end ServerEvent

/-! ## Passing on -/

namespace Registry

/-- A room with two members. -/
def pair : Registry :=
  ((empty 2).relay [.signal ⟨"a"⟩ (.join ⟨"r"⟩), .signal ⟨"b"⟩ (.join ⟨"r"⟩)]).1

/-- A message that a member sends comes to each other member as one frame. What the member reads off
this frame is the message, if the frame does not nest too deep and no object in the payload starts
with the key of given values, and otherwise nothing. It always is the message if no object in the
sender's frame has this key. -/
theorem forwarded_read_iff (capacity : Nat) (events : List TransportEvent) {t : String} {r : RoomId}
    {v : Json} {p q : PeerId} :
    let g := ((empty capacity).relay events).1
    let frame := (ServerEvent.message r p v).wire
    ClientEvent.ofWire t = .ok (.message r v) → v.All Integral → (Message.parse v).isOk →
    p ∈ g.members r → q ∈ g.members r → q ≠ p →
      (heard (g.handle (.signal p (.message r v))).2 q).map ServerEvent.wire = [frame] ∧
      (∀ e, ServerEvent.ofWire frame = .ok e ↔
        e = .message r p v ∧ (ServerEvent.message r p v).toJson.depth ≤ nestingLimit ∧
          v.All Plain) ∧
      (WithoutKey (Text.read t).root →
        ServerEvent.ofWire frame = .ok (.message r p v)) := by
  intro g frame read integral parsed sender receiver other
  obtain ⟨medium, d, free, inside⟩ := ClientEvent.value_of_ofWire read
  obtain ⟨sorted, notGiven⟩ := value_canonical free
  have reads := ServerEvent.ofWire_wire_message_iff (r := r) (p := p) integral sorted notGiven
  refine ⟨?_, reads, fun without => (reads _).mpr ⟨rfl, ?_⟩⟩
  · have tidy : g.Tidy := (Tidy.empty capacity).relay events
    rw [(routed_message tidy p r v).2 q]
    simp [hears, sender, receiver, other, parsed, frame]
  · obtain ⟨fits, plain⟩ := plain_of_withoutKey (inside without) free
    refine ⟨?_, plain⟩
    rw [ServerEvent.depth_message]
    exact Nat.add_le_add_right fits 2

/-- An unusual spelling: a sequence, with an escape, blanks and a member that nobody asks for. -/
theorem forwarded_sequence_read :
    let t := "[\"message\", \x7b\"data\":[\"offer\",\"\\u0078\"], \"to\":1, \"roomId\":\"r\"\x7d ]"
    let v : Json := .array [.string "offer", .string "x"]
    let frame := (ServerEvent.message ⟨"r"⟩ ⟨"a"⟩ v).wire
    ClientEvent.ofWire t = .ok (.message ⟨"r"⟩ v) ∧
      (heard (pair.handle (.signal ⟨"a"⟩ (.message ⟨"r"⟩ v))).2 ⟨"b"⟩).map ServerEvent.wire =
        [frame] ∧
      ServerEvent.ofWire frame = .ok (.message ⟨"r"⟩ ⟨"a"⟩ v) := by
  intro t v frame
  have text : Text.read t = ⟨.array
      [.string (.ofString "message"),
        .object
          [(.ofString "data", .array [.string (.ofString "offer"), .string (.ofString "x")] none),
            (.ofString "to", .number (.ok (.int 1)) (.ok ())),
            (.ofString "roomId", .string (.ofString "r"))] none] none, false⟩ := by
    simp only [Text.read, t, String.reduceToList]
    rfl
  have read : ClientEvent.ofWire t = .ok (.message ⟨"r"⟩ v) := by
    simp only [ClientEvent.ofWire, ofString, text]
    rfl
  have keyless : WithoutKey (Text.read t).root := by
    rw [text]
    simp [WithoutKey, ItemsWithoutKey, MembersWithoutKey, Quoted.ofString, givenKey]
  obtain ⟨frames, -, reads⟩ := forwarded_read_iff 2
    [.signal ⟨"a"⟩ (.join ⟨"r"⟩), .signal ⟨"b"⟩ (.join ⟨"r"⟩)] (p := ⟨"a"⟩) (q := ⟨"b"⟩) read
    (by simp [v, All, AllItems, Integral]) rfl (by decide) (by decide) (by decide)
  exact ⟨read, frames, reads keyless⟩

/-! ## What is lost -/

/-- A frame of the member `a` of `pair` is a message with this payload, which is passed on to the
member `b`, and `b` can read nothing off the frame that it gets. -/
structure Lost (t : String) (v : Json) : Prop where
  read : ClientEvent.ofWire t = .ok (.message ⟨"r"⟩ v)
  integral : v.All Integral
  parsed : (Message.parse v).isOk
  heard : heard (pair.handle (.signal ⟨"a"⟩ (.message ⟨"r"⟩ v))).2 ⟨"b"⟩ = [.message ⟨"r"⟩ ⟨"a"⟩ v]
  unread : ∀ e, ServerEvent.ofWire (ServerEvent.message ⟨"r"⟩ ⟨"a"⟩ v).wire ≠ .ok e

/-- An offer with one more member. -/
def offerWith (m : String × Json) : Json :=
  .object [("type", .string "offer"), ("sdp", .string "x"), m]

/-- Arrays inside one another. -/
def nest : Nat → Json
  | 0 => .array []
  | n + 1 => .array [nest n]

theorem depth_nest (n : Nat) : (nest n).depth = n + 1 := by
  induction n with
  | zero => rfl
  | succ n ih => simp [nest, Json.depth, depthItems, ih]

theorem all_nest {P : Json → Prop} (arrays : ∀ items, P (.array items)) (n : Nat) :
    (nest n).All P := by
  induction n with
  | zero => exact ⟨arrays [], trivial⟩
  | succ n ih => exact ⟨arrays [nest n], ih, trivial⟩

/-- The payload that is read off an offer in which a member may be given as its text. -/
theorem ofWire_offerWith {k : String} {x w : Json} (integral : x.All Integral)
    (read : valueWith (fun text => givenValue (text.length + 1) text) .text (payloadLevels - 1)
      (Doc.ofJson x) = .ok w) :
    ClientEvent.ofWire (ClientEvent.message ⟨"r"⟩ (offerWith (k, x))).wire =
      .ok (.message ⟨"r"⟩ (offerWith (k, w)).canonical) := by
  have key : ("type" : String) ≠ givenKey := by decide
  have members : value .text payloadLevels (Doc.ofJson (offerWith (k, x))) =
      .ok (offerWith (k, w)).canonical := by
    have levels : payloadLevels = (payloadLevels - 1) + 1 := rfl
    rw [levels]
    simp only [value, offerWith, Doc.ofJson, Doc.ofMembers, valueWith, given?, Quoted.ofString,
      if_neg key, membersWith, read]
    rfl
  rw [ClientEvent.ofWire_wire_message, members]
  · rfl
  · simp [offerWith, All, AllMembers, Integral, integral]

theorem plain_offerWith {k : String} {w : Json} (plain : w.All Plain) :
    (offerWith (k, w)).All Plain :=
  ⟨show ("type" : String) ≠ givenKey by decide, trivial, trivial, plain, trivial⟩

theorem tidy_pair : pair.Tidy := (Tidy.empty 2).relay _

/-- An offer that can be read as a message gets lost if it nests too deep or starts with the key of
given values when its members are sorted. -/
theorem lost_offerWith {k : String} {x w : Json} (integral : x.All Integral)
    (read : valueWith (fun text => givenValue (text.length + 1) text) .text (payloadLevels - 1)
      (Doc.ofJson x) = .ok w) (plain : w.All Plain)
    (integralSorted : (offerWith (k, w)).canonical.All Integral)
    (parsed : (Message.parse (offerWith (k, w)).canonical).isOk)
    (unread : payloadLevels < (offerWith (k, w)).canonical.depth ∨
      ¬ (offerWith (k, w)).canonical.All Plain) :
    Lost (ClientEvent.message ⟨"r"⟩ (offerWith (k, x))).wire (offerWith (k, w)).canonical where
  read := ofWire_offerWith integral read
  integral := integralSorted
  parsed := parsed
  heard := by
    rw [(routed_message tidy_pair ⟨"a"⟩ ⟨"r"⟩ _).2 ⟨"b"⟩]
    exact if_pos ⟨by decide, by decide, by decide, parsed⟩
  unread e read := by
    have notGiven : (offerWith (k, w)).canonical.All NotGiven :=
      all_canonical (fun _ => Plain.notGiven_canonical) _ (plain_offerWith plain)
    rw [ServerEvent.ofWire_wire_message integralSorted, map_eq_ok] at read
    obtain ⟨v, read, -⟩ := read
    obtain ⟨-, fits, plain⟩ := (value_ofJson_eq_ok (all_sorted_canonical _) notGiven).mp read
    exact unread.elim (Nat.not_lt_of_le fits) (absurd plain)

/-- A member that nobody asks for does no harm. -/
theorem parse_offer_and (w : Json) :
    Message.parse (.object [("sdp", .string "x"), ("type", .string "offer"), ("x", w)]) =
      .ok (.offer "x") := by
  have kind : Message.kindOf (.string "offer") = .ok .offer := rfl
  simp [Message.parse, Message.ofJson, member?, kind, Message.ofMembers, Doc.ofMembers, foldMembers,
    Message.sdpStep, Quoted.ofString, ofText, once, Doc.ofJson, Shape.string, skip, skim_ofJson,
    required, Doc.stopped, bind, Except.bind, Except.map, pure, Except.pure, Message.ofSdp]

/-- Two payloads that get lost. In the first one the key of given values stands behind others, and
sorting brings it to the front. In the second one the text of a given value nests as deep as a text
may, which is deeper than a payload may. -/
theorem forwarded_lost :
    Lost (ClientEvent.message ⟨"r"⟩ (offerWith (givenKey, .string "1"))).wire
        (offerWith (givenKey, .string "1")).canonical ∧
      Lost (ClientEvent.message ⟨"r"⟩
          (offerWith ("x", .object [(givenKey, .string (nest 126).render)]))).wire
        (offerWith ("x", nest 126)).canonical := by
  have sorted : (offerWith (givenKey, .string "1")).canonical =
      .object [(givenKey, .string "1"), ("sdp", .string "x"), ("type", .string "offer")] := rfl
  have deep : (offerWith ("x", nest 126)).canonical =
      .object [("sdp", .string "x"), ("type", .string "offer"), ("x", nest 126)] := by
    have same : (nest 126).canonical = nest 126 :=
      canonical_of_all_sorted _ (all_nest (fun _ => trivial) 126)
    have members (w : Json) : (offerWith ("x", w)).canonical =
        .object [("sdp", .string "x"), ("type", .string "offer"), ("x", w.canonical)] := rfl
    rw [members, same]
  have plainNest : (nest 126).All Plain := all_nest (fun _ => trivial) 126
  have integralNest : (nest 126).All Integral := all_nest (fun _ => trivial) 126
  have given := valueWith_render 123 integralNest plainNest (Nat.le_of_eq (depth_nest 126))
  refine ⟨lost_offerWith trivial rfl trivial ?_ rfl (.inr ?_),
    lost_offerWith ⟨trivial, trivial, trivial⟩ given plainNest ?_ ?_ (.inl ?_)⟩
  · rw [sorted]
    exact ⟨trivial, trivial, trivial, trivial, trivial⟩
  · rw [sorted]
    exact fun plain => plain.1 rfl
  · rw [deep]
    exact ⟨trivial, trivial, trivial, integralNest, trivial⟩
  · rw [deep, parse_offer_and]
    rfl
  · rw [deep]
    simp [Json.depth, depthMembers, depth_nest, payloadLevels, nestingLimit]

end Registry

end Parley
