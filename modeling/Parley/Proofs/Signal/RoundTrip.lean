import Parley.Proofs.Signal.Description
import Parley.Proofs.Signal.Forwarding

/-!
# What is written is read

Session descriptions, candidates, servers and events travel as texts. Every string in them survives,
whatever it consists of. The payload of a message is a free value: it is read as itself exactly if
it nests no deeper than the frame leaves room for and no object in it starts with the key of given
values.
-/

namespace Parley

open Parley.Json Parley.Shape

/-! ## The law -/

/-- How `a` fares as a text. `payload?` is the free value in it, if there is one. -/
structure Faithful {α : Type} (toJson : α → Json) (ofDoc : Doc → Reading α) (payload? : Option Json)
    (a : α) : Prop where
  /-- There always is a text, and it is a document without faults. -/
  written : Text.read (toJson a).render = ⟨Doc.ofJson (toJson a), false⟩
  /-- When `a` is read off this text again. -/
  read_iff : ofString ofDoc (toJson a).render = .ok a ↔
    ∀ v ∈ payload?, v.depth ≤ payloadLevels ∧ v.All Plain
  /-- If it is, the text is written again. -/
  again : (∀ v ∈ payload?, v.depth ≤ payloadLevels ∧ v.All Plain) →
    (ofString ofDoc (toJson a).render).map (fun b => (toJson b).render) = .ok (toJson a).render
  /-- A payload that nests too deep is a fault of the text. -/
  deep : ∀ v ∈ payload?, payloadLevels < v.depth → v.All Plain →
    ofString ofDoc (toJson a).render = .error (.fault .nesting)

section

variable {α : Type} {toJson : α → Json} {ofDoc : Doc → Reading α} {a : α}

/-- Reading a text that was written comes down to reading the document. -/
theorem ofString_render {v : Json} (integral : v.All Integral) :
    ofString ofDoc v.render = ofDoc (Doc.ofJson v) := by
  simp only [ofString, read_render integral]
  cases ofDoc (Doc.ofJson v) <;> rfl

/-- Without a free value it is enough that the document is read. -/
theorem Faithful.of_read (integral : (toJson a).All Integral)
    (read : ofDoc (Doc.ofJson (toJson a)) = .ok a) : Faithful toJson ofDoc none a where
  written := read_render integral
  read_iff := by simp [ofString_render integral, read]
  again _ := by
    rw [ofString_render integral, read]
    rfl
  deep _ given := by cases given

/-- With a free value it is enough that reading the text comes down to reading this value. -/
theorem Faithful.of_payload {wrap : Json → α} {v : Json} (injective : wrap.Injective)
    (integral : (toJson (wrap v)).All Integral) (sorted : v.All Sorted)
    (read : ofString ofDoc (toJson (wrap v)).render =
      (value .text payloadLevels (Doc.ofJson v)).map wrap) :
    Faithful toJson ofDoc (some v) (wrap v) := by
  have itself : ofString ofDoc (toJson (wrap v)).render = .ok (wrap v) ↔
      v.depth ≤ payloadLevels ∧ v.All Plain := by
    rw [read, map_eq_ok]
    constructor
    · rintro ⟨w, free, same⟩
      cases injective same
      exact ((value_ofJson_eq_ok sorted (value_canonical free).2).mp free).2
    · rintro ⟨fits, plain⟩
      have notGiven : v.All NotGiven := by
        have canonical := all_canonical (fun _ => Plain.notGiven_canonical) v plain
        rwa [canonical_of_all_sorted v sorted] at canonical
      exact ⟨v, (value_ofJson_eq_ok sorted notGiven).mpr ⟨rfl, fits, plain⟩, rfl⟩
  refine ⟨read_render integral, ?_, fun fits => ?_, fun w given deep plain => ?_⟩
  · simpa using itself
  · rw [itself.mpr (fits v rfl)]
    rfl
  · cases given
    rw [read, value_ofJson_deep plain deep]
    rfl

end

/-! ## Records -/

theorem Description.faithful (d : Description) : Faithful toJson ofDoc none d := by
  refine .of_read ⟨trivial, trivial, trivial, trivial⟩ ?_
  obtain ⟨kind, sdp⟩ := d
  cases kind <;> rfl

theorem all_integral_optionalText (m : Option String) : (optionalText m).All Integral := by
  cases m <;> trivial

theorem all_integral_optionalU16 (n : Option UInt16) : (optionalU16 n).All Integral := by
  cases n with
  | none => trivial
  | some n =>
    have small : n.toNat < 65536 := n.toNat_lt
    have inRange : Number.InRange n.toNat := by
      have powers : Nat.pow 2 63 = 9223372036854775808 ∧ Nat.pow 2 64 = 18446744073709551616 :=
        ⟨rfl, rfl⟩
      rw [Number.InRange, powers.1, powers.2]
      omega
    exact ⟨n.toNat, rfl, inRange⟩

theorem Candidate.faithful (c : Candidate) : Faithful toJson ofDoc none c := by
  have integral : c.toJson.All Integral :=
    ⟨trivial, trivial, all_integral_optionalText c.mid, all_integral_optionalU16 c.lineIndex,
      trivial⟩
  exact .of_read integral (ofMembers_eq_ok.mpr ⟨rfl, .inr rfl, .inr rfl⟩)

theorem allItems_integral_strings (texts : List String) :
    AllItems Integral (texts.map .string) := by
  induction texts with
  | nil => trivial
  | cons text rest ih => exact ⟨trivial, ih⟩

theorem IceServer.faithful (s : IceServer) : Faithful toJson ofDoc none s := by
  have integral : s.toJson.All Integral :=
    ⟨trivial, ⟨trivial, allItems_integral_strings s.urls⟩, all_integral_optionalText s.username,
      all_integral_optionalText s.credential, trivial⟩
  have urls := strings_ofJson s.urls
  have username := optional_string_ofJson.mpr (Eq.refl (optionalText s.username))
  have credential := optional_string_ofJson.mpr (Eq.refl (optionalText s.credential))
  refine .of_read integral ?_
  have fields : foldMembers Fields.step none ⟨none, none, none⟩ (Doc.ofMembers
      [("urls", .array (s.urls.map .string)), ("username", optionalText s.username),
        ("credential", optionalText s.credential)]) =
      .ok ⟨some s.urls, some s.username, some s.credential⟩ := by
    simp only [foldMembers_ofMembers_cons, foldMembers_ofMembers_nil, Fields.step, once]
    refine ⟨⟨some s.urls, none, none⟩, ?_, ⟨some s.urls, some s.username, none⟩, ?_, _, ?_, rfl⟩
    · rw [urls]
      rfl
    · rw [username]
      rfl
    · rw [credential]
      rfl
  simp only [toJson, Doc.ofJson, ofDoc, fields]
  rfl

/-! ## Events -/

/-- The payload of an event, if it has one. -/
def ClientEvent.payload? : ClientEvent → Option Json
  | .message _ v => some v
  | .join _ | .leave _ => none

@[inherit_doc ClientEvent.payload?]
def ServerEvent.payload? : ServerEvent → Option Json
  | .message _ _ v => some v
  | .joined .. | .otherJoin .. | .full .. | .leaved .. | .bye .. => none

theorem ClientEvent.faithful (e : ClientEvent)
    (tree : ∀ v ∈ e.payload?, v.All Sorted ∧ v.All Integral) :
    Faithful toJson ofDoc e.payload? e := by
  cases e with
  | message r v =>
    obtain ⟨sorted, integral⟩ := tree v rfl
    have injective : (message r).Injective := fun v w same => by cases same; rfl
    exact .of_payload injective
      ⟨trivial, trivial, ⟨trivial, trivial, integral, trivial⟩, trivial⟩ sorted
      (ofWire_wire_message integral)
  | _ => exact .of_read ⟨trivial, trivial, ⟨trivial, trivial, trivial⟩, trivial⟩ rfl

theorem ServerEvent.faithful (e : ServerEvent)
    (tree : ∀ v ∈ e.payload?, v.All Sorted ∧ v.All Integral) :
    Faithful toJson ofDoc e.payload? e := by
  cases e with
  | message r p v =>
    obtain ⟨sorted, integral⟩ := tree v rfl
    have injective : (message r p).Injective := fun v w same => by cases same; rfl
    exact .of_payload injective
      ⟨trivial, trivial, ⟨trivial, trivial, trivial, integral, trivial⟩, trivial⟩ sorted
      (ofWire_wire_message integral)
  | _ => exact .of_read ⟨trivial, trivial, ⟨trivial, trivial, trivial, trivial⟩, trivial⟩ rfl

/-! ## Everything that travels -/

/-- Whatever is written as a text is read off it again, and the same text is written again. Only
the payload of a message can stand in the way: by nesting more than 125 deep, which is a fault of
the text, or by an object that starts with the key of given values. -/
theorem wire_faithful (d : Description) (c : Candidate) (s : IceServer)
    (sent : ClientEvent) (sentTree : ∀ v ∈ sent.payload?, v.All Sorted ∧ v.All Integral)
    (heard : ServerEvent) (heardTree : ∀ v ∈ heard.payload?, v.All Sorted ∧ v.All Integral) :
    payloadLevels = 125 ∧
    Faithful Description.toJson Description.ofDoc none d ∧
    Faithful Candidate.toJson Candidate.ofDoc none c ∧
    Faithful IceServer.toJson IceServer.ofDoc none s ∧
    Faithful ClientEvent.toJson ClientEvent.ofDoc sent.payload? sent ∧
    Faithful ServerEvent.toJson ServerEvent.ofDoc heard.payload? heard :=
  ⟨rfl, d.faithful, c.faithful, s.faithful, sent.faithful sentTree, heard.faithful heardTree⟩

/-- The edge: 125 arrays inside one another are read, the 126th is a fault. -/
theorem nested_faithful :
    let sent (levels : Nat) := ClientEvent.message ⟨"\"\\\u0000"⟩ (Registry.nest levels)
    let heard (levels : Nat) := ServerEvent.message ⟨"r"⟩ ⟨""⟩ (Registry.nest levels)
    ClientEvent.ofWire (sent 124).wire = .ok (sent 124) ∧
      ClientEvent.ofWire (sent 125).wire = .error (.fault .nesting) ∧
      ServerEvent.ofWire (heard 124).wire = .ok (heard 124) ∧
      ServerEvent.ofWire (heard 125).wire = .error (.fault .nesting) := by
  intro sent heard
  have plain (levels : Nat) : (Registry.nest levels).All Plain :=
    Registry.all_nest (fun _ => trivial) levels
  have tree (levels : Nat) : ∀ v ∈ some (Registry.nest levels), v.All Sorted ∧ v.All Integral := by
    rintro v ⟨⟩
    exact ⟨Registry.all_nest (fun _ => trivial) levels, Registry.all_nest (fun _ => trivial) levels⟩
  have fits : ∀ v ∈ some (Registry.nest 124), v.depth ≤ payloadLevels ∧ v.All Plain := by
    rintro v ⟨⟩
    exact ⟨Nat.le_of_eq (Registry.depth_nest 124), plain 124⟩
  have deep : payloadLevels < (Registry.nest 125).depth := by
    rw [Registry.depth_nest]
    decide
  have faithful (levels : Nat) := wire_faithful ⟨.offer, ""⟩ ⟨"", none, none⟩ ⟨[], none, none⟩
    (sent levels) (tree levels) (heard levels) (tree levels)
  obtain ⟨-, -, -, -, sentFits, heardFits⟩ := faithful 124
  obtain ⟨-, -, -, -, sentDeep, heardDeep⟩ := faithful 125
  exact ⟨sentFits.read_iff.mpr fits, sentDeep.deep _ rfl deep (plain 125),
    heardFits.read_iff.mpr fits, heardDeep.deep _ rfl deep (plain 125)⟩

/-- A payload that consists of the key of given values with the text of a number is read as that
number. -/
theorem given_unfaithful :
    let v : Json := .object [(givenKey, .string "1")]
    let sent := ClientEvent.message ⟨"r"⟩ v
    v.All Sorted ∧ v.All Integral ∧ v.depth ≤ 125 ∧
      ClientEvent.ofWire sent.wire = .ok (.message ⟨"r"⟩ (.number (.int 1))) ∧
      ClientEvent.ofWire sent.wire ≠ .ok sent := by
  intro v sent
  have integral : v.All Integral := ⟨trivial, trivial, trivial⟩
  have sorted : v.All Sorted := ⟨List.pairwise_singleton _ _, trivial, trivial⟩
  have free : value .text payloadLevels (Doc.ofJson v) = .ok (.number (.int 1)) := rfl
  have read : ClientEvent.ofWire sent.wire = .ok (.message ⟨"r"⟩ (.number (.int 1))) := by
    rw [ClientEvent.ofWire_wire_message integral, free]
    rfl
  refine ⟨sorted, integral, by decide, read, ?_⟩
  intro itself
  have same : sent = .message ⟨"r"⟩ (.number (.int 1)) := Except.ok.inj (itself.symm.trans read)
  have other : Json.object [(givenKey, .string "1")] = .number (.int 1) :=
    (ClientEvent.message.inj same).2
  cases other

end Parley
