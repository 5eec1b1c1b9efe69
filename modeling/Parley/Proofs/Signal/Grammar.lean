import Parley.Proofs.Signal.Description
import Parley.Proofs.Signal.Message

/-!
# The grammar of messages

Which values are read as which message. A message is spelled by an object, whose member `type` says
what kind it is, or by an array that starts with the kind. The older names `id` and `label` of a
candidate's fields mean the same as `sdpMid` and `sdpMLineIndex`, and a message that is sent is
spelled with the latter.
-/

namespace Parley.Message

open Parley.Json Parley.Shape

/-! ## Spelling -/

/-- The items of an array that follow the text of a candidate. -/
def Trails (c : Candidate) (items : List Json) : Prop :=
  items = [] ∧ c.mid = none ∧ c.lineIndex = none ∨
    items = [optionalText c.mid] ∧ c.lineIndex = none ∨
    items = [optionalText c.mid, optionalU16 c.lineIndex]

/-- How messages are spelled. A member that no field of the message has the name of does not
matter. -/
inductive Spells : Json → Message → Prop where
  | description {members : List (String × Json)} {d : Description} :
      (Json.object members).member? "type" = some (.string d.kind.name) →
      named ["sdp"] members = [.string d.sdp] →
      Spells (.object members) (ofDescription d)
  | candidate {members : List (String × Json)} {c : Candidate} :
      (Json.object members).member? "type" = some (.string "candidate") →
      named ["candidate"] members = [.string c.candidate] →
      Holds optionalText (named ["sdpMid", "id"] members) c.mid →
      Holds optionalU16 (named ["sdpMLineIndex", "label"] members) c.lineIndex →
      Spells (.object members) (.candidate c)
  | descriptionItems {d : Description} :
      Spells (.array [.string d.kind.name, .string d.sdp]) (ofDescription d)
  | candidateItems {c : Candidate} {items : List Json} :
      Trails c items →
      Spells (.array (.string "candidate" :: .string c.candidate :: items)) (.candidate c)

/-! ## The kind -/

theorem parse_eq_ok {v : Json} {m : Message} : parse v = .ok m ↔ ofJson v = .ok m := by
  unfold parse
  cases ofJson v with
  | ok => simp
  | error e => cases e <;> simp

theorem kindOf_eq_ok {v : Json} {kind : Kind} : kindOf v = .ok kind ↔ v = .string kind.name := by
  cases v with
  | string name =>
    by_cases mem : name ∈ Kind.names
    · have read : kindOf (.string name) = .ok (Kind.ofName name) := by
        simp [kindOf, Doc.ofJson, identifier, Quoted.ofString, ofText, known, mem, bind,
          Except.bind, Except.map]
      rw [read, Except.ok.injEq, Json.string.injEq]
      simp only [Kind.names, List.mem_cons, List.not_mem_nil, or_false] at mem
      rcases mem with rfl | rfl | rfl <;> cases kind <;> decide
    · have read : kindOf (.string name) = refuse (.unknownVariant name Kind.names) := by
        simp [kindOf, Doc.ofJson, identifier, Quoted.ofString, ofText, known, mem, bind,
          Except.bind, Except.map, refuse]
      rw [read]
      refine iff_of_false ?_ ?_ <;> rintro ⟨⟩
      exact mem (by cases kind <;> decide)
  | _ => refine iff_of_false ?_ ?_ <;> rintro ⟨⟩

/-- The kind of a description's message. -/
theorem name_kind_ofDescription (d : Description) : (ofDescription d).kind.name = d.kind.name := by
  obtain ⟨kind, sdp⟩ := d
  cases kind <;> rfl

theorem kind_ofDescription_ne (d : Description) : (ofDescription d).kind ≠ .candidate := by
  obtain ⟨kind, sdp⟩ := d
  cases kind <;> rintro ⟨⟩

theorem ofSdp_ofDescription (d : Description) :
    ofSdp (ofDescription d).kind d.sdp = ofDescription d := by
  obtain ⟨kind, sdp⟩ := d
  cases kind <;> rfl

/-- A kind other than a candidate's is the kind of a description. -/
theorem exists_description {kind : Kind} (other : kind ≠ .candidate) (sdp : String) :
    ∃ d : Description, d.sdp = sdp ∧ d.kind.name = kind.name ∧
      ofSdp kind sdp = ofDescription d := by
  cases kind with
  | offer => exact ⟨⟨.offer, sdp⟩, rfl, rfl, rfl⟩
  | answer => exact ⟨⟨.answer, sdp⟩, rfl, rfl, rfl⟩
  | candidate => exact absurd rfl other

/-! ## Objects -/

theorem foldMembers_sdpStep {members : List (String × Json)} {seen found : Option String} :
    foldMembers sdpStep none seen (Doc.ofMembers members) = .ok found ↔
      FieldRead .string ["sdp"] members seen found := by
  induction members generalizing seen with
  | nil => rw [foldMembers_ofMembers_nil, fieldRead_nil, eq_comm]
  | cons m rest ih =>
    obtain ⟨k, v⟩ := m
    rw [foldMembers_ofMembers_cons]
    by_cases key : k = "sdp"
    · rw [fieldRead_cons_of_mem (List.mem_singleton.mpr key)]
      simp only [sdpStep, if_pos key, once_ofJson string_ofJson, ih]
      constructor
      · rintro ⟨_, ⟨unseen, a, rfl, rfl⟩, read⟩
        exact ⟨unseen, a, rfl, read⟩
      · rintro ⟨unseen, a, rfl, read⟩
        exact ⟨some a, ⟨unseen, a, rfl, rfl⟩, read⟩
    · rw [fieldRead_cons_of_not_mem (mt List.mem_singleton.mp key)]
      simp only [sdpStep, if_neg key, skip_ofJson, Except.ok.injEq, exists_eq_left', ih]

theorem ofMembers_eq_ok_of_ne {kind : Kind} (other : kind ≠ .candidate)
    {members : List (String × Json)} {m : Message} :
    ofMembers kind (Doc.ofMembers members) = .ok m ↔
      ∃ sdp, named ["sdp"] members = [.string sdp] ∧ m = ofSdp kind sdp := by
  cases kind with
  | candidate => exact absurd rfl other
  | offer | answer =>
    simp only [ofMembers, bind_eq_ok, pure_eq_ok, required_eq_ok, foldMembers_sdpStep]
    constructor
    · rintro ⟨_, read, sdp, rfl, rfl⟩
      exact ⟨sdp, read, rfl⟩
    · rintro ⟨sdp, read, rfl⟩
      exact ⟨some sdp, read, sdp, rfl, rfl⟩

theorem ofMembers_candidate_eq_ok {members : List (String × Json)} {m : Message} :
    ofMembers .candidate (Doc.ofMembers members) = .ok m ↔
      ∃ c : Candidate, m = .candidate c ∧
        named ["candidate"] members = [.string c.candidate] ∧
        Holds optionalText (named ["sdpMid", "id"] members) c.mid ∧
        Holds optionalU16 (named ["sdpMLineIndex", "label"] members) c.lineIndex := by
  simp only [ofMembers, map_eq_ok, Candidate.ofMembers_eq_ok]
  exact exists_congr fun c => by rw [and_comm, eq_comm]; rfl

/-- The kind is not a member of the message. -/
theorem named_filter {keys : List String} (other : "type" ∉ keys)
    (members : List (String × Json)) :
    named keys (members.filter fun m => m.1 != "type") = named keys members := by
  simp only [named, List.filter_filter]
  congr 1
  refine List.filter_congr fun m _ => ?_
  by_cases mem : m.1 ∈ keys
  · have key : m.1 ≠ "type" := fun same => other (same ▸ mem)
    simp [mem, key]
  · simp [mem]

theorem ofJson_object_eq_ok {members : List (String × Json)} {m : Message} :
    ofJson (.object members) = .ok m ↔ Spells (.object members) m := by
  have reads : ofJson (.object members) = .ok m ↔ ∃ kind : Kind,
      (Json.object members).member? "type" = some (.string kind.name) ∧
        ofMembers kind (Doc.ofMembers (members.filter fun m => m.1 != "type")) = .ok m := by
    simp only [ofJson]
    cases (Json.object members).member? "type" with
    | none => simp [refuse]
    | some v => simp [bind_eq_ok, kindOf_eq_ok]
  rw [reads]
  constructor
  · rintro ⟨kind, type, read⟩
    by_cases candidate : kind = .candidate
    · subst candidate
      obtain ⟨c, rfl, text, mid, index⟩ := ofMembers_candidate_eq_ok.mp read
      rw [named_filter (by decide)] at text mid index
      exact .candidate type text mid index
    · obtain ⟨sdp, found, rfl⟩ := (ofMembers_eq_ok_of_ne candidate).mp read
      rw [named_filter (by decide)] at found
      obtain ⟨d, rfl, name, same⟩ := exists_description candidate sdp
      rw [same]
      exact .description (name ▸ type) found
  · intro spells
    cases spells with
    | @description _ d type found =>
      refine ⟨(ofDescription d).kind, by rw [type, name_kind_ofDescription], ?_⟩
      rw [ofMembers_eq_ok_of_ne (kind_ofDescription_ne d), named_filter (by decide)]
      exact ⟨d.sdp, found, (ofSdp_ofDescription d).symm⟩
    | candidate type text mid index =>
      refine ⟨.candidate, type, ofMembers_candidate_eq_ok.mpr ⟨_, rfl, ?_⟩⟩
      rw [named_filter (by decide), named_filter (by decide), named_filter (by decide)]
      exact ⟨text, mid, index⟩

/-! ## Arrays -/

theorem endAfter_ofItems {count : Nat} {items : List Json} :
    endAfter count ⟨Doc.ofItems items, none⟩ = .ok () ↔ items = [] := by
  cases items with
  | nil => simp [endAfter, Doc.ofItems]
  | cons v rest => simp [endAfter, Doc.ofItems, refuse]

theorem ofItems_candidate_eq_ok {items : List Json} {m : Message} :
    ofItems .candidate (Doc.ofItems items) = .ok m ↔
      ∃ c : Candidate, m = .candidate c ∧
        ∃ rest, items = .string c.candidate :: rest ∧ Trails c rest := by
  simp only [ofItems, Candidate.ofItems, bind_eq_ok, pure_eq_ok, Prod.exists, expect_ofItems,
    string_ofJson]
  constructor
  · rintro ⟨c, left, ⟨text, _, ⟨_, afterText, rfl, rfl, rfl⟩, mid, _, readMid, index, _, readIndex,
      same⟩, _, ended, rfl⟩
    cases same
    refine ⟨_, rfl, afterText, rfl, ?_⟩
    rcases expectOr_ofItems.mp readMid with ⟨rfl, rfl, rfl⟩ | ⟨v, afterMid, rfl, givenMid, rfl⟩
    · rcases expectOr_ofItems.mp readIndex with ⟨-, rfl, rfl⟩ | ⟨_, _, more, -⟩
      · exact .inl ⟨rfl, rfl, rfl⟩
      · cases more
    · have mid := optional_string_ofJson.mp givenMid
      rcases expectOr_ofItems.mp readIndex with
        ⟨rfl, rfl, rfl⟩ | ⟨w, afterIndex, rfl, givenIndex, rfl⟩
      · exact .inr (.inl ⟨by rw [mid], rfl⟩)
      · have index := optional_u16_ofJson.mp givenIndex
        obtain rfl := endAfter_ofItems.mp ended
        exact .inr (.inr (by rw [mid, index]))
  · rintro ⟨⟨text, mid, index⟩, rfl, rest, rfl, left⟩
    have readMid := optional_string_ofJson.mpr (Eq.refl (optionalText mid))
    have readIndex := optional_u16_ofJson.mpr (Eq.refl (optionalU16 index))
    obtain ⟨after, first, second⟩ : ∃ after : Cursor,
        Cursor.expectOr ⟨Doc.ofItems rest, none⟩ none (Shape.optional Shape.string) =
          .ok (mid, after) ∧
        after.expectOr none (Shape.optional u16) = .ok (index, ⟨Doc.ofItems [], none⟩) := by
      rcases left with ⟨rfl, rfl, rfl⟩ | ⟨rfl, rfl⟩ | rfl
      · exact ⟨_, expectOr_ofItems.mpr (.inl ⟨rfl, rfl, rfl⟩),
          expectOr_ofItems.mpr (.inl ⟨rfl, rfl, rfl⟩)⟩
      · exact ⟨_, expectOr_ofItems.mpr (.inr ⟨_, [], rfl, readMid, rfl⟩),
          expectOr_ofItems.mpr (.inl ⟨rfl, rfl, rfl⟩)⟩
      · exact ⟨_, expectOr_ofItems.mpr (.inr ⟨_, [optionalU16 index], rfl, readMid, rfl⟩),
          expectOr_ofItems.mpr (.inr ⟨_, [], rfl, readIndex, rfl⟩)⟩
    exact ⟨_, _, ⟨text, _, ⟨_, rest, rfl, rfl, rfl⟩, mid, after, first, index, _, second, rfl⟩, (),
      endAfter_ofItems.mpr rfl, rfl⟩

theorem ofItems_eq_ok_of_ne {kind : Kind} (other : kind ≠ .candidate) {items : List Json}
    {m : Message} :
    ofItems kind (Doc.ofItems items) = .ok m ↔
      ∃ sdp, items = [.string sdp] ∧ m = ofSdp kind sdp := by
  cases kind with
  | candidate => exact absurd rfl other
  | offer | answer =>
    simp only [ofItems, bind_eq_ok, pure_eq_ok, Prod.exists, expect_ofItems, string_ofJson]
    constructor
    · rintro ⟨sdp, _, ⟨_, rest, rfl, rfl, rfl⟩, _, ended, rfl⟩
      rw [endAfter_ofItems.mp ended]
      exact ⟨sdp, rfl, rfl⟩
    · rintro ⟨sdp, rfl, rfl⟩
      exact ⟨sdp, _, ⟨_, [], rfl, rfl, rfl⟩, (), endAfter_ofItems.mpr rfl, rfl⟩

theorem ofJson_array_eq_ok {items : List Json} {m : Message} :
    ofJson (.array items) = .ok m ↔ Spells (.array items) m := by
  cases items with
  | nil => refine iff_of_false ?_ ?_ <;> rintro ⟨⟩
  | cons v rest =>
    have reads : ofJson (.array (v :: rest)) = .ok m ↔
        ∃ kind : Kind, v = .string kind.name ∧ ofItems kind (Doc.ofItems rest) = .ok m := by
      simp only [ofJson, bind_eq_ok, kindOf_eq_ok]
    rw [reads]
    constructor
    · rintro ⟨kind, rfl, read⟩
      by_cases candidate : kind = .candidate
      · subst candidate
        obtain ⟨c, rfl, items, rfl, left⟩ := ofItems_candidate_eq_ok.mp read
        exact .candidateItems left
      · obtain ⟨sdp, rfl, rfl⟩ := (ofItems_eq_ok_of_ne candidate).mp read
        obtain ⟨d, rfl, name, same⟩ := exists_description candidate sdp
        rw [same, ← name]
        exact .descriptionItems
    · intro spells
      cases spells with
      | @descriptionItems d =>
        refine ⟨(ofDescription d).kind, by rw [name_kind_ofDescription], ?_⟩
        rw [ofItems_eq_ok_of_ne (kind_ofDescription_ne d)]
        exact ⟨d.sdp, rfl, (ofSdp_ofDescription d).symm⟩
      | candidateItems left =>
        exact ⟨.candidate, rfl, ofItems_candidate_eq_ok.mpr ⟨_, rfl, _, rfl, left⟩⟩

/-! ## Reading is spelling backwards -/

/-- A message is read off the values that spell it, and off no others. -/
theorem parse_iff_spells {v : Json} {m : Message} : parse v = .ok m ↔ Spells v m := by
  rw [parse_eq_ok]
  cases v with
  | object members => exact ofJson_object_eq_ok
  | array items => exact ofJson_array_eq_ok
  | _ => refine iff_of_false ?_ ?_ <;> rintro ⟨⟩

/-! ## Older names -/

/-- The name that is written today. -/
def standardKey (key : String) : String :=
  if key = "id" then "sdpMid" else if key = "label" then "sdpMLineIndex" else key

/-- The same members with the names of today. -/
def standard (members : List (String × Json)) : List (String × Json) :=
  members.map fun m => (standardKey m.1, m.2)

/-- The same members, apart from their order and the older names. -/
def Respelled (members members' : List (String × Json)) : Prop :=
  (standard members).Perm (standard members')

section Respelled

variable {members members' : List (String × Json)} {m : Message}

/-- The older names of a field are names of this field. -/
theorem named_standard {keys : List String} (closed : ∀ k, standardKey k ∈ keys ↔ k ∈ keys)
    (members : List (String × Json)) : named keys (standard members) = named keys members := by
  simp [named, standard, List.filter_map, Function.comp_def, closed]

theorem mem_standardKey {keys : List String} (mid : "id" ∈ keys ↔ "sdpMid" ∈ keys)
    (index : "label" ∈ keys ↔ "sdpMLineIndex" ∈ keys) (k : String) :
    standardKey k ∈ keys ↔ k ∈ keys := by
  unfold standardKey
  split
  case isTrue same => rw [same, mid]
  split
  case isTrue same => rw [same, index]
  case isFalse => rfl

theorem eq_of_perm_of_length_le_one {α : Type} {l l' : List α} (perm : l.Perm l')
    (short : l.length ≤ 1) : l' = l := by
  match l, short with
  | [], _ => exact perm.nil_eq.symm
  | [a], _ => exact List.perm_singleton.mp perm.symm

theorem Respelled.named_eq {keys : List String} (same : Respelled members members')
    (closed : ∀ k, standardKey k ∈ keys ↔ k ∈ keys) (short : (named keys members).length ≤ 1) :
    named keys members' = named keys members := by
  refine eq_of_perm_of_length_le_one ?_ short
  rw [← named_standard closed members, ← named_standard closed members']
  exact (List.Perm.filter _ same).map _

theorem Respelled.symm (same : Respelled members members') : Respelled members' members :=
  List.Perm.symm same

/-- The value of a member is the first one under its name. -/
theorem member?_eq_head (key : String) (members : List (String × Json)) :
    (Json.object members).member? key = (named [key] members).head? := by
  induction members with
  | nil => rfl
  | cons m rest ih =>
    by_cases same : m.1 = key
    · simp [member?, named, same]
    · simpa [member?, named, same] using ih

/-- A key that stands in an object once at most has one value at most. -/
theorem length_named_le_one (key : String) (distinct : (members.map (·.1)).Nodup) :
    (named [key] members).length ≤ 1 := by
  induction members with
  | nil => exact Nat.zero_le 1
  | cons m rest ih =>
    obtain ⟨k, v⟩ := m
    rw [List.map_cons, List.nodup_cons] at distinct
    by_cases same : k ∈ [key]
    · have none : named [key] rest = [] := by
        rw [List.mem_singleton] at same
        subst same
        simp only [named, List.map_eq_nil_iff, List.filter_eq_nil_iff]
        intro m mem other
        have here : m.1 = k := by simpa using other
        exact distinct.1 (List.mem_map.mpr ⟨m, mem, here⟩)
      rw [named_cons_of_mem same, none]
      exact Nat.le_refl 1
    · rw [named_cons_of_not_mem same]
      exact ih distinct.2

/-- A message is still spelled when members are reordered or take older names or lose them. -/
theorem Spells.respelled (type : (named ["type"] members).length ≤ 1)
    (same : Respelled members members') (spells : Spells (.object members) m) :
    Spells (.object members') m := by
  have kind : (Json.object members').member? "type" = (Json.object members).member? "type" := by
    rw [member?_eq_head, member?_eq_head,
      same.named_eq (mem_standardKey (by decide) (by decide)) type]
  have moved {keys : List String} (mid : "id" ∈ keys ↔ "sdpMid" ∈ keys)
      (index : "label" ∈ keys ↔ "sdpMLineIndex" ∈ keys)
      (short : (named keys members).length ≤ 1) : named keys members' = named keys members :=
    same.named_eq (mem_standardKey mid index) short
  cases spells with
  | description type sdp =>
    have sdp' : named ["sdp"] members' = named ["sdp"] members :=
      moved (by decide) (by decide) (by rw [sdp]; exact Nat.le_refl 1)
    exact .description (kind.trans type) (sdp'.trans sdp)
  | candidate type text mid index =>
    have text' : named ["candidate"] members' = named ["candidate"] members :=
      moved (by decide) (by decide) (by rw [text]; exact Nat.le_refl 1)
    have mid' := moved (by decide) (by decide) mid.length_le_one
    have index' := moved (by decide) (by decide) index.length_le_one
    refine .candidate (kind.trans type) (text'.trans text) ?_ ?_
    · rwa [mid']
    · rwa [index']

/-- Neither the order of the members of an object nor the older names make a difference. -/
theorem parse_respelled (distinct : (members.map (·.1)).Nodup)
    (same : Respelled members members') :
    parse (.object members) = .ok m ↔ parse (.object members') = .ok m := by
  rw [parse_iff_spells, parse_iff_spells]
  have short := length_named_le_one "type" distinct
  have type : named ["type"] members' = named ["type"] members :=
    same.named_eq (mem_standardKey (by decide) (by decide)) short
  constructor
  · exact Spells.respelled short same
  · exact Spells.respelled (by rwa [type]) same.symm

end Respelled

/-! ## Messages that are sent -/

/-- The names of the members in the payload of a message, in their order. -/
def Kind.keys : Kind → List String
  | .offer | .answer => ["sdp", "type"]
  | .candidate => ["candidate", "sdpMLineIndex", "sdpMid", "type"]

/-- A message that is sent is spelled with the names of today, and read as itself. -/
theorem toPayload_spelled (m : Message) :
    ∃ members, m.toPayload = .object members ∧ members.map (·.1) = m.kind.keys ∧
      Spells (.object members) m := by
  cases m with
  | offer sdp => exact ⟨_, rfl, rfl, .description (d := ⟨.offer, sdp⟩) rfl rfl⟩
  | answer sdp => exact ⟨_, rfl, rfl, .description (d := ⟨.answer, sdp⟩) rfl rfl⟩
  | candidate c =>
    have payload : (candidate c).toPayload = .object [("candidate", .string c.candidate),
        ("sdpMLineIndex", optionalU16 c.lineIndex), ("sdpMid", optionalText c.mid),
        ("type", .string "candidate")] := by
      obtain ⟨text, mid, index⟩ := c
      cases mid <;> cases index <;> rfl
    exact ⟨_, payload, rfl, .candidate rfl rfl (.inr rfl) (.inr rfl)⟩

theorem parse_toPayload (m : Message) : parse m.toPayload = .ok m := by
  obtain ⟨members, payload, -, spells⟩ := toPayload_spelled m
  rw [payload]
  exact parse_iff_spells.mpr spells

/-! ## The whole -/

/-- A message is read off exactly the values that spell it; neither the order of an object's members
nor the older names make a difference; and what is sent is an object with the names of today that is
read as the message that was sent. -/
theorem parse_grammar :
    (∀ v m, parse v = .ok m ↔ Spells v m) ∧
    (∀ members members' m, (members.map (·.1)).Nodup → Respelled members members' →
      (parse (.object members) = .ok m ↔ parse (.object members') = .ok m)) ∧
    (∀ m, ∃ members, m.toPayload = .object members ∧ members.map (·.1) = m.kind.keys ∧
      parse m.toPayload = .ok m) := by
  refine ⟨fun v m => parse_iff_spells, fun _ _ m => parse_respelled, fun m => ?_⟩
  obtain ⟨members, payload, keys, -⟩ := toPayload_spelled m
  exact ⟨members, payload, keys, parse_toPayload m⟩

/-- A candidate with the older names, and the same one with the names of today. -/
theorem older_names_read :
    let older : List (String × Json) := [("candidate", .string "c"), ("id", .string "m"),
      ("label", .number (.int 3)), ("type", .string "candidate")]
    let today : List (String × Json) := [("candidate", .string "c"),
      ("sdpMLineIndex", .number (.int 3)), ("sdpMid", .string "m"), ("type", .string "candidate")]
    parse (.object older) = .ok (.candidate ⟨"c", some "m", some 3⟩) ∧
      parse (.object today) = .ok (.candidate ⟨"c", some "m", some 3⟩) := by
  intro older today
  have same : Respelled older today := .cons _ (.swap _ _ _)
  have read : parse (.object older) = .ok (.candidate ⟨"c", some "m", some 3⟩) := rfl
  exact ⟨read, (parse_grammar.2.1 older today _ (by decide) same).mp read⟩

end Parley.Message
