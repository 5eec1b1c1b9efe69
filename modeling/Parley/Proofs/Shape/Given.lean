import Parley.Proofs.Json.Written
import Parley.Proofs.Shape.Reading
import Parley.Shape.Value

/-!
# Values that read as themselves

A value that is written out and read where any value may stand is not always read as itself: it may
nest too deep for the place, and an object whose first key is `givenKey` is taken for a value that
is given as its text. The values without such an object are the `Plain` ones. Every free value is
read off a document as a plain one, whether it is given as its text or not, but its canonical form
may bring another key to the front of an object and need not be plain any more. It still has no
object with `givenKey` for its only key, and any other object with this key in front is refused; so
a free value that was written is read as itself, or not at all.
-/

namespace Parley.Shape

open Parley.Json

/-- No object that starts with `givenKey`. -/
def Plain : Json → Prop
  | .object ((k, _) :: _) => k ≠ givenKey
  | _ => True

/-- No object that consists of `givenKey` alone. -/
def NotGiven : Json → Prop
  | .object [(k, _)] => k ≠ givenKey
  | _ => True

/-! ## Reading a value that was written -/

theorem given?_ofMembers_eq_none {members : List (String × Json)} :
    given? (Doc.ofMembers members) = none ↔ Plain (.object members) := by
  cases members with
  | nil => simp [Doc.ofMembers, given?, Plain]
  | cons m rest => simp [Doc.ofMembers, given?, Plain, Quoted.ofString]

/-- An object with more than `givenKey` in it is not given as its text. -/
theorem endGiven_of_notGiven {members : List (String × Json)} {d : Doc}
    {rest : List (Quoted × Doc)} (notGiven : NotGiven (.object members))
    (given : given? (Doc.ofMembers members) = some (d, rest)) :
    endGiven .text rest none = faulty .trailingComma := by
  match members with
  | [] => simp [Doc.ofMembers, given?] at given
  | [(k, v)] =>
    have other : k ≠ givenKey := notGiven
    simp [Doc.ofMembers, given?, Quoted.ofString, other] at given
  | (k, v) :: m :: more =>
    simp only [Doc.ofMembers, given?, Quoted.ofString] at given
    split at given
    · cases given
      rfl
    · cases given

section Written

variable {given : String → Reading Json} {medium : Medium}

mutual

/-- A plain value is read as itself, if it does not nest too deep. -/
theorem valueWith_ofJson : ∀ (v : Json) (levels : Nat), All Plain v → v.depth ≤ levels →
    valueWith given medium levels (Doc.ofJson v) = .ok v
  | .null, _, _, _ | .bool _, _, _, _ | .number _, _, _, _ | .string _, _, _, _ => rfl
  | .array items, levels + 1, plain, fits => by
    have read := valuesWith_ofItems items levels plain.2 (Nat.le_of_succ_le_succ fits)
    simp only [Doc.ofJson, valueWith, read]
    rfl
  | .object members, levels + 1, plain, fits => by
    have read := membersWith_ofMembers members levels plain.2 (Nat.le_of_succ_le_succ fits)
    simp only [Doc.ofJson, valueWith, given?_ofMembers_eq_none.mpr plain.1, read]
    rfl

theorem valuesWith_ofItems : ∀ (items : List Json) (levels : Nat), AllItems Plain items →
    depthItems items ≤ levels → valuesWith given medium levels (Doc.ofItems items) = .ok items
  | [], _, _, _ => rfl
  | v :: rest, levels, plain, fits => by
    have head := valueWith_ofJson v levels plain.1 (Nat.le_trans (Nat.le_max_left _ _) fits)
    have tail := valuesWith_ofItems rest levels plain.2 (Nat.le_trans (Nat.le_max_right _ _) fits)
    simp only [Doc.ofItems, valuesWith, head, tail]
    rfl

theorem membersWith_ofMembers : ∀ (members : List (String × Json)) (levels : Nat),
    AllMembers Plain members → depthMembers members ≤ levels →
    membersWith given medium levels (Doc.ofMembers members) = .ok members
  | [], _, _, _ => rfl
  | (k, v) :: rest, levels, plain, fits => by
    have head := valueWith_ofJson v levels plain.1 (Nat.le_trans (Nat.le_max_left _ _) fits)
    have tail := membersWith_ofMembers rest levels plain.2
      (Nat.le_trans (Nat.le_max_right _ _) fits)
    simp only [Doc.ofMembers, membersWith, head, tail]
    rfl

end

mutual

/-- A plain value that nests too deep is refused where the first level too many begins; everything
in front of it is read. -/
theorem valueWith_ofJson_deep : ∀ (v : Json) (levels : Nat), All Plain v → levels < v.depth →
    valueWith given medium levels (Doc.ofJson v) = faulty .nesting
  | .null, _, _, deep | .bool _, _, _, deep | .number _, _, _, deep | .string _, _, _, deep =>
    absurd deep (Nat.not_lt_zero _)
  | .array _, 0, _, _ | .object _, 0, _, _ => rfl
  | .array items, levels + 1, plain, deep => by
    have refused := valuesWith_ofItems_deep items levels plain.2 (Nat.lt_of_succ_lt_succ deep)
    simp only [Doc.ofJson, valueWith, refused]
    rfl
  | .object members, levels + 1, plain, deep => by
    have refused := membersWith_ofMembers_deep members levels plain.2 (Nat.lt_of_succ_lt_succ deep)
    simp only [Doc.ofJson, valueWith, given?_ofMembers_eq_none.mpr plain.1, refused]
    rfl

theorem valuesWith_ofItems_deep : ∀ (items : List Json) (levels : Nat), AllItems Plain items →
    levels < depthItems items → valuesWith given medium levels (Doc.ofItems items) = faulty .nesting
  | [], _, _, deep => absurd deep (Nat.not_lt_zero _)
  | v :: rest, levels, plain, deep => by
    by_cases fits : v.depth ≤ levels
    · have head : valueWith given medium levels (Doc.ofJson v) = .ok v :=
        valueWith_ofJson v levels plain.1 fits
      have behind : levels < depthItems rest := by
        simp only [depthItems] at deep
        omega
      have tail := valuesWith_ofItems_deep rest levels plain.2 behind
      simp only [Doc.ofItems, valuesWith, head, tail]
      rfl
    · have head := valueWith_ofJson_deep v levels plain.1 (Nat.lt_of_not_le fits)
      simp only [Doc.ofItems, valuesWith, head]
      rfl

theorem membersWith_ofMembers_deep : ∀ (members : List (String × Json)) (levels : Nat),
    AllMembers Plain members → levels < depthMembers members →
    membersWith given medium levels (Doc.ofMembers members) = faulty .nesting
  | [], _, _, deep => absurd deep (Nat.not_lt_zero _)
  | (k, v) :: rest, levels, plain, deep => by
    by_cases fits : v.depth ≤ levels
    · have head : valueWith given medium levels (Doc.ofJson v) = .ok v :=
        valueWith_ofJson v levels plain.1 fits
      have behind : levels < depthMembers rest := by
        simp only [depthMembers] at deep
        omega
      have tail := membersWith_ofMembers_deep rest levels plain.2 behind
      simp only [Doc.ofMembers, membersWith, head, tail]
      rfl
    · have head := valueWith_ofJson_deep v levels plain.1 (Nat.lt_of_not_le fits)
      simp only [Doc.ofMembers, membersWith, head]
      rfl

end

mutual

/-- What is read where it was written is plain and does not nest too deep, unless it was given as
its text. -/
theorem plain_of_valueWith_ofJson : ∀ (v : Json) (levels : Nat) (w : Json), All NotGiven v →
    valueWith given .text levels (Doc.ofJson v) = .ok w → v.depth ≤ levels ∧ All Plain v
  | .null, _, _, _, _ | .bool _, _, _, _, _ | .number _, _, _, _, _ | .string _, _, _, _, _ =>
    ⟨Nat.zero_le _, trivial⟩
  | .array items, 0, _, _, read => by cases read
  | .array items, levels + 1, _, notGiven, read => by
    simp only [Doc.ofJson, valueWith, bind_eq_ok] at read
    obtain ⟨ws, read, -⟩ := read
    obtain ⟨fits, plain⟩ := plain_of_valuesWith_ofItems items levels ws notGiven.2 read
    exact ⟨Nat.succ_le_succ fits, trivial, plain⟩
  | .object members, 0, _, _, read => by cases read
  | .object members, levels + 1, _, notGiven, read => by
    simp only [Doc.ofJson, valueWith] at read
    split at read
    case h_1 d rest given =>
      -- There are more members, and an object must end behind the text of a value.
      simp only [endGiven_of_notGiven notGiven.1 given, bind_eq_ok] at read
      obtain ⟨text, -, v, -, _, refused, -⟩ := read
      cases refused
    case h_2 plain =>
      simp only [bind_eq_ok] at read
      obtain ⟨ws, read, -⟩ := read
      obtain ⟨fits, all⟩ := plain_of_membersWith_ofMembers members levels ws notGiven.2 read
      exact ⟨Nat.succ_le_succ fits, given?_ofMembers_eq_none.mp plain, all⟩

theorem plain_of_valuesWith_ofItems : ∀ (items : List Json) (levels : Nat) (ws : List Json),
    AllItems NotGiven items → valuesWith given .text levels (Doc.ofItems items) = .ok ws →
    depthItems items ≤ levels ∧ AllItems Plain items
  | [], _, _, _, _ => ⟨Nat.zero_le _, trivial⟩
  | v :: rest, levels, _, notGiven, read => by
    simp only [Doc.ofItems, valuesWith, bind_eq_ok] at read
    obtain ⟨w, head, ws, tail, -⟩ := read
    obtain ⟨fits, plain⟩ := plain_of_valueWith_ofJson v levels w notGiven.1 head
    obtain ⟨fitsRest, plainRest⟩ := plain_of_valuesWith_ofItems rest levels ws notGiven.2 tail
    exact ⟨Nat.max_le.mpr ⟨fits, fitsRest⟩, plain, plainRest⟩

theorem plain_of_membersWith_ofMembers : ∀ (members : List (String × Json)) (levels : Nat)
    (ws : List (String × Json)), AllMembers NotGiven members →
    membersWith given .text levels (Doc.ofMembers members) = .ok ws →
    depthMembers members ≤ levels ∧ AllMembers Plain members
  | [], _, _, _, _ => ⟨Nat.zero_le _, trivial⟩
  | (k, v) :: rest, levels, _, notGiven, read => by
    simp only [Doc.ofMembers, membersWith, bind_eq_ok] at read
    obtain ⟨_, -, w, head, ws, tail, -⟩ := read
    obtain ⟨fits, plain⟩ := plain_of_valueWith_ofJson v levels w notGiven.1 head
    obtain ⟨fitsRest, plainRest⟩ := plain_of_membersWith_ofMembers rest levels ws notGiven.2 tail
    exact ⟨Nat.max_le.mpr ⟨fits, fitsRest⟩, plain, plainRest⟩

end

end Written

/-- A value that is given as its text is read as that value. -/
theorem givenValue_render {v : Json} (depth : Nat) (integral : v.All Integral)
    (plain : v.All Plain) (fits : v.depth ≤ nestingLimit) :
    givenValue (depth + 1) v.render = .ok v := by
  have read : valueWith (givenValue depth) .text nestingLimit (Doc.ofJson v) = .ok v :=
    valueWith_ofJson v nestingLimit plain fits
  simp only [givenValue, ofString, read_render integral, read]
  rfl

theorem valueWith_render {v : Json} (levels : Nat) (integral : v.All Integral)
    (plain : v.All Plain) (fits : v.depth ≤ nestingLimit) :
    valueWith (fun text => givenValue (text.length + 1) text) .text (levels + 1)
      (Doc.ofJson (.object [(givenKey, .string v.render)])) = .ok v := by
  have read := givenValue_render v.render.length integral plain fits
  simp only [Doc.ofJson, Doc.ofMembers, valueWith, given?, Quoted.ofString, if_pos, valueText,
    ofText, bind, Except.bind, read]
  rfl

/-! ## What a free value looks like -/

section Free

variable {given : String → Reading Json} {medium : Medium}

/-- The members of an object that is not given as its text do not start with `givenKey`. -/
theorem plain_of_membersWith {levels : Nat} {members : List (Quoted × Doc)}
    {vs : List (String × Json)} (notGiven : given? members = none)
    (read : membersWith given medium levels members = .ok vs) : Plain (.object vs) := by
  match members with
  | [] =>
    cases read
    trivial
  | (⟨taken, _⟩, d) :: rest =>
    simp only [membersWith, bind_eq_ok, pure_eq_ok, ofText_eq_ok] at read
    obtain ⟨key, rfl, v, -, vs, -, rfl⟩ := read
    intro same
    simp [given?, same] at notGiven

mutual

/-- What is read off a document is plain, if what is given as its text is. -/
theorem plain_of_valueWith (texts : ∀ text v, given text = .ok v → All Plain v) :
    ∀ (d : Doc) (levels : Nat) (v : Json), valueWith given medium levels d = .ok v → All Plain v
  | .null, _, _, read | .bool _, _, _, read => by
    cases read
    trivial
  | .number taken _, _, _, read => by
    cases taken <;> cases read
    trivial
  | .string ⟨taken, _⟩, _, _, read => by
    cases taken <;> cases read
    trivial
  | .array items stop, 0, _, read => by cases read
  | .array items stop, levels + 1, _, read => by
    simp only [valueWith, bind_eq_ok, pure_eq_ok] at read
    obtain ⟨vs, read, -, -, rfl⟩ := read
    exact ⟨trivial, plain_of_valuesWith texts items levels vs read⟩
  | .object members stop, 0, _, read => by cases read
  | .object members stop, levels + 1, _, read => by
    simp only [valueWith] at read
    split at read
    · simp only [bind_eq_ok, pure_eq_ok] at read
      obtain ⟨text, -, v, found, -, -, rfl⟩ := read
      exact texts text v found
    case h_2 notGiven =>
      simp only [bind_eq_ok, pure_eq_ok] at read
      obtain ⟨vs, read, -, -, rfl⟩ := read
      exact ⟨plain_of_membersWith notGiven read,
        allPlain_of_membersWith texts members levels vs read⟩
  | .unread f _, _, _, read => by cases read

theorem plain_of_valuesWith (texts : ∀ text v, given text = .ok v → All Plain v) :
    ∀ (items : List Doc) (levels : Nat) (vs : List Json),
      valuesWith given medium levels items = .ok vs → AllItems Plain vs
  | [], _, _, read => by
    cases read
    trivial
  | d :: rest, levels, _, read => by
    simp only [valuesWith, bind_eq_ok, pure_eq_ok] at read
    obtain ⟨v, head, vs, tail, rfl⟩ := read
    exact ⟨plain_of_valueWith texts d levels v head, plain_of_valuesWith texts rest levels vs tail⟩

theorem allPlain_of_membersWith (texts : ∀ text v, given text = .ok v → All Plain v) :
    ∀ (members : List (Quoted × Doc)) (levels : Nat) (vs : List (String × Json)),
      membersWith given medium levels members = .ok vs → AllMembers Plain vs
  | [], _, _, read => by
    cases read
    trivial
  | (k, d) :: rest, levels, _, read => by
    simp only [membersWith, bind_eq_ok, pure_eq_ok] at read
    obtain ⟨_, -, v, head, vs, tail, rfl⟩ := read
    exact ⟨plain_of_valueWith texts d levels v head,
      allPlain_of_membersWith texts rest levels vs tail⟩

end

theorem plain_of_givenValue : ∀ (depth : Nat) (text : String) (v : Json),
    givenValue depth text = .ok v → All Plain v
  | 0, _, _, read => by cases read
  | depth + 1, text, v, read => by
    have found : ofString (valueWith (givenValue depth) .text nestingLimit) text = .ok v := by
      simp only [givenValue] at read
      split at read
      · cases read
      · exact read
    exact plain_of_valueWith (plain_of_givenValue depth) _ _ v (ofString_eq_ok.mp found).1

end Free

/-- An object does not come down to `givenKey` alone when its members are sorted. -/
theorem Plain.notGiven_canonical {v : Json} (plain : Plain v) : NotGiven v.canonical := by
  match v with
  | .object [] => trivial
  | .object ((k, w) :: rest) =>
    have first : (k, w) ∈ (k, w) :: rest := List.mem_cons_self
    obtain ⟨x, mem⟩ := key_mem_canonicalMembers first
    show NotGiven (.object (canonicalMembers ((k, w) :: rest)))
    generalize canonicalMembers ((k, w) :: rest) = members at mem
    match members with
    | [] => trivial
    | [m] =>
      cases List.mem_singleton.mp mem
      exact plain
    | _ :: _ :: _ => trivial
  | .null | .bool _ | .number _ | .string _ | .array _ => trivial

/-- A free value is in canonical form and has no object with `givenKey` for its only key. -/
theorem value_canonical {medium : Medium} {levels : Nat} {d : Doc} {v : Json}
    (read : value medium levels d = .ok v) : v.All Sorted ∧ v.All NotGiven := by
  simp only [value, bind_eq_ok, pure_eq_ok] at read
  obtain ⟨w, found, rfl⟩ := read
  have plain := plain_of_valueWith (fun text => plain_of_givenValue _ text) d levels w found
  exact ⟨all_sorted_canonical w, all_canonical (fun _ => Plain.notGiven_canonical) w plain⟩

/-- A free value that was written where a free value may stand is read as itself or not at all. -/
theorem value_ofJson_eq_ok {levels : Nat} {v w : Json} (sorted : v.All Sorted)
    (notGiven : v.All NotGiven) :
    value .text levels (Doc.ofJson v) = .ok w ↔ w = v ∧ v.depth ≤ levels ∧ v.All Plain := by
  simp only [value, bind_eq_ok, pure_eq_ok]
  constructor
  · rintro ⟨x, read, rfl⟩
    obtain ⟨fits, plain⟩ := plain_of_valueWith_ofJson v levels x notGiven read
    rw [valueWith_ofJson v levels plain fits] at read
    cases read
    exact ⟨canonical_of_all_sorted v sorted, fits, plain⟩
  · rintro ⟨rfl, fits, plain⟩
    exact ⟨w, valueWith_ofJson w levels plain fits, canonical_of_all_sorted w sorted⟩

theorem value_ofJson_deep {levels : Nat} {v : Json} (plain : v.All Plain)
    (deep : levels < v.depth) : value .text levels (Doc.ofJson v) = faulty .nesting := by
  rw [value, valueWith_ofJson_deep v levels plain deep]
  rfl

end Parley.Shape
