import Parley.Proofs.Json.Written
import Parley.Proofs.Shape.Reading
import Parley.Signal.Description

/-!
# Fields of a record

What a field holds is decided by the value that stands in it: a text by a string, an optional text
by a string or `null`, an optional number by `null` or an integer of sixteen bits. No two values are
read as the same content of a field, so what is written is what is read.
-/

namespace Parley

open Parley.Json Parley.Shape

theorem string_ofJson {v : Json} {s : String} :
    Shape.string (Doc.ofJson v) = .ok s ↔ v = .string s := by
  cases v with
  | string t => simp [Doc.ofJson, Shape.string, Quoted.ofString, ofText]
  | _ => refine iff_of_false ?_ ?_ <;> rintro ⟨⟩

/-- The integers of sixteen bits are the numbers that such a field can hold. -/
theorem u16_ofJson {v : Json} {n : UInt16} :
    u16 (Doc.ofJson v) = .ok n ↔ v = .number (.int n.toNat) := by
  cases v with
  | number x =>
    cases x with
    | int i =>
      simp only [Doc.ofJson, u16]
      constructor
      · intro read
        split at read
        case isTrue fits =>
          cases read
          have small : i.toNat < 2 ^ 16 := by omega
          rw [UInt16.toNat_ofNat_of_lt' small, Int.toNat_of_nonneg fits.1]
        case isFalse => cases read
      · intro same
        cases same
        have fits : n.toNat < 65536 := n.toNat_lt
        rw [if_pos ⟨by omega, by omega⟩]
        simp
    | double x => refine iff_of_false ?_ ?_ <;> rintro ⟨⟩
  | _ => refine iff_of_false ?_ ?_ <;> rintro ⟨⟩

/-- A field that may be `null` holds nothing then, and otherwise what it would hold if it might not
be `null`. -/
theorem optional_ofJson {α : Type} {shape : Doc → Reading α} {encode : α → Json}
    (reads : ∀ v a, shape (Doc.ofJson v) = .ok a ↔ v = encode a) (given : ∀ a, encode a ≠ .null)
    (v : Json) (x : Option α) :
    Shape.optional shape (Doc.ofJson v) = .ok x ↔ v = x.elim .null encode := by
  have present (v : Json) (other : v ≠ .null) :
      (shape (Doc.ofJson v)).map some = .ok x ↔ v = x.elim .null encode := by
    rw [map_eq_ok]
    cases x with
    | none => simp [other]
    | some a => simp [reads]
  cases v with
  | null =>
    cases x with
    | none => simp [Doc.ofJson, Shape.optional]
    | some a => simp [Doc.ofJson, Shape.optional, (given a).symm]
  | bool b => exact present (.bool b) (by rintro ⟨⟩)
  | number n => exact present (.number n) (by rintro ⟨⟩)
  | string s => exact present (.string s) (by rintro ⟨⟩)
  | array items => exact present (.array items) (by rintro ⟨⟩)
  | object members => exact present (.object members) (by rintro ⟨⟩)

theorem optional_string_ofJson {v : Json} {m : Option String} :
    Shape.optional Shape.string (Doc.ofJson v) = .ok m ↔ v = optionalText m := by
  rw [optional_ofJson (fun _ _ => string_ofJson) (by rintro _ ⟨⟩)]
  cases m <;> rfl

theorem optional_u16_ofJson {v : Json} {n : Option UInt16} :
    Shape.optional u16 (Doc.ofJson v) = .ok n ↔ v = optionalU16 n := by
  rw [optional_ofJson (fun _ _ => u16_ofJson) (by rintro _ ⟨⟩)]
  cases n <;> rfl

theorem strings_ofJson (urls : List String) :
    strings (Doc.ofJson (.array (urls.map .string))) = .ok urls := by
  have items : (Doc.ofItems (urls.map .string)).mapM Shape.string = .ok urls := by
    induction urls with
    | nil => rfl
    | cons url rest ih =>
      simp only [List.map_cons, Doc.ofItems, List.mapM_cons, ih]
      rfl
  simp only [Doc.ofJson, strings, items]
  rfl

/-! ## Fields among members -/

/-- The values of the members with one of these keys, in their order. -/
def named (keys : List String) (members : List (String × Json)) : List Json :=
  (members.filter fun m => m.1 ∈ keys).map (·.2)

section Named

variable {keys : List String} {k : String} {v : Json} {members : List (String × Json)}

theorem named_cons_of_mem (mem : k ∈ keys) :
    named keys ((k, v) :: members) = v :: named keys members := by
  simp [named, mem]

theorem named_cons_of_not_mem (other : k ∉ keys) :
    named keys ((k, v) :: members) = named keys members := by
  simp [named, other]

end Named

/-- What is read off the members with one of the keys of a field, where `seen` was read before. The
field may stand there once, unless it was read before. -/
def FieldRead {α : Type} (encode : α → Json) (keys : List String) (members : List (String × Json)) :
    Option α → Option α → Prop
  | none, none => named keys members = []
  | none, some a => named keys members = [encode a]
  | some seen, found => named keys members = [] ∧ found = some seen

/-- What a field that need not be there holds, if these values were found for it. -/
def Holds {α : Type} (encode : Option α → Json) (found : List Json) (x : Option α) : Prop :=
  found = [] ∧ x = none ∨ found = [encode x]

theorem Holds.length_le_one {α : Type} {encode : Option α → Json} {found : List Json}
    {x : Option α} (holds : Holds encode found x) : found.length ≤ 1 := by
  rcases holds with ⟨rfl, -⟩ | rfl
  · exact Nat.zero_le 1
  · exact Nat.le_refl 1

section FieldRead

variable {α : Type} {encode : α → Json} {keys : List String} {k : String} {v : Json}
  {members : List (String × Json)} {seen found : Option α}

theorem fieldRead_nil : FieldRead encode keys [] seen found ↔ found = seen := by
  cases seen <;> cases found <;> simp [FieldRead, named]

theorem fieldRead_cons_of_mem (mem : k ∈ keys) :
    FieldRead encode keys ((k, v) :: members) seen found ↔
      seen = none ∧ ∃ a, v = encode a ∧ FieldRead encode keys members (some a) found := by
  cases seen <;> cases found <;> simp [FieldRead, named_cons_of_mem mem]

theorem fieldRead_cons_of_not_mem (other : k ∉ keys) :
    FieldRead encode keys ((k, v) :: members) seen found ↔
      FieldRead encode keys members seen found := by
  cases seen <;> cases found <;> simp [FieldRead, named_cons_of_not_mem other]

theorem exists_fieldRead {encode : Option α → Json} {x : Option α} :
    (∃ found, FieldRead encode keys members none found ∧ found.getD none = x) ↔
      Holds encode (named keys members) x := by
  constructor
  · rintro ⟨found, read, rfl⟩
    cases found with
    | none => exact .inl ⟨read, rfl⟩
    | some a => exact .inr read
  · rintro (⟨read, rfl⟩ | read)
    · exact ⟨none, read, rfl⟩
    · exact ⟨some x, read, rfl⟩

/-- One member with a key of the field. -/
theorem once_ofJson {shape : Doc → Reading α} {name : String}
    (reads : ∀ {v a}, shape (Doc.ofJson v) = .ok a ↔ v = encode a) :
    once name seen shape (Doc.ofJson v) = .ok found ↔
      seen = none ∧ ∃ a, v = encode a ∧ found = some a := by
  cases seen with
  | none =>
    simp only [once, map_eq_ok, reads, true_and]
    exact exists_congr fun a => and_congr_right fun _ => eq_comm
  | some a => simp [once, refuse]

end FieldRead

theorem skip_ofJson {σ : Type} (s : σ) (v : Json) : skip s (Doc.ofJson v) = .ok s := by
  simp only [skip, skim_ofJson]
  rfl

/-! Reading members without faults one after another. -/

theorem foldMembers_ofMembers_nil {σ : Type} {step : σ → String → Doc → Reading σ} {s t : σ} :
    foldMembers step none s (Doc.ofMembers []) = .ok t ↔ s = t := pure_eq_ok

theorem foldMembers_ofMembers_cons {σ : Type} {step : σ → String → Doc → Reading σ} {s t : σ}
    {k : String} {v : Json} {members : List (String × Json)} :
    foldMembers step none s (Doc.ofMembers ((k, v) :: members)) = .ok t ↔
      ∃ u, step s k (Doc.ofJson v) = .ok u ∧
        foldMembers step none u (Doc.ofMembers members) = .ok t := by
  simp [Doc.ofMembers, foldMembers, Quoted.ofString, bind_eq_ok, ofText_eq_ok]

/-! ## Fields among items -/

section Items

variable {α : Type} {shape : Doc → Reading α} {items : List Json} {a : α} {c : Cursor}

theorem expect_ofItems {length : Nat} {expected : Expected} :
    Cursor.expect ⟨Doc.ofItems items, none⟩ length expected shape = .ok (a, c) ↔
      ∃ v rest, items = v :: rest ∧ shape (Doc.ofJson v) = .ok a ∧
        c = ⟨Doc.ofItems rest, none⟩ := by
  cases items with
  | nil => exact iff_of_false (by rintro ⟨⟩) (by simp)
  | cons v rest =>
    have next : Cursor.expect ⟨Doc.ofItems (v :: rest), none⟩ length expected shape =
        (shape (Doc.ofJson v) >>= fun a => pure (a, ⟨Doc.ofItems rest, none⟩)) := rfl
    rw [next]
    simp only [bind_eq_ok, pure_eq_ok, Prod.mk.injEq]
    constructor
    · rintro ⟨_, read, rfl, rfl⟩
      exact ⟨v, rest, rfl, read, rfl⟩
    · rintro ⟨_, _, same, read, rfl⟩
      cases same
      exact ⟨a, read, rfl, rfl⟩

theorem expectOr_ofItems {default : α} :
    Cursor.expectOr ⟨Doc.ofItems items, none⟩ default shape = .ok (a, c) ↔
      items = [] ∧ a = default ∧ c = ⟨Doc.ofItems [], none⟩ ∨
      ∃ v rest, items = v :: rest ∧ shape (Doc.ofJson v) = .ok a ∧
        c = ⟨Doc.ofItems rest, none⟩ := by
  cases items with
  | nil =>
    have ended : Cursor.expectOr ⟨Doc.ofItems [], none⟩ default shape =
        .ok (default, ⟨Doc.ofItems [], none⟩) := rfl
    rw [ended]
    simp [eq_comm]
  | cons v rest =>
    have next : Cursor.expectOr ⟨Doc.ofItems (v :: rest), none⟩ default shape =
        (shape (Doc.ofJson v) >>= fun a => pure (a, ⟨Doc.ofItems rest, none⟩)) := rfl
    rw [next]
    simp only [bind_eq_ok, pure_eq_ok, Prod.mk.injEq]
    constructor
    · rintro ⟨_, read, rfl, rfl⟩
      exact .inr ⟨v, rest, rfl, read, rfl⟩
    · rintro (⟨none, -⟩ | ⟨_, _, same, read, rfl⟩)
      · cases none
      · cases same
        exact ⟨a, read, rfl, rfl⟩

end Items

/-! ## Candidates -/

namespace Candidate

/-- The keys of a candidate's fields. -/
def textKeys : List String := ["candidate"]

@[inherit_doc textKeys]
def midKeys : List String := ["sdpMid", "id"]

@[inherit_doc textKeys]
def indexKeys : List String := ["sdpMLineIndex", "label"]

section Step

variable {f f' : Fields} {k : String} {v : Json}

theorem step_text (key : k ∈ textKeys) : Fields.step f k (Doc.ofJson v) = .ok f' ↔
    f.candidate = none ∧ ∃ a, v = .string a ∧ f' = { f with candidate := some a } := by
  obtain rfl : k = "candidate" := by simpa [textKeys] using key
  simp only [Fields.step, if_pos, bind_eq_ok, pure_eq_ok, once_ofJson string_ofJson]
  constructor
  · rintro ⟨-, ⟨unseen, a, rfl, rfl⟩, rfl⟩
    exact ⟨unseen, a, rfl, rfl⟩
  · rintro ⟨unseen, a, rfl, rfl⟩
    exact ⟨_, ⟨unseen, a, rfl, rfl⟩, rfl⟩

theorem step_mid (key : k ∈ midKeys) : Fields.step f k (Doc.ofJson v) = .ok f' ↔
    f.mid = none ∧ ∃ a, v = optionalText a ∧ f' = { f with mid := some a } := by
  have mid : k = "sdpMid" ∨ k = "id" := by simpa [midKeys] using key
  have other : k ≠ "candidate" := by rcases mid with rfl | rfl <;> decide
  simp only [Fields.step, if_neg other, if_pos mid, bind_eq_ok, pure_eq_ok,
    once_ofJson optional_string_ofJson]
  constructor
  · rintro ⟨-, ⟨unseen, a, rfl, rfl⟩, rfl⟩
    exact ⟨unseen, a, rfl, rfl⟩
  · rintro ⟨unseen, a, rfl, rfl⟩
    exact ⟨_, ⟨unseen, a, rfl, rfl⟩, rfl⟩

theorem step_index (key : k ∈ indexKeys) : Fields.step f k (Doc.ofJson v) = .ok f' ↔
    f.lineIndex = none ∧ ∃ a, v = optionalU16 a ∧ f' = { f with lineIndex := some a } := by
  have index : k = "sdpMLineIndex" ∨ k = "label" := by simpa [indexKeys] using key
  have noText : k ≠ "candidate" := by rcases index with rfl | rfl <;> decide
  have noMid : ¬ (k = "sdpMid" ∨ k = "id") := by rcases index with rfl | rfl <;> decide
  simp only [Fields.step, if_neg noText, if_neg noMid, if_pos index, bind_eq_ok, pure_eq_ok,
    once_ofJson optional_u16_ofJson]
  constructor
  · rintro ⟨-, ⟨unseen, a, rfl, rfl⟩, rfl⟩
    exact ⟨unseen, a, rfl, rfl⟩
  · rintro ⟨unseen, a, rfl, rfl⟩
    exact ⟨_, ⟨unseen, a, rfl, rfl⟩, rfl⟩

theorem step_other (noText : k ∉ textKeys) (noMid : k ∉ midKeys) (noIndex : k ∉ indexKeys) :
    Fields.step f k (Doc.ofJson v) = .ok f := by
  simp only [textKeys, midKeys, indexKeys, List.mem_cons, List.not_mem_nil, or_false] at *
  rw [Fields.step, if_neg noText, if_neg noMid, if_neg noIndex, skip_ofJson]

end Step

/-- Each field of a candidate is read off the members with its keys, whatever else there is. -/
theorem foldMembers_step {members : List (String × Json)} {f f' : Fields} :
    foldMembers Fields.step none f (Doc.ofMembers members) = .ok f' ↔
      FieldRead .string textKeys members f.candidate f'.candidate ∧
      FieldRead optionalText midKeys members f.mid f'.mid ∧
      FieldRead optionalU16 indexKeys members f.lineIndex f'.lineIndex := by
  induction members generalizing f with
  | nil =>
    rw [foldMembers_ofMembers_nil, fieldRead_nil, fieldRead_nil, fieldRead_nil]
    obtain ⟨text, mid, index⟩ := f
    obtain ⟨text', mid', index'⟩ := f'
    simp only [Fields.mk.injEq, eq_comm]
  | cons m rest ih =>
    obtain ⟨k, v⟩ := m
    rw [foldMembers_ofMembers_cons]
    by_cases text : k ∈ textKeys
    · have noMid : k ∉ midKeys := (by decide : ∀ k ∈ textKeys, k ∉ midKeys) k text
      have noIndex : k ∉ indexKeys := (by decide : ∀ k ∈ textKeys, k ∉ indexKeys) k text
      rw [fieldRead_cons_of_mem text, fieldRead_cons_of_not_mem noMid,
        fieldRead_cons_of_not_mem noIndex]
      constructor
      · rintro ⟨u, stepped, read⟩
        obtain ⟨unseen, a, rfl, rfl⟩ := (step_text text).mp stepped
        obtain ⟨here, others⟩ := ih.mp read
        exact ⟨⟨unseen, a, rfl, here⟩, others⟩
      · rintro ⟨⟨unseen, a, rfl, here⟩, others⟩
        exact ⟨_, (step_text text).mpr ⟨unseen, a, rfl, rfl⟩, ih.mpr ⟨here, others⟩⟩
    by_cases mid : k ∈ midKeys
    · have noIndex : k ∉ indexKeys := (by decide : ∀ k ∈ midKeys, k ∉ indexKeys) k mid
      rw [fieldRead_cons_of_not_mem text, fieldRead_cons_of_mem mid,
        fieldRead_cons_of_not_mem noIndex]
      constructor
      · rintro ⟨u, stepped, read⟩
        obtain ⟨unseen, a, rfl, rfl⟩ := (step_mid mid).mp stepped
        obtain ⟨first, here, last⟩ := ih.mp read
        exact ⟨first, ⟨unseen, a, rfl, here⟩, last⟩
      · rintro ⟨first, ⟨unseen, a, rfl, here⟩, last⟩
        exact ⟨_, (step_mid mid).mpr ⟨unseen, a, rfl, rfl⟩, ih.mpr ⟨first, here, last⟩⟩
    by_cases index : k ∈ indexKeys
    · rw [fieldRead_cons_of_not_mem text, fieldRead_cons_of_not_mem mid,
        fieldRead_cons_of_mem index]
      constructor
      · rintro ⟨u, stepped, read⟩
        obtain ⟨unseen, a, rfl, rfl⟩ := (step_index index).mp stepped
        obtain ⟨first, second, here⟩ := ih.mp read
        exact ⟨first, second, unseen, a, rfl, here⟩
      · rintro ⟨first, second, unseen, a, rfl, here⟩
        exact ⟨_, (step_index index).mpr ⟨unseen, a, rfl, rfl⟩, ih.mpr ⟨first, second, here⟩⟩
    · rw [fieldRead_cons_of_not_mem text, fieldRead_cons_of_not_mem mid,
        fieldRead_cons_of_not_mem index, ← ih]
      constructor
      · rintro ⟨u, stepped, read⟩
        rw [step_other text mid index] at stepped
        cases stepped
        exact read
      · intro read
        exact ⟨f, step_other text mid index, read⟩

/-- An object is read as a candidate if it has the text, and each of the other two fields at most
once. -/
theorem ofMembers_eq_ok {members : List (String × Json)} {c : Candidate} :
    ofMembers (Doc.ofMembers members) none = .ok c ↔
      named textKeys members = [.string c.candidate] ∧
      Holds optionalText (named midKeys members) c.mid ∧
      Holds optionalU16 (named indexKeys members) c.lineIndex := by
  simp only [ofMembers, bind_eq_ok, pure_eq_ok, required_eq_ok, foldMembers_step]
  rw [← exists_fieldRead, ← exists_fieldRead]
  constructor
  · rintro ⟨⟨text, mid, index⟩, ⟨readText, readMid, readIndex⟩, _, rfl, rfl⟩
    exact ⟨readText, ⟨mid, readMid, rfl⟩, index, readIndex, rfl⟩
  · obtain ⟨text, mid, index⟩ := c
    rintro ⟨readText, ⟨m, readMid, rfl⟩, n, readIndex, rfl⟩
    exact ⟨⟨some text, m, n⟩, ⟨readText, readMid, readIndex⟩, text, rfl, rfl⟩

end Candidate

end Parley
