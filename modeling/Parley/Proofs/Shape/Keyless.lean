import Parley.Proofs.Shape.Given

/-!
# Documents without given values

In a document in which no object has the key `givenKey`, no value is given as its text. A free value
that is read off it nests no deeper than it may, and has no object with this key either.
-/

namespace Parley.Shape

open Parley.Json

/-- An object without the key `givenKey`. -/
def Keyless : Json → Prop
  | .object members => ∀ m ∈ members, m.1 ≠ givenKey
  | _ => True

theorem Keyless.plain {v : Json} (keyless : Keyless v) : Plain v := by
  match v with
  | .object [] => trivial
  | .object ((k, w) :: _) => exact keyless (k, w) List.mem_cons_self
  | .null | .bool _ | .number _ | .string _ | .array _ => trivial

theorem Keyless.canonical {v : Json} (keyless : Keyless v) : Keyless v.canonical := by
  match v with
  | .object members =>
    intro m mem
    obtain ⟨m', mem', same⟩ := exists_of_mem_canonicalMembers mem
    rw [← same]
    exact keyless m' mem'
  | .null | .bool _ | .number _ | .string _ | .array _ => trivial

mutual

/-- No object in a document has the key `givenKey`. -/
def WithoutKey : Doc → Prop
  | .array items _ => ItemsWithoutKey items
  | .object members _ => MembersWithoutKey members
  | _ => True

/-- No object in the items of an array has the key. -/
def ItemsWithoutKey : List Doc → Prop
  | [] => True
  | d :: rest => WithoutKey d ∧ ItemsWithoutKey rest

/-- No member has the key, and no object in its value. -/
def MembersWithoutKey : List (Quoted × Doc) → Prop
  | [] => True
  | (k, d) :: rest => k.taken ≠ .ok givenKey ∧ WithoutKey d ∧ MembersWithoutKey rest

end

/-! ## Free values -/

theorem given?_of_withoutKey {members : List (Quoted × Doc)} (without : MembersWithoutKey members) :
    given? members = none := by
  match members with
  | [] => rfl
  | (k, d) :: rest =>
    simp only [given?]
    split
    case h_1 key taken => exact if_neg (by rintro rfl; exact without.1 taken)
    · rfl

section Values

variable {given : String → Reading Json} {medium : Medium}

mutual

/-- A value that is read off a document without the key. -/
theorem keyless_of_valueWith : ∀ (d : Doc) (levels : Nat) (v : Json), WithoutKey d →
    valueWith given medium levels d = .ok v → v.depth ≤ levels ∧ v.All Keyless
  | .null, _, _, _, read | .bool _, _, _, _, read => by
    cases read
    exact ⟨Nat.zero_le _, trivial⟩
  | .number taken _, _, _, _, read => by
    cases taken <;> cases read
    exact ⟨Nat.zero_le _, trivial⟩
  | .string ⟨taken, _⟩, _, _, _, read => by
    cases taken <;> cases read
    exact ⟨Nat.zero_le _, trivial⟩
  | .array items stop, 0, _, _, read => by cases read
  | .array items stop, levels + 1, _, without, read => by
    simp only [valueWith, bind_eq_ok, pure_eq_ok] at read
    obtain ⟨vs, read, -, -, rfl⟩ := read
    obtain ⟨fits, keyless⟩ := keyless_of_valuesWith items levels vs without read
    exact ⟨Nat.succ_le_succ fits, trivial, keyless⟩
  | .object members stop, 0, _, _, read => by cases read
  | .object members stop, levels + 1, _, without, read => by
    simp only [valueWith, given?_of_withoutKey without, bind_eq_ok, pure_eq_ok] at read
    obtain ⟨vs, read, -, -, rfl⟩ := read
    obtain ⟨fits, keys, keyless⟩ := keyless_of_membersWith members levels vs without read
    exact ⟨Nat.succ_le_succ fits, keys, keyless⟩
  | .unread f _, _, _, _, read => by cases read

theorem keyless_of_valuesWith : ∀ (items : List Doc) (levels : Nat) (vs : List Json),
    ItemsWithoutKey items → valuesWith given medium levels items = .ok vs →
    depthItems vs ≤ levels ∧ AllItems Keyless vs
  | [], _, _, _, read => by
    cases read
    exact ⟨Nat.zero_le _, trivial⟩
  | d :: rest, levels, _, without, read => by
    simp only [valuesWith, bind_eq_ok, pure_eq_ok] at read
    obtain ⟨v, head, vs, tail, rfl⟩ := read
    obtain ⟨fits, keyless⟩ := keyless_of_valueWith d levels v without.1 head
    obtain ⟨fitsRest, keylessRest⟩ := keyless_of_valuesWith rest levels vs without.2 tail
    exact ⟨Nat.max_le.mpr ⟨fits, fitsRest⟩, keyless, keylessRest⟩

theorem keyless_of_membersWith : ∀ (members : List (Quoted × Doc)) (levels : Nat)
    (vs : List (String × Json)), MembersWithoutKey members →
    membersWith given medium levels members = .ok vs →
    depthMembers vs ≤ levels ∧ Keyless (.object vs) ∧ AllMembers Keyless vs
  | [], _, _, _, read => by
    cases read
    exact ⟨Nat.zero_le _, fun m mem => (List.not_mem_nil mem).elim, trivial⟩
  | (⟨taken, _⟩, d) :: rest, levels, _, without, read => by
    simp only [membersWith, bind_eq_ok, pure_eq_ok, ofText_eq_ok] at read
    obtain ⟨key, rfl, v, head, vs, tail, rfl⟩ := read
    obtain ⟨other, here, behind⟩ := without
    obtain ⟨fits, keyless⟩ := keyless_of_valueWith d levels v here head
    obtain ⟨fitsRest, keys, keylessRest⟩ := keyless_of_membersWith rest levels vs behind tail
    refine ⟨Nat.max_le.mpr ⟨fits, fitsRest⟩, fun m mem => ?_, keyless, keylessRest⟩
    rcases List.mem_cons.mp mem with rfl | mem
    · exact fun same => other (congrArg Except.ok same)
    · exact keys m mem

end

end Values

/-- A free value that is read off a document without the key is plain and nests no deeper than it
may. -/
theorem plain_of_withoutKey {medium : Medium} {levels : Nat} {d : Doc} {v : Json}
    (without : WithoutKey d) (read : value medium levels d = .ok v) :
    v.depth ≤ levels ∧ v.All Plain := by
  simp only [value, bind_eq_ok, pure_eq_ok] at read
  obtain ⟨w, found, rfl⟩ := read
  obtain ⟨fits, keyless⟩ := keyless_of_valueWith d levels w without found
  exact ⟨Nat.le_trans (depth_canonical_le w) fits,
    all_canonical (fun _ h => Keyless.plain (Keyless.canonical h)) w keyless⟩

/-! ## Parts of a document -/

theorem withoutKey_of_mem {members : List (Quoted × Doc)} (without : MembersWithoutKey members) :
    ∀ m ∈ members, WithoutKey m.2 := by
  induction members with
  | nil => simp
  | cons first rest ih =>
    intro m mem
    rcases List.mem_cons.mp mem with rfl | mem
    · exact without.2.1
    · exact ih without.2.2 m mem

mutual

/-- A value that is set aside from a document without the key. -/
theorem withoutKey_of_take : ∀ (d : Doc) (levels : Nat) (v : Json), WithoutKey d →
    d.take levels = .ok v → WithoutKey (Doc.ofJson v)
  | .null, _, _, _, read | .bool _, _, _, _, read => by
    cases read
    trivial
  | .number taken _, _, _, _, read => by
    cases taken <;> cases read
    trivial
  | .string ⟨taken, _⟩, _, _, _, read => by
    cases taken <;> cases read
    trivial
  | .array items stop, 0, _, _, read => by cases read
  | .array items stop, levels + 1, _, without, read => by
    simp only [Doc.take, bind_eq_ok, pure_eq_ok] at read
    obtain ⟨vs, read, -, -, rfl⟩ := read
    exact itemsWithoutKey_of_take items levels vs without read
  | .object members stop, 0, _, _, read => by cases read
  | .object members stop, levels + 1, _, without, read => by
    simp only [Doc.take, bind_eq_ok, pure_eq_ok] at read
    obtain ⟨vs, read, -, -, rfl⟩ := read
    exact membersWithoutKey_of_take members levels vs without read
  | .unread f _, _, _, _, read => by cases read

theorem itemsWithoutKey_of_take : ∀ (items : List Doc) (levels : Nat) (vs : List Json),
    ItemsWithoutKey items → Doc.takeItems levels items = .ok vs →
    ItemsWithoutKey (Doc.ofItems vs)
  | [], _, _, _, read => by
    cases read
    trivial
  | d :: rest, levels, _, without, read => by
    simp only [Doc.takeItems, bind_eq_ok, pure_eq_ok] at read
    obtain ⟨v, head, vs, tail, rfl⟩ := read
    exact ⟨withoutKey_of_take d levels v without.1 head,
      itemsWithoutKey_of_take rest levels vs without.2 tail⟩

theorem membersWithoutKey_of_take : ∀ (members : List (Quoted × Doc)) (levels : Nat)
    (vs : List (String × Json)), MembersWithoutKey members →
    Doc.takeMembers levels members = .ok vs → MembersWithoutKey (Doc.ofMembers vs)
  | [], _, _, _, read => by
    cases read
    trivial
  | (k, d) :: rest, levels, _, without, read => by
    simp only [Doc.takeMembers, bind_eq_ok, pure_eq_ok] at read
    obtain ⟨key, taken, v, head, vs, tail, rfl⟩ := read
    obtain ⟨other, here, behind⟩ := without
    exact ⟨fun same => other (taken.trans same), withoutKey_of_take d levels v here head,
      membersWithoutKey_of_take rest levels vs behind tail⟩

end

/-- The half of a choice that comes next, and what is behind it. -/
theorem withoutKey_of_nextHalf? {stop : Option Fault} : ∀ {members rest : List (Quoted × Doc)}
    {half : Half} {d : Doc}, MembersWithoutKey members →
    nextHalf? stop members = .ok (some (half, d, rest)) → WithoutKey d ∧ MembersWithoutKey rest
  | [], _, _, _, _, read => by
    simp only [nextHalf?, bind_eq_ok, pure_eq_ok] at read
    obtain ⟨-, -, none⟩ := read
    cases none
  | (k, d) :: more, _, _, _, without, read => by
    simp only [nextHalf?, bind_eq_ok] at read
    obtain ⟨key, -, read⟩ := read
    split at read
    · cases read
      exact without.2
    split at read
    · cases read
      exact without.2
    · simp only [bind_eq_ok] at read
      obtain ⟨-, -, read⟩ := read
      exact withoutKey_of_nextHalf? without.2.2 read

/-- The item that a cursor stood before. -/
theorem eq_of_expect {α : Type} {c c' : Cursor} {length : Nat} {expected : Expected}
    {shape : Doc → Reading α} {a : α} (read : c.expect length expected shape = .ok (a, c')) :
    ∃ d, c.items = d :: c'.items ∧ shape d = .ok a := by
  obtain ⟨items, stop⟩ := c
  cases items with
  | nil =>
    cases stop <;> cases read
  | cons d rest =>
    simp only [Cursor.expect, Cursor.next?, bind_eq_ok] at read
    obtain ⟨_, same, read⟩ := read
    cases same
    simp only [bind_eq_ok, pure_eq_ok, Prod.mk.injEq] at read
    obtain ⟨a', found, rfl, rfl⟩ := read
    exact ⟨d, rfl, found⟩

/-- However a choice is written, its content is the content of a variant. -/
theorem content_of_tagBeside {α : Type} {name : String} {names : List String}
    {content : Medium → String → Doc → Reading α} {d : Doc} {a : α}
    (read : tagBeside name names content d = .ok a) :
    ∃ medium tag d', content medium tag d' = .ok a ∧ (WithoutKey d → WithoutKey d') := by
  cases d with
  | object members stop =>
    simp only [tagBeside, bind_eq_ok] at read
    obtain ⟨first, firstHalf, read⟩ := read
    match first, read with
    | some (.tag, d, rest), read =>
      simp only [bind_eq_ok] at read
      obtain ⟨tag, -, second, secondHalf, read⟩ := read
      match second, read with
      | some (.content, d, rest), read =>
        simp only [bind_eq_ok, pure_eq_ok] at read
        obtain ⟨a', found, -, -, rfl⟩ := read
        refine ⟨_, _, _, found, fun without => ?_⟩
        exact (withoutKey_of_nextHalf? (withoutKey_of_nextHalf? without firstHalf).2 secondHalf).1
      | some (.tag, _), read => cases read
      | none, read => cases read
    | some (.content, d, rest), read =>
      simp only [bind_eq_ok, ofText_eq_ok] at read
      obtain ⟨aside, taken, second, -, read⟩ := read
      match second, read with
      | some (.tag, d, rest), read =>
        simp only [bind_eq_ok, pure_eq_ok] at read
        obtain ⟨tag, -, a', found, -, -, rfl⟩ := read
        -- The content came first: what is read now is the value that was set aside.
        refine ⟨_, _, _, found, fun without => ?_⟩
        exact withoutKey_of_take _ _ _ (withoutKey_of_nextHalf? without firstHalf).1 taken
      | some (.content, _), read => cases read
      | none, read => cases read
    | none, read => cases read
  | array items stop =>
    simp only [tagBeside, bind_eq_ok, pure_eq_ok] at read
    obtain ⟨⟨tag, c⟩, tagged, ⟨a', c'⟩, found, -, -, rfl⟩ := read
    obtain ⟨_, front, -⟩ := eq_of_expect tagged
    obtain ⟨d', behind, found⟩ := eq_of_expect found
    refine ⟨_, _, d', found, fun without => ?_⟩
    have without : ItemsWithoutKey items := without
    rw [show items = _ from front, behind] at without
    exact without.2.1
  | number taken skimmed => cases taken <;> cases read
  | string text =>
    obtain ⟨taken, skimmed⟩ := text
    cases taken <;> cases read
  | _ => cases read

end Parley.Shape
