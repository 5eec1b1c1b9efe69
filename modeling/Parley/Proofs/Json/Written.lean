import Parley.Json.Printer
import Parley.Json.Reader
import Parley.Proofs.Json.Tree

/-!
# What was written is read back

The compact text of a value is read back as that value, as far as its numbers are integers: doubles
are rounded on both ways. There is no limit to the depth here, because nesting is counted by the
caller who takes a value out of the document.
-/

namespace Parley

/-! ## Digits -/

namespace Decimal

theorem isDigit_ofNat {n : Nat} (h : n < 10) : (Char.ofNat (48 + n)).isDigit = true := by
  decide +revert

theorem digitsOf_ne_nil (n : Nat) : digitsOf n ≠ [] := by
  rw [digitsOf]
  split <;> simp

theorem isDigit_of_mem_digitsOf {n : Nat} {c : Char} (mem : c ∈ digitsOf n) :
    c.isDigit = true := by
  induction n using digitsOf.induct with
  | case1 n small =>
    rw [digitsOf, if_pos small, List.mem_singleton] at mem
    exact mem ▸ isDigit_ofNat small
  | case2 n large ih =>
    rw [digitsOf, if_neg large, List.mem_append, List.mem_singleton] at mem
    rcases mem with front | rfl
    · exact ih front
    · exact isDigit_ofNat (Nat.mod_lt n (by decide))

/-- Only zero starts with a zero. -/
theorem head_digitsOf {n : Nat} (positive : 0 < n) :
    ∃ c rest, digitsOf n = c :: rest ∧ c ≠ '0' := by
  induction n using digitsOf.induct with
  | case1 n small =>
    refine ⟨_, [], by rw [digitsOf, if_pos small], ?_⟩
    decide +revert
  | case2 n large ih =>
    obtain ⟨c, rest, digits, nonzero⟩ := ih (by omega)
    refine ⟨c, rest ++ [Char.ofNat (48 + n % 10)], ?_, nonzero⟩
    rw [digitsOf, if_neg large, digits]
    rfl

end Decimal

namespace Json

open Decimal

/-- What may follow a value: the end of the text or of what surrounds the value, or a comma. -/
def Closes (rest : List Char) : Prop := ∀ c ∈ rest.head?, c = ',' ∨ c = ']' ∨ c = '}'

theorem closes_cons {c : Char} {rest : List Char} (h : c = ',' ∨ c = ']' ∨ c = '}') :
    Closes (c :: rest) := by
  simpa [Closes] using h

/-! ## Numerals -/

namespace Numeral

theorem digitValue_ofNat {n : Nat} (h : n < 10) : digitValue (Char.ofNat (48 + n)) = n := by
  decide +revert

theorem gather_append {s m : Nat} {front : List Char} (back : List Char)
    (gathered : gather s front = (m, 0)) : gather s (front ++ back) = gather m back := by
  induction front generalizing s with
  | nil =>
    cases gathered
    rfl
  | cons c rest ih =>
    simp only [List.cons_append, gather] at gathered ⊢
    split at gathered
    case isTrue small => rw [if_pos small, ih gathered]
    case isFalse => cases gathered

/-- The digits of a number below `2 ^ 64` are gathered into that number. -/
theorem gather_digitsOf {n : Nat} (small : n < Nat.pow 2 64) : gather 0 (digitsOf n) = (n, 0) := by
  induction n using digitsOf.induct with
  | case1 n digit =>
    rw [digitsOf, if_pos digit]
    simp only [gather, digitValue_ofNat digit, Nat.mul_zero, Nat.zero_add, if_pos small]
  | case2 n large ih =>
    rw [digitsOf, if_neg large, gather_append _ (ih (by omega))]
    have value : 10 * (n / 10) + digitValue (Char.ofNat (48 + n % 10)) = n := by
      rw [digitValue_ofNat (Nat.mod_lt n (by decide)), Nat.div_add_mod]
    simp only [gather, value, if_pos small]

theorem head_not_digit {rest : List Char} (closes : Closes rest) :
    ∀ c ∈ rest.head?, c.isDigit = false := by
  intro c mem
  rcases closes c mem with rfl | rfl | rfl <;> rfl

theorem scanDigits_append {digits rest : List Char} (nonempty : digits ≠ [])
    (all : ∀ c ∈ digits, c.isDigit = true) (closes : Closes rest) :
    scanDigits (digits ++ rest) = .ok (digits, rest) := by
  obtain ⟨c, more, rfl⟩ := List.exists_cons_of_ne_nil nonempty
  have taken : rest.takeWhile Char.isDigit = [] := by
    cases rest with
    | nil => rfl
    | cons d more => simp [head_not_digit closes d rfl]
  have dropped : rest.dropWhile Char.isDigit = rest := by
    cases rest with
    | nil => rfl
    | cons d more => simp [head_not_digit closes d rfl]
  have first : c.isDigit = true := all c List.mem_cons_self
  rw [List.cons_append, scanDigits, if_pos first, ← List.cons_append,
    List.takeWhile_append_of_pos all, List.dropWhile_append_of_pos all, taken, dropped,
    List.append_nil]

theorem scanWhole_digitsOf (n : Nat) {rest : List Char} (closes : Closes rest) :
    scanWhole (digitsOf n ++ rest) = .ok (digitsOf n, rest) := by
  have scanned := scanDigits_append (digitsOf_ne_nil n) (fun _ => isDigit_of_mem_digitsOf) closes
  rcases Nat.eq_zero_or_pos n with rfl | positive
  · have zero : digitsOf 0 = ['0'] := by
      rw [digitsOf]
      rfl
    rw [zero] at scanned ⊢
    cases rest with
    | nil => exact scanned
    | cons c more => simp [scanWhole, head_not_digit closes c rfl]
  · obtain ⟨c, more, digits, nonzero⟩ := head_digitsOf positive
    rw [digits] at scanned ⊢
    rw [← scanned, List.cons_append]
    unfold scanWhole
    split
    case h_1 same => exact absurd (List.cons.inj same).1 nonzero
    case h_2 => rfl

/-- The text of an integer is scanned into its sign and its digits. -/
theorem scan_integerText (i : Int) {rest : List Char} (closes : Closes rest) :
    scan (integerText i ++ rest) =
      .ok (⟨decide (i < 0), digitsOf i.natAbs, none, none⟩, rest) := by
  have minus : scanMinus (integerText i ++ rest) =
      (decide (i < 0), digitsOf i.natAbs ++ rest) := by
    unfold integerText
    by_cases negative : i < 0
    · simp [negative, scanMinus]
    · rw [if_neg negative, decide_eq_false negative]
      obtain ⟨c, more, digits⟩ := List.exists_cons_of_ne_nil (digitsOf_ne_nil i.natAbs)
      rw [digits, List.cons_append]
      unfold scanMinus
      split
      case h_1 same =>
        cases same
        exact absurd (isDigit_of_mem_digitsOf (digits ▸ List.mem_cons_self)) (by decide)
      case h_2 => rfl
  have fraction : scanFraction rest = .ok (none, rest) := by
    unfold scanFraction
    split
    case h_1 more => rcases closes '.' rfl with h | h | h <;> cases h
    case h_2 => rfl
  have exponent : scanExponent rest = .ok (none, rest) := by
    cases rest with
    | nil => rfl
    | cons c more =>
      rw [scanExponent, if_neg]
      rintro (rfl | rfl) <;> rcases closes _ rfl with h | h | h <;> cases h
  unfold scan
  rw [minus]
  simp only [scanWhole_digitsOf _ closes, fraction, exponent, bind, Except.bind]
  rfl

/-- An integer in range is denoted by its digits and its sign. -/
theorem value_integer {i : Int} (inRange : Number.InRange i) :
    value ⟨decide (i < 0), digitsOf i.natAbs, none, none⟩ = .ok (.int i) := by
  obtain ⟨lower, upper⟩ := inRange
  have small : i.natAbs < Nat.pow 2 64 := by
    simp only [Nat.pow_eq] at lower upper ⊢
    omega
  have int : int? ⟨decide (i < 0), digitsOf i.natAbs, none, none⟩ = some i := by
    simp only [int?, gather_digitsOf small, decide_eq_true_eq]
    by_cases negative : i < 0
    · have kept : ¬ (i.natAbs = 0 ∨ Nat.pow 2 63 < i.natAbs) := by
        simp only [Nat.pow_eq] at lower ⊢
        omega
      rw [if_pos negative, if_neg kept]
      congr
      omega
    · rw [if_neg negative]
      congr
      omega
  simp only [value, int]

end Numeral

/-- A number that is read back as it was written. -/
def Integral : Json → Prop
  | .number n => ∃ i, n = .int i ∧ Number.InRange i
  | _ => True

theorem readNumeral_integerText {i : Int} (inRange : Number.InRange i) {rest : List Char}
    (closes : Closes rest) :
    readNumeral (integerText i ++ rest) = (.number (.ok (.int i)) (.ok ()), some rest) := by
  simp only [readNumeral, Numeral.scan_integerText i closes, Numeral.value_integer inRange]

/-! ## Strings -/

theorem hexValue?_hexDigit {n : Nat} (h : n < 16) : hexValue? (hexDigit n) = some n := by
  decide +revert

/-- Two hexadecimal digits behind two zeros are the code unit that they were made from. -/
theorem codeUnit_hexDigit {n : Nat} (h : n < 256) (tail : List Char) :
    codeUnit ('0' :: '0' :: hexDigit (n / 16) :: hexDigit (n % 16) :: tail) = .ok (n, tail) := by
  have zero : hexValue? '0' = some 0 := rfl
  simp only [codeUnit, zero, hexValue?_hexDigit (show n / 16 < 16 by omega),
    hexValue?_hexDigit (show n % 16 < 16 by omega)]
  congr 2
  omega

/-- The escape of a code unit that belongs to no surrogate pair. -/
theorem readEscape_unit {n : Nat} {cs tail : List Char} (read : codeUnit cs = .ok (n, tail))
    (small : n < 0xD800) :
    readEscape ('u' :: cs) = .ok (Char.ofNat n, tail) ∧ skimEscape ('u' :: cs) = .ok tail := by
  have low : ¬ (0xDC00 ≤ n ∧ n ≤ 0xDFFF) := by omega
  have high : ¬ (0xD800 ≤ n ∧ n ≤ 0xDBFF) := by omega
  constructor
  · simp only [readEscape, read, bind, Except.bind, if_neg low, if_neg high]
    rfl
  · simp only [skimEscape, read]
    rfl

/-- The escape that is one letter. -/
theorem readEscape_letter {c e : Char} (letter : e ≠ 'u') (stands : shortEscape? e = some c)
    (tail : List Char) :
    readEscape (e :: tail) = .ok (c, tail) ∧ skimEscape (e :: tail) = .ok tail := by
  simp [readEscape, skimEscape, stands]

/-- A character inside a quoted string stands for itself or is the escape that stands for it. -/
theorem escaped_cases (c : Char) :
    (escaped c = [c] ∧ c ≠ '"' ∧ c ≠ '\\' ∧ ¬ c.toNat < 32) ∨
      ∃ e, escaped c = '\\' :: e ∧
        ∀ tail, readEscape (e ++ tail) = .ok (c, tail) ∧ skimEscape (e ++ tail) = .ok tail := by
  have letter {n : Nat} {e : Char} (code : c.toNat = n) (letter : e ≠ 'u')
      (stands : shortEscape? e = some (Char.ofNat n)) (tail : List Char) :
      readEscape ([e] ++ tail) = .ok (c, tail) ∧ skimEscape ([e] ++ tail) = .ok tail := by
    rw [← code, Char.ofNat_toNat] at stands
    exact readEscape_letter letter stands tail
  unfold escaped
  split
  case isTrue h => exact .inr ⟨_, rfl, letter (n := 34) (by rw [h]; rfl) (by decide) rfl⟩
  split
  case isTrue h => exact .inr ⟨_, rfl, letter (n := 92) (by rw [h]; rfl) (by decide) rfl⟩
  split
  case isTrue h => exact .inr ⟨_, rfl, letter h (by decide) rfl⟩
  split
  case isTrue h => exact .inr ⟨_, rfl, letter (n := 9) (by rw [h]; rfl) (by decide) rfl⟩
  split
  case isTrue h => exact .inr ⟨_, rfl, letter (n := 10) (by rw [h]; rfl) (by decide) rfl⟩
  split
  case isTrue h => exact .inr ⟨_, rfl, letter h (by decide) rfl⟩
  split
  case isTrue h => exact .inr ⟨_, rfl, letter (n := 13) (by rw [h]; rfl) (by decide) rfl⟩
  split
  case isTrue control =>
    refine .inr ⟨_, rfl, fun tail => ?_⟩
    have read := readEscape_unit (codeUnit_hexDigit (n := c.toNat) (by omega) tail) (by omega)
    rwa [Char.ofNat_toNat] at read
  case isFalse quote backslash _ _ _ _ _ control => exact .inl ⟨rfl, quote, backslash, control⟩

theorem readChars_escaped (fuel : Nat) (c : Char) (tail : List Char) :
    readChars (fuel + 1) (escaped c ++ tail) =
      (readChars fuel tail).map fun r => (c :: r.1, r.2) := by
  rcases escaped_cases c with ⟨plain, quote, backslash, control⟩ | ⟨e, escape, stands⟩
  · rw [plain, List.singleton_append, readChars, if_neg quote, if_neg backslash, if_neg control]
    cases readChars fuel tail <;> rfl
  · rw [escape, List.cons_append, readChars, if_neg (by decide), if_pos rfl]
    simp only [(stands tail).1, bind, Except.bind]
    cases readChars fuel tail <;> rfl

theorem skimChars_escaped (fuel : Nat) (c : Char) (tail : List Char) :
    skimChars (fuel + 1) (escaped c ++ tail) = skimChars fuel tail := by
  rcases escaped_cases c with ⟨plain, quote, backslash, control⟩ | ⟨e, escape, stands⟩
  · rw [plain, List.singleton_append, skimChars, if_neg quote, if_neg backslash, if_neg control]
  · rw [escape, List.cons_append, skimChars, if_neg (by decide), if_pos rfl]
    simp only [(stands tail).2, bind, Except.bind]

/-- With a step for each character and one for the closing quote, a string is read to its end. -/
theorem readChars_flatMap (rest : List Char) : ∀ (cs : List Char) (fuel : Nat), cs.length < fuel →
    readChars fuel (cs.flatMap escaped ++ '"' :: rest) = .ok (cs, rest) ∧
      skimChars fuel (cs.flatMap escaped ++ '"' :: rest) = .ok rest
  | _, 0, enough => by cases enough
  | [], _ + 1, _ => ⟨rfl, rfl⟩
  | c :: cs, fuel + 1, enough => by
    obtain ⟨taken, skimmed⟩ := readChars_flatMap rest cs fuel (Nat.lt_of_succ_lt_succ enough)
    rw [List.flatMap_cons, List.append_assoc, readChars_escaped, skimChars_escaped, taken, skimmed]
    exact ⟨rfl, rfl⟩

theorem length_le_flatMap_escaped (cs : List Char) : cs.length ≤ (cs.flatMap escaped).length := by
  induction cs with
  | nil => exact Nat.le_refl 0
  | cons c rest ih =>
    have one : 1 ≤ (escaped c).length := by
      rcases escaped_cases c with ⟨plain, -⟩ | ⟨e, escape, -⟩ <;> simp [*]
    rw [List.flatMap_cons, List.length_append, List.length_cons]
    omega

theorem readQuoted_quoted (s : String) (fuel : Nat) (rest : List Char)
    (enough : (quoted s).length ≤ fuel + 1) :
    readQuoted fuel (s.toList.flatMap escaped ++ '"' :: rest) = (.ofString s, some rest) := by
  have length := length_le_flatMap_escaped s.toList
  simp only [quoted, List.length_cons, List.length_append] at enough
  obtain ⟨taken, skimmed⟩ := readChars_flatMap rest s.toList fuel (by omega)
  simp only [readQuoted, taken, skimmed, Except.map, String.ofList_toList, Quoted.ofString]

/-! ## Values -/

/-- How the text of a value starts: not with a blank, and not as an array ends. -/
def Opens (cs : List Char) : Prop := ∃ c rest, cs = c :: rest ∧ isBlank c = false ∧ c ≠ ']'

theorem Opens.append {cs : List Char} (opens : Opens cs) (more : List Char) :
    Opens (cs ++ more) := by
  obtain ⟨c, rest, rfl, blank, bracket⟩ := opens
  exact ⟨c, rest ++ more, rfl, blank, bracket⟩

theorem skipBlanks_cons {c : Char} (blank : isBlank c = false) (rest : List Char) :
    skipBlanks (c :: rest) = c :: rest := by
  simp [skipBlanks, blank]

/-- The first character of an integer's text. -/
theorem head_integerText (i : Int) :
    ∃ c rest, integerText i = c :: rest ∧ (c = '-' ∨ c.isDigit = true) := by
  unfold integerText
  split
  · exact ⟨_, _, rfl, .inl rfl⟩
  · obtain ⟨c, rest, digits⟩ := List.exists_cons_of_ne_nil (digitsOf_ne_nil i.natAbs)
    exact ⟨c, rest, digits, .inr (isDigit_of_mem_digitsOf (digits ▸ List.mem_cons_self))⟩

/-- What a character that a numeral starts with is not. -/
theorem ne_of_numeral {c d : Char} (numeral : c = '-' ∨ c.isDigit = true)
    (other : d ≠ '-' ∧ d.isDigit = false) : c ≠ d := by
  rintro rfl
  rcases numeral with minus | digit
  · exact other.1 minus
  · exact Bool.false_ne_true (other.2.symm.trans digit)

theorem opens_chars {v : Json} (integral : v.All Integral) : Opens v.chars := by
  cases v with
  | null | string | array | object => exact ⟨_, _, rfl, rfl, by decide⟩
  | bool b => cases b <;> exact ⟨_, _, rfl, rfl, by decide⟩
  | number n =>
    obtain ⟨i, rfl, -⟩ := integral
    obtain ⟨c, rest, text, numeral⟩ := head_integerText i
    refine ⟨c, rest, text, ?_, ne_of_numeral numeral (by decide)⟩
    simp only [isBlank, Bool.or_eq_false_iff, decide_eq_false_iff_not]
    exact ⟨⟨⟨ne_of_numeral numeral (by decide), ne_of_numeral numeral (by decide)⟩,
      ne_of_numeral numeral (by decide)⟩, ne_of_numeral numeral (by decide)⟩

theorem opens_charsItems {v : Json} (rest : List Json) (integral : v.All Integral) :
    Opens (charsItems (v :: rest)) := by
  cases rest with
  | nil => exact opens_chars integral
  | cons w rest => exact (opens_chars integral).append _

theorem charsMembers_cons (m : String × Json) (rest : List (String × Json)) :
    ∃ more, charsMembers (m :: rest) = '"' :: more := by
  obtain ⟨k, v⟩ := m
  cases rest <;> exact ⟨_, rfl⟩

section Steps

variable {fuel : Nat} {c : Char} {cs rest : List Char}

theorem readValue_numeral (numeral : c = '-' ∨ c.isDigit = true) :
    readValue (fuel + 1) (c :: cs) = readNumeral (c :: cs) := by
  have not (d : Char) (other : d ≠ '-' ∧ d.isDigit = false) : c ≠ d := ne_of_numeral numeral other
  have blank : isBlank c = false := by simp [isBlank, not]
  simp [readValue, skipBlanks_cons blank, not, numeral]

theorem readValue_array (opens : Opens cs) :
    readValue (fuel + 1) ('[' :: cs) =
      (.array (readItems fuel cs).items (readItems fuel cs).stop, (readItems fuel cs).rest) := by
  obtain ⟨c, cs, rfl, blank, bracket⟩ := opens
  have start : skipBlanks ('[' :: c :: cs) = '[' :: c :: cs := skipBlanks_cons rfl _
  simp [readValue, start, skipBlanks_cons blank, bracket]

theorem readValue_object :
    readValue (fuel + 1) ('{' :: '"' :: cs) =
      let parts := readMembers fuel (.ended .object) ('"' :: cs)
      (.object parts.items parts.stop, parts.rest) := rfl

theorem readItems_last {d : Doc} (read : readValue fuel cs = (d, some (']' :: rest))) :
    readItems (fuel + 1) cs = ⟨[d], none, some rest⟩ := by
  have close : skipBlanks (']' :: rest) = ']' :: rest := skipBlanks_cons rfl _
  simp [readItems, read, close]

theorem readItems_more {d : Doc} (opens : Opens rest)
    (read : readValue fuel cs = (d, some (',' :: rest))) :
    readItems (fuel + 1) cs =
      ⟨d :: (readItems fuel rest).items, (readItems fuel rest).stop,
        (readItems fuel rest).rest⟩ := by
  obtain ⟨c, rest, rfl, blank, bracket⟩ := opens
  have comma : skipBlanks (',' :: c :: rest) = ',' :: c :: rest := skipBlanks_cons rfl _
  simp [readItems, read, comma, skipBlanks_cons blank, bracket]

theorem readMembers_last {cut : Fault} {k : Quoted} {d : Doc} {cs' : List Char}
    (key : readQuoted fuel cs = (k, some (':' :: cs')))
    (read : readValue fuel cs' = (d, some ('}' :: rest))) :
    readMembers (fuel + 1) cut ('"' :: cs) = ⟨[(k, d)], none, some rest⟩ := by
  have colon : skipBlanks (':' :: cs') = ':' :: cs' := skipBlanks_cons rfl _
  have close : skipBlanks ('}' :: rest) = '}' :: rest := skipBlanks_cons rfl _
  simp [readMembers, key, colon, read, close]

theorem readMembers_more {cut : Fault} {k : Quoted} {d : Doc} {cs' : List Char}
    (key : readQuoted fuel cs = (k, some (':' :: cs')))
    (read : readValue fuel cs' = (d, some (',' :: '"' :: rest))) :
    readMembers (fuel + 1) cut ('"' :: cs) =
      let parts := readMembers fuel (.ended .value) ('"' :: rest)
      ⟨(k, d) :: parts.items, parts.stop, parts.rest⟩ := by
  have colon : skipBlanks (':' :: cs') = ':' :: cs' := skipBlanks_cons rfl _
  have comma : skipBlanks (',' :: '"' :: rest) = ',' :: '"' :: rest := skipBlanks_cons rfl _
  have quote : skipBlanks ('"' :: rest) = '"' :: rest := skipBlanks_cons rfl _
  simp [readMembers, key, colon, read, comma, quote]

end Steps

mutual

/-- The text of a value is read as the value, with two steps of `fuel` for each character. -/
theorem readValue_chars : ∀ (v : Json) (fuel : Nat) (rest : List Char), All Integral v →
    Closes rest → 2 * v.chars.length ≤ fuel →
    readValue fuel (v.chars ++ rest) = (Doc.ofJson v, some rest)
  | v, 0, rest, integral, _, enough => by
    obtain ⟨c, cs, text, -⟩ := opens_chars integral
    rw [text, List.length_cons] at enough
    omega
  | .null, fuel + 1, rest, _, _, _ => rfl
  | .bool true, fuel + 1, rest, _, _, _ => rfl
  | .bool false, fuel + 1, rest, _, _, _ => rfl
  | .number n, fuel + 1, rest, integral, closes, _ => by
    obtain ⟨i, rfl, inRange⟩ := integral
    obtain ⟨c, cs, text, numeral⟩ := head_integerText i
    have read := readNumeral_integerText inRange closes
    rw [text] at read
    simp only [chars, Number.text, text]
    exact (readValue_numeral numeral).trans read
  | .string s, fuel + 1, rest, _, _, enough => by
    have length : (chars (.string s)).length = (quoted s).length := rfl
    have read := readQuoted_quoted s fuel rest (by omega)
    have text : chars (.string s) ++ rest = '"' :: (s.toList.flatMap escaped ++ '"' :: rest) := by
      simp [chars, quoted]
    rw [text]
    exact congrArg (fun r => (Doc.string r.1, r.2)) read
  | .array [], fuel + 1, rest, _, _, _ => rfl
  | .array (v :: items), fuel + 1, rest, integral, _, enough => by
    have length : (chars (.array (v :: items))).length = (charsItems (v :: items)).length + 2 := by
      simp [chars]
    have read := readItems_charsItems (v :: items) fuel rest (List.cons_ne_nil _ _) integral.2
      (by omega)
    have opens := (opens_charsItems items integral.2.1).append (']' :: rest)
    have text : chars (.array (v :: items)) ++ rest =
        '[' :: (charsItems (v :: items) ++ ']' :: rest) := by simp [chars]
    rw [text, readValue_array opens, read]
    rfl
  | .object [], fuel + 1, rest, _, _, _ => rfl
  | .object (m :: members), fuel + 1, rest, integral, _, enough => by
    have length : (chars (.object (m :: members))).length =
        (charsMembers (m :: members)).length + 2 := by simp [chars]
    have read := readMembers_charsMembers (m :: members) fuel (.ended .object) rest
      (List.cons_ne_nil _ _) integral.2 (by omega)
    obtain ⟨more, quote⟩ := charsMembers_cons m members
    have text : chars (.object (m :: members)) ++ rest =
        '{' :: '"' :: (more ++ '}' :: rest) := by simp [chars, quote]
    rw [quote] at read
    rw [text, readValue_object]
    exact congrArg (fun parts => (Doc.object parts.items parts.stop, parts.rest)) read

/-- The text of the items of an array is read as these items. -/
theorem readItems_charsItems : ∀ (items : List Json) (fuel : Nat) (rest : List Char),
    items ≠ [] → AllItems Integral items → 2 * (charsItems items).length + 1 ≤ fuel →
    readItems fuel (charsItems items ++ ']' :: rest) = ⟨Doc.ofItems items, none, some rest⟩
  | [], _, _, nonempty, _, _ => absurd rfl nonempty
  | _ :: _, 0, _, _, _, enough => by omega
  | [v], fuel + 1, rest, _, integral, enough => by
    have read := readValue_chars v fuel (']' :: rest) integral.1 (closes_cons (by decide))
      (by simp only [charsItems] at enough; omega)
    exact readItems_last read
  | v :: w :: items, fuel + 1, rest, _, integral, enough => by
    have length : (charsItems (v :: w :: items)).length =
        v.chars.length + 1 + (charsItems (w :: items)).length := by
      simp only [charsItems, List.length_append, List.length_cons]
      omega
    have read := readValue_chars v fuel (',' :: (charsItems (w :: items) ++ ']' :: rest)) integral.1
      (closes_cons (by decide)) (by omega)
    have behind := readItems_charsItems (w :: items) fuel rest (List.cons_ne_nil _ _) integral.2
      (by omega)
    have opens := (opens_charsItems items integral.2.1).append (']' :: rest)
    have text : charsItems (v :: w :: items) ++ ']' :: rest =
        v.chars ++ ',' :: (charsItems (w :: items) ++ ']' :: rest) := by simp [charsItems]
    rw [text, readItems_more opens read, behind]
    rfl

/-- The text of the members of an object is read as these members. -/
theorem readMembers_charsMembers : ∀ (members : List (String × Json)) (fuel : Nat) (cut : Fault)
    (rest : List Char), members ≠ [] → AllMembers Integral members →
    2 * (charsMembers members).length + 1 ≤ fuel →
    readMembers fuel cut (charsMembers members ++ '}' :: rest) =
      ⟨Doc.ofMembers members, none, some rest⟩
  | [], _, _, _, nonempty, _, _ => absurd rfl nonempty
  | _ :: _, 0, _, _, _, _, enough => by omega
  | [(k, v)], fuel + 1, cut, rest, _, integral, enough => by
    have length : (charsMembers [(k, v)]).length = (quoted k).length + 1 + v.chars.length := by
      simp only [charsMembers, List.length_append, List.length_cons]
      omega
    have key := readQuoted_quoted k fuel (':' :: (v.chars ++ '}' :: rest)) (by omega)
    have read := readValue_chars v fuel ('}' :: rest) integral.1 (closes_cons (by decide))
      (by omega)
    have text : charsMembers [(k, v)] ++ '}' :: rest =
        '"' :: (k.toList.flatMap escaped ++ '"' :: ':' :: (v.chars ++ '}' :: rest)) := by
      simp [charsMembers, quoted]
    rw [text, readMembers_last key read]
    rfl
  | (k, v) :: m :: members, fuel + 1, cut, rest, _, integral, enough => by
    have length : (charsMembers ((k, v) :: m :: members)).length =
        (quoted k).length + 1 + (v.chars.length + 1 + (charsMembers (m :: members)).length) := by
      simp only [charsMembers, List.length_append, List.length_cons]
      omega
    obtain ⟨more, quote⟩ := charsMembers_cons m members
    have key := readQuoted_quoted k fuel
      (':' :: (v.chars ++ ',' :: '"' :: (more ++ '}' :: rest))) (by omega)
    have read := readValue_chars v fuel (',' :: '"' :: (more ++ '}' :: rest)) integral.1
      (closes_cons (by decide)) (by omega)
    have behind := readMembers_charsMembers (m :: members) fuel (.ended .value) rest
      (List.cons_ne_nil _ _) integral.2 (by omega)
    rw [quote, List.cons_append] at behind
    have text : charsMembers ((k, v) :: m :: members) ++ '}' :: rest =
        '"' :: (k.toList.flatMap escaped ++
          '"' :: ':' :: (v.chars ++ ',' :: '"' :: (more ++ '}' :: rest))) := by
      simp [charsMembers, quoted, quote]
    rw [text, readMembers_more key read, behind]
    rfl

end

mutual

/-- There is nothing to find in a document without faults. -/
theorem skim_ofJson : ∀ v : Json, (Doc.ofJson v).skim = .ok ()
  | .null | .bool _ | .number _ | .string _ => rfl
  | .array items => by
    simp only [Doc.ofJson, Doc.skim, skimItems_ofItems items]
    rfl
  | .object members => by
    simp only [Doc.ofJson, Doc.skim, skimMembers_ofMembers members]
    rfl

theorem skimItems_ofItems : ∀ items, Doc.skimItems (Doc.ofItems items) = .ok ()
  | [] => rfl
  | v :: rest => by
    simp only [Doc.ofItems, Doc.skimItems, skim_ofJson v, skimItems_ofItems rest]
    rfl

theorem skimMembers_ofMembers : ∀ members, Doc.skimMembers (Doc.ofMembers members) = .ok ()
  | [] => rfl
  | (k, v) :: rest => by
    simp only [Doc.ofMembers, Doc.skimMembers, skim_ofJson v, skimMembers_ofMembers rest]
    rfl

end

/-- The compact text of a value is read as that value, and as nothing more. -/
theorem read_render {v : Json} (integral : v.All Integral) :
    Text.read v.render = ⟨Doc.ofJson v, false⟩ := by
  have read := readValue_chars v (2 * v.chars.length + 2) [] integral (by simp [Closes]) (by omega)
  rw [List.append_nil] at read
  simp [Text.read, render, read, skipBlanks]

end Json

end Parley
