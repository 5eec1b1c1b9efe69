import Mathlib.Data.List.Induction

/-!
# Places in a history

What happens to a system is listed as a history, which grows at its end. A place in a history that
has grown by an entry is one of the history before, or that of the entry.
-/

namespace Parley

variable {α : Type} {l l' before after : List α} {x y : α}

/-- A place in what was appended, or in what was there before. -/
theorem append_eq_split : l ++ l' = before ++ y :: after ↔
    (∃ front, before = l ++ front ∧ l' = front ++ y :: after) ∨
      ∃ back, after = back ++ l' ∧ l = before ++ y :: back := by
  constructor
  · intro split
    rcases List.append_eq_append_iff.mp split with ⟨front, rfl, rest⟩ | ⟨gap, rfl, rest⟩
    · exact .inl ⟨front, rfl, rest⟩
    · cases gap with
      | nil => exact .inl ⟨[], by simp, rest.symm⟩
      | cons first back =>
        obtain ⟨rfl, rfl⟩ := List.cons.inj rest
        exact .inr ⟨back, rfl, rfl⟩
  · rintro (⟨front, rfl, rfl⟩ | ⟨back, rfl, rfl⟩)
    · rw [List.append_assoc]
    · rw [List.append_assoc, List.cons_append]

theorem snoc_eq_split : l ++ [x] = before ++ y :: after ↔
    (after = [] ∧ before = l ∧ y = x) ∨
      ∃ after', after = after' ++ [x] ∧ l = before ++ y :: after' := by
  rw [append_eq_split]
  refine or_congr_left ⟨?_, ?_⟩
  · rintro ⟨front, rfl, last⟩
    obtain ⟨rfl, rfl, rfl⟩ : front = [] ∧ x = y ∧ after = [] := by
      rcases front with _ | ⟨first, front⟩
      · simpa using last
      · simp at last
    exact ⟨rfl, List.append_nil l, rfl⟩
  · rintro ⟨rfl, rfl, rfl⟩
    exact ⟨[], by simp, rfl⟩

/-- The history may go on with an entry, or with none. -/
theorem split_toList {next : Option α} (split : l ++ next.toList = before ++ y :: after) :
    (next = some y ∧ before = l ∧ after = []) ∨
      ∃ after', after = after' ++ next.toList ∧ l = before ++ y :: after' := by
  cases next with
  | none => exact .inr ⟨after, by simp, by simpa using split⟩
  | some x =>
    rcases snoc_eq_split.mp split with ⟨rfl, rfl, rfl⟩ | earlier
    · exact .inl ⟨rfl, rfl, rfl⟩
    · exact .inr earlier

/-- What was taken of a list, with the entry behind it if there is one. -/
theorem take_append_next (l : List α) (n : Nat) :
    l.take n ++ (l[(l.take n).length]?).toList = l.take (n + 1) := by
  rw [List.take_add_one, List.length_take]
  -- Behind the last entry there is nothing to be found, however far one looks.
  rcases Nat.le_total n l.length with le | ge
  · rw [Nat.min_eq_left le]
  · rw [Nat.min_eq_right ge, List.getElem?_eq_none (Nat.le_refl _), List.getElem?_eq_none ge]

theorem prefix_snoc : l ++ [x] <+: l' ++ [y] ↔ l ++ [x] <+: l' ∨ (l = l' ∧ x = y) := by
  rw [List.prefix_concat_iff]
  constructor
  · rintro (same | earlier)
    · exact .inr (by simpa using same)
    · exact .inl earlier
  · rintro (earlier | ⟨rfl, rfl⟩)
    · exact .inr earlier
    · exact .inl rfl

end Parley
