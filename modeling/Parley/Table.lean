/-!
# Tables

A finite map as a list of pairs in which a key stands at most once. Only what `get?` finds and how
many keys there are ever matters; the order of the pairs does not.
-/

namespace Parley

/-- A finite map from keys to values. -/
structure Table (κ : Type) (ν : Type) where
  pairs : List (κ × ν)

namespace Table

variable {κ ν : Type} [DecidableEq κ]

/-- The table without keys. -/
def empty : Table κ ν := ⟨[]⟩

/-- The value of a key in a list of pairs. -/
def lookup (k : κ) : List (κ × ν) → Option ν
  | [] => none
  | (k', v) :: rest => if k' = k then some v else lookup k rest

/-- The value of a key. -/
def get? (t : Table κ ν) (k : κ) : Option ν := lookup k t.pairs

/-- Remove a key. -/
def erase (t : Table κ ν) (k : κ) : Table κ ν := ⟨t.pairs.filter fun p => p.1 ≠ k⟩

/-- Give a key a value, in place of the one it had. -/
def set (t : Table κ ν) (k : κ) (v : ν) : Table κ ν := ⟨(t.erase k).pairs ++ [(k, v)]⟩

/-- The number of keys. -/
def size (t : Table κ ν) : Nat := t.pairs.length

/-- The keys. -/
def keys (t : Table κ ν) : List κ := t.pairs.map (·.1)

/-- The key has a value. -/
def contains (t : Table κ ν) (k : κ) : Bool := (t.get? k).isSome

theorem lookup_append (k : κ) (ps qs : List (κ × ν)) :
    lookup k (ps ++ qs) = (lookup k ps).or (lookup k qs) := by
  induction ps with
  | nil => rfl
  | cons p rest ih => by_cases h : p.1 = k <;> simp [lookup, h, ih]

theorem lookup_filter (k k' : κ) (ps : List (κ × ν)) :
    lookup k (ps.filter fun p => p.1 ≠ k') = if k = k' then none else lookup k ps := by
  induction ps with
  | nil => simp [lookup]
  | cons p rest ih =>
    by_cases hp : p.1 = k'
    · by_cases hk : k = k'
      · simp_all
      · have : p.1 ≠ k := fun h => hk (h.symm.trans hp)
        simp_all [lookup]
    · by_cases hk : k = k'
      · subst hk; simp_all [lookup]
      · by_cases hpk : p.1 = k <;> simp_all [lookup]

@[simp] theorem get?_empty (k : κ) : (empty : Table κ ν).get? k = none := rfl

theorem get?_erase (t : Table κ ν) (k k' : κ) :
    (t.erase k').get? k = if k = k' then none else t.get? k := lookup_filter k k' t.pairs

@[simp] theorem get?_erase_self (t : Table κ ν) (k : κ) : (t.erase k).get? k = none := by
  simp [get?_erase]

theorem get?_set (t : Table κ ν) (k k' : κ) (v : ν) :
    (t.set k' v).get? k = if k = k' then some v else t.get? k := by
  have h := get?_erase t k k'
  unfold get? at h
  unfold get? set
  rw [lookup_append, h]
  by_cases hk : k = k'
  · simp [lookup, hk]
  · have : ¬ k' = k := fun e => hk e.symm
    simp [lookup, hk, this]

@[simp] theorem get?_set_self (t : Table κ ν) (k : κ) (v : ν) : (t.set k v).get? k = some v := by
  simp [get?_set]

end Table

end Parley
