import Mathlib.Data.Set.Card
import Parley.Table

/-!
# The keys of a table

Every key of a table stands once (`Table.Unique`), as long as the table is filled by `set` and
`erase`. Then its size is the number of its keys.
-/

namespace Parley

namespace Table

variable {κ ν μ : Type} [DecidableEq κ] {t : Table κ ν}

/-- Every key stands once. -/
def Unique (t : Table κ ν) : Prop := t.keys.Nodup

theorem Unique.empty {κ ν : Type} : (empty : Table κ ν).Unique := List.nodup_nil

theorem Unique.erase {t : Table κ ν} (h : t.Unique) (k : κ) : (t.erase k).Unique :=
  List.Nodup.sublist (List.filter_sublist.map _) h

theorem Unique.set {t : Table κ ν} (h : t.Unique) (k : κ) (v : ν) : (t.set k v).Unique := by
  have keys : (t.set k v).keys = (t.erase k).keys ++ [k] := by simp [keys, Table.set]
  unfold Unique
  rw [keys, List.nodup_append]
  refine ⟨h.erase k, by simp, fun k' mem k'' mem' => ?_⟩
  rw [List.mem_singleton.mp mem']
  rintro rfl
  obtain ⟨p, mem, rfl⟩ := List.mem_map.mp mem
  simp [Table.erase] at mem

theorem lookup_eq_none {k : κ} {ps : List (κ × ν)} (h : k ∉ ps.map (·.1)) : lookup k ps = none := by
  induction ps with
  | nil => rfl
  | cons p rest ih =>
    simp only [List.map_cons, List.mem_cons, not_or] at h
    rw [lookup, if_neg fun e => h.1 e.symm, ih h.2]

/-- Values can be replaced or dropped one by one, if every key stands once. -/
theorem lookup_filterMap (f : ν → Option μ) (k : κ) {ps : List (κ × ν)}
    (h : (ps.map (·.1)).Nodup) :
    lookup k (ps.filterMap fun p => (f p.2).map (p.1, ·)) = (lookup k ps).bind f := by
  have gone {qs : List (κ × ν)} (h : k ∉ qs.map (·.1)) :
      lookup k (qs.filterMap fun p => (f p.2).map (p.1, ·)) = none := by
    apply lookup_eq_none
    intro mem
    obtain ⟨q, kept, rfl⟩ := List.mem_map.mp mem
    obtain ⟨p, there, hp⟩ := List.mem_filterMap.mp kept
    obtain ⟨v, -, rfl⟩ := Option.map_eq_some_iff.mp hp
    exact h (List.mem_map.mpr ⟨p, there, rfl⟩)
  induction ps with
  | nil => rfl
  | cons p rest ih =>
    simp only [List.map_cons, List.nodup_cons] at h
    by_cases hk : p.1 = k
    · rw [hk] at h
      rw [lookup, if_pos hk, List.filterMap_cons]
      cases hf : f p.2 with
      | none => simpa [hf] using gone h.1
      | some v => simp [lookup, hk, hf]
    · rw [lookup, if_neg hk, ← ih h.2, List.filterMap_cons]
      cases hf : f p.2 with
      | none => simp
      | some v => simp [lookup, hk]

theorem mem_keys (t : Table κ ν) (k : κ) : k ∈ t.keys ↔ (t.get? k).isSome := by
  obtain ⟨pairs⟩ := t
  show k ∈ pairs.map (·.1) ↔ (lookup k pairs).isSome
  induction pairs with
  | nil => simp [lookup]
  | cons x rest ih =>
    by_cases here : x.1 = k
    · simp [lookup, here]
    · rw [List.map_cons, List.mem_cons, ih, lookup, if_neg here]
      exact ⟨fun h => h.resolve_left (Ne.symm here), .inr⟩

/-- The size of a table is the number of its keys. -/
theorem Unique.size_eq_ncard (h : t.Unique) : t.size = {k | (t.get? k).isSome}.ncard := by
  have keys : {k | (t.get? k).isSome} = (t.keys.toFinset : Set κ) := by
    ext k
    simp [t.mem_keys k]
  rw [keys, Set.ncard_coe_finset, List.toFinset_card_of_nodup h]
  simp [size, Table.keys]

end Table

end Parley
