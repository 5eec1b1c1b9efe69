import Parley.Json.Value

/-!
# Values inside a value

`Json.All P v` says that `P` holds of `v` and of every value inside it, and `Json.depth v` how many
arrays and objects stand inside one another in it. The canonical form of a value has the members of
each of its objects in strictly ascending order, and a value that has them so is its own canonical
form.
-/

namespace Parley.Json

/-! ## Every value inside a value -/

mutual

/-- `P` holds of a value and of every value inside it. -/
def All (P : Json → Prop) : Json → Prop
  | .array items => P (.array items) ∧ AllItems P items
  | .object members => P (.object members) ∧ AllMembers P members
  | v => P v

/-- `P` holds everywhere in the items of an array. -/
def AllItems (P : Json → Prop) : List Json → Prop
  | [] => True
  | v :: rest => All P v ∧ AllItems P rest

/-- `P` holds everywhere in the values of an object's members. -/
def AllMembers (P : Json → Prop) : List (String × Json) → Prop
  | [] => True
  | (_, v) :: rest => All P v ∧ AllMembers P rest

end

mutual

/-- How many arrays and objects stand inside one another in a value, the outermost included. -/
def depth : Json → Nat
  | .array items => depthItems items + 1
  | .object members => depthMembers members + 1
  | _ => 0

/-- The depth of the deepest item. -/
def depthItems : List Json → Nat
  | [] => 0
  | v :: rest => max (depth v) (depthItems rest)

/-- The depth of the deepest member. -/
def depthMembers : List (String × Json) → Nat
  | [] => 0
  | (_, v) :: rest => max (depth v) (depthMembers rest)

end

variable {P Q : Json → Prop}

theorem allMembers_iff {members : List (String × Json)} :
    AllMembers P members ↔ ∀ m ∈ members, All P m.2 := by
  induction members with
  | nil => simp [AllMembers]
  | cons m rest ih => simp [AllMembers, ih]

mutual

theorem all_of_forall (h : ∀ v, P v) : ∀ v, All P v
  | .null | .bool _ | .number _ | .string _ => h _
  | .array items => ⟨h _, allItems_of_forall h items⟩
  | .object members => ⟨h _, allMembers_of_forall h members⟩

theorem allItems_of_forall (h : ∀ v, P v) : ∀ items, AllItems P items
  | [] => trivial
  | v :: rest => ⟨all_of_forall h v, allItems_of_forall h rest⟩

theorem allMembers_of_forall (h : ∀ v, P v) : ∀ members, AllMembers P members
  | [] => trivial
  | (_, v) :: rest => ⟨all_of_forall h v, allMembers_of_forall h rest⟩

end

/-! ## Members in order -/

/-- The keys of an object stand in strictly ascending order. -/
def Ascending : List (String × Json) → Prop := List.Pairwise fun a b => a.1 < b.1

/-- An object has its members in order. -/
def Sorted : Json → Prop
  | .object members => Ascending members
  | _ => True

section Insert

variable {k : String} {v : Json} {members : List (String × Json)}

theorem eq_or_mem_of_mem_insertNew {m : String × Json} (mem : m ∈ insertNew k v members) :
    m = (k, v) ∨ m ∈ members := by
  induction members with
  | nil => simpa [insertNew] using mem
  | cons first rest ih =>
    simp only [insertNew] at mem
    split at mem
    · simpa using mem
    split at mem
    · exact .inr mem
    · rcases List.mem_cons.mp mem with here | behind
      · exact .inr (here ▸ List.mem_cons_self)
      · exact (ih behind).imp_right (List.mem_cons_of_mem _)

theorem mem_insertNew_of_mem {m : String × Json} (mem : m ∈ members) :
    m ∈ insertNew k v members := by
  induction members with
  | nil => cases mem
  | cons first rest ih =>
    simp only [insertNew]
    split
    · exact List.mem_cons_of_mem _ mem
    split
    · exact mem
    · rcases List.mem_cons.mp mem with here | behind
      · exact here ▸ List.mem_cons_self
      · exact List.mem_cons_of_mem _ (ih behind)

/-- A key that is put into a list is there afterwards. -/
theorem key_mem_insertNew : ∃ w, (k, w) ∈ insertNew k v members := by
  induction members with
  | nil => exact ⟨v, List.mem_cons_self⟩
  | cons first rest ih =>
    simp only [insertNew]
    split
    · exact ⟨v, List.mem_cons_self⟩
    split
    case isTrue same => exact ⟨first.2, same ▸ List.mem_cons_self⟩
    · obtain ⟨w, mem⟩ := ih
      exact ⟨w, List.mem_cons_of_mem _ mem⟩

theorem Ascending.insertNew (ascending : Ascending members) :
    Ascending (Json.insertNew k v members) := by
  induction members with
  | nil => exact List.pairwise_singleton _ _
  | cons first rest ih =>
    obtain ⟨above, ascendingRest⟩ := List.pairwise_cons.mp ascending
    simp only [Json.insertNew]
    split
    case isTrue less =>
      refine List.pairwise_cons.mpr ⟨fun m mem => ?_, ascending⟩
      rcases List.mem_cons.mp mem with rfl | behind
      · exact less
      · exact String.lt_trans less (above m behind)
    split
    · exact ascending
    case isFalse notLess other =>
      refine List.pairwise_cons.mpr ⟨fun m mem => ?_, ih ascendingRest⟩
      rcases eq_or_mem_of_mem_insertNew mem with rfl | behind
      · exact String.not_le.mp fun le => other (String.le_antisymm le (String.not_lt.mp notLess))
      · exact above m behind

/-- A member whose key is below all others goes to the front. -/
theorem insertNew_of_lt (below : ∀ m ∈ members, k < m.1) :
    insertNew k v members = (k, v) :: members := by
  cases members with
  | nil => rfl
  | cons first rest => simp [insertNew, below first List.mem_cons_self]

end Insert

/-! ## The canonical form -/

/-- The members of a canonical object are in order. -/
theorem ascending_canonicalMembers (members : List (String × Json)) :
    Ascending (canonicalMembers members) := by
  induction members with
  | nil => exact List.Pairwise.nil
  | cons m rest ih => exact ih.insertNew

/-- No key of an object gets lost. -/
theorem key_mem_canonicalMembers {m : String × Json} {members : List (String × Json)}
    (mem : m ∈ members) : ∃ w, (m.1, w) ∈ canonicalMembers members := by
  induction members with
  | nil => cases mem
  | cons first rest ih =>
    rcases List.mem_cons.mp mem with rfl | behind
    · exact key_mem_insertNew
    · obtain ⟨w, mem⟩ := ih behind
      exact ⟨w, mem_insertNew_of_mem mem⟩

/-- No key is made up. -/
theorem exists_of_mem_canonicalMembers {m : String × Json} {members : List (String × Json)}
    (mem : m ∈ canonicalMembers members) : ∃ m' ∈ members, m'.1 = m.1 := by
  induction members with
  | nil => cases mem
  | cons first rest ih =>
    rcases eq_or_mem_of_mem_insertNew mem with rfl | behind
    · exact ⟨first, List.mem_cons_self, rfl⟩
    · obtain ⟨m', mem', same⟩ := ih behind
      exact ⟨m', List.mem_cons_of_mem _ mem', same⟩

mutual

/-- What holds of the canonical form of each value inside a value holds everywhere in its canonical
form. -/
theorem all_canonical (step : ∀ v, P v → Q v.canonical) : ∀ v, All P v → All Q v.canonical
  | .null, all | .bool _, all | .number _, all | .string _, all => step _ all
  | .array items, all => ⟨step _ all.1, allItems_canonical step items all.2⟩
  | .object members, all => ⟨step _ all.1, allMembers_canonical step members all.2⟩

theorem allItems_canonical (step : ∀ v, P v → Q v.canonical) :
    ∀ items, AllItems P items → AllItems Q (canonicalItems items)
  | [], _ => trivial
  | v :: rest, all => ⟨all_canonical step v all.1, allItems_canonical step rest all.2⟩

theorem allMembers_canonical (step : ∀ v, P v → Q v.canonical) :
    ∀ members, AllMembers P members → AllMembers Q (canonicalMembers members)
  | [], _ => trivial
  | (k, v) :: rest, all => by
    refine allMembers_iff.mpr fun m mem => ?_
    rcases eq_or_mem_of_mem_insertNew mem with rfl | behind
    · exact all_canonical step v all.1
    · exact allMembers_iff.mp (allMembers_canonical step rest all.2) m behind

end

/-- Every object in a canonical value has its members in order. -/
theorem all_sorted_canonical (v : Json) : v.canonical.All Sorted := by
  refine all_canonical (P := fun _ => True) (fun v _ => ?_) v (all_of_forall (fun _ => trivial) v)
  cases v with
  | object members => exact ascending_canonicalMembers members
  | _ => trivial

mutual

/-- A value whose objects all have their members in order is its own canonical form. -/
theorem canonical_of_all_sorted : ∀ v, All Sorted v → v.canonical = v
  | .null, _ | .bool _, _ | .number _, _ | .string _, _ => rfl
  | .array items, all => congrArg array (canonicalItems_of_all_sorted items all.2)
  | .object members, all =>
    congrArg object (canonicalMembers_of_all_sorted members all.1 all.2)

theorem canonicalItems_of_all_sorted :
    ∀ items, AllItems Sorted items → canonicalItems items = items
  | [], _ => rfl
  | v :: rest, all => by
    rw [canonicalItems, canonical_of_all_sorted v all.1, canonicalItems_of_all_sorted rest all.2]

theorem canonicalMembers_of_all_sorted : ∀ members, Ascending members →
    AllMembers Sorted members → canonicalMembers members = members
  | [], _, _ => rfl
  | (k, v) :: rest, ascending, all => by
    obtain ⟨below, ascendingRest⟩ := List.pairwise_cons.mp ascending
    rw [canonicalMembers, canonical_of_all_sorted v all.1,
      canonicalMembers_of_all_sorted rest ascendingRest all.2, insertNew_of_lt below]

end

theorem depthMembers_insertNew_le (k : String) (v : Json) (members : List (String × Json)) :
    depthMembers (insertNew k v members) ≤ max v.depth (depthMembers members) := by
  induction members with
  | nil => exact Nat.le_refl _
  | cons first rest ih =>
    simp only [insertNew]
    split
    · exact Nat.le_refl _
    split
    · exact Nat.le_max_right _ _
    · simp only [depthMembers] at ih ⊢
      omega

mutual

/-- The canonical form nests no deeper than the value. -/
theorem depth_canonical_le : ∀ v, depth v.canonical ≤ depth v
  | .null | .bool _ | .number _ | .string _ => Nat.le_refl _
  | .array items => Nat.succ_le_succ (depthItems_canonicalItems_le items)
  | .object members => Nat.succ_le_succ (depthMembers_canonicalMembers_le members)

theorem depthItems_canonicalItems_le : ∀ items, depthItems (canonicalItems items) ≤ depthItems items
  | [] => Nat.le_refl _
  | v :: rest => by
    have head := depth_canonical_le v
    have tail := depthItems_canonicalItems_le rest
    simp only [canonicalItems, depthItems]
    omega

theorem depthMembers_canonicalMembers_le :
    ∀ members, depthMembers (canonicalMembers members) ≤ depthMembers members
  | [] => Nat.le_refl _
  | (k, v) :: rest => by
    have inserted := depthMembers_insertNew_le k v.canonical (canonicalMembers rest)
    have head := depth_canonical_le v
    have tail := depthMembers_canonicalMembers_le rest
    simp only [canonicalMembers, depthMembers]
    omega

end

end Parley.Json
