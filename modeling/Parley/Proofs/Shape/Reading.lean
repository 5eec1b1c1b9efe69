import Parley.Shape.Reading

/-!
# Readings that succeed

A reading is a sequence of steps, each of which can refuse. What has been read when none of them did
is found by taking the steps apart.
-/

namespace Parley.Shape

open Parley.Json

variable {ε α β σ : Type}

/-- A step and what comes after it succeed together. -/
theorem bind_eq_ok {x : Except ε α} {next : α → Except ε β} {b : β} :
    (x >>= next) = .ok b ↔ ∃ a, x = .ok a ∧ next a = .ok b := by
  cases x <;> simp [bind, Except.bind]

theorem pure_eq_ok {a b : α} : (pure a : Except ε α) = .ok b ↔ a = b := by
  simp [pure, Except.pure]

theorem ofText_eq_ok {x : Except Fault α} {a : α} : ofText x = .ok a ↔ x = .ok a := by
  cases x <;> simp [ofText]

theorem map_eq_ok {x : Except ε α} {f : α → β} {b : β} :
    x.map f = .ok b ↔ ∃ a, x = .ok a ∧ f a = b := by
  cases x <;> simp [Except.map]

theorem required_eq_ok {name : String} {x : Option α} {a : α} :
    required name x = .ok a ↔ x = some a := by
  cases x <;> simp [required, refuse]

theorem ofString_eq_ok {shape : Doc → Reading α} {text : String} {a : α} :
    ofString shape text = .ok a ↔
      shape (Text.read text).root = .ok a ∧ (Text.read text).trailing = false := by
  simp only [ofString, bind_eq_ok]
  cases (Text.read text).trailing <;> simp [faulty, pure, Except.pure]

/-- What the step for each member keeps holds when all members have been read. -/
theorem foldMembers_keeps {P : σ → Prop} {step : σ → String → Doc → Reading σ}
    {stop : Option Fault} : ∀ {members : List (Quoted × Doc)} {s s' : σ},
      (∀ m ∈ members, ∀ s k s', P s → step s k m.2 = .ok s' → P s') →
      P s → foldMembers step stop s members = .ok s' → P s'
  | [], s, s', _, start, read => by
    simp only [foldMembers, bind_eq_ok, pure_eq_ok] at read
    obtain ⟨-, -, rfl⟩ := read
    exact start
  | m :: rest, s, s', keeps, start, read => by
    simp only [foldMembers, bind_eq_ok] at read
    obtain ⟨key, -, s₁, stepped, read⟩ := read
    exact foldMembers_keeps (fun m mem => keeps m (List.mem_cons_of_mem _ mem))
      (keeps m List.mem_cons_self s key s₁ start stepped) read

end Parley.Shape
