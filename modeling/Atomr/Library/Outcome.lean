import Mathlib.Init

/-! Computations that end with a result or with an error, in steps. -/

namespace Atomr.Library.Outcome

variable {ε α β : Type} {first : Except ε α} {res : β}

theorem bind_eq_ok {next : α → Except ε β} :
    (first >>= next) = .ok res ↔ ∃ v, first = .ok v ∧ next v = .ok res := by
  cases first with
  | error error =>
    constructor
    · intro ended
      cases ended
    · rintro ⟨_, impossible, _⟩
      cases impossible
  | ok v =>
    constructor
    · exact fun ended => ⟨v, rfl, ended⟩
    · rintro ⟨_, eq, ended⟩
      cases eq
      exact ended

theorem map_eq_ok {f : α → β} : first.map f = .ok res ↔ ∃ v, first = .ok v ∧ f v = res := by
  cases first with
  | error error => simp [Except.map]
  | ok v => simp [Except.map]

end Atomr.Library.Outcome
