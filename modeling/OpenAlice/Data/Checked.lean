/-!
# Checks that fail

What follows from a chain of checks that passed, and checks made side by side, of which all that
fail are reported.

Nothing here knows what is checked.
-/

universe u v

namespace OpenAlice.Data

variable {ε : Type u} {α β : Type v}

/-- What comes after a check that passed is made with its result. -/
theorem bind_ok {x : Except ε α} {f : α → Except ε β} {b : β} (h : (x >>= f) = .ok b) :
    ∃ a, x = .ok a ∧ f a = .ok b := by
  cases x with
  | error e => exact nomatch h
  | ok a => exact ⟨a, rfl, h⟩

theorem map_ok {x : Except ε α} {f : α → β} {b : β} (h : x.map f = .ok b) :
    ∃ a, x = .ok a ∧ f a = b := by
  cases x with
  | error e => exact nomatch h
  | ok a =>
    cases h
    exact ⟨a, rfl, rfl⟩

def both : Except (List ε) α → Except (List ε) β → Except (List ε) (α × β)
  | .ok a, .ok b => .ok (a, b)
  | .error e, .ok _ => .error e
  | .ok _, .error e => .error e
  | .error e, .error e' => .error (e ++ e')

theorem both_ok {x : Except (List ε) α} {y : Except (List ε) β} {a : α} {b : β}
    (h : both x y = .ok (a, b)) : x = .ok a ∧ y = .ok b := by
  cases x <;> cases y <;> cases h
  exact ⟨rfl, rfl⟩

end OpenAlice.Data
