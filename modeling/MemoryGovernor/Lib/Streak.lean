import Mathlib.Data.Nat.Init

/-!
# Streaks

A counter of consecutive events counts the length of a streak: how long a condition has held
without a break up to now. `HeldFor P n t` is that streak for a condition on the natural numbers.
A program increments such a counter when the condition holds once more (`HeldFor.succ`) and resets
it to `0`, which claims nothing (`HeldFor.zero`).
-/

/-- `P` held at each of the last `n` numbers below `t`, and there are that many. -/
structure HeldFor (P : ℕ → Prop) (n t : ℕ) : Prop where
  /-- The streak fits below `t`. -/
  le : n ≤ t
  /-- The condition held throughout. -/
  held : ∀ s, s < t → t ≤ s + n → P s

namespace HeldFor

variable {P Q : ℕ → Prop} {n t : ℕ}

/-- A counter that was just reset. -/
theorem zero : HeldFor P 0 t :=
  ⟨Nat.zero_le t, fun s hlt hle => absurd hle (by omega)⟩

/-- A counter that was just incremented. -/
theorem succ (h : HeldFor P n t) (ht : P t) : HeldFor P (n + 1) (t + 1) := by
  refine ⟨Nat.succ_le_succ h.le, fun s hlt hle => ?_⟩
  rcases Nat.lt_succ_iff_lt_or_eq.1 hlt with hs | rfl
  · exact h.held s hs (by omega)
  · exact ht

/-- A streak is also a shorter one. -/
theorem mono {m : ℕ} (h : HeldFor P n t) (hm : m ≤ n) : HeldFor P m t :=
  ⟨Nat.le_trans hm h.le, fun s hlt hle => h.held s hlt (by omega)⟩

/-- A streak of a condition is one of a weaker condition. -/
theorem imp (h : HeldFor P n t) (hPQ : ∀ s, s < t → P s → Q s) : HeldFor Q n t :=
  ⟨h.le, fun s hlt hle => hPQ s hlt (h.held s hlt hle)⟩

/-- Where the condition fails, the streak has not begun yet. -/
theorem le_of_not {s : ℕ} (h : HeldFor P n t) (hlt : s < t) (hs : ¬ P s) : s + n < t :=
  Nat.lt_of_not_le fun hle => hs (h.held s hlt hle)

end HeldFor
