import Mathlib.Algebra.Order.BigOperators.Group.Finset
import Mathlib.Data.Nat.Find

/-!
# A ladder of counters

A counter that has to reach `D k` on rung `k` before it starts again on rung `k + 1`, up to rung
`N`. After `t` ticks the rung is the last one whose total is within `t`: `rung D N t`. A program
that keeps the rung and the count, and not the number of ticks, keeps `On` (`On.count`, `On.rise`,
`On.stay`), and `On` says which rung it is on (`On.eq_rung`).
-/

namespace Ladder

variable {D : ℕ → ℕ} {N k c t : ℕ}

/-- The ticks that the first `k` rungs ask for. -/
def total (D : ℕ → ℕ) (k : ℕ) : ℕ := ∑ j ∈ Finset.range k, D j

/-- The rung after `t` ticks, of `N`. -/
def rung (D : ℕ → ℕ) (N t : ℕ) : ℕ := Nat.findGreatest (fun k => total D k ≤ t) N

/-- After `t` ticks the program is on rung `k` with `c` ticks counted there. On the last rung
nothing is counted. -/
structure On (D : ℕ → ℕ) (N k c t : ℕ) : Prop where
  le : k ≤ N
  count_lt : k < N → c < D k
  count_eq : k < N → total D k + c = t
  total_le : total D k ≤ t

@[simp] theorem total_zero (D : ℕ → ℕ) : total D 0 = 0 := rfl

@[simp] theorem total_succ (D : ℕ → ℕ) (k : ℕ) : total D (k + 1) = total D k + D k :=
  Finset.sum_range_succ D k

/-- More rungs ask for more ticks. -/
theorem total_mono (D : ℕ → ℕ) : Monotone (total D) :=
  monotone_nat_of_le_succ fun k => by simp

/-- On the first rung, with `c` ticks counted. -/
theorem on_zero (hc : 0 < N → c < D 0) : On D N 0 c c :=
  ⟨Nat.zero_le N, hc, fun _ => by simp, by simp⟩

/-- A tick that does not complete the rung. -/
theorem On.count (h : On D N k c t) (hk : k < N) (hc : c + 1 < D k) : On D N k (c + 1) (t + 1) := by
  have heq := h.count_eq hk
  exact ⟨h.le, fun _ => hc, fun _ => by omega, by have := h.total_le; omega⟩

/-- A tick that completes it. -/
theorem On.rise (h : On D N k c t) (hk : k < N) (hc : D k ≤ c + 1)
    (hpos : k + 1 < N → 0 < D (k + 1)) : On D N (k + 1) 0 (t + 1) := by
  have heq := h.count_eq hk
  have hlt := h.count_lt hk
  have htotal : total D (k + 1) = t + 1 := by
    rw [total_succ]
    omega
  exact ⟨hk, hpos, fun _ => by omega, htotal.le⟩

/-- A tick on the last rung. -/
theorem On.stay (h : On D N N c t) (c' : ℕ) : On D N N c' (t + 1) :=
  ⟨le_rfl, fun hlt => absurd hlt (lt_irrefl N), fun hlt => absurd hlt (lt_irrefl N),
    h.total_le.trans (Nat.le_succ t)⟩

/-- The rung that the program is on. -/
theorem On.eq_rung (h : On D N k c t) : k = rung D N t := by
  refine le_antisymm (Nat.le_findGreatest h.le h.total_le) (not_lt.1 fun hlt => ?_)
  -- A rung above it would be within `t` too, but its own ticks are not all counted.
  have hkN : k < N := hlt.trans_le (Nat.findGreatest_le N)
  have hrung : total D (rung D N t) ≤ t :=
    Nat.findGreatest_spec (P := fun k => total D k ≤ t) h.le h.total_le
  have hnext : total D (k + 1) ≤ t := (total_mono D hlt).trans hrung
  have heq := h.count_eq hkN
  have hlt' := h.count_lt hkN
  rw [total_succ] at hnext
  omega

end Ladder
