import MemoryGovernor.Policy.Engine

/-!
# Every GROW undoes a SHRINK

The actions of a run, read as a ledger: a SHRINK opens an entry with its fraction, and a GROW closes
the last open one, which must have the same fraction (`settle`). `actions_settle` says that the
ledger of every run works out, for any list of configurations and any samples, and that what is open
at the end are the fractions of the tiers from `ELEVATED` up to the current one, the current one's
on top.
-/

namespace MemoryGovernor.PolicyEngine

/-- The actions that a sequence of calls of `evaluate` returns. -/
def actions (e : PolicyEngine) : List PsiData → List PolicyAction
  | [] => []
  | data :: samples => (e.evaluate data).1 :: actions (e.evaluate data).2 samples

/-- An action in the ledger: the fractions of the SHRINKs that no GROW has undone, the last one
first. -/
def settle (ledger : List ℚ) (action : PolicyAction) : Option (List ℚ) :=
  match action.type, ledger with
  | .none, ledger => some ledger
  | .shrink, ledger => some (action.fraction :: ledger)
  | .grow, fraction :: ledger => if action.fraction = fraction then some ledger else none
  | .grow, [] => none

/-- What is open at tier `i`. -/
def outstanding (configs : List TierConfig) : ℕ → List ℚ
  | 0 => []
  | i + 1 => (config configs (i + 1)).shrink_pct :: outstanding configs i

/-- A call takes what is open at the tier before it to what is open at the tier after it. -/
theorem settle_evaluate (e : PolicyEngine) (data : PsiData) :
    settle (outstanding e.configs e.current_tier) (e.evaluate data).1 =
      some (outstanding e.configs (e.evaluate data).2.current_tier) := by
  obtain ⟨-, heq⟩ | ⟨-, hd, heq⟩ | ⟨-, -, heq⟩ := evaluate_cases e data
  · rw [heq]
    rfl
  · -- A demotion starts above `NORMAL`, so the entry of its tier is on top.
    obtain ⟨i, hi⟩ := Nat.exists_eq_succ_of_ne_zero (Nat.ne_of_gt hd.1.1)
    rw [heq]
    simp [settle, hi, outstanding]
  · rw [heq]
    rfl

/-- The ledger of a run, from any state. -/
theorem foldlM_settle (e : PolicyEngine) (samples : List PsiData) :
    (actions e samples).foldlM settle (outstanding e.configs e.current_tier) =
      some (outstanding e.configs (evaluateAll e samples).current_tier) := by
  induction samples generalizing e with
  | nil => rfl
  | cons data samples ih =>
    have hrest := ih (e.evaluate data).2
    rw [evaluate_configs] at hrest
    rw [actions, List.foldlM_cons, settle_evaluate]
    exact hrest

/-- For every list of configurations and every sequence of samples, every GROW closes the last
SHRINK that is still open, with the same fraction, and the open ones at the end are those of the
tiers up to the current one. -/
theorem actions_settle (configs : List TierConfig) (samples : List PsiData) :
    (actions (new configs) samples).foldlM settle [] =
      some (outstanding (new configs).configs (evaluateAll (new configs) samples).current_tier) :=
  foldlM_settle (new configs) samples

end MemoryGovernor.PolicyEngine
