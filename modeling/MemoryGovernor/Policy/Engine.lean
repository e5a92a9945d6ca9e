import Mathlib.Data.List.Induction
import Mathlib.Tactic.Linarith
import MemoryGovernor.Psi.Poller

/-!
# The policy engine

`PolicyEngine` of `src/governor/policy_engine.cpp`: a tier in a list of configurations and two
counters of consecutive polls. `evaluate` is the source's two checks in turn: promotion, against the
next tier's threshold, and, if it did not promote, demotion, against the current one's.

What a call does follows from two conditions on the sample, `Up` (it counts towards the next tier)
and `Down` (it counts towards the one below), and the counts: it promotes (`evaluate_of_promotes`),
it demotes (`evaluate_of_demotes`) or it changes no tier (`evaluate_of_stays`). Everything later
proved of the engine starts from these three equations.
-/

namespace MemoryGovernor

/-- `PressureTier`. The enumeration has the type `int` underneath, and `evaluate` casts any index
of the list of configurations to it, so a tier is such an index. -/
abbrev PressureTier := ℕ

namespace PressureTier

def NORMAL : PressureTier := 0
def ELEVATED : PressureTier := 1
def HIGH : PressureTier := 2
def CRITICAL : PressureTier := 3

end PressureTier

/-- `TierConfig`. -/
structure TierConfig where
  promote_threshold : ℚ
  demote_threshold : ℚ
  debounce_polls : ℤ
  shrink_pct : ℚ
deriving DecidableEq, Repr, Inhabited

/-- `PolicyAction::Type`. -/
inductive ActionType
  | none
  | shrink
  | grow
deriving DecidableEq, Repr

/-- `PolicyAction`. -/
structure PolicyAction where
  type : ActionType
  fraction : ℚ
  new_tier : PressureTier
deriving DecidableEq, Repr

/-- `PolicyEngine`. -/
structure PolicyEngine where
  configs : List TierConfig
  current_tier : PressureTier
  consecutive_promote_polls : ℤ
  consecutive_demote_polls : ℤ
deriving DecidableEq, Repr

namespace PolicyEngine

/-- `default_configs`. -/
def defaultConfigs : List TierConfig :=
  [{ promote_threshold := 5, demote_threshold := 0, debounce_polls := 3, shrink_pct := 0 },
   { promote_threshold := 5, demote_threshold := 2, debounce_polls := 3, shrink_pct := 1/10 },
   { promote_threshold := 15, demote_threshold := 8, debounce_polls := 3, shrink_pct := 1/4 },
   { promote_threshold := 30, demote_threshold := 15, debounce_polls := 2, shrink_pct := 1/2 }]

/-- The constructor `PolicyEngine(configs)`: an empty list stands for the default one. -/
def new (configs : List TierConfig) : PolicyEngine :=
  ⟨if configs.isEmpty then defaultConfigs else configs, PressureTier.NORMAL, 0, 0⟩

/-- `configs_[i]`. `evaluate` reads it at the current tier, which is in the list, and at the next
one only after it has checked that this is. -/
def config (configs : List TierConfig) (i : ℕ) : TierConfig := configs.getD i default

/-- `promote_condition` at tier `i`: the sample reaches the next tier's threshold, or, when that is
`CRITICAL`, its 60-second average reaches the current tier's. -/
def PromoteCondition (configs : List TierConfig) (i : ℕ) (data : PsiData) : Prop :=
  (config configs (i + 1)).promote_threshold ≤ data.some_avg10 ∨
    i + 1 = PressureTier.CRITICAL ∧ (config configs i).promote_threshold ≤ data.some_avg60

instance (configs : List TierConfig) (i : ℕ) (data : PsiData) :
    Decidable (PromoteCondition configs i data) :=
  inferInstanceAs (Decidable (_ ∨ _ ∧ _))

/-- The promotion check. It returns the action of the promotion when there is one. -/
def promotionCheck (e : PolicyEngine) (data : PsiData) : Option PolicyAction × PolicyEngine :=
  if e.current_tier + 1 < e.configs.length then
    let next_idx := e.current_tier + 1
    let next_config := config e.configs next_idx
    if PromoteCondition e.configs e.current_tier data then
      -- A sample that counts upwards clears the count downwards, even if it counts there too.
      let e := { e with
        consecutive_promote_polls := e.consecutive_promote_polls + 1
        consecutive_demote_polls := 0 }
      if next_config.debounce_polls ≤ e.consecutive_promote_polls then
        (some ⟨.shrink, next_config.shrink_pct, next_idx⟩,
          { e with current_tier := next_idx, consecutive_promote_polls := 0 })
      else (none, e)
    else (none, { e with consecutive_promote_polls := 0 })
  else
    -- At the last tier the counts are left as they are.
    (none, e)

/-- The demotion check. `current_idx` is the tier that the call started from. -/
def demotionCheck (e : PolicyEngine) (current_idx : ℕ) (data : PsiData) :
    PolicyAction × PolicyEngine :=
  let action : PolicyAction := ⟨.none, 0, current_idx⟩
  if 0 < current_idx then
    let curr_config := config e.configs current_idx
    if data.some_avg10 < curr_config.demote_threshold then
      -- This also clears a promotion poll counted in the same call.
      let e := { e with
        consecutive_demote_polls := e.consecutive_demote_polls + 1
        consecutive_promote_polls := 0 }
      if curr_config.debounce_polls ≤ e.consecutive_demote_polls then
        (⟨.grow, curr_config.shrink_pct, current_idx - 1⟩,
          { e with current_tier := current_idx - 1, consecutive_demote_polls := 0 })
      else (action, e)
    else (action, { e with consecutive_demote_polls := 0 })
  else
    -- `NORMAL` has no tier below it.
    (action, e)

/-- `evaluate`: the demotion check runs only if the promotion check did not promote. -/
def evaluate (e : PolicyEngine) (data : PsiData) : PolicyAction × PolicyEngine :=
  match promotionCheck e data with
  | (some action, e') => (action, e')
  | (none, e') =>
    -- The index is the one read at the start, which the promotion check has not changed.
    demotionCheck e' e.current_tier data

/-- The engine after a sequence of calls of `evaluate`. -/
def evaluateAll (e : PolicyEngine) (samples : List PsiData) : PolicyEngine :=
  samples.foldl (fun e data => (e.evaluate data).2) e

/-! ## What a call does -/

/-- The sample counts towards the tier above `i`. -/
def Up (configs : List TierConfig) (i : ℕ) (data : PsiData) : Prop :=
  i + 1 < configs.length ∧ PromoteCondition configs i data

/-- The sample counts towards the tier below `i`. -/
def Down (configs : List TierConfig) (i : ℕ) (data : PsiData) : Prop :=
  0 < i ∧ data.some_avg10 < (config configs i).demote_threshold

instance (configs : List TierConfig) (i : ℕ) (data : PsiData) : Decidable (Up configs i data) :=
  inferInstanceAs (Decidable (_ ∧ _))

instance (configs : List TierConfig) (i : ℕ) (data : PsiData) : Decidable (Down configs i data) :=
  inferInstanceAs (Decidable (_ ∧ _))

section Step

variable (e : PolicyEngine) (data : PsiData)

/-- The call promotes: the sample completes the polls that the next tier asks for. -/
def Promotes : Prop :=
  Up e.configs e.current_tier data ∧
    (config e.configs (e.current_tier + 1)).debounce_polls ≤ e.consecutive_promote_polls + 1

/-- The count of promotion polls that the promotion check leaves when it does not promote. -/
def promotePollsBefore : ℤ :=
  if Up e.configs e.current_tier data then e.consecutive_promote_polls + 1
  else if e.current_tier + 1 < e.configs.length then 0 else e.consecutive_promote_polls

/-- The count of demotion polls that it leaves: a sample that counts upwards clears it. -/
def demotePollsBefore : ℤ :=
  if Up e.configs e.current_tier data then 0 else e.consecutive_demote_polls

/-- The call demotes, if it does not promote: the sample completes the polls that the current tier
asks for. -/
def Demotes : Prop :=
  Down e.configs e.current_tier data ∧
    (config e.configs e.current_tier).debounce_polls ≤ demotePollsBefore e data + 1

instance : Decidable (Promotes e data) := inferInstanceAs (Decidable (_ ∧ _))

instance : Decidable (Demotes e data) := inferInstanceAs (Decidable (_ ∧ _))

/-- The count of promotion polls after a call that changes no tier. -/
def promotePollsAfter : ℤ :=
  if Down e.configs e.current_tier data then 0 else promotePollsBefore e data

/-- The count of demotion polls after a call that changes no tier. -/
def demotePollsAfter : ℤ :=
  if Down e.configs e.current_tier data then demotePollsBefore e data + 1
  else if 0 < e.current_tier then 0 else demotePollsBefore e data

variable {e data}

/-- The promotion check of a call that promotes. -/
theorem promotionCheck_of_promotes (h : Promotes e data) : promotionCheck e data =
    (some ⟨.shrink, (config e.configs (e.current_tier + 1)).shrink_pct, e.current_tier + 1⟩,
      ⟨e.configs, e.current_tier + 1, 0, 0⟩) := by
  obtain ⟨⟨hnext, hcond⟩, hdeb⟩ := h
  simp only [promotionCheck, if_pos hnext, if_pos hcond, if_pos hdeb]

/-- The promotion check of a call that does not promote only updates the counts. -/
theorem promotionCheck_of_not_promotes (h : ¬ Promotes e data) : promotionCheck e data =
    (none, ⟨e.configs, e.current_tier, promotePollsBefore e data, demotePollsBefore e data⟩) := by
  -- The branches of the check: no next tier, no count, and a count that is too short.
  by_cases hnext : e.current_tier + 1 < e.configs.length
  · by_cases hcond : PromoteCondition e.configs e.current_tier data
    · have hup : Up e.configs e.current_tier data := ⟨hnext, hcond⟩
      have hdeb : ¬ (config e.configs (e.current_tier + 1)).debounce_polls ≤
        e.consecutive_promote_polls + 1 := fun hdeb => h ⟨hup, hdeb⟩
      simp only [promotionCheck, promotePollsBefore, demotePollsBefore, if_pos hnext,
        if_pos hcond, if_neg hdeb, if_pos hup]
    · have hup : ¬ Up e.configs e.current_tier data := fun hup => hcond hup.2
      simp only [promotionCheck, promotePollsBefore, demotePollsBefore, if_pos hnext,
        if_neg hcond, if_neg hup]
  · have hup : ¬ Up e.configs e.current_tier data := fun hup => hnext hup.1
    simp only [promotionCheck, promotePollsBefore, demotePollsBefore, if_neg hnext, if_neg hup]

/-- A call that promotes. -/
theorem evaluate_of_promotes (h : Promotes e data) : e.evaluate data =
    (⟨.shrink, (config e.configs (e.current_tier + 1)).shrink_pct, e.current_tier + 1⟩,
      ⟨e.configs, e.current_tier + 1, 0, 0⟩) := by
  simp only [evaluate, promotionCheck_of_promotes h]

/-- A call that demotes. -/
theorem evaluate_of_demotes (h : ¬ Promotes e data) (hd : Demotes e data) : e.evaluate data =
    (⟨.grow, (config e.configs e.current_tier).shrink_pct, e.current_tier - 1⟩,
      ⟨e.configs, e.current_tier - 1, 0, 0⟩) := by
  obtain ⟨⟨hpos, hlow⟩, hdeb⟩ := hd
  simp only [evaluate, promotionCheck_of_not_promotes h, demotionCheck, if_pos hpos, if_pos hlow,
    if_pos hdeb]

/-- A call that changes no tier. -/
theorem evaluate_of_stays (h : ¬ Promotes e data) (hd : ¬ Demotes e data) : e.evaluate data =
    (⟨.none, 0, e.current_tier⟩,
      ⟨e.configs, e.current_tier, promotePollsAfter e data, demotePollsAfter e data⟩) := by
  -- The branches of the demotion check, after a promotion check that only counted.
  by_cases hpos : 0 < e.current_tier
  · by_cases hlow : data.some_avg10 < (config e.configs e.current_tier).demote_threshold
    · have hdown : Down e.configs e.current_tier data := ⟨hpos, hlow⟩
      have hdeb : ¬ (config e.configs e.current_tier).debounce_polls ≤
        demotePollsBefore e data + 1 := fun hdeb => hd ⟨hdown, hdeb⟩
      simp only [evaluate, promotionCheck_of_not_promotes h, demotionCheck, promotePollsAfter,
        demotePollsAfter, if_pos hpos, if_pos hlow, if_neg hdeb, if_pos hdown]
    · have hdown : ¬ Down e.configs e.current_tier data := fun hdown => hlow hdown.2
      simp only [evaluate, promotionCheck_of_not_promotes h, demotionCheck, promotePollsAfter,
        demotePollsAfter, if_pos hpos, if_neg hlow, if_neg hdown]
  · have hdown : ¬ Down e.configs e.current_tier data := fun hdown => hpos hdown.1
    simp only [evaluate, promotionCheck_of_not_promotes h, demotionCheck, promotePollsAfter,
      demotePollsAfter, if_neg hpos, if_neg hdown]

/-- What a call can do: promote, demote or keep the tier. -/
theorem evaluate_cases (e : PolicyEngine) (data : PsiData) :
    Promotes e data ∧ e.evaluate data =
      (⟨.shrink, (config e.configs (e.current_tier + 1)).shrink_pct, e.current_tier + 1⟩,
        ⟨e.configs, e.current_tier + 1, 0, 0⟩) ∨
    ¬ Promotes e data ∧ Demotes e data ∧ e.evaluate data =
      (⟨.grow, (config e.configs e.current_tier).shrink_pct, e.current_tier - 1⟩,
        ⟨e.configs, e.current_tier - 1, 0, 0⟩) ∨
    ¬ Promotes e data ∧ ¬ Demotes e data ∧ e.evaluate data =
      (⟨.none, 0, e.current_tier⟩,
        ⟨e.configs, e.current_tier, promotePollsAfter e data, demotePollsAfter e data⟩) := by
  by_cases hp : Promotes e data
  · exact .inl ⟨hp, evaluate_of_promotes hp⟩
  by_cases hd : Demotes e data
  · exact .inr (.inl ⟨hp, hd, evaluate_of_demotes hp hd⟩)
  · exact .inr (.inr ⟨hp, hd, evaluate_of_stays hp hd⟩)

/-- A call keeps the configurations. -/
@[simp]
theorem evaluate_configs (e : PolicyEngine) (data : PsiData) :
    (e.evaluate data).2.configs = e.configs := by
  obtain ⟨-, heq⟩ | ⟨-, -, heq⟩ | ⟨-, -, heq⟩ := evaluate_cases e data <;> rw [heq]

end Step

/-! ## The counts between calls -/

/-- Every tier asks for at least one poll. -/
def Debounced (configs : List TierConfig) : Prop :=
  ∀ i < configs.length, 1 ≤ (config configs i).debounce_polls

/-- The engine between calls: its tier is in the list and neither count has reached the number of
polls that it is compared with. -/
structure Pending (e : PolicyEngine) : Prop where
  tier_lt : e.current_tier < e.configs.length
  promote_nonneg : 0 ≤ e.consecutive_promote_polls
  demote_nonneg : 0 ≤ e.consecutive_demote_polls
  promote_lt : e.current_tier + 1 < e.configs.length →
    e.consecutive_promote_polls < (config e.configs (e.current_tier + 1)).debounce_polls
  demote_lt : 0 < e.current_tier →
    e.consecutive_demote_polls < (config e.configs e.current_tier).debounce_polls

section Pending

variable {e : PolicyEngine} {data : PsiData}

/-- A transition clears both counts. -/
theorem pending_of_moved {configs : List TierConfig} (hdeb : Debounced configs) {i : ℕ}
    (hi : i < configs.length) : Pending ⟨configs, i, 0, 0⟩ :=
  ⟨hi, le_rfl, le_rfl, fun hnext => hdeb (i + 1) hnext, fun _ => hdeb i hi⟩

/-- A call that does not promote leaves the count of promotion polls below the next tier's. -/
theorem promotePollsAfter_bounds (hdeb : Debounced e.configs) (h : Pending e)
    (hp : ¬ Promotes e data) :
    0 ≤ promotePollsAfter e data ∧ (e.current_tier + 1 < e.configs.length →
      promotePollsAfter e data < (config e.configs (e.current_tier + 1)).debounce_polls) := by
  simp only [promotePollsAfter, promotePollsBefore]
  -- Cleared downwards, counted, cleared, or left alone at the last tier.
  split_ifs with hdown hup hnext
  · exact ⟨le_rfl, fun hnext => hdeb _ hnext⟩
  · exact ⟨by linarith [h.promote_nonneg], fun _ => not_le.1 fun hle => hp ⟨hup, hle⟩⟩
  · exact ⟨le_rfl, fun hnext => hdeb _ hnext⟩
  · exact ⟨h.promote_nonneg, fun hnext' => absurd hnext' hnext⟩

/-- A call that does not demote leaves the count of demotion polls below the current tier's. -/
theorem demotePollsAfter_bounds (hdeb : Debounced e.configs) (h : Pending e)
    (hd : ¬ Demotes e data) :
    0 ≤ demotePollsAfter e data ∧ (0 < e.current_tier →
      demotePollsAfter e data < (config e.configs e.current_tier).debounce_polls) := by
  have hbefore : 0 ≤ demotePollsBefore e data := by
    rw [demotePollsBefore]
    split_ifs
    · exact le_rfl
    · exact h.demote_nonneg
  simp only [demotePollsAfter]
  split_ifs with hdown hpos
  · exact ⟨by linarith, fun _ => not_le.1 fun hle => hd ⟨hdown, hle⟩⟩
  · exact ⟨le_rfl, fun _ => hdeb _ h.tier_lt⟩
  · exact ⟨hbefore, fun hpos' => absurd hpos' hpos⟩

/-- A call keeps the counts below what they are compared with. -/
theorem evaluate_pending (hdeb : Debounced e.configs) (h : Pending e) (data : PsiData) :
    Pending (e.evaluate data).2 := by
  by_cases hp : Promotes e data
  · rw [evaluate_of_promotes hp]
    exact pending_of_moved hdeb hp.1.1
  by_cases hd : Demotes e data
  · rw [evaluate_of_demotes hp hd]
    exact pending_of_moved hdeb ((Nat.sub_le _ _).trans_lt h.tier_lt)
  obtain ⟨hp₀, hp₁⟩ := promotePollsAfter_bounds hdeb h hp
  obtain ⟨hd₀, hd₁⟩ := demotePollsAfter_bounds hdeb h hd
  rw [evaluate_of_stays hp hd]
  exact ⟨h.tier_lt, hp₀, hd₀, hp₁, hd₁⟩

/-- The default configurations ask for three or two polls. -/
theorem debounced_default : Debounced defaultConfigs := by
  unfold Debounced
  decide

/-- What holds of every state that the engine reaches with the default configurations. -/
theorem evaluateAll_default_pending (samples : List PsiData) :
    (evaluateAll (new defaultConfigs) samples).configs = defaultConfigs ∧
      Pending (evaluateAll (new defaultConfigs) samples) := by
  unfold evaluateAll
  induction samples using List.reverseRecOn with
  | nil => exact ⟨rfl, pending_of_moved debounced_default (by decide)⟩
  | append_singleton samples data ih =>
    obtain ⟨hc, hpend⟩ := ih
    rw [List.foldl_append, List.foldl_cons, List.foldl_nil, evaluate_configs]
    exact ⟨hc, evaluate_pending (by rw [hc]; exact debounced_default) hpend data⟩

end Pending

end PolicyEngine

end MemoryGovernor
