import MemoryGovernor.Lib.Ladder
import MemoryGovernor.Policy.Debounce
import MemoryGovernor.Policy.Hysteresis

/-!
# How long the engine takes

Under samples that reach every threshold, the engine climbs, one tier for each time the count of
promotion polls reaches the next tier's `debounce_polls`, and under samples below every threshold it
comes down in the same way, with the `debounce_polls` of the tier it leaves. `latency` gives the
tier after any number of such polls, after any history and for any list of configurations: the polls
already counted at the start count for the first tier, and nothing else of the past matters.
-/

namespace MemoryGovernor.PolicyEngine

open Ladder

/-- The sample meets the promote condition of every tier and the demote condition of none. -/
structure Pushes (configs : List TierConfig) (data : PsiData) : Prop where
  up : ∀ i, i + 1 < configs.length → PromoteCondition configs i data
  not_down : ∀ i < configs.length, ¬ Down configs i data

/-- The sample meets the demote condition of every tier above `NORMAL` and no promote condition. -/
structure Eases (configs : List TierConfig) (data : PsiData) : Prop where
  down : ∀ i < configs.length, 0 < i → data.some_avg10 < (config configs i).demote_threshold
  not_up : ∀ i, ¬ Up configs i data

/-- `debounce_polls` of the `k`-th tier above `i`. -/
def pollsUp (configs : List TierConfig) (i k : ℕ) : ℕ :=
  (config configs (i + 1 + k)).debounce_polls.toNat

/-- `debounce_polls` of the `k`-th tier that is left on the way down from `i`. -/
def pollsDown (configs : List TierConfig) (i k : ℕ) : ℕ :=
  (config configs (i - k)).debounce_polls.toNat

/-- The engine, `k` tiers above `i` after `t` polls on the way up. -/
structure Climbing (configs : List TierConfig) (i t k c : ℕ) (e : PolicyEngine) : Prop where
  conf : e.configs = configs
  tier : e.current_tier = i + k
  on : On (pollsUp configs i) (configs.length - 1 - i) k c t
  polls : i + k + 1 < configs.length → e.consecutive_promote_polls = c

/-- The engine, `k` tiers below `i` after `t` polls on the way down. -/
structure Descending (configs : List TierConfig) (i t k c : ℕ) (e : PolicyEngine) : Prop where
  conf : e.configs = configs
  tier : e.current_tier = i - k
  on : On (pollsDown configs i) i k c t
  polls : k < i → e.consecutive_demote_polls = c

section Step

variable {configs : List TierConfig} {i t k c : ℕ} {e : PolicyEngine} {data : PsiData}

/-- A poll on the way up. -/
theorem Climbing.step (hdeb : Debounced configs) (h : Climbing configs i t k c e)
    (hi : i < configs.length) (hdata : Pushes configs data) :
    ∃ k' c', Climbing configs i (t + 1) k' c' (e.evaluate data).2 := by
  have hle := h.on.le
  have hconf := h.conf
  have htier := h.tier
  have hnd : ¬ Demotes e data := by
    rintro ⟨hdown, -⟩
    rw [hconf, htier] at hdown
    exact hdata.not_down (i + k) (by omega) hdown
  by_cases hnext : i + k + 1 < configs.length
  · have hkN : k < configs.length - 1 - i := by omega
    have hlt := h.on.count_lt hkN
    have hpolls := h.polls hnext
    -- The sample counts towards the next tier, which asks for `pollsUp configs i k` polls.
    have hup : Up e.configs e.current_tier data := by
      rw [hconf, htier]
      exact ⟨hnext, hdata.up _ hnext⟩
    have hask : (config e.configs (e.current_tier + 1)).debounce_polls = pollsUp configs i k := by
      have hpos := hdeb (i + 1 + k) (by omega)
      rw [hconf, htier, pollsUp, Int.toNat_of_nonneg (by omega), Nat.add_right_comm]
    by_cases hc : pollsUp configs i k ≤ c + 1
    · have hp : Promotes e data := ⟨hup, by rw [hask, hpolls]; exact_mod_cast hc⟩
      rw [evaluate_of_promotes hp]
      refine ⟨k + 1, 0, hconf, by simp only [htier, Nat.add_assoc], h.on.rise hkN hc fun hk => ?_,
        fun _ => rfl⟩
      have hpos := hdeb (i + 1 + (k + 1)) (by omega)
      simp only [pollsUp]
      omega
    · have hp : ¬ Promotes e data := by
        rintro ⟨-, hp⟩
        rw [hask, hpolls] at hp
        exact hc (by exact_mod_cast hp)
      have hnotdown : ¬ Down e.configs e.current_tier data := by
        rw [hconf, htier]
        exact hdata.not_down _ (by omega)
      rw [evaluate_of_stays hp hnd]
      refine ⟨k, c + 1, hconf, htier, h.on.count hkN (by omega), fun _ => ?_⟩
      simp only [promotePollsAfter, promotePollsBefore, if_neg hnotdown, if_pos hup, hpolls]
      rfl
  · -- The last tier has no next one to count towards.
    have hkN : k = configs.length - 1 - i := by omega
    have hp : ¬ Promotes e data := by
      rintro ⟨hup, -⟩
      rw [hconf, htier] at hup
      exact hnext hup.1
    rw [evaluate_of_stays hp hnd]
    have hon := h.on
    rw [← hkN] at hon
    refine ⟨k, 0, hconf, htier, hkN ▸ hon.stay 0, fun h' => absurd h' hnext⟩

/-- A poll on the way down. -/
theorem Descending.step (hdeb : Debounced configs) (h : Descending configs i t k c e)
    (hi : i < configs.length) (hdata : Eases configs data) :
    ∃ k' c', Descending configs i (t + 1) k' c' (e.evaluate data).2 := by
  have hconf := h.conf
  have htier := h.tier
  have hnotup : ¬ Up e.configs e.current_tier data := by
    rw [hconf]
    exact hdata.not_up _
  have hp : ¬ Promotes e data := fun hp => hnotup hp.1
  rcases Nat.lt_or_ge k i with hk | hk
  · have hlt := h.on.count_lt hk
    have hpolls := h.polls hk
    -- The sample counts towards the tier below, and leaving asks for `pollsDown configs i k` polls.
    have hdown : Down e.configs e.current_tier data := by
      rw [hconf, htier]
      exact ⟨by omega, hdata.down (i - k) (by omega) (by omega)⟩
    have hask : (config e.configs e.current_tier).debounce_polls = pollsDown configs i k := by
      have hpos := hdeb (i - k) (by omega)
      rw [hconf, htier, pollsDown, Int.toNat_of_nonneg (by omega)]
    have hbefore : demotePollsBefore e data = c := by
      rw [demotePollsBefore, if_neg hnotup, hpolls]
    by_cases hc : pollsDown configs i k ≤ c + 1
    · have hd : Demotes e data := ⟨hdown, by rw [hask, hbefore]; exact_mod_cast hc⟩
      rw [evaluate_of_demotes hp hd]
      refine ⟨k + 1, 0, hconf, by simp only [htier, Nat.sub_sub], h.on.rise hk hc fun hk' => ?_,
        fun _ => rfl⟩
      have hpos := hdeb (i - (k + 1)) (by omega)
      simp only [pollsDown]
      omega
    · have hd : ¬ Demotes e data := by
        rintro ⟨-, hd⟩
        rw [hask, hbefore] at hd
        exact hc (by exact_mod_cast hd)
      rw [evaluate_of_stays hp hd]
      refine ⟨k, c + 1, hconf, htier, h.on.count hk (by omega), fun _ => ?_⟩
      simp only [demotePollsAfter, if_pos hdown, hbefore]
      rfl
  · -- `NORMAL` has no tier below it.
    have hki : k = i := le_antisymm h.on.le hk
    have hd : ¬ Demotes e data := by
      rintro ⟨hdown, -⟩
      rw [htier] at hdown
      exact absurd hdown.1 (by omega)
    rw [evaluate_of_stays hp hd]
    have hon := h.on
    rw [hki] at hon
    exact ⟨i, 0, hconf, by rw [htier, hki], hon.stay 0, fun h' => absurd h' (lt_irrefl i)⟩

end Step

section Run

variable {configs : List TierConfig} {e : PolicyEngine} {xs : ℕ → PsiData}

/-- The polls on the way up, from any state between calls. -/
theorem before_climbing (hdeb : Debounced e.configs) (h : Pending e) (t : ℕ)
    (hxs : ∀ s < t, Pushes e.configs (xs s)) :
    ∃ k c, Climbing e.configs e.current_tier (t + e.consecutive_promote_polls.toNat) k c
      (before e xs t) := by
  induction t with
  | zero =>
    have hnonneg := h.promote_nonneg
    refine ⟨0, e.consecutive_promote_polls.toNat, rfl, rfl, ?_, fun _ => by
      rw [Int.toNat_of_nonneg hnonneg]; rfl⟩
    rw [Nat.zero_add]
    refine on_zero fun hN => ?_
    have hlt := h.promote_lt (Nat.add_lt_of_lt_sub (Nat.sub_pos_iff_lt.1 hN))
    simp only [pollsUp, Nat.add_zero]
    omega
  | succ t ih =>
    obtain ⟨k, c, hclimb⟩ := ih fun s hs => hxs s (Nat.lt_succ_of_lt hs)
    rw [Nat.add_right_comm]
    exact hclimb.step hdeb h.tier_lt (hxs t (Nat.lt_succ_self t))

/-- The polls on the way down, from any state between calls. -/
theorem before_descending (hdeb : Debounced e.configs) (h : Pending e) (t : ℕ)
    (hxs : ∀ s < t, Eases e.configs (xs s)) :
    ∃ k c, Descending e.configs e.current_tier (t + e.consecutive_demote_polls.toNat) k c
      (before e xs t) := by
  induction t with
  | zero =>
    have hnonneg := h.demote_nonneg
    refine ⟨0, e.consecutive_demote_polls.toNat, rfl, rfl, ?_, fun _ => by
      rw [Int.toNat_of_nonneg hnonneg]; rfl⟩
    rw [Nat.zero_add]
    refine on_zero fun hpos => ?_
    have hlt := h.demote_lt hpos
    simp only [pollsDown, Nat.sub_zero]
    omega
  | succ t ih =>
    obtain ⟨k, c, hdesc⟩ := ih fun s hs => hxs s (Nat.lt_succ_of_lt hs)
    rw [Nat.add_right_comm]
    exact hdesc.step hdeb h.tier_lt (hxs t (Nat.lt_succ_self t))

/-- The state after any samples from a new engine is one between calls. -/
theorem evaluateAll_pending (hdeb : Debounced configs) (hne : configs ≠ [])
    (samples : List PsiData) :
    (evaluateAll (new configs) samples).configs = configs ∧
      Pending (evaluateAll (new configs) samples) := by
  unfold evaluateAll
  induction samples using List.reverseRecOn with
  | nil =>
    have hnew : new configs = ⟨configs, 0, 0, 0⟩ := by simp [new, hne, PressureTier.NORMAL]
    rw [List.foldl_nil, hnew]
    exact ⟨rfl, pending_of_moved hdeb (List.length_pos_iff.2 hne)⟩
  | append_singleton samples data ih =>
    obtain ⟨hc, hpend⟩ := ih
    rw [List.foldl_append, List.foldl_cons, List.foldl_nil, evaluate_configs]
    exact ⟨hc, evaluate_pending (by rw [hc]; exact hdeb) hpend data⟩

/-- For every list of configurations with positive debounces and after every history of samples: `t`
further polls that reach every threshold lift the tier by exactly as many tiers as their
`debounce_polls` fit, one after another, into `t` and the promotion polls already counted, and `t`
polls below every threshold lower it in the same way by the demotion polls. -/
theorem latency (configs : List TierConfig) (hne : configs ≠ []) (hdeb : Debounced configs)
    (history : List PsiData) (xs : ℕ → PsiData) (t : ℕ) :
    ((∀ s < t, Pushes configs (xs s)) →
      tierAt (evaluateAll (new configs) history) xs t =
        (evaluateAll (new configs) history).current_tier +
          rung (pollsUp configs (evaluateAll (new configs) history).current_tier)
            (configs.length - 1 - (evaluateAll (new configs) history).current_tier)
            (t + (evaluateAll (new configs) history).consecutive_promote_polls.toNat)) ∧
    ((∀ s < t, Eases configs (xs s)) →
      tierAt (evaluateAll (new configs) history) xs t =
        (evaluateAll (new configs) history).current_tier -
          rung (pollsDown configs (evaluateAll (new configs) history).current_tier)
            (evaluateAll (new configs) history).current_tier
            (t + (evaluateAll (new configs) history).consecutive_demote_polls.toNat)) := by
  obtain ⟨hconf, hpend⟩ := evaluateAll_pending hdeb hne history
  generalize evaluateAll (new configs) history = e at hconf hpend ⊢
  subst hconf
  refine ⟨fun hxs => ?_, fun hxs => ?_⟩
  · obtain ⟨k, c, hclimb⟩ := before_climbing hdeb hpend t hxs
    rw [tierAt, hclimb.tier, hclimb.on.eq_rung]
  · obtain ⟨k, c, hdesc⟩ := before_descending hdeb hpend t hxs
    rw [tierAt, hdesc.tier, hdesc.on.eq_rung]

end Run

/-! ## The default configurations -/

section Default

variable {data : PsiData}

/-- A sample reaches every default threshold. -/
theorem pushes_default : Pushes defaultConfigs data ↔
    15 ≤ data.some_avg10 ∧ (30 ≤ data.some_avg10 ∨ 15 ≤ data.some_avg60) := by
  constructor
  · intro h
    exact ⟨not_lt.1 fun hlt => h.not_down 3 (by decide) (down_critical.2 hlt),
      up_high.1 ⟨by decide, h.up 2 (by decide)⟩⟩
  · rintro ⟨h10, hhigh⟩
    have hup : ∀ i < 3, Up defaultConfigs i data := by
      intro i hi
      obtain rfl | rfl | rfl : i = 0 ∨ i = 1 ∨ i = 2 := by omega
      · exact up_normal.2 (by linarith)
      · exact up_elevated.2 h10
      · exact up_high.2 hhigh
    refine ⟨fun i hi => (hup i (Nat.lt_of_succ_lt_succ hi)).2, fun i hi hdown => ?_⟩
    change i < 4 at hi
    obtain rfl | rfl | rfl | rfl : i = 0 ∨ i = 1 ∨ i = 2 ∨ i = 3 := by omega
    · exact absurd hdown.1 (lt_irrefl 0)
    · linarith [down_elevated.1 hdown]
    · linarith [down_high.1 hdown]
    · linarith [down_critical.1 hdown]

/-- A sample is below every default threshold. -/
theorem eases_default : Eases defaultConfigs data ↔
    data.some_avg10 < 2 ∧ data.some_avg60 < 15 := by
  constructor
  · intro h
    have h2 : data.some_avg10 < 2 := h.down 1 (by decide) (by decide)
    exact ⟨h2, not_le.1 fun hle => h.not_up 2 (up_high.2 (.inr hle))⟩
  · rintro ⟨h2, h60⟩
    refine ⟨fun i hi hpos => ?_, fun i hup => ?_⟩
    · change i < 4 at hi
      obtain rfl | rfl | rfl : i = 1 ∨ i = 2 ∨ i = 3 := by omega
      · exact (down_elevated.2 h2).2
      · exact (down_high.2 (by linarith)).2
      · exact (down_critical.2 (by linarith)).2
    · have hi : i + 1 < 4 := hup.1
      obtain rfl | rfl | rfl : i = 0 ∨ i = 1 ∨ i = 2 := by omega
      · linarith [up_normal.1 hup]
      · linarith [up_elevated.1 hup]
      · rcases up_high.1 hup with h | h <;> linarith

end Default

/-- Eight polls at 40 % take a new engine with the default configurations to `CRITICAL`, and eight
at 1 % bring it back. -/
theorem latency_default :
    (defaultConfigs ≠ [] ∧ Debounced defaultConfigs) ∧
    tierAt (evaluateAll (new defaultConfigs) []) (fun _ => { some_avg10 := 40 }) 8 =
      PressureTier.CRITICAL ∧
    tierAt (evaluateAll (new defaultConfigs) (List.replicate 8 { some_avg10 := 40 }))
      (fun _ => { some_avg10 := 1 }) 8 = PressureTier.NORMAL := by
  have hup : Pushes defaultConfigs { some_avg10 := 40 } := pushes_default.2 (by norm_num)
  have hdown : Eases defaultConfigs { some_avg10 := 1 } := eases_default.2 (by norm_num)
  refine ⟨⟨by decide, debounced_default⟩, ?_, ?_⟩
  · rw [(latency defaultConfigs (by decide) debounced_default [] _ 8).1 fun _ _ => hup]
    decide
  · rw [(latency defaultConfigs (by decide) debounced_default _ _ 8).2 fun _ _ => hdown]
    decide

end MemoryGovernor.PolicyEngine
