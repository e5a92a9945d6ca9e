import Mathlib.Data.List.Infix
import Mathlib.Tactic.IntervalCases
import Mathlib.Tactic.Linarith
import MemoryGovernor.Policy.Engine

/-!
# Constant pressure

Does the engine settle when it is polled with one sample over and over? `hold` is the run of actions
and `Flaps` says that it goes both ways. On tiers that the sample separates, that is, at no two
neighbours counts upwards from the lower and downwards from the higher, it never does
(`hold_not_flaps`): once the engine has promoted it only promotes (`hold_rising`), once it has
demoted it only demotes (`hold_falling`).

The default tiers are separated on every sample but those with `avg60` at 15 or more and `avg10`
below 15. These count upwards from `HIGH`, because of `avg60`, and downwards from `CRITICAL`, whose
demotion looks at `avg10` alone, so the engine goes round (`hold_settles_iff`).
-/

namespace MemoryGovernor.PolicyEngine

/-- The actions of `n` calls with one sample. -/
def hold (data : PsiData) : ℕ → PolicyEngine → List PolicyAction
  | 0, _ => []
  | n + 1, e => (e.evaluate data).1 :: hold data n (e.evaluate data).2

/-- The actions go both ways. -/
def Flaps (actions : List PolicyAction) : Prop :=
  (∃ a ∈ actions, a.type = .shrink) ∧ ∃ a ∈ actions, a.type = .grow

instance (actions : List PolicyAction) : Decidable (Flaps actions) :=
  inferInstanceAs (Decidable (_ ∧ _))

/-- The sample separates the tiers up to `m`: it does not count upwards from `m`, and from no tier
below does it count upwards if it counts downwards from the next. -/
structure Separated (configs : List TierConfig) (data : PsiData) (m : ℕ) : Prop where
  /-- Nothing leads above `m`. -/
  top : ¬ Up configs m data
  /-- No two neighbours lead to each other. -/
  apart : ∀ i < m, Up configs i data → ¬ Down configs (i + 1) data

section Separated

variable {configs : List TierConfig} {data : PsiData} {m : ℕ}

/-- An engine that the sample has led up to its tier is not led down again. -/
theorem hold_rising (hsep : Separated configs data m) (n : ℕ) {e : PolicyEngine} {i : ℕ}
    (hc : e.configs = configs) (hi : i < m) (htier : e.current_tier = i + 1)
    (hup : Up configs i data) : ∀ a ∈ hold data n e, a.type ≠ .grow := by
  induction n generalizing e i with
  | zero => simp [hold]
  | succ n ih =>
    -- What led up to `i + 1` excludes leading down from it, so the call promotes or stays.
    have hdown : ¬ Down configs (i + 1) data := hsep.apart i hi hup
    rw [hold, List.forall_mem_cons]
    by_cases hp : Promotes e data
    · have hup' : Up configs (i + 1) data := by rw [← hc, ← htier]; exact hp.1
      have hi' : i + 1 < m := lt_of_le_of_ne hi fun heq => hsep.top (heq ▸ hup')
      rw [evaluate_of_promotes hp]
      exact ⟨by simp, ih hc hi' (by rw [htier]) hup'⟩
    · have hd : ¬ Demotes e data := fun hd => hdown (by rw [← hc, ← htier]; exact hd.1)
      rw [evaluate_of_stays hp hd]
      exact ⟨by simp, ih hc hi htier hup⟩

/-- An engine that the sample has led down to its tier is not led up again. -/
theorem hold_falling (hsep : Separated configs data m) (n : ℕ) {e : PolicyEngine} {i : ℕ}
    (hc : e.configs = configs) (hi : i < m) (htier : e.current_tier = i)
    (hdown : Down configs (i + 1) data) : ∀ a ∈ hold data n e, a.type ≠ .shrink := by
  induction n generalizing e i with
  | zero => simp [hold]
  | succ n ih =>
    -- What leads down from `i + 1` excludes leading up from `i`, so the call demotes or stays.
    have hp : ¬ Promotes e data := fun hp =>
      hsep.apart i hi (by rw [← hc, ← htier]; exact hp.1) hdown
    rw [hold, List.forall_mem_cons]
    by_cases hd : Demotes e data
    · obtain ⟨j, rfl⟩ : ∃ j, i = j + 1 :=
        Nat.exists_eq_add_one_of_ne_zero (htier ▸ hd.1.1.ne')
      have hdown' : Down configs (j + 1) data := by rw [← hc, ← htier]; exact hd.1
      rw [evaluate_of_demotes hp hd]
      exact ⟨by simp, ih hc (j.lt_succ_self.trans hi) (by rw [htier]; rfl) hdown'⟩
    · rw [evaluate_of_stays hp hd]
      exact ⟨by simp, ih hc hi htier hdown⟩

/-- On tiers that the sample separates, holding it never goes both ways. -/
theorem hold_not_flaps (hsep : Separated configs data m) (n : ℕ) {e : PolicyEngine}
    (hc : e.configs = configs) (htier : e.current_tier ≤ m) : ¬ Flaps (hold data n e) := by
  induction n generalizing e with
  | zero => simp [hold, Flaps]
  | succ n ih =>
    rintro ⟨⟨a, ha, hshrink⟩, b, hb, hgrow⟩
    rw [hold, List.mem_cons] at ha hb
    -- The first transition fixes the direction of all that follow.
    by_cases hp : Promotes e data
    · have hup : Up configs e.current_tier data := hc ▸ hp.1
      have hlt : e.current_tier < m := lt_of_le_of_ne htier fun heq => hsep.top (heq ▸ hup)
      rw [evaluate_of_promotes hp] at hb
      rcases hb with rfl | hb
      · simp at hgrow
      · refine hold_rising hsep n ?_ hlt ?_ hup b hb hgrow
        · exact hc
        · rfl
    by_cases hd : Demotes e data
    · obtain ⟨j, hj⟩ : ∃ j, e.current_tier = j + 1 :=
        Nat.exists_eq_add_one_of_ne_zero hd.1.1.ne'
      have hdown : Down configs (j + 1) data := by rw [← hc, ← hj]; exact hd.1
      rw [evaluate_of_demotes hp hd] at ha
      rcases ha with rfl | ha
      · simp at hshrink
      · refine hold_falling hsep n ?_ (hj.ge.trans htier) ?_ hdown a ha hshrink
        · exact hc
        · rw [hj]
          rfl
    rw [evaluate_of_stays hp hd] at ha hb
    rcases ha with rfl | ha
    · simp at hshrink
    rcases hb with rfl | hb
    · simp at hgrow
    refine ih ?_ ?_ ⟨⟨a, ha, hshrink⟩, b, hb, hgrow⟩
    · exact hc
    · exact htier

end Separated

/-! ## The default tiers -/

section Default

variable {data : PsiData}

theorem up_normal : Up defaultConfigs 0 data ↔ 5 ≤ data.some_avg10 := by
  simp [Up, PromoteCondition, PressureTier.CRITICAL, config, defaultConfigs]

theorem up_elevated : Up defaultConfigs 1 data ↔ 15 ≤ data.some_avg10 := by
  simp [Up, PromoteCondition, PressureTier.CRITICAL, config, defaultConfigs]

theorem up_high : Up defaultConfigs 2 data ↔ 30 ≤ data.some_avg10 ∨ 15 ≤ data.some_avg60 := by
  simp [Up, PromoteCondition, PressureTier.CRITICAL, config, defaultConfigs]

theorem not_up_critical : ¬ Up defaultConfigs 3 data := by
  simp [Up, defaultConfigs]

theorem down_elevated : Down defaultConfigs 1 data ↔ data.some_avg10 < 2 := by
  simp [Down, config, defaultConfigs]

theorem down_high : Down defaultConfigs 2 data ↔ data.some_avg10 < 8 := by
  simp [Down, config, defaultConfigs]

theorem down_critical : Down defaultConfigs 3 data ↔ data.some_avg10 < 15 := by
  simp [Down, config, defaultConfigs]

/-- A sample that is elevated in its 60-second average only: it counts upwards from `HIGH` and
downwards from `CRITICAL`. -/
def Mixed (data : PsiData) : Prop := 15 ≤ data.some_avg60 ∧ data.some_avg10 < 15

/-- `NORMAL` and `ELEVATED` are separated on every sample below 15%. -/
theorem separated_elevated (h10 : data.some_avg10 < 15) : Separated defaultConfigs data 1 := by
  refine ⟨fun hup => absurd (up_elevated.1 hup) h10.not_ge, fun i hi hup hdown => ?_⟩
  obtain rfl : i = 0 := Nat.lt_one_iff.1 hi
  have h5 := up_normal.1 hup
  have h2 := down_elevated.1 hdown
  linarith

/-- All four tiers are separated on every sample that is not mixed. -/
theorem separated_critical (hmix : ¬ Mixed data) : Separated defaultConfigs data 3 := by
  refine ⟨not_up_critical, fun i hi hup hdown => ?_⟩
  interval_cases i
  · have h5 := up_normal.1 hup
    have h2 := down_elevated.1 hdown
    linarith
  · have h15 := up_elevated.1 hup
    have h8 := down_high.1 hdown
    linarith
  · have h15 := down_critical.1 hdown
    rcases up_high.1 hup with h30 | h60
    · linarith
    · exact hmix ⟨h60, h15⟩

/-! The calls with a mixed sample. At `HIGH` each one counts upwards, and downwards too if `avg10`
is below 8, which clears the count upwards; at `CRITICAL` each one counts downwards. -/

theorem promotes_high {p d : ℤ} :
    Promotes ⟨defaultConfigs, 2, p, d⟩ data ↔ Up defaultConfigs 2 data ∧ 2 ≤ p + 1 := Iff.rfl

theorem not_demotes_high {p d : ℤ} (hup : Up defaultConfigs 2 data) :
    ¬ Demotes ⟨defaultConfigs, 2, p, d⟩ data := by
  rintro ⟨-, hdeb⟩
  rw [demotePollsBefore, if_pos hup] at hdeb
  exact absurd hdeb (by change ¬ (3 : ℤ) ≤ 0 + 1; decide)

theorem demotes_critical {p d : ℤ} :
    Demotes ⟨defaultConfigs, 3, p, d⟩ data ↔ Down defaultConfigs 3 data ∧ 2 ≤ d + 1 := by
  rw [Demotes, demotePollsBefore, if_neg not_up_critical]
  exact Iff.rfl

theorem not_promotes_critical {p d : ℤ} : ¬ Promotes ⟨defaultConfigs, 3, p, d⟩ data :=
  fun hp => not_up_critical hp.1

theorem evaluate_high_promotes (h60 : 15 ≤ data.some_avg60) (d : ℤ) :
    evaluate ⟨defaultConfigs, 2, 1, d⟩ data =
      (⟨.shrink, 1/2, 3⟩, ⟨defaultConfigs, 3, 0, 0⟩) := by
  rw [evaluate_of_promotes (promotes_high.2 ⟨up_high.2 (.inr h60), le_rfl⟩)]
  rfl

theorem evaluate_high_counts (h60 : 15 ≤ data.some_avg60) (h8 : 8 ≤ data.some_avg10) (d : ℤ) :
    evaluate ⟨defaultConfigs, 2, 0, d⟩ data = (⟨.none, 0, 2⟩, ⟨defaultConfigs, 2, 1, 0⟩) := by
  have hup : Up defaultConfigs 2 data := up_high.2 (.inr h60)
  have hdown : ¬ Down defaultConfigs 2 data := fun hdown => absurd (down_high.1 hdown) h8.not_gt
  rw [evaluate_of_stays (by simp [promotes_high]) (not_demotes_high hup)]
  simp [promotePollsAfter, promotePollsBefore, demotePollsAfter, hup, hdown]

theorem evaluate_high_stuck (h60 : 15 ≤ data.some_avg60) (h8 : data.some_avg10 < 8) (d : ℤ) :
    evaluate ⟨defaultConfigs, 2, 0, d⟩ data = (⟨.none, 0, 2⟩, ⟨defaultConfigs, 2, 0, 1⟩) := by
  have hup : Up defaultConfigs 2 data := up_high.2 (.inr h60)
  have hdown : Down defaultConfigs 2 data := down_high.2 h8
  rw [evaluate_of_stays (by simp [promotes_high]) (not_demotes_high hup)]
  simp [promotePollsAfter, demotePollsAfter, demotePollsBefore, hup, hdown]

theorem evaluate_critical_counts (h10 : data.some_avg10 < 15) (p : ℤ) :
    evaluate ⟨defaultConfigs, 3, p, 0⟩ data = (⟨.none, 0, 3⟩, ⟨defaultConfigs, 3, 0, 1⟩) := by
  have hdown : Down defaultConfigs 3 data := down_critical.2 h10
  rw [evaluate_of_stays not_promotes_critical (by simp [demotes_critical])]
  simp [promotePollsAfter, demotePollsAfter, demotePollsBefore, not_up_critical, hdown]

theorem evaluate_critical_demotes (h10 : data.some_avg10 < 15) (p : ℤ) :
    evaluate ⟨defaultConfigs, 3, p, 1⟩ data =
      (⟨.grow, 1/2, 2⟩, ⟨defaultConfigs, 2, 0, 0⟩) := by
  rw [evaluate_of_demotes not_promotes_critical
    (demotes_critical.2 ⟨down_critical.2 h10, le_rfl⟩)]
  rfl

/-! ### When holding a sample flaps -/

/-- A longer run starts with the shorter one. -/
theorem hold_isPrefix (data : PsiData) {n m : ℕ} (h : n ≤ m) (e : PolicyEngine) :
    hold data n e <+: hold data m e := by
  induction n generalizing m e with
  | zero => exact List.nil_prefix
  | succ n ih =>
    obtain ⟨m, rfl⟩ : ∃ k, m = k + 1 := Nat.exists_eq_add_one_of_ne_zero (by omega)
    exact (List.prefix_cons_inj _).2 (ih (Nat.le_of_succ_le_succ h) _)

/-- A run that goes both ways still does when it goes on. -/
theorem Flaps.mono {n m : ℕ} (h : n ≤ m) {e : PolicyEngine} (hf : Flaps (hold data n e)) :
    Flaps (hold data m e) := by
  obtain ⟨⟨a, ha, hshrink⟩, b, hb, hgrow⟩ := hf
  have hsub := (hold_isPrefix data h e).subset
  exact ⟨⟨a, hsub ha, hshrink⟩, b, hsub hb, hgrow⟩

/-- The length at which a run first goes both ways is the least one at which it does. -/
theorem flaps_iff_of_first {k : ℕ} {e : PolicyEngine} (hk : ¬ Flaps (hold data k e))
    (hk' : Flaps (hold data (k + 1) e)) {n : ℕ} : Flaps (hold data n e) ↔ k + 1 ≤ n :=
  ⟨fun hf => Nat.lt_of_not_le fun hle => hk (hf.mono hle), fun hle => hk'.mono hle⟩

/-- From `HIGH` with a promotion poll counted: up at the first poll, down at the third. -/
theorem flaps_high_counted (hmix : Mixed data) {d : ℤ} {n : ℕ} :
    Flaps (hold data n ⟨defaultConfigs, 2, 1, d⟩) ↔ 3 ≤ n := by
  obtain ⟨h60, h10⟩ := hmix
  refine flaps_iff_of_first ?_ ?_ <;>
    simp [hold, evaluate_high_promotes h60, evaluate_critical_counts h10,
      evaluate_critical_demotes h10, Flaps]

/-- From `HIGH` with no promotion poll counted, at 8% and above: up at the second poll, down at the
fourth. -/
theorem flaps_high (hmix : Mixed data) (h8 : 8 ≤ data.some_avg10) {d : ℤ} {n : ℕ} :
    Flaps (hold data n ⟨defaultConfigs, 2, 0, d⟩) ↔ 4 ≤ n := by
  obtain ⟨h60, h10⟩ := hmix
  refine flaps_iff_of_first ?_ ?_ <;>
    simp [hold, evaluate_high_counts h60 h8, evaluate_high_promotes h60,
      evaluate_critical_counts h10, evaluate_critical_demotes h10, Flaps]

/-- Below 8% the engine is stuck at `HIGH`. -/
theorem hold_high_stuck (h60 : 15 ≤ data.some_avg60) (h8 : data.some_avg10 < 8) (n : ℕ) (d : ℤ) :
    ∀ a ∈ hold data n ⟨defaultConfigs, 2, 0, d⟩, a.type = .none := by
  induction n generalizing d with
  | zero => simp [hold]
  | succ n ih =>
    rw [hold, evaluate_high_stuck h60 h8, List.forall_mem_cons]
    exact ⟨rfl, ih 1⟩

/-- From `CRITICAL`, at 8% and above: down as soon as two polls are counted, up two polls later. -/
theorem flaps_critical (hmix : Mixed data) (h8 : 8 ≤ data.some_avg10) {p : ℤ} {n : ℕ} :
    Flaps (hold data n ⟨defaultConfigs, 3, p, 0⟩) ↔ 4 ≤ n := by
  obtain ⟨h60, h10⟩ := hmix
  refine flaps_iff_of_first ?_ ?_ <;>
    simp [hold, evaluate_high_counts h60 h8, evaluate_high_promotes h60,
      evaluate_critical_counts h10, evaluate_critical_demotes h10, Flaps]

/-- The same with one of the two polls already counted. -/
theorem flaps_critical_counted (hmix : Mixed data) (h8 : 8 ≤ data.some_avg10) {p : ℤ} {n : ℕ} :
    Flaps (hold data n ⟨defaultConfigs, 3, p, 1⟩) ↔ 3 ≤ n := by
  obtain ⟨h60, h10⟩ := hmix
  refine flaps_iff_of_first ?_ ?_ <;>
    simp [hold, evaluate_high_counts h60 h8, evaluate_high_promotes h60,
      evaluate_critical_demotes h10, Flaps]

/-- From `CRITICAL` below 8% the engine only goes down, to `HIGH`, where it is stuck. -/
theorem hold_critical_not_shrink (h60 : 15 ≤ data.some_avg60) (h8 : data.some_avg10 < 8) (n : ℕ)
    (p : ℤ) : (∀ a ∈ hold data n ⟨defaultConfigs, 3, p, 1⟩, a.type ≠ .shrink) ∧
      ∀ a ∈ hold data n ⟨defaultConfigs, 3, p, 0⟩, a.type ≠ .shrink := by
  have h10 : data.some_avg10 < 15 := by linarith
  have hone : ∀ n p, ∀ a ∈ hold data n ⟨defaultConfigs, 3, p, 1⟩, a.type ≠ .shrink := by
    intro n p
    cases n with
    | zero => simp [hold]
    | succ n =>
      rw [hold, evaluate_critical_demotes h10, List.forall_mem_cons]
      exact ⟨by simp, fun a ha => by simp [hold_high_stuck h60 h8 n 0 a ha]⟩
  refine ⟨hone n p, ?_⟩
  cases n with
  | zero => simp [hold]
  | succ n =>
    rw [hold, evaluate_critical_counts h10, List.forall_mem_cons]
    exact ⟨by simp, hone n 0⟩

/-- The polls with a mixed sample, from a state of the engine, that have made it turn round: at
`HIGH`, up to `CRITICAL` and down again; at `CRITICAL`, down to `HIGH` and up again. Each way takes
two polls, less those already counted. Below 8% the engine no longer leaves `HIGH`, unless a poll
upwards was already counted there. -/
def TurnsRound (e : PolicyEngine) (data : PsiData) (n : ℕ) : Prop :=
  e.current_tier = PressureTier.HIGH ∧
      (8 ≤ data.some_avg10 ∨ e.consecutive_promote_polls = 1) ∧
      4 ≤ n + e.consecutive_promote_polls ∨
    e.current_tier = PressureTier.CRITICAL ∧ 8 ≤ data.some_avg10 ∧
      4 ≤ n + e.consecutive_demote_polls

/-- Holding a mixed sample flaps exactly when the engine has turned round. -/
theorem flaps_iff_turnsRound (hmix : Mixed data) {e : PolicyEngine}
    (hc : e.configs = defaultConfigs) (hpend : Pending e) (n : ℕ) :
    Flaps (hold data n e) ↔ TurnsRound e data n := by
  obtain ⟨configs, tier, p, d⟩ := e
  obtain rfl : configs = defaultConfigs := hc
  obtain ⟨htier, hp₀, hd₀, hp, hd⟩ := hpend
  have hlen : defaultConfigs.length = 4 := rfl
  simp only [TurnsRound, PressureTier.HIGH, PressureTier.CRITICAL] at *
  rw [hlen] at htier hp
  interval_cases tier
  · -- At `NORMAL` and `ELEVATED` a sample below 15% does not lead to `HIGH`.
    refine iff_of_false (hold_not_flaps (separated_elevated hmix.2) n rfl ?_) (by simp)
    exact Nat.zero_le 1
  · refine iff_of_false (hold_not_flaps (separated_elevated hmix.2) n rfl ?_) (by simp)
    exact le_rfl
  · -- At `HIGH`, with no promotion poll counted or one.
    have hp₁ : p < 2 := hp (by decide)
    have hdead : ¬ 8 ≤ data.some_avg10 → ¬ Flaps (hold data n ⟨defaultConfigs, 2, 0, d⟩) := by
      rintro h8 ⟨⟨a, ha, hshrink⟩, -⟩
      rw [hold_high_stuck hmix.1 (not_le.1 h8) n d a ha] at hshrink
      cases hshrink
    interval_cases p
    · by_cases h8 : 8 ≤ data.some_avg10
      · simp [flaps_high hmix h8, h8]
      · simp [hdead h8, h8]
    · simp [flaps_high_counted hmix]
      omega
  · -- At `CRITICAL`, with no demotion poll counted or one.
    have hd₁ : d < 2 := hd (by decide)
    by_cases h8 : 8 ≤ data.some_avg10
    · interval_cases d
      · simp [flaps_critical hmix h8, h8]
      · simp [flaps_critical_counted hmix h8, h8]
        omega
    · have hdead := hold_critical_not_shrink hmix.1 (not_le.1 h8) n p
      refine iff_of_false ?_ (by simp [h8])
      rintro ⟨⟨a, ha, hshrink⟩, -⟩
      interval_cases d
      · exact hdead.2 a ha hshrink
      · exact hdead.1 a ha hshrink

/-- Holding a sample never flaps the default engine, from any state that it reaches, exactly unless
the sample is mixed and the engine has turned round. -/
theorem hold_settles_iff (samples : List PsiData) (data : PsiData) (n : ℕ) :
    let e := evaluateAll (new defaultConfigs) samples
    ¬ Flaps (hold data n e) ↔ ¬ (Mixed data ∧ TurnsRound e data n) := by
  intro e
  obtain ⟨hc, hpend⟩ := evaluateAll_default_pending samples
  by_cases hmix : Mixed data
  · simp only [hmix, true_and]
    exact not_congr (flaps_iff_turnsRound hmix hc hpend n)
  · have htier : e.current_tier < e.configs.length := hpend.tier_lt
    rw [show e.configs = defaultConfigs from hc] at htier
    simp only [hmix, false_and, not_false_eq_true, iff_true]
    exact hold_not_flaps (separated_critical hmix) n hc (Nat.le_of_lt_succ htier)

/-- Three samples at 6% and three at 16% lead the engine to `HIGH`. Held there at 10% with a
60-second average of 20%, it shrinks the caches at the second poll and grows them at the fourth. -/
theorem hold_flaps_high :
    let e := evaluateAll (new defaultConfigs)
      [{ some_avg10 := 6 }, { some_avg10 := 6 }, { some_avg10 := 6 },
        { some_avg10 := 16 }, { some_avg10 := 16 }, { some_avg10 := 16 }]
    e.current_tier = PressureTier.HIGH ∧
      Flaps (hold { some_avg10 := 10, some_avg60 := 20 } 4 e) := by
  decide +kernel

end Default

end MemoryGovernor.PolicyEngine
