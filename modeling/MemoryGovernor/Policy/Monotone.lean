import MemoryGovernor.Policy.Debounce
import MemoryGovernor.Policy.Hysteresis

/-!
# More pressure

Does an engine under more pressure stay at the higher tier? Two runs are compared poll by poll, the
second on samples that are at least as high (`AtMost`). The order that the runs keep is `Coupled`:
the first engine is at a lower tier, or both are at one tier and the first has counted no more polls
upwards and no fewer downwards. At one tier every call keeps it (`coupled_of_level`), since what
counts upwards in the first engine does in the second, and the other way round downwards. Two tiers
or more apart the tiers can at most meet. At neighbouring tiers they can pass each other, but only
if the first sample counts upwards while the second counts downwards (`Overtakes`), and for the
default tiers that happens between `HIGH` and `CRITICAL` alone (`Crosses`), where promotion looks at
`avg60` and demotion does not.
-/

namespace MemoryGovernor

/-- Both averages that `evaluate` looks at are at most the other sample's. -/
def PsiData.AtMost (x y : PsiData) : Prop :=
  x.some_avg10 ≤ y.some_avg10 ∧ x.some_avg60 ≤ y.some_avg60

instance (x y : PsiData) : Decidable (x.AtMost y) := inferInstanceAs (Decidable (_ ∧ _))

namespace PolicyEngine

section Samples

variable {configs : List TierConfig} {i : ℕ} {x y : PsiData}

/-- A higher sample counts upwards where a lower one does. -/
theorem Up.mono (h : x.AtMost y) (hup : Up configs i x) : Up configs i y := by
  obtain ⟨h10, h60⟩ := h
  obtain ⟨hnext, hcond | ⟨hcrit, hcond⟩⟩ := hup
  · exact ⟨hnext, .inl (hcond.trans h10)⟩
  · exact ⟨hnext, .inr ⟨hcrit, hcond.trans h60⟩⟩

/-- A lower sample counts downwards where a higher one does. -/
theorem Down.anti (h : x.AtMost y) (hdown : Down configs i y) : Down configs i x :=
  ⟨hdown.1, h.1.trans_lt hdown.2⟩

end Samples

/-! ## The order between two engines -/

/-- The engines are at one tier and the first is no closer to the tier above and no further from the
tier below. -/
structure Level (e₁ e₂ : PolicyEngine) : Prop where
  tier : e₁.current_tier = e₂.current_tier
  promote : e₁.consecutive_promote_polls ≤ e₂.consecutive_promote_polls
  demote : e₂.consecutive_demote_polls ≤ e₁.consecutive_demote_polls

/-- The order that two runs keep. -/
def Coupled (e₁ e₂ : PolicyEngine) : Prop :=
  e₁.current_tier < e₂.current_tier ∨ Level e₁ e₂

/-- Coupled engines are in order. -/
theorem Coupled.tier_le {e₁ e₂ : PolicyEngine} (h : Coupled e₁ e₂) :
    e₁.current_tier ≤ e₂.current_tier := by
  rcases h with hlt | hlevel
  · exact hlt.le
  · exact hlevel.tier.le

/-- The engines pass each other, or lose the order of their counts: they are at neighbouring tiers,
and the first promotes on a poll that counts downwards in the second, or counts upwards on a poll
that demotes the second. -/
def Overtakes (e₁ e₂ : PolicyEngine) (x y : PsiData) : Prop :=
  e₂.current_tier = e₁.current_tier + 1 ∧
    (Promotes e₁ x ∧ Down e₂.configs e₂.current_tier y ∨
      Up e₁.configs e₁.current_tier x ∧ ¬ Down e₁.configs e₁.current_tier x ∧ Demotes e₂ y)

section OneTier

variable {configs : List TierConfig} {i : ℕ} {p₁ d₁ p₂ d₂ : ℤ} {x y : PsiData}

/-- At one tier the second engine promotes when the first does. -/
theorem promotes_of_level (hp : p₁ ≤ p₂) (hle : x.AtMost y)
    (h : Promotes ⟨configs, i, p₁, d₁⟩ x) : Promotes ⟨configs, i, p₂, d₂⟩ y := by
  obtain ⟨hup, hdeb⟩ := h
  have hdeb' : (config configs (i + 1)).debounce_polls ≤ p₁ + 1 := hdeb
  exact ⟨hup.mono hle, show (config configs (i + 1)).debounce_polls ≤ p₂ + 1 by omega⟩

/-- At one tier the promotion check keeps the order of the demotion polls. -/
theorem demotePollsBefore_le_of_level (hd : d₂ ≤ d₁) (hd₁ : 0 ≤ d₁) (hle : x.AtMost y) :
    demotePollsBefore ⟨configs, i, p₂, d₂⟩ y ≤ demotePollsBefore ⟨configs, i, p₁, d₁⟩ x := by
  have hmono : Up configs i x → Up configs i y := Up.mono hle
  simp only [demotePollsBefore]
  split_ifs with hy hx hx
  · exact le_rfl
  · exact hd₁
  · exact absurd (hmono hx) hy
  · exact hd

/-- At one tier the first engine demotes when the second does. -/
theorem demotes_of_level (hd : d₂ ≤ d₁) (hd₁ : 0 ≤ d₁) (hle : x.AtMost y)
    (h : Demotes ⟨configs, i, p₂, d₂⟩ y) : Demotes ⟨configs, i, p₁, d₁⟩ x := by
  obtain ⟨hdown, hdeb⟩ := h
  have hbefore : demotePollsBefore ⟨configs, i, p₂, d₂⟩ y ≤
    demotePollsBefore ⟨configs, i, p₁, d₁⟩ x := demotePollsBefore_le_of_level hd hd₁ hle
  exact ⟨hdown.anti hle, hdeb.trans (by omega)⟩

/-- At one tier calls that change no tier keep the order of the promotion polls. -/
theorem promotePollsAfter_le_of_level (hp : p₁ ≤ p₂) (hp₂ : 0 ≤ p₂) (hle : x.AtMost y) :
    promotePollsAfter ⟨configs, i, p₁, d₁⟩ x ≤ promotePollsAfter ⟨configs, i, p₂, d₂⟩ y := by
  have hmono : Up configs i x → Up configs i y := Up.mono hle
  have hanti : Down configs i y → Down configs i x := Down.anti hle
  have hbefore : 0 ≤ promotePollsBefore ⟨configs, i, p₂, d₂⟩ y := by
    simp only [promotePollsBefore]
    split_ifs <;> omega
  unfold promotePollsAfter
  -- Where a sample that counts downwards clears the second count, it clears the first.
  split_ifs with hx hy hy
  · exact le_rfl
  · exact hbefore
  · exact absurd (hanti hy) hx
  · simp only [promotePollsBefore]
    by_cases hux : Up configs i x
    · rw [if_pos hux, if_pos (hmono hux)]
      omega
    · rw [if_neg hux]
      split_ifs <;> omega

/-- At one tier calls that change no tier keep the order of the demotion polls. -/
theorem demotePollsAfter_le_of_level (hd : d₂ ≤ d₁) (hd₁ : 0 ≤ d₁) (hle : x.AtMost y) :
    demotePollsAfter ⟨configs, i, p₂, d₂⟩ y ≤ demotePollsAfter ⟨configs, i, p₁, d₁⟩ x := by
  have hanti : Down configs i y → Down configs i x := Down.anti hle
  have hbefore : demotePollsBefore ⟨configs, i, p₂, d₂⟩ y ≤
    demotePollsBefore ⟨configs, i, p₁, d₁⟩ x := demotePollsBefore_le_of_level hd hd₁ hle
  have hnonneg : 0 ≤ demotePollsBefore ⟨configs, i, p₁, d₁⟩ x := by
    simp only [demotePollsBefore]
    split_ifs <;> omega
  simp only [demotePollsAfter]
  split_ifs with hy hx hpos hx <;> first | omega | exact absurd (hanti hy) hx

/-- Engines at one tier stay coupled. -/
theorem coupled_of_level (hp : p₁ ≤ p₂) (hd : d₂ ≤ d₁) (h₁ : Pending ⟨configs, i, p₁, d₁⟩)
    (h₂ : Pending ⟨configs, i, p₂, d₂⟩) (hle : x.AtMost y) :
    Coupled (evaluate ⟨configs, i, p₁, d₁⟩ x).2 (evaluate ⟨configs, i, p₂, d₂⟩ y).2 := by
  obtain ⟨hup, heq⟩ | ⟨-, hdown, heq⟩ | ⟨-, hdown, heq⟩ := evaluate_cases _ x
  · -- The second engine promotes with the first.
    rw [heq, evaluate_of_promotes (promotes_of_level hp hle hup)]
    exact .inr ⟨rfl, le_rfl, le_rfl⟩
  · have hpos : 0 < i := hdown.1.1
    obtain ⟨-, heq'⟩ | ⟨-, -, heq'⟩ | ⟨-, -, heq'⟩ := evaluate_cases ⟨configs, i, p₂, d₂⟩ y
    · rw [heq, heq']
      exact .inl (show i - 1 < i + 1 by omega)
    · rw [heq, heq']
      exact .inr ⟨rfl, le_rfl, le_rfl⟩
    · rw [heq, heq']
      exact .inl (show i - 1 < i by omega)
  · obtain ⟨-, heq'⟩ | ⟨-, hdown', -⟩ | ⟨-, -, heq'⟩ :=
      evaluate_cases ⟨configs, i, p₂, d₂⟩ y
    · rw [heq, heq']
      exact .inl i.lt_succ_self
    · exact absurd (demotes_of_level hd h₁.demote_nonneg hle hdown') hdown
    · rw [heq, heq']
      exact .inr ⟨rfl, promotePollsAfter_le_of_level hp h₂.promote_nonneg hle,
        demotePollsAfter_le_of_level hd h₁.demote_nonneg hle⟩

end OneTier

section TwoTiers

variable {configs : List TierConfig} {i j : ℕ} {p₁ d₁ p₂ d₂ : ℤ} {x y : PsiData}

/-- Below the last tier a call that changes no tier leaves no promotion polls, unless the sample
counts upwards and not also downwards. -/
theorem promotePollsAfter_eq_zero (hnext : i + 1 < configs.length)
    (h : Up configs i x → Down configs i x) :
    promotePollsAfter ⟨configs, i, p₁, d₁⟩ x = 0 := by
  simp only [promotePollsAfter, promotePollsBefore]
  split_ifs with hdown hup
  · rfl
  · exact absurd (h hup) hdown
  · rfl

/-- Above `NORMAL` a call that changes no tier leaves no demotion polls, unless the sample counts
downwards. -/
theorem demotePollsAfter_eq_zero (hpos : 0 < i) (h : ¬ Down configs i x) :
    demotePollsAfter ⟨configs, i, p₁, d₁⟩ x = 0 := by
  simp only [demotePollsAfter, if_neg h, if_pos hpos]

/-- Engines at different tiers stay coupled unless they pass each other. -/
theorem coupled_of_tier_lt (h : i < j) (hdeb : Debounced configs)
    (h₁ : Pending ⟨configs, i, p₁, d₁⟩) (h₂ : Pending ⟨configs, j, p₂, d₂⟩)
    (hov : ¬ Overtakes ⟨configs, i, p₁, d₁⟩ ⟨configs, j, p₂, d₂⟩ x y) :
    Coupled (evaluate ⟨configs, i, p₁, d₁⟩ x).2 (evaluate ⟨configs, j, p₂, d₂⟩ y).2 := by
  have hj : j < configs.length := h₂.tier_lt
  obtain ⟨hup, heq⟩ | ⟨-, hdown, heq⟩ | ⟨-, hdown, heq⟩ := evaluate_cases _ x <;>
    obtain ⟨hup', heq'⟩ | ⟨-, hdown', heq'⟩ | ⟨hup', hdown', heq'⟩ := evaluate_cases _ y <;>
    rw [heq, heq']
  · exact .inl (Nat.succ_lt_succ h)
  · -- The first engine goes up and the second down, from tiers that are not neighbours.
    have hne : j ≠ i + 1 := fun hi => hov ⟨hi, .inl ⟨hup, hdown'.1⟩⟩
    rcases Nat.lt_or_ge (i + 1) (j - 1) with hlt | hge
    · exact .inl hlt
    · exact .inr ⟨show i + 1 = j - 1 by omega, le_rfl, le_rfl⟩
  · rcases Nat.lt_or_ge (i + 1) j with hlt | hge
    · exact .inl hlt
    · -- The first engine comes up to the second, whose call does not count downwards.
      have hi : j = i + 1 := by omega
      have hnot : ¬ Down configs j y := fun hlow => hov ⟨hi, .inl ⟨hup, hlow⟩⟩
      have hp₀ := (promotePollsAfter_bounds hdeb h₂ hup').1
      have hd₀ : demotePollsAfter ⟨configs, j, p₂, d₂⟩ y = 0 :=
        demotePollsAfter_eq_zero (by omega) hnot
      exact .inr ⟨hi.symm, hp₀, hd₀.le⟩
  · exact .inl (show i - 1 < j + 1 by omega)
  · have hpos : 0 < i := hdown.1.1
    exact .inl (show i - 1 < j - 1 by omega)
  · exact .inl (show i - 1 < j by omega)
  · exact .inl (Nat.lt_succ_of_lt h)
  · rcases Nat.lt_or_ge i (j - 1) with hlt | hge
    · exact .inl hlt
    · -- The second engine comes down to the first, whose call does not count upwards.
      have hi : j = i + 1 := by omega
      have hp₀ : promotePollsAfter ⟨configs, i, p₁, d₁⟩ x = 0 :=
        promotePollsAfter_eq_zero (by omega) fun hup => by_contra fun hlow =>
          hov ⟨hi, .inr ⟨hup, hlow, hdown'⟩⟩
      have hd₀ := (demotePollsAfter_bounds hdeb h₁ hdown).1
      exact .inr ⟨show i = j - 1 by omega, hp₀.le, hd₀⟩
  · exact .inl h

/-- What a poll preserves: coupled engines stay coupled unless they pass each other. -/
theorem coupled_evaluate {e₁ e₂ : PolicyEngine} (h : Coupled e₁ e₂)
    (hc : e₁.configs = e₂.configs) (hdeb : Debounced e₁.configs) (h₁ : Pending e₁)
    (h₂ : Pending e₂) (hle : x.AtMost y) (hov : ¬ Overtakes e₁ e₂ x y) :
    Coupled (e₁.evaluate x).2 (e₂.evaluate y).2 := by
  obtain ⟨configs, i, p₁, d₁⟩ := e₁
  obtain ⟨configs₂, j, p₂, d₂⟩ := e₂
  obtain rfl : configs = configs₂ := hc
  rcases h with hlt | ⟨htier, hp, hd⟩
  · exact coupled_of_tier_lt hlt hdeb h₁ h₂ hov
  · obtain rfl : i = j := htier
    exact coupled_of_level hp hd h₁ h₂ hle

end TwoTiers

/-! ## The default tiers -/

/-- The poll that lets the default engines pass each other: the first is at `HIGH` on a sample
whose `avg60` counts upwards, the second at `CRITICAL` on one whose `avg10` counts downwards, and
the first has already counted a poll, or the second has and the first's sample does not also count
downwards. -/
def Crosses (e₁ e₂ : PolicyEngine) (x y : PsiData) : Prop :=
  e₁.current_tier = PressureTier.HIGH ∧ e₂.current_tier = PressureTier.CRITICAL ∧
    15 ≤ x.some_avg60 ∧ y.some_avg10 < 15 ∧
    (e₁.consecutive_promote_polls = 1 ∨ e₂.consecutive_demote_polls = 1 ∧ 8 ≤ x.some_avg10)

section Default

variable {e₁ e₂ : PolicyEngine} {x y : PsiData}

/-- At `HIGH` and `CRITICAL` the default engines pass each other only so. -/
theorem crosses_of_overtakes_high {p₁ d₁ p₂ d₂ : ℤ} (hp₁ : p₁ < 2) (hd₂ : d₂ < 2)
    (hle : x.AtMost y)
    (hov : Overtakes ⟨defaultConfigs, 2, p₁, d₁⟩ ⟨defaultConfigs, 3, p₂, d₂⟩ x y) :
    Crosses ⟨defaultConfigs, 2, p₁, d₁⟩ ⟨defaultConfigs, 3, p₂, d₂⟩ x y := by
  -- Under a sample below 15% only the 60-second average counts upwards.
  have h60 : ∀ {data : PsiData}, data.some_avg10 < 15 → Up defaultConfigs 2 data →
      15 ≤ data.some_avg60 := fun h10 hup =>
    (up_high.1 hup).resolve_left (by linarith)
  obtain ⟨-, ⟨hp, hdown⟩ | ⟨hup, hdown, hd⟩⟩ := hov
  · obtain ⟨hup, hdeb⟩ := promotes_high.1 hp
    have h10 : y.some_avg10 < 15 := down_critical.1 hdown
    exact ⟨rfl, rfl, h60 (hle.1.trans_lt h10) hup, h10, .inl (show p₁ = 1 by omega)⟩
  · obtain ⟨hdown', hdeb⟩ := demotes_critical.1 hd
    have h10 : y.some_avg10 < 15 := down_critical.1 hdown'
    have h8 : 8 ≤ x.some_avg10 := not_lt.1 fun hlt => hdown (down_high.2 hlt)
    exact ⟨rfl, rfl, h60 (hle.1.trans_lt h10) hup, h10, .inr ⟨show d₂ = 1 by omega, h8⟩⟩

/-- The default engines pass each other only between `HIGH` and `CRITICAL`. -/
theorem crosses_of_overtakes (hc₁ : e₁.configs = defaultConfigs) (hc₂ : e₂.configs = defaultConfigs)
    (h₁ : Pending e₁) (h₂ : Pending e₂) (hle : x.AtMost y) (hov : Overtakes e₁ e₂ x y) :
    Crosses e₁ e₂ x y := by
  obtain ⟨configs₁, tier, p₁, d₁⟩ := e₁
  obtain ⟨configs₂, tier₂, p₂, d₂⟩ := e₂
  obtain rfl : configs₁ = defaultConfigs := hc₁
  obtain rfl : configs₂ = defaultConfigs := hc₂
  obtain rfl : tier₂ = tier + 1 := hov.1
  obtain ⟨i, rfl⟩ : ∃ i : ℕ, i = tier := ⟨tier, rfl⟩
  have hi : i + 1 < 4 := h₂.tier_lt
  have hup : Up defaultConfigs i x := by
    obtain ⟨-, ⟨hp, -⟩ | ⟨hup, -⟩⟩ := hov
    · exact hp.1
    · exact hup
  have hdown : Down defaultConfigs (i + 1) y := by
    obtain ⟨-, ⟨-, hdown⟩ | ⟨-, -, hd⟩⟩ := hov
    · exact hdown
    · exact hd.1
  have h10 := hle.1
  -- Below `HIGH` a sample that counts upwards is above the next tier's demotion threshold.
  obtain rfl | rfl | rfl : i = 0 ∨ i = 1 ∨ i = 2 := by omega
  · linarith [up_normal.1 hup, down_elevated.1 hdown]
  · linarith [up_elevated.1 hup, down_high.1 hdown]
  · have hp₁ : p₁ < 2 := h₁.promote_lt (show 2 + 1 < 4 by decide)
    have hd₂ : d₂ < 2 := h₂.demote_lt (show 0 < 3 by decide)
    exact crosses_of_overtakes_high hp₁ hd₂ hle hov

/-- What holds of the default engine before every poll of a stream. -/
theorem before_default_pending (xs : ℕ → PsiData) (t : ℕ) :
    (before (new defaultConfigs) xs t).configs = defaultConfigs ∧
      Pending (before (new defaultConfigs) xs t) := by
  induction t with
  | zero => exact ⟨rfl, pending_of_moved debounced_default (by decide)⟩
  | succ t ih =>
    obtain ⟨hc, hpend⟩ := ih
    exact ⟨(evaluate_configs _ _).trans hc,
      evaluate_pending (by rw [hc]; exact debounced_default) hpend (xs t)⟩

/-- Two runs of the default engine, the second on samples at least as high, keep their tiers in
order after every poll, unless one of the polls before lets them pass each other. -/
theorem tierAt_le_tierAt (xs ys : ℕ → PsiData) (t : ℕ) (hle : ∀ s < t, (xs s).AtMost (ys s))
    (hcross : ∀ s < t, ¬ Crosses (before (new defaultConfigs) xs s)
      (before (new defaultConfigs) ys s) (xs s) (ys s)) :
    tierAt (new defaultConfigs) xs t ≤ tierAt (new defaultConfigs) ys t := by
  suffices h : Coupled (before (new defaultConfigs) xs t) (before (new defaultConfigs) ys t) from
    h.tier_le
  induction t with
  | zero => exact .inr ⟨rfl, le_rfl, le_rfl⟩
  | succ t ih =>
    have hcoup := ih (fun s hs => hle s (by omega)) fun s hs => hcross s (by omega)
    obtain ⟨hc₁, h₁⟩ := before_default_pending xs t
    obtain ⟨hc₂, h₂⟩ := before_default_pending ys t
    have hlt : (xs t).AtMost (ys t) := hle t t.lt_succ_self
    exact coupled_evaluate hcoup (hc₁.trans hc₂.symm) (by rw [hc₁]; exact debounced_default) h₁ h₂
      hlt fun hov => hcross t t.lt_succ_self (crosses_of_overtakes hc₁ hc₂ h₁ h₂ hlt hov)

/-- A run at 4% against one at 20%: the order holds after the third poll, at which the second
engine has gone up to `ELEVATED`. -/
theorem tierAt_le_tierAt_elevated :
    tierAt (new defaultConfigs) (fun _ => { some_avg10 := 4 }) 3 = 0 ∧
      tierAt (new defaultConfigs) (fun _ => { some_avg10 := 20 }) 3 = 1 ∧
      tierAt (new defaultConfigs) (fun _ => { some_avg10 := 4 }) 3 ≤
        tierAt (new defaultConfigs) (fun _ => { some_avg10 := 20 }) 3 :=
  ⟨by decide +kernel, by decide +kernel,
    tierAt_le_tierAt (fun _ => { some_avg10 := 4 }) (fun _ => { some_avg10 := 20 }) 3
      (fun s _ => by decide)
      (fun s hs => by
        have h : ∀ s < 3, tierAt (new defaultConfigs) (fun _ => { some_avg10 := 4 }) s = 0 := by
          decide +kernel
        rintro ⟨htier, -⟩
        exact absurd ((h s hs).symm.trans htier) (by decide))⟩

/-- The samples of a run that is at `HIGH` after six polls, with the two that follow. -/
def highThen (a b : PsiData) : ℕ → PsiData := fun s =>
  ([{ some_avg10 := 6 }, { some_avg10 := 6 }, { some_avg10 := 6 }, { some_avg10 := 16 },
    { some_avg10 := 16 }, { some_avg10 := 16 }, a, a, b, b] : List PsiData).getD s {}

/-- Two runs reach `HIGH`. Then the second is polled twice at 31%, the first at 16%, and after that
both twice at 10% with a 60-second average of 20%: the first run, on lower samples throughout, ends
at `CRITICAL` and the second at `HIGH`. -/
theorem tierAt_gt_tierAt_mixed :
    let xs := highThen { some_avg10 := 16 } { some_avg10 := 10, some_avg60 := 20 }
    let ys := highThen { some_avg10 := 31 } { some_avg10 := 10, some_avg60 := 20 }
    (∀ s < 10, (xs s).AtMost (ys s)) ∧
      tierAt (new defaultConfigs) xs 10 = PressureTier.CRITICAL ∧
      tierAt (new defaultConfigs) ys 10 = PressureTier.HIGH ∧
      ¬ tierAt (new defaultConfigs) xs 10 ≤ tierAt (new defaultConfigs) ys 10 := by
  decide +kernel

end Default

end PolicyEngine

end MemoryGovernor
