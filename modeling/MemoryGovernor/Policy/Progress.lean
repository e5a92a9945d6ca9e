import MemoryGovernor.Policy.Hysteresis

/-!
# Progress

Does the engine move when it is polled long enough in one direction? Samples that all count upwards
and none of them downwards promote it once they complete the next tier's polls (`transition_of_up`),
and the same holds downwards (`transition_of_down`). On the default tiers only `HIGH` has samples
that count both ways, those of `BothWays`: each of the two checks clears the other's count, so with
such samples among them neither direction need come to its end. `transition_iff_not_stalls` says
for which blocks of samples that is so.
-/

namespace MemoryGovernor.PolicyEngine

/-- One of the calls on the samples changes the tier. -/
def Transition : PolicyEngine → List PsiData → Prop
  | _, [] => False
  | e, data :: block =>
    (e.evaluate data).2.current_tier ≠ e.current_tier ∨ Transition (e.evaluate data).2 block

instance decidableTransition : ∀ e block, Decidable (Transition e block)
  | _, [] => inferInstanceAs (Decidable False)
  | e, data :: block =>
    have := decidableTransition (e.evaluate data).2 block
    inferInstanceAs (Decidable (_ ∨ _))

/-- The number of polls that a transition from tier `i` can ask for: the larger of its own
`debounce_polls`, if it has a tier below, and the next tier's, if it has one above. -/
def progressPolls (configs : List TierConfig) (i : ℕ) : ℤ :=
  max (if 0 < i then (config configs i).debounce_polls else 0)
    (if i + 1 < configs.length then (config configs (i + 1)).debounce_polls else 0)

section Calls

variable {e : PolicyEngine} {data : PsiData} {block : List PsiData}

theorem transition_of_promotes (hp : Promotes e data) : Transition e (data :: block) := by
  refine .inl ?_
  rw [evaluate_of_promotes hp]
  exact Nat.succ_ne_self _

theorem transition_of_demotes (hp : ¬ Promotes e data) (hd : Demotes e data) :
    Transition e (data :: block) := by
  have hpos : 0 < e.current_tier := hd.1.1
  refine .inl ?_
  rw [evaluate_of_demotes hp hd]
  exact (Nat.sub_lt hpos Nat.one_pos).ne

/-- After a call that changes no tier the transition is still to come. -/
theorem transition_of_stays (hp : ¬ Promotes e data) (hd : ¬ Demotes e data) :
    Transition e (data :: block) ↔
      Transition ⟨e.configs, e.current_tier, promotePollsAfter e data, demotePollsAfter e data⟩
        block := by
  rw [Transition, evaluate_of_stays hp hd]
  exact or_iff_right (not_not_intro rfl)

end Calls

section OneWay

variable {configs : List TierConfig} {i : ℕ}

/-- Samples that only count upwards promote the engine once they complete the next tier's polls. -/
theorem transition_of_up (block : List PsiData)
    (hblock : ∀ data ∈ block, Up configs i data ∧ ¬ Down configs i data) {p d : ℤ}
    (hp : p < (config configs (i + 1)).debounce_polls)
    (hlen : (config configs (i + 1)).debounce_polls ≤ p + block.length) :
    Transition ⟨configs, i, p, d⟩ block := by
  induction block generalizing p d with
  | nil =>
    have hle : (config configs (i + 1)).debounce_polls ≤ p := by simpa using hlen
    omega
  | cons data block ih =>
    obtain ⟨⟨hup, hdown⟩, hrest⟩ := List.forall_mem_cons.1 hblock
    rw [List.length_cons] at hlen
    by_cases hprom : Promotes ⟨configs, i, p, d⟩ data
    · exact transition_of_promotes hprom
    · -- One more poll is counted, and the rest of the samples completes the count.
      have hlt : p + 1 < (config configs (i + 1)).debounce_polls :=
        not_le.1 fun hle => hprom ⟨hup, hle⟩
      have hstay : ¬ Demotes ⟨configs, i, p, d⟩ data := fun hd => hdown hd.1
      have hcount : promotePollsAfter ⟨configs, i, p, d⟩ data = p + 1 := by
        simp only [promotePollsAfter, promotePollsBefore, if_neg hdown, if_pos hup]
      rw [transition_of_stays hprom hstay, hcount]
      exact ih hrest hlt (by push_cast at hlen; omega)

/-- Samples that only count downwards demote the engine once they complete its tier's polls. -/
theorem transition_of_down (block : List PsiData)
    (hblock : ∀ data ∈ block, Down configs i data ∧ ¬ Up configs i data) {p d : ℤ}
    (hd : d < (config configs i).debounce_polls)
    (hlen : (config configs i).debounce_polls ≤ d + block.length) :
    Transition ⟨configs, i, p, d⟩ block := by
  induction block generalizing p d with
  | nil =>
    have hle : (config configs i).debounce_polls ≤ d := by simpa using hlen
    omega
  | cons data block ih =>
    obtain ⟨⟨hdown, hup⟩, hrest⟩ := List.forall_mem_cons.1 hblock
    rw [List.length_cons] at hlen
    have hprom : ¬ Promotes ⟨configs, i, p, d⟩ data := fun hp => hup hp.1
    have hbefore : demotePollsBefore ⟨configs, i, p, d⟩ data = d := by
      simp only [demotePollsBefore, if_neg hup]
    by_cases hdem : Demotes ⟨configs, i, p, d⟩ data
    · exact transition_of_demotes hprom hdem
    · have hlt : d + 1 < (config configs i).debounce_polls :=
        not_le.1 fun hle => hdem ⟨hdown, by rw [hbefore]; exact hle⟩
      have hcount : demotePollsAfter ⟨configs, i, p, d⟩ data = d + 1 := by
        simp only [demotePollsAfter, hbefore, if_pos hdown]
      rw [transition_of_stays hprom hdem, hcount]
      exact ih hrest hlt (by push_cast at hlen; omega)

end OneWay

/-! ## The default tiers at `HIGH` -/

/-- A sample that counts upwards from `HIGH`, because of `avg60`, and downwards too. -/
def BothWays (data : PsiData) : Prop := 15 ≤ data.some_avg60 ∧ data.some_avg10 < 8

/-- The blocks of three samples that leave the engine at `HIGH` although all of them count upwards
or all of them count downwards. With no promotion poll counted, two samples that count both ways are
too many. Where all three count downwards, one that counts both ways starts the count of demotion
polls again, so it is too many if the others do not make three without it. -/
def Stalls (e : PolicyEngine) (block : List PsiData) : Prop :=
  e.current_tier = PressureTier.HIGH ∧ ∃ a b c, block = [a, b, c] ∧
    (e.consecutive_promote_polls = 0 ∧ BothWays a ∧ BothWays b ∨
      (∀ data ∈ block, data.some_avg10 < 8) ∧
        ¬ (e.consecutive_promote_polls = 1 ∧ BothWays a) ∧
        (e.consecutive_demote_polls = 2 → BothWays a) ∧
        (1 ≤ e.consecutive_demote_polls → BothWays a ∨ BothWays b) ∧
        (BothWays b ∨ BothWays c))

section High

variable {p d : ℤ} {data a b c : PsiData} {block : List PsiData}

/-- Which samples count both ways. -/
theorem bothWays_iff : BothWays data ↔ Up defaultConfigs 2 data ∧ Down defaultConfigs 2 data := by
  rw [up_high, down_high, BothWays]
  constructor
  · rintro ⟨h60, h8⟩
    exact ⟨.inr h60, h8⟩
  · rintro ⟨h30 | h60, h8⟩
    · linarith
    · exact ⟨h60, h8⟩

/-- With a promotion poll counted the next sample that counts upwards promotes. -/
theorem transition_high_promotes (hup : Up defaultConfigs 2 data) :
    Transition ⟨defaultConfigs, 2, 1, d⟩ (data :: block) :=
  transition_of_promotes (promotes_high.2 ⟨hup, le_rfl⟩)

/-- With none counted it is counted, unless it also counts downwards. -/
theorem transition_high_up (hup : Up defaultConfigs 2 data) :
    Transition ⟨defaultConfigs, 2, 0, d⟩ (data :: block) ↔
      Transition ⟨defaultConfigs, 2, if Down defaultConfigs 2 data then 0 else 1,
        if Down defaultConfigs 2 data then 1 else 0⟩ block := by
  rw [transition_of_stays (by simp [promotes_high]) (not_demotes_high hup)]
  simp only [promotePollsAfter, promotePollsBefore, demotePollsAfter, demotePollsBefore,
    if_pos hup]
  rfl

/-- A sample that only counts downwards demotes, or is counted, as the polls before it say. -/
theorem transition_high_down (hup : ¬ Up defaultConfigs 2 data) (hdown : Down defaultConfigs 2 data)
    (hd : d < 3) : Transition ⟨defaultConfigs, 2, p, d⟩ (data :: block) ↔
      d = 2 ∨ Transition ⟨defaultConfigs, 2, 0, d + 1⟩ block := by
  have hprom : ¬ Promotes ⟨defaultConfigs, 2, p, d⟩ data := fun hp => hup hp.1
  have hdem : Demotes ⟨defaultConfigs, 2, p, d⟩ data ↔ d = 2 := by
    have hdeb : Demotes ⟨defaultConfigs, 2, p, d⟩ data ↔ 3 ≤ d + 1 := by
      rw [Demotes, demotePollsBefore, if_neg hup, and_iff_right hdown]
      exact Iff.rfl
    rw [hdeb]
    omega
  by_cases htwo : d = 2
  · exact iff_of_true (transition_of_demotes hprom (hdem.2 htwo)) (.inl htwo)
  · rw [transition_of_stays hprom (hdem.not.2 htwo), or_iff_right htwo]
    simp only [promotePollsAfter, demotePollsAfter, demotePollsBefore, if_pos hdown, if_neg hup]

/-- Three samples that count upwards. -/
theorem transition_high_block_up (hp : p = 0 ∨ p = 1) (ha : Up defaultConfigs 2 a)
    (hb : Up defaultConfigs 2 b) (hc : Up defaultConfigs 2 c) :
    Transition ⟨defaultConfigs, 2, p, d⟩ [a, b, c] ↔
      ¬ (p = 0 ∧ Down defaultConfigs 2 a ∧ Down defaultConfigs 2 b) := by
  rcases hp with rfl | rfl
  · rw [transition_high_up ha]
    by_cases hda : Down defaultConfigs 2 a
    · rw [if_pos hda, if_pos hda, transition_high_up hb]
      by_cases hdb : Down defaultConfigs 2 b
      · -- Two polls have been cleared, and the third cannot complete the count of two.
        rw [if_pos hdb, if_pos hdb, transition_high_up hc]
        simp [hda, hdb, Transition]
      · rw [if_neg hdb, if_neg hdb]
        exact iff_of_true (transition_high_promotes hc) fun h => hdb h.2.2
    · rw [if_neg hda, if_neg hda]
      exact iff_of_true (transition_high_promotes hb) fun h => hda h.2.1
  · exact iff_of_true (transition_high_promotes ha) fun h => one_ne_zero h.1

/-- One sample that counts downwards, with no promotion poll counted. -/
theorem transition_high_one_down (hd : d < 3) (hc : Down defaultConfigs 2 c) :
    Transition ⟨defaultConfigs, 2, 0, d⟩ [c] ↔ d = 2 ∧ ¬ Up defaultConfigs 2 c := by
  by_cases hup : Up defaultConfigs 2 c
  · rw [transition_high_up hup]
    simp [hup, Transition]
  · rw [transition_high_down hup hc hd]
    simp [hup, Transition]

/-- Two samples that count downwards: the second can complete the count only if the first has not
started it again. -/
theorem transition_high_two_down (hd : d < 3) (hb : Down defaultConfigs 2 b)
    (hc : Down defaultConfigs 2 c) : Transition ⟨defaultConfigs, 2, 0, d⟩ [b, c] ↔
      ¬ Up defaultConfigs 2 b ∧ (d = 2 ∨ d = 1 ∧ ¬ Up defaultConfigs 2 c) := by
  by_cases hup : Up defaultConfigs 2 b
  · rw [transition_high_up hup, if_pos hb, if_pos hb, transition_high_one_down (by decide) hc]
    simp [hup]
  · rw [transition_high_down hup hb hd]
    by_cases htwo : d = 2
    · simp [hup, htwo]
    · rw [transition_high_one_down (by omega) hc, or_iff_right htwo, or_iff_right htwo,
        and_iff_right hup]
      exact and_congr_left' ⟨fun h => by omega, fun h => by omega⟩

/-- Three samples that count downwards. -/
theorem transition_high_block_down (hp : p = 0 ∨ p = 1) (hd : d = 0 ∨ d = 1 ∨ d = 2)
    (ha : Down defaultConfigs 2 a) (hb : Down defaultConfigs 2 b) (hc : Down defaultConfigs 2 c) :
    Transition ⟨defaultConfigs, 2, p, d⟩ [a, b, c] ↔
      ¬ (¬ (p = 1 ∧ Up defaultConfigs 2 a) ∧ (d = 2 → Up defaultConfigs 2 a) ∧
        (1 ≤ d → Up defaultConfigs 2 a ∨ Up defaultConfigs 2 b) ∧
        (Up defaultConfigs 2 b ∨ Up defaultConfigs 2 c)) := by
  by_cases hup : Up defaultConfigs 2 a
  · rcases hp with rfl | rfl
    · -- The first sample starts the count again.
      rw [transition_high_up hup, if_pos ha, if_pos ha, transition_high_two_down (by decide) hb hc]
      simp [hup, not_or]
    · exact iff_of_true (transition_high_promotes hup) fun h => h.1 ⟨rfl, hup⟩
  · -- The first sample is counted after those before it.
    rw [transition_high_down hup ha (by omega)]
    rcases hd with rfl | rfl | rfl
    · rw [transition_high_two_down (by decide) hb hc]
      simp [hup, not_or]
    · rw [transition_high_two_down (by decide) hb hc]
      by_cases hub : Up defaultConfigs 2 b <;> simp [hup, hub]
    · simp [hup]

/-- At `HIGH`, a block of three samples that all count upwards, or all downwards, leaves the engine
there exactly if it stalls. -/
theorem transition_high_iff (hp : p = 0 ∨ p = 1) (hd : d = 0 ∨ d = 1 ∨ d = 2)
    (hlen : block.length = 3) (hblock : (∀ data ∈ block, Up defaultConfigs 2 data) ∨
      ∀ data ∈ block, Down defaultConfigs 2 data) :
    Transition ⟨defaultConfigs, 2, p, d⟩ block ↔ ¬ Stalls ⟨defaultConfigs, 2, p, d⟩ block := by
  obtain ⟨a, b, c, rfl⟩ := List.length_eq_three.1 hlen
  have hstalls : Stalls ⟨defaultConfigs, 2, p, d⟩ [a, b, c] ↔
      p = 0 ∧ BothWays a ∧ BothWays b ∨ (∀ data ∈ [a, b, c], Down defaultConfigs 2 data) ∧
        ¬ (p = 1 ∧ BothWays a) ∧ (d = 2 → BothWays a) ∧ (1 ≤ d → BothWays a ∨ BothWays b) ∧
        (BothWays b ∨ BothWays c) := by
    simp only [Stalls, down_high]
    constructor
    · rintro ⟨-, _, _, _, heq, h⟩
      obtain ⟨rfl, rfl, rfl⟩ : a = _ ∧ b = _ ∧ c = _ := by simpa using heq
      exact h
    · exact fun h => ⟨rfl, a, b, c, rfl, h⟩
  rw [hstalls]
  by_cases hdown : ∀ data ∈ [a, b, c], Down defaultConfigs 2 data
  · -- Below 8% a sample counts both ways if it counts upwards.
    obtain ⟨ha, hb, hc⟩ : Down defaultConfigs 2 a ∧ Down defaultConfigs 2 b ∧
      Down defaultConfigs 2 c := by simpa using hdown
    have habsorb : p = 0 ∧ Up defaultConfigs 2 a ∧ Up defaultConfigs 2 b →
        ¬ (p = 1 ∧ Up defaultConfigs 2 a) ∧ (d = 2 → Up defaultConfigs 2 a) ∧
          (1 ≤ d → Up defaultConfigs 2 a ∨ Up defaultConfigs 2 b) ∧
          (Up defaultConfigs 2 b ∨ Up defaultConfigs 2 c) := by
      rintro ⟨rfl, hua, hub⟩
      exact ⟨fun h => zero_ne_one h.1, fun _ => hua, fun _ => .inl hua, .inl hub⟩
    rw [transition_high_block_down hp hd ha hb hc, and_iff_right hdown]
    simp only [bothWays_iff, ha, hb, hc, and_true]
    rw [or_iff_right_of_imp habsorb]
  · have hall : ∀ data ∈ [a, b, c], Up defaultConfigs 2 data := hblock.resolve_right hdown
    obtain ⟨ha, hb, hc⟩ : Up defaultConfigs 2 a ∧ Up defaultConfigs 2 b ∧
      Up defaultConfigs 2 c := by simpa using hall
    rw [transition_high_block_up hp ha hb hc, or_iff_left fun h => hdown h.1]
    simp only [bothWays_iff, ha, hb, true_and]

end High

/-! ## Every tier -/

/-- At the other tiers no sample counts both ways. -/
theorem not_down_of_up {i : ℕ} (hi : i ≠ 2) {data : PsiData} (hup : Up defaultConfigs i data) :
    ¬ Down defaultConfigs i data := by
  intro hdown
  have hlt : i + 1 < 4 := hup.1
  have hpos : 0 < i := hdown.1
  obtain rfl : i = 1 := by omega
  linarith [up_elevated.1 hup, down_elevated.1 hdown]

/-- Every tier asks for some polls. -/
theorem progressPolls_pos {i : ℕ} (hi : i < 4) : 0 < progressPolls defaultConfigs i := by
  interval_cases i <;> decide

/-- Away from `HIGH` a block that is long enough for either direction changes the tier. -/
theorem transition_of_ne_high {i : ℕ} {p d : ℤ} (hpend : Pending ⟨defaultConfigs, i, p, d⟩)
    (hi : i ≠ 2) {block : List PsiData}
    (hlen : (block.length : ℤ) = progressPolls defaultConfigs i)
    (hblock : (∀ data ∈ block, Up defaultConfigs i data) ∨
      ∀ data ∈ block, Down defaultConfigs i data) :
    Transition ⟨defaultConfigs, i, p, d⟩ block := by
  obtain ⟨hlt, hp₀, hd₀, hp, hd⟩ := hpend
  have hpos : 0 < progressPolls defaultConfigs i := progressPolls_pos hlt
  obtain ⟨first, hfirst⟩ : ∃ data, data ∈ block :=
    List.exists_mem_of_length_pos (by omega)
  have hp₀' : 0 ≤ p := hp₀
  have hd₀' : 0 ≤ d := hd₀
  rw [progressPolls] at hlen
  rcases hblock with hup | hdown
  · have hnext : i + 1 < defaultConfigs.length := (hup first hfirst).1
    have hle : (config defaultConfigs (i + 1)).debounce_polls ≤ block.length := by
      rw [hlen, if_pos hnext]
      exact le_max_right _ _
    exact transition_of_up block
      (fun data hdata => ⟨hup data hdata, not_down_of_up hi (hup data hdata)⟩) (hp hnext)
      (by omega)
  · have hbelow : 0 < i := (hdown first hfirst).1
    have hle : (config defaultConfigs i).debounce_polls ≤ block.length := by
      rw [hlen, if_pos hbelow]
      exact le_max_left _ _
    exact transition_of_down block
      (fun data hdata => ⟨hdown data hdata, fun hup => not_down_of_up hi hup (hdown data hdata)⟩)
      (hd hbelow) (by omega)

/-- In every state that the default engine reaches, a block of samples that all count upwards, or
all downwards, as long as the larger number of polls that either direction asks for, changes the
tier, exactly unless it stalls. -/
theorem transition_iff_not_stalls (samples block : List PsiData) :
    let e := evaluateAll (new defaultConfigs) samples
    block.length = progressPolls defaultConfigs e.current_tier →
    ((∀ data ∈ block, Up defaultConfigs e.current_tier data) ∨
      ∀ data ∈ block, Down defaultConfigs e.current_tier data) →
    (Transition e block ↔ ¬ Stalls e block) := by
  intro e hlen hblock
  obtain ⟨hc, hpend⟩ : e.configs = defaultConfigs ∧ Pending e :=
    evaluateAll_default_pending samples
  generalize e = e at *
  obtain ⟨configs, tier, p, d⟩ := e
  obtain rfl : configs = defaultConfigs := hc
  obtain ⟨i, rfl⟩ : ∃ i : ℕ, i = tier := ⟨tier, rfl⟩
  by_cases hhigh : i = 2
  · subst hhigh
    have hp₀ : 0 ≤ p := hpend.promote_nonneg
    have hd₀ : 0 ≤ d := hpend.demote_nonneg
    have hp : p < 2 := hpend.promote_lt (show 2 + 1 < 4 by decide)
    have hd : d < 3 := hpend.demote_lt (show 0 < 2 by decide)
    have hthree : (block.length : ℤ) = 3 := hlen
    exact transition_high_iff (by omega) (by omega) (by omega) hblock
  · exact iff_of_true (transition_of_ne_high hpend hhigh hlen hblock) fun h => hhigh h.1

/-- From the start three samples at 6% change the tier. -/
theorem transition_iff_not_stalls_normal :
    let block : List PsiData := [{ some_avg10 := 6 }, { some_avg10 := 6 }, { some_avg10 := 6 }]
    (Transition (evaluateAll (new defaultConfigs) []) block ↔
        ¬ Stalls (evaluateAll (new defaultConfigs) []) block) ∧
      Transition (evaluateAll (new defaultConfigs) []) block :=
  have h := transition_iff_not_stalls []
    [{ some_avg10 := 6 }, { some_avg10 := 6 }, { some_avg10 := 6 }] (by decide)
    (.inl (by decide +kernel))
  ⟨h, h.2 fun hstalls => absurd hstalls.1 (by decide)⟩

/-- Three samples at 6% and three at 16% lead the engine to `HIGH`. Three more at 5% with a
60-second average of 20% all count upwards and all count downwards, and change no tier. -/
theorem not_transition_high :
    let e := evaluateAll (new defaultConfigs)
      [{ some_avg10 := 6 }, { some_avg10 := 6 }, { some_avg10 := 6 },
        { some_avg10 := 16 }, { some_avg10 := 16 }, { some_avg10 := 16 }]
    let block : List PsiData := List.replicate 3 { some_avg10 := 5, some_avg60 := 20 }
    block.length = progressPolls defaultConfigs e.current_tier ∧
      (∀ data ∈ block, Up defaultConfigs e.current_tier data) ∧
      (∀ data ∈ block, Down defaultConfigs e.current_tier data) ∧ ¬ Transition e block := by
  decide +kernel

end MemoryGovernor.PolicyEngine
