import MemoryGovernor.Lib.Streak
import MemoryGovernor.Policy.Engine

/-!
# Debounced transitions

What a whole run of the engine looks like, for any list of configurations and any stream of samples.
The two counters are streaks: `consecutive_promote_polls_` is how many of the last polls were all
evaluated at the current tier on a sample that counts upwards, `consecutive_demote_polls_` the same
downwards (`Counted`). Each call keeps this (`counted_succ`), so a transition, which needs a count
to reach its tier's `debounce_polls`, comes at the end of a streak of that length
(`promotes_heldFor`, `demotes_heldFor`), and no other transition lies within it.
-/

namespace MemoryGovernor.PolicyEngine

/-- The engine before poll `t` of a stream of samples. -/
def before (e : PolicyEngine) (xs : ℕ → PsiData) : ℕ → PolicyEngine
  | 0 => e
  | t + 1 => ((before e xs t).evaluate (xs t)).2

/-- The action that poll `t` returns. -/
def actionAt (e : PolicyEngine) (xs : ℕ → PsiData) (t : ℕ) : PolicyAction :=
  ((before e xs t).evaluate (xs t)).1

/-- The tier that poll `t` starts from, as an index. -/
def tierAt (e : PolicyEngine) (xs : ℕ → PsiData) (t : ℕ) : ℕ :=
  (before e xs t).current_tier

/-- Poll `t` is evaluated at tier `i` on a sample that counts towards the tier above. -/
def PolledUp (e : PolicyEngine) (xs : ℕ → PsiData) (i t : ℕ) : Prop :=
  tierAt e xs t = i ∧ Up e.configs i (xs t)

/-- Poll `t` is evaluated at tier `i` on a sample that counts towards the tier below. -/
def PolledDown (e : PolicyEngine) (xs : ℕ → PsiData) (i t : ℕ) : Prop :=
  tierAt e xs t = i ∧ Down e.configs i (xs t)

/-- The history invariant: before poll `t`, each count is the length of a streak of polls at the
current tier. A tier with none above it counts no promotion polls, and `NORMAL` no demotion
polls. -/
structure Counted (e : PolicyEngine) (xs : ℕ → PsiData) (t : ℕ) : Prop where
  /-- The configurations are those of the start. -/
  configs : (before e xs t).configs = e.configs
  /-- The tier is in the list. -/
  tier_lt : tierAt e xs t < e.configs.length
  /-- The promotion polls. -/
  promote : ∃ n : ℕ, (before e xs t).consecutive_promote_polls = n ∧
    HeldFor (PolledUp e xs (tierAt e xs t)) n t
  /-- The demotion polls. -/
  demote : ∃ n : ℕ, (before e xs t).consecutive_demote_polls = n ∧
    HeldFor (PolledDown e xs (tierAt e xs t)) n t
  /-- The last tier. -/
  promote_last : ¬ tierAt e xs t + 1 < e.configs.length →
    (before e xs t).consecutive_promote_polls = 0
  /-- The first tier. -/
  demote_first : tierAt e xs t = 0 → (before e xs t).consecutive_demote_polls = 0

/-- At the last tier a call that changes no tier counts no promotion poll. -/
theorem promotePollsAfter_of_last {e : PolicyEngine} {data : PsiData}
    (hlast : ¬ e.current_tier + 1 < e.configs.length) (hp : e.consecutive_promote_polls = 0) :
    promotePollsAfter e data = 0 := by
  have hup : ¬ Up e.configs e.current_tier data := fun hup => hlast hup.1
  rw [promotePollsAfter, promotePollsBefore, if_neg hup, if_neg hlast, hp, ite_self]

/-- At `NORMAL` a call that changes no tier counts no demotion poll. -/
theorem demotePollsAfter_of_first {e : PolicyEngine} {data : PsiData}
    (hfirst : e.current_tier = 0) (hd : e.consecutive_demote_polls = 0) :
    demotePollsAfter e data = 0 := by
  have hpos : ¬ 0 < e.current_tier := fun hpos => hpos.ne' hfirst
  have hdown : ¬ Down e.configs e.current_tier data := fun hdown => hpos hdown.1
  rw [demotePollsAfter, demotePollsBefore, if_neg hdown, if_neg hpos, hd, ite_self]

section Run

variable {e : PolicyEngine} {xs : ℕ → PsiData} {t : ℕ}

/-- The invariant holds before the first poll of an engine with nothing counted. -/
theorem counted_zero (htier : e.current_tier < e.configs.length)
    (hp : e.consecutive_promote_polls = 0) (hd : e.consecutive_demote_polls = 0) :
    Counted e xs 0 :=
  ⟨rfl, htier, ⟨0, hp, HeldFor.zero⟩, ⟨0, hd, HeldFor.zero⟩, fun _ => hp, fun _ => hd⟩

/-- A transition clears both counts, which restores the invariant at any tier of the list. -/
theorem counted_of_moved {i : ℕ} (hi : i < e.configs.length)
    (h : before e xs (t + 1) = ⟨e.configs, i, 0, 0⟩) : Counted e xs (t + 1) := by
  have htier : tierAt e xs (t + 1) = i := by rw [tierAt, h]
  refine ⟨by rw [h], htier ▸ hi, ⟨0, by rw [h]; rfl, HeldFor.zero⟩,
    ⟨0, by rw [h]; rfl, HeldFor.zero⟩, fun _ => by rw [h], fun _ => by rw [h]⟩

/-- The count of promotion polls after a call that changes no tier is again a streak. -/
theorem heldFor_promotePollsAfter (h : Counted e xs t) :
    ∃ n : ℕ, promotePollsAfter (before e xs t) (xs t) = n ∧
      HeldFor (PolledUp e xs (tierAt e xs t)) n (t + 1) := by
  obtain ⟨n, hn, hheld⟩ := h.promote
  simp only [promotePollsAfter, promotePollsBefore, h.configs]
  -- Only a sample that counts upwards alone lengthens the streak; the others reset it.
  split_ifs with hdown hup hnext
  · exact ⟨0, rfl, HeldFor.zero⟩
  · exact ⟨n + 1, by rw [hn]; rfl, hheld.succ ⟨rfl, hup⟩⟩
  · exact ⟨0, rfl, HeldFor.zero⟩
  · exact ⟨0, h.promote_last hnext, HeldFor.zero⟩

/-- The count of demotion polls after a call that changes no tier is again a streak. -/
theorem heldFor_demotePollsAfter (h : Counted e xs t) :
    ∃ n : ℕ, demotePollsAfter (before e xs t) (xs t) = n ∧
      HeldFor (PolledDown e xs (tierAt e xs t)) n (t + 1) := by
  obtain ⟨n, hn, hheld⟩ := h.demote
  simp only [demotePollsAfter, demotePollsBefore, h.configs]
  -- A sample that counts both ways starts the streak downwards again.
  split_ifs with hdown hup hpos hup
  · exact ⟨1, rfl, HeldFor.zero.succ ⟨rfl, hdown⟩⟩
  · exact ⟨n + 1, by rw [hn]; rfl, hheld.succ ⟨rfl, hdown⟩⟩
  · exact ⟨0, rfl, HeldFor.zero⟩
  · exact ⟨0, rfl, HeldFor.zero⟩
  · exact ⟨0, h.demote_first (Nat.eq_zero_of_not_pos hpos), HeldFor.zero⟩

/-- Every call keeps the invariant. -/
theorem counted_succ (h : Counted e xs t) : Counted e xs (t + 1) := by
  have hnext : before e xs (t + 1) = ((before e xs t).evaluate (xs t)).2 := rfl
  have hconf := h.configs
  -- A transition clears both counts, and any other call changes them by one poll.
  obtain ⟨hp, heval⟩ | ⟨-, -, heval⟩ | ⟨-, -, heval⟩ := evaluate_cases (before e xs t) (xs t)
  · rw [heval, hconf] at hnext
    exact counted_of_moved (hconf ▸ hp.1.1) hnext
  · rw [heval, hconf] at hnext
    exact counted_of_moved ((Nat.sub_le _ _).trans_lt h.tier_lt) hnext
  · rw [heval, hconf] at hnext
    have htier : tierAt e xs (t + 1) = tierAt e xs t := by rw [tierAt, hnext]; rfl
    refine ⟨by rw [hnext], htier ▸ h.tier_lt, ?_, ?_, fun hlast => ?_, fun hfirst => ?_⟩
    · rw [htier, hnext]
      exact heldFor_promotePollsAfter h
    · rw [htier, hnext]
      exact heldFor_demotePollsAfter h
    · rw [htier] at hlast
      rw [hnext]
      exact promotePollsAfter_of_last (hconf.symm ▸ hlast) (h.promote_last hlast)
    · rw [htier] at hfirst
      rw [hnext]
      exact demotePollsAfter_of_first hfirst (h.demote_first hfirst)

/-- The invariant holds before every poll. -/
theorem counted (h : Counted e xs 0) (t : ℕ) : Counted e xs t := by
  induction t with
  | zero => exact h
  | succ t ih => exact counted_succ ih

end Run

/-! ## Transitions -/

section Transitions

variable {e : PolicyEngine} {xs : ℕ → PsiData} {t : ℕ}

/-- Poll `t` changes the tier. -/
def Moves (e : PolicyEngine) (xs : ℕ → PsiData) (t : ℕ) : Prop :=
  tierAt e xs (t + 1) ≠ tierAt e xs t

/-- A promotion completes a streak of as many polls as the next tier asks for. -/
theorem promotes_heldFor (h : Counted e xs t) (hp : Promotes (before e xs t) (xs t)) :
    HeldFor (PolledUp e xs (tierAt e xs t))
      (config e.configs (tierAt e xs t + 1)).debounce_polls.toNat (t + 1) := by
  obtain ⟨n, hn, hheld⟩ := h.promote
  obtain ⟨hup, hdeb⟩ := hp
  rw [h.configs] at hup hdeb
  rw [hn] at hdeb
  exact (hheld.succ ⟨rfl, hup⟩).mono (Int.toNat_le.2 hdeb)

/-- A demotion completes a streak of as many polls as the current tier asks for. -/
theorem demotes_heldFor (h : Counted e xs t) (hd : Demotes (before e xs t) (xs t)) :
    HeldFor (PolledDown e xs (tierAt e xs t))
      (config e.configs (tierAt e xs t)).debounce_polls.toNat (t + 1) := by
  obtain ⟨n, hn, hheld⟩ := h.demote
  obtain ⟨hdown, hdeb⟩ := hd
  rw [h.configs] at hdown hdeb
  have hstreak := hheld.succ ⟨rfl, hdown⟩
  -- A sample that also counts upwards has just cleared the count, so the streak is this poll alone.
  by_cases hup : Up (before e xs t).configs (before e xs t).current_tier (xs t)
  · rw [demotePollsBefore, if_pos hup] at hdeb
    exact hstreak.mono ((Int.toNat_le.2 hdeb).trans (Nat.le_add_left 1 n))
  · rw [demotePollsBefore, if_neg hup, hn] at hdeb
    exact hstreak.mono (Int.toNat_le.2 hdeb)

/-- What poll `t` can do: promote, demote or keep the tier, with the action it returns. -/
theorem tierAt_succ_cases (h : Counted e xs t) :
    (Promotes (before e xs t) (xs t) ∧ tierAt e xs (t + 1) = tierAt e xs t + 1 ∧
      actionAt e xs t = ⟨.shrink, (config e.configs (tierAt e xs t + 1)).shrink_pct,
        tierAt e xs t + 1⟩) ∨
    (Demotes (before e xs t) (xs t) ∧ tierAt e xs t = tierAt e xs (t + 1) + 1 ∧
      actionAt e xs t = ⟨.grow, (config e.configs (tierAt e xs t)).shrink_pct,
        tierAt e xs t - 1⟩) ∨
    (tierAt e xs (t + 1) = tierAt e xs t ∧ actionAt e xs t = ⟨.none, 0, tierAt e xs t⟩) := by
  have hconf := h.configs
  have hnext : tierAt e xs (t + 1) = ((before e xs t).evaluate (xs t)).2.current_tier := rfl
  obtain ⟨hp, heval⟩ | ⟨-, hd, heval⟩ | ⟨-, -, heval⟩ := evaluate_cases (before e xs t) (xs t)
  · rw [hconf] at heval
    exact .inl ⟨hp, by rw [hnext, heval]; rfl, by rw [actionAt, heval]; rfl⟩
  · rw [hconf] at heval
    have hpos : 0 < tierAt e xs t := hd.1.1
    have hsub : tierAt e xs (t + 1) = tierAt e xs t - 1 := by rw [hnext, heval]; rfl
    exact .inr (.inl ⟨hd, by omega, by rw [actionAt, heval]; rfl⟩)
  · exact .inr (.inr ⟨by rw [hnext, heval]; rfl, by rw [actionAt, heval]; rfl⟩)

/-- A transition before poll `t` ended before a streak of polls at one tier began. -/
theorem moves_before {i n r : ℕ}
    (h : HeldFor (fun s => tierAt e xs s = i) n (t + 1)) (hrt : r < t) (hr : Moves e xs r) :
    r + n ≤ t := by
  -- One of the two polls, before and after the transition, is not at tier `i`.
  by_cases hi : tierAt e xs r = i
  · have hnext : tierAt e xs (r + 1) ≠ i := fun heq => hr (heq.trans hi.symm)
    have hlt := h.le_of_not (by omega) hnext
    omega
  · have hlt := h.le_of_not (by omega) hi
    omega

/-- A call that moved the tier up promoted. -/
theorem promotion_spec (h : Counted e xs t) (hj : tierAt e xs (t + 1) = tierAt e xs t + 1) :
    let next := config e.configs (tierAt e xs t + 1)
    (actionAt e xs t).fraction = next.shrink_pct ∧
      HeldFor (fun s => tierAt e xs s = tierAt e xs t ∧
        PromoteCondition e.configs (tierAt e xs t) (xs s)) next.debounce_polls.toNat (t + 1) ∧
      ∀ r < t, Moves e xs r → r + next.debounce_polls.toNat ≤ t := by
  obtain ⟨hp, -, haction⟩ | ⟨-, hi, -⟩ | ⟨hi, -⟩ := tierAt_succ_cases h
  · have hheld := promotes_heldFor h hp
    exact ⟨by rw [haction], hheld.imp fun s _ hs => ⟨hs.1, hs.2.2⟩,
      fun r hrt hr => moves_before (hheld.imp fun s _ hs => hs.1) hrt hr⟩
  · omega
  · omega

/-- A call that moved the tier down demoted. -/
theorem demotion_spec (h : Counted e xs t) (hi : tierAt e xs t = tierAt e xs (t + 1) + 1) :
    let curr := config e.configs (tierAt e xs t)
    (actionAt e xs t).fraction = curr.shrink_pct ∧
      HeldFor (fun s => tierAt e xs s = tierAt e xs t ∧ (xs s).some_avg10 < curr.demote_threshold)
        curr.debounce_polls.toNat (t + 1) ∧
      ∀ r < t, Moves e xs r → r + curr.debounce_polls.toNat ≤ t := by
  obtain ⟨-, hj, -⟩ | ⟨hd, -, haction⟩ | ⟨hj, -⟩ := tierAt_succ_cases h
  · omega
  · have hheld := demotes_heldFor h hd
    exact ⟨by rw [haction], hheld.imp fun s _ hs => ⟨hs.1, hs.2.2⟩,
      fun r hrt hr => moves_before (hheld.imp fun s _ hs => hs.1) hrt hr⟩
  · omega

/-- The action's type tells how the call moved the tier. -/
theorem actionAt_type (h : Counted e xs t) :
    ((actionAt e xs t).type = .shrink ↔ tierAt e xs (t + 1) = tierAt e xs t + 1) ∧
      ((actionAt e xs t).type = .grow ↔ tierAt e xs t = tierAt e xs (t + 1) + 1) ∧
      ((actionAt e xs t).type = .none ↔ tierAt e xs (t + 1) = tierAt e xs t) := by
  obtain ⟨-, hj, haction⟩ | ⟨-, hi, haction⟩ | ⟨hj, haction⟩ := tierAt_succ_cases h
  · refine ⟨iff_of_true (by rw [haction]) hj, iff_of_false ?_ ?_, iff_of_false ?_ ?_⟩ <;>
      first | omega | simp [haction]
  · refine ⟨iff_of_false ?_ ?_, iff_of_true (by rw [haction]) hi, iff_of_false ?_ ?_⟩ <;>
      first | omega | simp [haction]
  · refine ⟨iff_of_false ?_ ?_, iff_of_false ?_ ?_, iff_of_true (by rw [haction]) hj⟩ <;>
      first | omega | simp [haction]

end Transitions

/-- Every run of the engine, over any non-empty list of configurations and any samples. The tier
stays in the list and moves by at most one. A call returns `SHRINK` exactly when it promotes, `GROW`
exactly when it demotes, with the fraction of the tier entered or left, and no action exactly when
it keeps the tier. A promotion at poll `t` ends as many polls as the next tier's `debounce_polls`,
all evaluated at the current tier on samples that met the promotion condition, and a demotion as
many as the current tier's, all with `avg10` below its demotion threshold. Earlier transitions are
at least that many polls back. -/
theorem evaluate_debounced (configs : List TierConfig) (hne : configs ≠ [])
    (xs : ℕ → PsiData) (t : ℕ) :
    let e := new configs
    let i := tierAt e xs t
    let j := tierAt e xs (t + 1)
    let action := actionAt e xs t
    (i < configs.length ∧ j < configs.length ∧ j ≤ i + 1 ∧ i ≤ j + 1) ∧
      ((action.type = .shrink ↔ j = i + 1) ∧ (action.type = .grow ↔ i = j + 1) ∧
        (action.type = .none ↔ j = i)) ∧
      (j = i + 1 →
        let next := config configs (i + 1)
        action.fraction = next.shrink_pct ∧
          HeldFor (fun s => tierAt e xs s = i ∧ PromoteCondition configs i (xs s))
            next.debounce_polls.toNat (t + 1) ∧
          ∀ r < t, Moves e xs r → r + next.debounce_polls.toNat ≤ t) ∧
      (i = j + 1 →
        let curr := config configs i
        action.fraction = curr.shrink_pct ∧
          HeldFor (fun s => tierAt e xs s = i ∧ (xs s).some_avg10 < curr.demote_threshold)
            curr.debounce_polls.toNat (t + 1) ∧
          ∀ r < t, Moves e xs r → r + curr.debounce_polls.toNat ≤ t) := by
  have hconf : (new configs).configs = configs := by
    rw [new, if_neg (by simpa using hne)]
  -- The history invariant holds before every poll, and the rest is what it says of poll `t`.
  have hcounted : ∀ s, Counted (new configs) xs s :=
    counted (counted_zero (by rw [hconf]; exact List.length_pos_iff.2 hne) rfl rfl)
  have h := hcounted t
  have hlt := h.tier_lt
  have hlt' := (hcounted (t + 1)).tier_lt
  rw [hconf] at hlt hlt'
  refine ⟨⟨hlt, hlt', ?_⟩, ?_⟩
  · obtain ⟨-, hj, -⟩ | ⟨-, hi, -⟩ | ⟨hj, -⟩ := tierAt_succ_cases h <;> omega
  refine ⟨actionAt_type h, fun hj => ?_, fun hi => ?_⟩
  · have hspec := promotion_spec h hj
    rwa [hconf] at hspec
  · have hspec := demotion_spec h hi
    rwa [hconf] at hspec

/-- Three samples at 6% promote the default engine to `ELEVATED` at the third poll, after three
polls at `NORMAL`. -/
theorem evaluate_debounced_elevated :
    let e := new defaultConfigs
    let xs : ℕ → PsiData := fun _ => { some_avg10 := 6 }
    defaultConfigs ≠ [] ∧ tierAt e xs 3 = 1 ∧ (actionAt e xs 2).fraction = 1/10 ∧
      HeldFor (fun s => tierAt e xs s = 0 ∧ PromoteCondition defaultConfigs 0 (xs s)) 3 3 :=
  have hne : defaultConfigs ≠ [] := by decide
  have h := evaluate_debounced defaultConfigs hne (fun _ => { some_avg10 := 6 }) 2
  have htwo : tierAt (new defaultConfigs) (fun _ => { some_avg10 := 6 }) 2 = 0 := by decide +kernel
  have hthree : tierAt (new defaultConfigs) (fun _ => { some_avg10 := 6 }) 3 = 1 := by
    decide +kernel
  have hup := h.2.2.1 (by rw [htwo, hthree])
  ⟨hne, hthree, by rw [hup.1, htwo]; rfl, by rw [htwo] at hup; exact hup.2.1⟩

end MemoryGovernor.PolicyEngine
