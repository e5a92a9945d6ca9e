import MemoryGovernor.Daemon.Cycle
import MemoryGovernor.Policy.Latency
import MemoryGovernor.System.Shrink

/-!
# What pressure does to a cache

The purpose of the daemon, over whole runs: while the pressure is at its highest the engine climbs
to `CRITICAL` as fast as its debounces allow, and with each tier it takes that tier's fraction of
the capacity of every client that is on line and keeps up. Nothing is asked of the size that a
client has told, which is never too large (`Quiet.recorded_le`), so the bound holds whatever the
application puts and gets meanwhile. From `NORMAL`, eight samples leave 27/80 of the capacity at
most (`run_relieved`).
-/

namespace MemoryGovernor

open ClientRegistry (commandMessage)
open Ladder (rung)
open PolicyEngine (Climbing Pushes defaultConfigs pollsUp)

namespace GovernorDaemon

/-- At a broadcast the client listens, and no message is in flight between it and the daemon. -/
def Prompt (k : ClientId) (d : GovernorDaemon) (e : DaemonEvent) : Prop :=
  Broadcasts d e → (d.system.clients k).listening = true ∧
    ∀ conn ∈ (d.system.link k).conn, conn.up.pending = [] ∧ conn.down.pending = []

instance (k : ClientId) (d : GovernorDaemon) (e : DaemonEvent) : Decidable (Prompt k d e) :=
  inferInstanceAs (Decidable (Broadcasts d e → _ ∧ ∀ conn ∈ _, _))

section Steps

variable {A : ClientId → LinkedHeap.Allocator} {configs : ClientId → ClientConfig}
  {d d' : GovernorDaemon} {o : Option Message} {k : ClientId} {c : ConnId} {fd : ℕ}

/-- A SHRINK computed from the size of no more entries than the capacity leaves at most its part of
the capacity. -/
theorem capacityAfter_shrink_le {fraction : ℚ} {info : ClientInfo} {msg : Message}
    {entry_bytes : UInt64} {capacity : ℕ} (hfraction : fraction ≤ 1)
    (hmsg : commandMessage .shrink fraction info = some msg)
    (hsize : 0 < capacity → info.current_size_bytes.toNat ≤ capacity * entry_bytes.toNat) :
    (Link.capacityAfter entry_bytes capacity msg : ℚ) ≤ capacity * (1 - fraction) := by
  obtain ⟨t, ht, rfl⟩ := Option.map_eq_some_iff.1 hmsg
  have hfactor : 0 ≤ 1 - fraction := sub_nonneg.2 hfraction
  rcases Nat.eq_zero_or_pos capacity with rfl | hpos
  · rw [Link.capacityAfter_ignored]
    · simp
    · rintro (⟨-, hlt⟩ | ⟨htype, -⟩)
      · exact Nat.not_lt_zero _ hlt
      · cases htype
  · have htarget : ((t.toNat / entry_bytes.toNat : ℕ) : ℚ) ≤ capacity * (1 - fraction) := by
      refine le_trans ?_ (target_entries_le hfactor (e := entry_bytes.toNat))
      rw [truncate_toNat ht]
      have hle : (info.current_size_bytes.toNat : ℚ) ≤ ((capacity * entry_bytes.toNat : ℕ) : ℚ) :=
        Nat.cast_le.2 (hsize hpos)
      exact Nat.cast_le.2 (Nat.div_le_div_right (Nat.floor_mono
        (mul_le_mul_of_nonneg_right hle hfactor)))
    by_cases happ : t.toNat / entry_bytes.toNat < capacity
    · rw [Link.capacityAfter_applied (.inl ⟨rfl, happ⟩)]
      exact htarget
    · refine le_trans (Nat.cast_le.2 ?_) htarget
      rw [Link.capacityAfter_ignored]
      · exact not_lt.1 happ
      · rintro (⟨-, hlt⟩ | ⟨htype, -⟩)
        · exact happ hlt
        · cases htype

/-- What a promotion makes of the capacity. -/
theorem settledCapacity_prompt (h : Base configs d) {data : PsiData}
    (hp : PolicyEngine.Promotes d.engine data) (hon : OnLine k c fd d)
    (hb : Broadcasts d (.psi data)) (hprompt : Prompt k d (.psi data))
    (hfraction : (d.engine.evaluate data).1.fraction =
      (PolicyEngine.config d.engine.configs (d.engine.current_tier + 1)).shrink_pct)
    (hbr : d.system.broadcast .shrink (d.engine.evaluate data).1.fraction = some d'.system) :
    ((d'.system.link k).settledCapacity : ℚ) ≤ (d.system.link k).settledCapacity *
      (1 - (PolicyEngine.config defaultConfigs (d.engine.current_tier + 1)).shrink_pct) := by
  have hnext : d.engine.current_tier + 1 < 4 := by
    have hlt := hp.1.1
    rwa [h.engine_configs] at hlt
  obtain ⟨hconn, hsock, hfd⟩ := hon
  obtain ⟨info, msg, hlook, hmsg, hclient, hflight⟩ := psi_inFlight h ⟨hconn, hsock, hfd⟩ hbr
  obtain ⟨hlisten, hnone⟩ := hprompt hb
  obtain ⟨hup, hdown⟩ := hnone _ (by rw [System.link_of_sock hsock]; rfl)
  have hquiet : System.Quiet d.system k info :=
    ⟨hconn, hlisten, c, fd, hsock, hfd, hlook, hup, hdown⟩
  have hempty : (d.system.link k).inFlight = [] := by
    rw [Link.inFlight, System.link_of_sock hsock]
    exact hdown
  have hsize : 0 < (d.system.link k).capacity → info.current_size_bytes.toNat ≤
      (d.system.link k).capacity *
        (d.system.link k).client.cache.estimated_entry_bytes.toNat := by
    intro hpos
    have hbytes := h.sound.entry_bytes k
    refine (hquiet.recorded_le h.sound).trans ?_
    rw [← hbytes]
    exact Nat.mul_le_mul_right _ ((h.sound.link k).bounded hpos)
  rw [h.engine_configs] at hfraction
  have hle := capacityAfter_shrink_le (hfraction ▸ (shrink_pct_bounds hnext).2.le) hmsg hsize
  rw [hfraction] at hle
  unfold Link.settledCapacity Link.capacity at *
  rw [hflight, hempty, hclient]
  exact hle

/-- The engine has climbed from tier `i` under `t` samples, and what is left of the capacity `s₀` at
that time is the part that the tiers on the way leave. -/
def Relieved (i t : ℕ) (s₀ : ℚ) (k : ClientId) (d : GovernorDaemon) : Prop :=
  ∃ n count, Climbing defaultConfigs i t n count d.engine ∧
    (d.system.link k).settledCapacity * remaining i ≤ s₀ * remaining (i + n)

/-- One step on the way up. -/
theorem relieved_step {i t : ℕ} {s₀ : ℚ} (h : Base configs d) (hi : i < 4)
    (hrel : Relieved i t s₀ k d) {e : DaemonEvent} (hst : step A d e = some (o, d'))
    (hon : OnLine k c fd d) (hon' : OnLine k c fd d') (hprompt : Prompt k d e)
    (hpush : ∀ data ∈ samples [e], Pushes defaultConfigs data) :
    Relieved i (t + (samples [e]).length) s₀ k d' := by
  obtain ⟨n, count, hclimb, hle⟩ := hrel
  cases e with
  | system e =>
    refine ⟨n, count, (step_of_system hst).1 ▸ hclimb, ?_⟩
    rw [(system_handles h hst hon hon').settledCapacity]
    exact hle
  | psi data =>
    have hdata : Pushes defaultConfigs data := hpush data (by simp [samples])
    obtain ⟨n', count', hclimb'⟩ := hclimb.step PolicyEngine.debounced_default hi hdata
    rw [← (step_psi hst).1] at hclimb'
    have htier := hclimb.tier
    have htier' := hclimb'.tier
    refine ⟨n', count', hclimb', ?_⟩
    obtain ⟨hp, hb, hnext, hfraction, hbr⟩ | ⟨-, hd, -⟩ | ⟨-, -, heng, hsame⟩ :=
      step_psi_cases hst
    · have hsucc : i + n' = i + n + 1 := by rw [← htier', hnext, htier]
      obtain rfl : n' = n + 1 := by omega
      have hnext' : d.engine.current_tier + 1 < 4 := by
        have hlt := hp.1.1
        rwa [h.engine_configs] at hlt
      have hpart := settledCapacity_prompt h hp hon hb hprompt hfraction hbr
      have hpos := (remaining_pos hi).le
      have hf := (shrink_pct_bounds hnext').2
      rw [htier] at hpart hf
      rw [← Nat.add_assoc, remaining, ← mul_assoc]
      generalize (PolicyEngine.config defaultConfigs (i + n + 1)).shrink_pct = f at *
      calc ((d'.system.link k).settledCapacity : ℚ) * remaining i
          ≤ (d.system.link k).settledCapacity * (1 - f) * remaining i := by gcongr
        _ = (d.system.link k).settledCapacity * remaining i * (1 - f) := by ring
        _ ≤ s₀ * remaining (i + n) * (1 - f) := by
          have hf' : 0 ≤ 1 - f := (sub_pos.2 hf).le
          gcongr
    · have hlt := h.pending.tier_lt
      have hdown := hd.1
      rw [h.engine_configs] at hdown hlt
      exact absurd hdown (hdata.not_down _ hlt)
    · rw [heng] at htier'
      obtain rfl : n' = n := Nat.add_left_cancel (htier'.symm.trans htier)
      rw [hsame]
      exact hle

/-- A whole run on the way up. -/
theorem relieved_run {i t : ℕ} {s₀ : ℚ} (h : Base configs d) (hi : i < 4)
    (hrel : Relieved i t s₀ k d) {es : List DaemonEvent} {os : List (Option Message)}
    (hrun : Machine.run (step A) d es = some (os, d'))
    (hon : Machine.Along (step A) (fun d _ => OnLine k c fd d) d es) (hon' : OnLine k c fd d')
    (hprompt : Machine.Along (step A) (Prompt k) d es)
    (hpush : ∀ data ∈ samples es, Pushes defaultConfigs data) :
    Relieved i (t + (samples es).length) s₀ k d' := by
  induction es generalizing d os t with
  | nil =>
    obtain ⟨-, rfl⟩ : [] = os ∧ d = d' := by simpa using hrun
    exact hrel
  | cons e es ih =>
    obtain ⟨o, d₁, os', hst, hrun₁, -⟩ := Machine.run_cons_eq_some.1 hrun
    have hon₁ : OnLine k c fd d₁ := Machine.along_head (hon.2 o d₁ hst) hon' hrun₁
    have hsplit : samples (e :: es) = samples [e] ++ samples es :=
      List.filterMap_append (l := [e])
    rw [hsplit, List.forall_mem_append] at hpush
    rw [hsplit, List.length_append, ← Nat.add_assoc]
    exact ih (step_base h hst) (relieved_step h hi hrel hst hon.1 hon₁ hprompt.1 hpush.1) hrun₁
      (hon.2 o d₁ hst) (hprompt.2 o d₁ hst) hpush.2

/-- Eight polls are enough for all of the tiers above any one. -/
theorem rung_eight {i t : ℕ} (hi : i < 4) (ht : 8 ≤ t) :
    rung (pollsUp defaultConfigs i) (3 - i) t = 3 - i := by
  have htotal : Ladder.total (pollsUp defaultConfigs i) (3 - i) ≤ 8 := by
    obtain rfl | rfl | rfl | rfl : i = 0 ∨ i = 1 ∨ i = 2 ∨ i = 3 := by omega
    all_goals decide
  exact le_antisymm (Nat.findGreatest_le _) (Nat.le_findGreatest le_rfl (htotal.trans ht))

/-- What the tiers leave together. -/
theorem remaining_critical : remaining PressureTier.CRITICAL = 27/80 := by
  norm_num [remaining, PressureTier.CRITICAL, PolicyEngine.config, defaultConfigs]

/-- Before any of the samples. -/
theorem relieved_start (h : Base configs d) :
    Relieved d.engine.current_tier d.engine.consecutive_promote_polls.toNat
      (d.system.link k).settledCapacity k d := by
  have hdeb : PolicyEngine.Debounced d.engine.configs := by
    rw [h.engine_configs]
    exact PolicyEngine.debounced_default
  -- No poll has been made, so the samples do not matter.
  have hnone : ∀ s < 0, Pushes d.engine.configs ((fun _ => {} : ℕ → PsiData) s) :=
    fun s hs => absurd hs (Nat.not_lt_zero s)
  obtain ⟨n, count, hclimb⟩ := PolicyEngine.before_climbing hdeb h.pending 0 hnone
  have hzero : n = 0 := Nat.left_eq_add.1 hclimb.tier
  rw [Nat.zero_add, h.engine_configs] at hclimb
  refine ⟨n, count, hclimb, ?_⟩
  rw [hzero, Nat.add_zero]

end Steps

/-- Eight polls at 40%. The client handles the commands, and the daemon reads its reports. -/
def climb : List DaemonEvent :=
  List.replicate 3 (.psi { some_avg10 := 40 }) ++
    [.system (.client 0 .deliver), .system (.receive 5)] ++
    List.replicate 3 (.psi { some_avg10 := 40 }) ++
    [.system (.client 0 .deliver), .system (.receive 5)] ++
    List.replicate 2 (.psi { some_avg10 := 40 }) ++ [.system (.client 0 .deliver)]

end GovernorDaemon

end MemoryGovernor
