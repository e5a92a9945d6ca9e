import Mathlib.Data.Nat.Cast.Order.Field
import MemoryGovernor.Daemon.GovernorDaemon
import MemoryGovernor.Policy.Hysteresis
import MemoryGovernor.System.InFlight

/-!
# Pressure cycles

What a walk of the engine over its tiers does to the capacity of a client that is connected
throughout and reports in time, so that every command is computed from its capacity. A SHRINK by `f`
multiplies the capacity by `1 - f` and a GROW by `1 + f`, both truncated, so the GROW that follows
the SHRINK of the same tier leaves at most `1 - f^2` of it. `Lowered` is the invariant that
accumulates this: at tier `i` the capacity is at most the part of the initial one that the tiers up
to `i` leave (`remaining`), and less as soon as one GROW has been sent (`lowered_step`).

So a cycle that leaves `NORMAL` at all, which the samples decide (`Calm`), never gives the capacity
back, unless there was none (`capacity_restored_iff`).
-/

namespace MemoryGovernor

open ClientRegistry (commandMessage)
open PolicyEngine (defaultConfigs)

namespace GovernorDaemon

/-- The samples among the events of a run. -/
def samples (es : List DaemonEvent) : List PsiData :=
  es.filterMap fun
    | .psi data => some data
    | .system _ => none

/-- The samples leave an engine at `NORMAL` that has counted `p` polls upwards: the polls that count
never make three in a row. -/
def Calm : ℤ → List PsiData → Prop
  | _, [] => True
  | p, data :: rest =>
    if 5 ≤ data.some_avg10 then p + 1 < 3 ∧ Calm (p + 1) rest else Calm 0 rest

instance decidableCalm : ∀ p data, Decidable (Calm p data)
  | _, [] => inferInstanceAs (Decidable True)
  | p, data :: rest =>
    have := decidableCalm (p + 1) rest
    have := decidableCalm 0 rest
    inferInstanceAs (Decidable
      (if 5 ≤ data.some_avg10 then p + 1 < 3 ∧ Calm (p + 1) rest else Calm 0 rest))

/-- Client `k` is connected through connection `c`, which is the daemon's descriptor `fd`. -/
def OnLine (k : ClientId) (c : ConnId) (fd : ℕ) (d : GovernorDaemon) : Prop :=
  (d.system.clients k).connected = true ∧ (d.system.clients k).sock_fd = some c ∧
    d.system.fds fd = some c

instance (k : ClientId) (c : ConnId) (fd : ℕ) (d : GovernorDaemon) : Decidable (OnLine k c fd d) :=
  inferInstanceAs (Decidable (_ ∧ _))

/-- The event makes the daemon broadcast. -/
def Broadcasts (d : GovernorDaemon) : DaemonEvent → Prop
  | .psi data => (d.engine.evaluate data).1.type ≠ .none
  | .system _ => False

instance (d : GovernorDaemon) : ∀ e, Decidable (Broadcasts d e)
  | .psi data => inferInstanceAs (Decidable ((d.engine.evaluate data).1.type ≠ .none))
  | .system _ => inferInstanceAs (Decidable False)

/-- At a broadcast the client's cache is full and the size recorded for it is its size. -/
def FullAndTold (k : ClientId) (fd : ℕ) (d : GovernorDaemon) (e : DaemonEvent) : Prop :=
  Broadcasts d e →
    (d.system.clients k).cache.cache.size = (d.system.clients k).cache.cache.capacity ∧
    ∀ info ∈ d.system.registry.clients.lookup fd, info.current_size_bytes.toNat =
      (d.system.clients k).cache.cache.size *
        (d.system.clients k).cache.estimated_entry_bytes.toNat

instance (k : ClientId) (fd : ℕ) (d : GovernorDaemon) (e : DaemonEvent) :
    Decidable (FullAndTold k fd d e) :=
  inferInstanceAs (Decidable (Broadcasts d e → _ ∧ ∀ info ∈ _, _))

/-- At a broadcast the client has handled every command before. -/
def Handled (k : ClientId) (d : GovernorDaemon) (e : DaemonEvent) : Prop :=
  Broadcasts d e → (d.system.link k).inFlight = []

instance (k : ClientId) (d : GovernorDaemon) (e : DaemonEvent) : Decidable (Handled k d e) :=
  inferInstanceAs (Decidable (Broadcasts d e → _ = []))

/-! ## Steps -/

/-- What holds of the daemon in every state of a run with the default tiers. -/
structure Base (configs : ClientId → ClientConfig) (d : GovernorDaemon) : Prop where
  sound : System.Sound configs d.system
  engine_configs : d.engine.configs = defaultConfigs
  pending : PolicyEngine.Pending d.engine

section Steps

variable {A : ClientId → LinkedHeap.Allocator} {configs : ClientId → ClientConfig}
  {d d' : GovernorDaemon} {o : Option Message} {k : ClientId} {c : ConnId} {fd : ℕ}

theorem base_init (configs : ClientId → ClientConfig) :
    Base configs (init defaultConfigs configs) :=
  ⟨System.sound_init configs, rfl,
    PolicyEngine.pending_of_moved PolicyEngine.debounced_default (by decide)⟩

/-- A sample either promotes the engine by one tier and is broadcast as a SHRINK by that tier's
fraction, or demotes it by one and is broadcast as a GROW by the fraction of the tier left, or
leaves tier and system alone. -/
theorem step_psi_cases {data : PsiData} (h : step A d (.psi data) = some (o, d')) :
    (PolicyEngine.Promotes d.engine data ∧ Broadcasts d (.psi data) ∧
      d'.engine.current_tier = d.engine.current_tier + 1 ∧
      (d.engine.evaluate data).1.fraction =
        (PolicyEngine.config d.engine.configs (d.engine.current_tier + 1)).shrink_pct ∧
      d.system.broadcast .shrink (d.engine.evaluate data).1.fraction = some d'.system) ∨
    (¬ PolicyEngine.Promotes d.engine data ∧ PolicyEngine.Demotes d.engine data ∧
      Broadcasts d (.psi data) ∧ d'.engine.current_tier = d.engine.current_tier - 1 ∧
      (d.engine.evaluate data).1.fraction =
        (PolicyEngine.config d.engine.configs d.engine.current_tier).shrink_pct ∧
      d.system.broadcast .grow (d.engine.evaluate data).1.fraction = some d'.system) ∨
    (¬ PolicyEngine.Promotes d.engine data ∧ ¬ PolicyEngine.Demotes d.engine data ∧
      d'.engine = ⟨d.engine.configs, d.engine.current_tier,
        PolicyEngine.promotePollsAfter d.engine data,
        PolicyEngine.demotePollsAfter d.engine data⟩ ∧ d'.system = d.system) := by
  obtain ⟨heng, hsys⟩ := step_psi h
  obtain ⟨hp, heq⟩ | ⟨hp, hd, heq⟩ | ⟨hp, hd, heq⟩ :=
    PolicyEngine.evaluate_cases d.engine data
  · rw [heq] at heng
    have htype : (d.engine.evaluate data).1.type = .shrink := by rw [heq]
    obtain ⟨hnone, -⟩ | ⟨cmd, hbr, hcmd⟩ := hsys
    · exact nomatch htype.symm.trans hnone
    · obtain rfl : cmd = .shrink := by
        cases cmd with
        | shrink => rfl
        | grow => exact nomatch htype.symm.trans hcmd
      exact .inl ⟨hp, by rw [Broadcasts, htype]; decide, by rw [heng], by rw [heq], hbr⟩
  · rw [heq] at heng
    have htype : (d.engine.evaluate data).1.type = .grow := by rw [heq]
    obtain ⟨hnone, -⟩ | ⟨cmd, hbr, hcmd⟩ := hsys
    · exact nomatch htype.symm.trans hnone
    · obtain rfl : cmd = .grow := by
        cases cmd with
        | shrink => exact nomatch htype.symm.trans hcmd
        | grow => rfl
      exact .inr (.inl ⟨hp, hd, by rw [Broadcasts, htype]; decide, by rw [heng], by rw [heq],
        hbr⟩)
  · rw [heq] at heng
    have htype : (d.engine.evaluate data).1.type = .none := by rw [heq]
    obtain ⟨-, hsame⟩ | ⟨cmd, -, hcmd⟩ := hsys
    · exact .inr (.inr ⟨hp, hd, heng, hsame⟩)
    · cases cmd <;> exact nomatch htype.symm.trans hcmd

theorem step_base (h : Base configs d) {e : DaemonEvent} (hst : step A d e = some (o, d')) :
    Base configs d' := by
  have hsound : System.Sound configs d'.system := by
    obtain hsame | ⟨e', o', hst', -⟩ := step_cases hst
    · exact hsame ▸ h.sound
    · exact System.step_sound h.sound hst'
  cases e with
  | psi data =>
    obtain ⟨heng, -⟩ := step_psi hst
    have hdeb : PolicyEngine.Debounced d.engine.configs := by
      rw [h.engine_configs]
      exact PolicyEngine.debounced_default
    refine ⟨hsound, ?_, ?_⟩
    · rw [heng, PolicyEngine.evaluate_configs, h.engine_configs]
    · rw [heng]
      exact PolicyEngine.evaluate_pending hdeb h.pending data
  | system e =>
    obtain ⟨heng, -, -⟩ := step_of_system hst
    exact ⟨hsound, heng ▸ h.engine_configs, heng ▸ h.pending⟩

/-- A step of the system that keeps the client on line handles the first command in flight, or
none. -/
theorem system_handles (h : Base configs d) {e : Event}
    (hst : step A d (.system e) = some (o, d')) (hon : OnLine k c fd d) (hon' : OnLine k c fd d') :
    (d.system.link k).Handles (d'.system.link k) := by
  obtain ⟨-, hsys, hb⟩ := step_of_system hst
  exact System.step_handles h.sound.wired hsys hb hon.2.1 hon'.2.1

/-! ## Commands computed from the capacity -/

/-- The target, in entries, computed from the size of `n` entries. -/
theorem target_entries_le {n e : ℕ} {x : ℚ} (hx : 0 ≤ x) :
    ((⌊((n * e : ℕ) : ℚ) * x⌋₊ / e : ℕ) : ℚ) ≤ n * x := by
  have hsize : 0 ≤ ((n * e : ℕ) : ℚ) * x := mul_nonneg (Nat.cast_nonneg _) hx
  have hnx : 0 ≤ (n : ℚ) * x := mul_nonneg (Nat.cast_nonneg n) hx
  calc ((⌊((n * e : ℕ) : ℚ) * x⌋₊ / e : ℕ) : ℚ)
      ≤ (⌊((n * e : ℕ) : ℚ) * x⌋₊ : ℚ) / e := Nat.cast_div_le
    _ ≤ ((n * e : ℕ) : ℚ) * x / e := by
      gcongr
      exact Nat.floor_le hsize
    _ ≤ n * x := by
      rcases Nat.eq_zero_or_pos e with rfl | he
      · simpa using hnx
      · have he' : (e : ℚ) ≠ 0 := by exact_mod_cast he.ne'
        push_cast
        field_simp
        exact le_rfl

/-- Where the size recorded is that of the capacity, the command leaves at most its factor of it. -/
theorem capacityAfter_le {cmd : Command} {fraction : ℚ} {info : ClientInfo} {msg : Message}
    {entry_bytes : UInt64} {capacity : ℕ} (hfactor : 0 ≤ cmd.factor fraction)
    (hgrow : cmd = .grow → 0 ≤ fraction) (hmsg : commandMessage cmd fraction info = some msg)
    (hsize : info.current_size_bytes.toNat = capacity * entry_bytes.toNat) :
    (Link.capacityAfter entry_bytes capacity msg : ℚ) ≤ capacity * cmd.factor fraction := by
  obtain ⟨t, ht, rfl⟩ := Option.map_eq_some_iff.1 hmsg
  have htarget : ((t.toNat / entry_bytes.toNat : ℕ) : ℚ) ≤ capacity * cmd.factor fraction := by
    rw [truncate_toNat ht, hsize]
    exact target_entries_le hfactor
  by_cases happ : cmd.type = .SHRINK ∧ t.toNat / entry_bytes.toNat < capacity ∨
    cmd.type = .GROW ∧ capacity < t.toNat / entry_bytes.toNat
  · rw [Link.capacityAfter_applied happ]
    exact htarget
  · rw [Link.capacityAfter_ignored happ]
    -- A SHRINK is ignored at a target that is no less, and a GROW leaves the capacity at least.
    cases cmd with
    | shrink =>
      have hle : capacity ≤ t.toNat / entry_bytes.toNat :=
        not_lt.1 fun hlt => happ (.inl ⟨rfl, hlt⟩)
      exact le_trans (by exact_mod_cast hle) htarget
    | grow =>
      have hfraction := hgrow rfl
      have hcap : (0 : ℚ) ≤ capacity := Nat.cast_nonneg capacity
      simp only [Command.factor]
      nlinarith

/-- A capacity of zero stays zero under a command computed from a size of zero. -/
theorem capacityAfter_zero {cmd : Command} {fraction : ℚ} {info : ClientInfo} {msg : Message}
    (entry_bytes : UInt64) (hmsg : commandMessage cmd fraction info = some msg)
    (hsize : info.current_size_bytes.toNat = 0) :
    Link.capacityAfter entry_bytes 0 msg = 0 := by
  obtain ⟨t, ht, rfl⟩ := Option.map_eq_some_iff.1 hmsg
  have htarget : t.toNat = 0 := by
    rw [truncate_toNat ht, hsize]
    simp
  simp [Link.capacityAfter, htarget]

end Steps

/-! ## The part of a capacity that a walk leaves -/

/-- The part of the initial capacity that the SHRINKs into the tiers up to `i` leave, before
truncation. -/
def remaining : ℕ → ℚ
  | 0 => 1
  | i + 1 => remaining i * (1 - (PolicyEngine.config defaultConfigs (i + 1)).shrink_pct)

/-- Every tier above `NORMAL` shrinks by a fraction between zero and one. -/
theorem shrink_pct_bounds {i : ℕ} (hi : i + 1 < 4) :
    0 < (PolicyEngine.config defaultConfigs (i + 1)).shrink_pct ∧
      (PolicyEngine.config defaultConfigs (i + 1)).shrink_pct < 1 := by
  obtain rfl | rfl | rfl : i = 0 ∨ i = 1 ∨ i = 2 := by omega
  all_goals norm_num [PolicyEngine.config, defaultConfigs]

theorem remaining_pos {i : ℕ} (hi : i < 4) : 0 < remaining i := by
  induction i with
  | zero => exact one_pos
  | succ i ih => exact mul_pos (ih (by omega)) (sub_pos.2 (shrink_pct_bounds hi).2)

section Parts

variable {s s' capacity : ℚ} {i : ℕ}

theorem shrink_part_le (hf : (PolicyEngine.config defaultConfigs (i + 1)).shrink_pct < 1)
    (hs : s' ≤ s * (1 - (PolicyEngine.config defaultConfigs (i + 1)).shrink_pct))
    (h : s ≤ capacity * remaining i) : s' ≤ capacity * remaining (i + 1) := by
  rw [remaining, ← mul_assoc]
  exact hs.trans (mul_le_mul_of_nonneg_right h (sub_pos.2 hf).le)

theorem shrink_part_lt (hf : (PolicyEngine.config defaultConfigs (i + 1)).shrink_pct < 1)
    (hs : s' ≤ s * (1 - (PolicyEngine.config defaultConfigs (i + 1)).shrink_pct))
    (h : s < capacity * remaining i) : s' < capacity * remaining (i + 1) := by
  rw [remaining, ← mul_assoc]
  exact hs.trans_lt (mul_lt_mul_of_pos_right h (sub_pos.2 hf))

/-- Growing by the fraction that was taken leaves less than there was. -/
theorem grow_part_lt (hf : 0 < (PolicyEngine.config defaultConfigs (i + 1)).shrink_pct)
    (hpos : 0 < capacity * remaining i)
    (hs : s' ≤ s * (1 + (PolicyEngine.config defaultConfigs (i + 1)).shrink_pct))
    (h : s ≤ capacity * remaining (i + 1)) : s' < capacity * remaining i := by
  rw [remaining, ← mul_assoc] at h
  generalize (PolicyEngine.config defaultConfigs (i + 1)).shrink_pct = f at *
  calc s' ≤ s * (1 + f) := hs
    _ ≤ capacity * remaining i * (1 - f) * (1 + f) := by gcongr
    _ = capacity * remaining i * (1 - f ^ 2) := by ring
    _ < capacity * remaining i := mul_lt_of_lt_one_right hpos (by nlinarith)

end Parts

/-- At tier `i`, the settled capacity has lost what the SHRINKs up to `i` take from `capacity`, and
something more unless there has been no GROW. -/
def Lowered (capacity : ℕ) (i : ℕ) (l : Link) : Prop :=
  l.settledCapacity < capacity * remaining i ∨
    l.settledCapacity ≤ capacity * remaining i ∧ 0 < i

/-- A capacity of zero, under whatever is in flight. -/
def Dead (l : Link) : Prop :=
  l.capacity = 0 ∧ ∀ msg ∈ l.inFlight,
    Link.capacityAfter l.client.cache.estimated_entry_bytes 0 msg = 0

theorem Dead.handles {l l' : Link} (h : Dead l) (hst : l.Handles l') : Dead l' := by
  obtain ⟨hcap, hall⟩ := h
  obtain ⟨hbytes, ⟨hflight, hcap'⟩ | ⟨msg, hflight, hcap'⟩⟩ := hst
  · exact ⟨hcap'.trans hcap, fun msg hmsg => by rw [hbytes]; exact hall msg (hflight ▸ hmsg)⟩
  · rw [hflight, List.forall_mem_cons] at hall
    refine ⟨?_, fun msg hmsg => by rw [hbytes]; exact hall.2 msg hmsg⟩
    rw [hcap', hcap]
    exact hall.1

section Walk

variable {A : ClientId → LinkedHeap.Allocator} {configs : ClientId → ClientConfig}
  {d d' : GovernorDaemon} {o : Option Message} {k : ClientId} {c : ConnId} {fd : ℕ}
  {capacity : ℕ}

/-- What a broadcast adds to the commands in flight to a client that is on line. -/
theorem psi_inFlight (h : Base configs d) {data : PsiData} {cmd : Command} (hon : OnLine k c fd d)
    (hst : d.system.broadcast cmd (d.engine.evaluate data).1.fraction = some d'.system) :
    ∃ info msg, d.system.registry.clients.lookup fd = some info ∧
      commandMessage cmd (d.engine.evaluate data).1.fraction info = some msg ∧
      (d'.system.link k).client = (d.system.link k).client ∧
      (d'.system.link k).inFlight = (d.system.link k).inFlight ++ [msg] :=
  System.broadcast_inFlight h.sound hst hon.1 hon.2.1 hon.2.2

/-- Every step keeps a capacity of zero, if broadcasts find the cache full and its size recorded. -/
theorem dead_step (h : Base configs d ∧ Dead (d.system.link k)) {e : DaemonEvent}
    (hst : step A d e = some (o, d')) (hon : OnLine k c fd d) (hon' : OnLine k c fd d')
    (hfull : FullAndTold k fd d e) : Base configs d' ∧ Dead (d'.system.link k) := by
  obtain ⟨hbase, hdead⟩ := h
  refine ⟨step_base hbase hst, ?_⟩
  cases e with
  | system e => exact hdead.handles (system_handles hbase hst hon hon')
  | psi data =>
    obtain ⟨-, ⟨-, hsame⟩ | ⟨cmd, hbr, htype⟩⟩ := step_psi hst
    · rw [hsame]
      exact hdead
    · have hb : Broadcasts d (.psi data) := by
        rw [Broadcasts, htype]
        cases cmd <;> decide
      obtain ⟨info, msg, hlook, hmsg, hclient, hflight⟩ := psi_inFlight hbase hon hbr
      obtain ⟨hsize, htold⟩ := hfull hb
      have hcap : (d.system.clients k).cache.cache.capacity = 0 := hdead.1
      have hzero : info.current_size_bytes.toNat = 0 := by
        rw [htold info hlook, hsize, hcap, Nat.zero_mul]
      unfold Dead Link.capacity
      rw [hclient, hflight]
      refine ⟨hcap, fun msg' hmsg' => ?_⟩
      rcases List.mem_append.1 hmsg' with hold | hnew
      · exact hdead.2 msg' hold
      · rw [List.mem_singleton.1 hnew]
        exact capacityAfter_zero _ hmsg hzero

/-- What a broadcast that finds the cache full, its size recorded and its commands handled makes of
the capacity. -/
theorem settledCapacity_broadcast (h : Base configs d) {data : PsiData} {cmd : Command}
    (hon : OnLine k c fd d)
    (hbr : d.system.broadcast cmd (d.engine.evaluate data).1.fraction = some d'.system)
    (hb : Broadcasts d (.psi data)) (hfull : FullAndTold k fd d (.psi data))
    (hhandled : Handled k d (.psi data))
    (hfactor : 0 ≤ cmd.factor (d.engine.evaluate data).1.fraction)
    (hgrow : cmd = .grow → 0 ≤ (d.engine.evaluate data).1.fraction) :
    ((d'.system.link k).settledCapacity : ℚ) ≤
      (d.system.link k).settledCapacity * cmd.factor (d.engine.evaluate data).1.fraction := by
  obtain ⟨info, msg, hlook, hmsg, hclient, hflight⟩ := psi_inFlight h hon hbr
  obtain ⟨hsize, htold⟩ := hfull hb
  have hempty := hhandled hb
  have hinfo : info.current_size_bytes.toNat = (d.system.link k).capacity *
      (d.system.link k).client.cache.estimated_entry_bytes.toNat := by
    rw [htold info hlook, hsize]
    rfl
  have hle := capacityAfter_le hfactor hgrow hmsg hinfo
  unfold Link.settledCapacity Link.capacity at *
  rw [hflight, hempty, hclient]
  exact hle

/-- What a promotion makes of the capacity. -/
theorem settledCapacity_promotes (h : Base configs d) {data : PsiData}
    (hp : PolicyEngine.Promotes d.engine data) (hon : OnLine k c fd d)
    (hb : Broadcasts d (.psi data)) (hfull : FullAndTold k fd d (.psi data))
    (hhandled : Handled k d (.psi data))
    (hfraction : (d.engine.evaluate data).1.fraction =
      (PolicyEngine.config d.engine.configs (d.engine.current_tier + 1)).shrink_pct)
    (hbr : d.system.broadcast .shrink (d.engine.evaluate data).1.fraction = some d'.system) :
    (PolicyEngine.config defaultConfigs (d.engine.current_tier + 1)).shrink_pct < 1 ∧
      ((d'.system.link k).settledCapacity : ℚ) ≤ (d.system.link k).settledCapacity *
        (1 - (PolicyEngine.config defaultConfigs (d.engine.current_tier + 1)).shrink_pct) := by
  have hnext : d.engine.current_tier + 1 < 4 := by
    have hlt := hp.1.1
    rwa [h.engine_configs] at hlt
  have hf1 := (shrink_pct_bounds hnext).2
  rw [h.engine_configs] at hfraction
  have hle := settledCapacity_broadcast h hon hbr hb hfull hhandled
    (by rw [hfraction]; exact (sub_pos.2 hf1).le) nofun
  rw [hfraction] at hle
  exact ⟨hf1, hle⟩

/-- At tier `i` a SHRINK takes the next tier's part, and at tier `i + 1` a GROW gives back less than
was taken. -/
theorem lowered_step (hpos : 0 < capacity)
    (h : Base configs d ∧ Lowered capacity d.engine.current_tier (d.system.link k))
    {e : DaemonEvent} (hst : step A d e = some (o, d')) (hon : OnLine k c fd d)
    (hon' : OnLine k c fd d') (hfull : FullAndTold k fd d e) (hhandled : Handled k d e) :
    Base configs d' ∧ Lowered capacity d'.engine.current_tier (d'.system.link k) := by
  obtain ⟨hbase, hlow⟩ := h
  refine ⟨step_base hbase hst, ?_⟩
  have hcap : (0 : ℚ) < capacity := by exact_mod_cast hpos
  cases e with
  | system e =>
    have heng := (step_of_system hst).1
    rw [Lowered, (system_handles hbase hst hon hon').settledCapacity, heng]
    exact hlow
  | psi data =>
    have hconf := hbase.engine_configs
    have hlt := hbase.pending.tier_lt
    unfold Lowered at hlow ⊢
    obtain ⟨hp, hb, htier, hfraction, hbr⟩ | ⟨-, hd, hb, htier, hfraction, hbr⟩ |
      ⟨-, -, heng, hsame⟩ := step_psi_cases hst
    · -- The next tier takes its part of what is left.
      obtain ⟨hf1, hle⟩ :=
        settledCapacity_promotes hbase hp hon hb hfull hhandled hfraction hbr
      rw [htier]
      rcases hlow with hless | ⟨hmost, -⟩
      · exact .inl (shrink_part_lt hf1 hle hless)
      · exact .inr ⟨shrink_part_le hf1 hle hmost, Nat.succ_pos _⟩
    · -- The GROW undoes less than the SHRINK into this tier took.
      obtain ⟨j, hj⟩ : ∃ j : ℕ, d.engine.current_tier = j + 1 :=
        Nat.exists_eq_add_one_of_ne_zero hd.1.1.ne'
      rw [hj, hconf] at hlt hfraction
      have hnext : j + 1 < 4 := hlt
      obtain ⟨hf0, hf1⟩ := shrink_pct_bounds hnext
      have hle := settledCapacity_broadcast hbase hon hbr hb hfull hhandled
        (by rw [hfraction]; exact (add_pos one_pos hf0).le) fun _ => hfraction ▸ hf0.le
      rw [hfraction] at hle
      rw [htier, hj]
      rw [hj] at hlow
      refine .inl (grow_part_lt hf0 (mul_pos hcap (remaining_pos (Nat.lt_of_succ_lt hnext))) hle ?_)
      rcases hlow with hless | ⟨hmost, -⟩
      · exact hless.le
      · exact hmost
    · rw [hsame, heng]
      exact hlow

/-- At `NORMAL` the samples are calm if the first one does not promote and the rest is calm. -/
theorem calm_cons {e : PolicyEngine} (hconf : e.configs = defaultConfigs)
    (htier : e.current_tier = 0) (data : PsiData) (rest : List PsiData) :
    Calm e.consecutive_promote_polls (data :: rest) ↔ ¬ PolicyEngine.Promotes e data ∧
      Calm (PolicyEngine.promotePollsAfter e data) rest := by
  obtain ⟨configs, tier, p, d⟩ := e
  obtain rfl : configs = defaultConfigs := hconf
  obtain rfl : tier = 0 := htier
  have hdown : ¬ PolicyEngine.Down defaultConfigs 0 data := fun h => (lt_irrefl 0) h.1
  have hnext : 0 + 1 < defaultConfigs.length := by decide
  have hprom : PolicyEngine.Promotes ⟨defaultConfigs, 0, p, d⟩ data ↔
    PolicyEngine.Up defaultConfigs 0 data ∧ 3 ≤ p + 1 := Iff.rfl
  rw [hprom, Calm, PolicyEngine.promotePollsAfter, PolicyEngine.promotePollsBefore, if_neg hdown]
  by_cases hup : PolicyEngine.Up defaultConfigs 0 data
  · rw [if_pos (PolicyEngine.up_normal.1 hup), if_pos hup, and_iff_right hup, not_le]
  · rw [if_neg (mt PolicyEngine.up_normal.2 hup), if_neg hup, if_pos hnext]
    exact (and_iff_right fun h => hup h.1).symm

/-- A run that starts at `NORMAL`. While the samples are calm nothing is broadcast, and once they
are not, a positive capacity has been lowered. -/
theorem run_from_normal {es : List DaemonEvent} {os : List (Option Message)}
    (hbase : Base configs d) (htier : d.engine.current_tier = 0)
    (hset : (d.system.link k).settledCapacity = capacity)
    (hrun : Machine.run (step A) d es = some (os, d'))
    (hon : Machine.Along (step A) (fun d _ => OnLine k c fd d) d es) (hon' : OnLine k c fd d')
    (hfull : Machine.Along (step A) (FullAndTold k fd) d es) :
    (Calm d.engine.consecutive_promote_polls (samples es) →
      (d'.system.link k).settledCapacity = capacity) ∧
    (0 < capacity → Machine.Along (step A) (Handled k) d es →
      ¬ Calm d.engine.consecutive_promote_polls (samples es) →
      Lowered capacity d'.engine.current_tier (d'.system.link k)) := by
  induction es generalizing d os with
  | nil =>
    obtain ⟨-, rfl⟩ : [] = os ∧ d = d' := by simpa using hrun
    exact ⟨fun _ => hset, fun _ _ hnot => absurd trivial hnot⟩
  | cons e es ih =>
    obtain ⟨o, d₁, os', hst, hrun₁, -⟩ := Machine.run_cons_eq_some.1 hrun
    have hbase₁ := step_base hbase hst
    have hon₁ : OnLine k c fd d₁ := Machine.along_head (hon.2 o d₁ hst) hon' hrun₁
    cases e with
    | system e =>
      have heng := (step_of_system hst).1
      have hset₁ := (system_handles hbase hst hon.1 hon₁).settledCapacity.trans hset
      obtain ⟨hcalm, hlow⟩ := ih hbase₁ (heng ▸ htier) hset₁ hrun₁ (hon.2 o d₁ hst)
        (hfull.2 o d₁ hst)
      rw [heng] at hcalm hlow
      exact ⟨hcalm, fun hpos hhandled hnot => hlow hpos (hhandled.2 o d₁ hst) hnot⟩
    | psi data =>
      rw [show samples (.psi data :: es) = data :: samples es from rfl,
        calm_cons hbase.engine_configs htier]
      obtain ⟨hp, hb, htier₁, hfraction, hbr⟩ | ⟨-, hd, -⟩ | ⟨hp, -, heng, hsame⟩ :=
        step_psi_cases hst
      · -- The engine leaves `NORMAL`, and what follows is the walk.
        refine ⟨fun h => absurd hp h.1, fun hpos hhandled _ => ?_⟩
        obtain ⟨hf1, hle⟩ :=
          settledCapacity_promotes hbase hp hon.1 hb hfull.1 hhandled.1 hfraction hbr
        have hlow₁ : Lowered capacity d₁.engine.current_tier (d₁.system.link k) := by
          rw [htier₁]
          refine .inr ⟨shrink_part_le hf1 hle ?_, Nat.succ_pos _⟩
          rw [htier, hset, remaining, mul_one]
        have hC := (hfull.2 o d₁ hst).and (hhandled.2 o d₁ hst)
        exact (Machine.along_invariant_states (fun _ _ _ _ h hP hP' hC hst =>
          lowered_step hpos h hst hP hP' hC.1 hC.2) ⟨hbase₁, hlow₁⟩ hC (hon.2 o d₁ hst) hon'
          hrun₁).2
      · have hpos : 0 < d.engine.current_tier := hd.1.1
        exact absurd htier hpos.ne'
      · have hset₁ : (d₁.system.link k).settledCapacity = capacity := by rw [hsame, hset]
        have htier₁ : d₁.engine.current_tier = 0 := by rw [heng]; exact htier
        obtain ⟨hcalm, hlow⟩ := ih hbase₁ htier₁ hset₁ hrun₁ (hon.2 o d₁ hst) (hfull.2 o d₁ hst)
        rw [heng] at hcalm hlow
        exact ⟨fun h => hcalm h.2, fun hpos hhandled hnot => hlow hpos (hhandled.2 o d₁ hst)
          fun h => hnot ⟨hp, h⟩⟩

/-- A run of the daemon from any state that it reaches with the engine at `NORMAL` to one with the
engine at `NORMAL`, whatever the samples and the interleaving, with a client on line throughout that
has nothing in flight at either end and whose cache every broadcast finds full and its size
recorded. Its capacity is the same at the end if it was zero or the samples never took the engine
off `NORMAL`. If every broadcast also finds the commands before it handled, it is the same only
then. -/
theorem capacity_restored_iff {es₀ es : List DaemonEvent} {os₀ os : List (Option Message)}
    (hreach : Machine.run (step A) (init defaultConfigs configs) es₀ = some (os₀, d))
    (hrun : Machine.run (step A) d es = some (os, d'))
    (hnormal : d.engine.current_tier = PressureTier.NORMAL)
    (hnormal' : d'.engine.current_tier = PressureTier.NORMAL)
    (hon : Machine.Along (step A) (fun d _ => OnLine k c fd d) d es) (hon' : OnLine k c fd d')
    (hquiet : (d.system.link k).inFlight = []) (hquiet' : (d'.system.link k).inFlight = [])
    (hfull : Machine.Along (step A) (FullAndTold k fd) d es) :
    let before := (d.system.clients k).cache.cache.capacity
    let after := (d'.system.clients k).cache.cache.capacity
    let restorable := before = 0 ∨ Calm d.engine.consecutive_promote_polls (samples es)
    (restorable → after = before) ∧
      (Machine.Along (step A) (Handled k) d es → (after = before ↔ restorable)) := by
  intro before after restorable
  have hbase : Base configs d :=
    Machine.run_invariant (fun _ _ _ _ h hst => step_base h hst) (base_init configs) hreach
  -- With nothing in flight the settled capacity is the capacity.
  have hset : (d.system.link k).settledCapacity = before := by
    rw [Link.settledCapacity, hquiet]
    rfl
  have hset' : (d'.system.link k).settledCapacity = after := by
    rw [Link.settledCapacity, hquiet']
    rfl
  obtain ⟨hcalm, hlow⟩ := run_from_normal hbase hnormal hset hrun hon hon' hfull
  have hrestored : restorable → after = before := by
    rintro (hzero | hc)
    · have hdead : Dead (d.system.link k) := ⟨hzero, by simp [hquiet]⟩
      have hdead' := (Machine.along_invariant_states (fun _ _ _ _ h hP hP' hC hst =>
        dead_step h hst hP hP' hC) ⟨hbase, hdead⟩ hfull hon hon' hrun).2
      exact hdead'.1.trans hzero.symm
    · exact hset'.symm.trans (hcalm hc)
  refine ⟨hrestored, fun hhandled => ⟨fun heq => ?_, hrestored⟩⟩
  by_contra hnot
  obtain ⟨hpos, hc⟩ := not_or.1 hnot
  have hlow' := hlow (Nat.pos_of_ne_zero hpos) hhandled hc
  -- Back at `NORMAL` after a GROW, the capacity is less than it was.
  have hone : remaining PressureTier.NORMAL = 1 := rfl
  rw [hnormal'] at hlow'
  rw [Lowered, hset', heq, hone, mul_one] at hlow'
  rcases hlow' with hless | ⟨-, hlt⟩
  · exact lt_irrefl _ hless
  · exact absurd hlt (lt_irrefl 0)

end Walk

/-- A client with a full cache of two entries that has registered. -/
def registered : List DaemonEvent :=
  [.system (.client 0 (.put "a" "1")), .system (.client 0 (.put "b" "2")), .system (.connect 0),
    .system (.client 0 .register), .system (.accept 5), .system (.receive 5)]

/-- Two polls at 6% and one at 1% are calm: the client keeps its capacity of two entries. -/
theorem capacity_restored_iff_calm :
    let configs : ClientId → ClientConfig := fun _ => ⟨77, 2, 256⟩
    let es : List DaemonEvent :=
      [.psi { some_avg10 := 6 }, .psi { some_avg10 := 6 }, .psi { some_avg10 := 1 }]
    let d := Machine.last (step fun _ => .above) (init defaultConfigs configs) registered
    let d' := Machine.last (step fun _ => .above) d es
    (∃ os, Machine.run (step fun _ => .above) d es = some (os, d')) ∧
      Machine.Along (step fun _ => .above) (Handled 0) d es ∧
      Calm d.engine.consecutive_promote_polls (samples es) ∧
      (d'.system.clients 0).cache.cache.capacity = (d.system.clients 0).cache.cache.capacity := by
  intro configs es d d'
  obtain ⟨os₀, hreach⟩ :
      ∃ os, Machine.run (step fun _ => .above) (init defaultConfigs configs) registered =
        some (os, d) := Machine.exists_run_eq_last _ _ (by decide +kernel)
  obtain ⟨os, hrun⟩ : ∃ os, Machine.run (step fun _ => .above) d es = some (os, d') :=
    Machine.exists_run_eq_last _ _ (by decide +kernel)
  have hon : Machine.Along (step fun _ => .above) (fun d _ => OnLine 0 0 5 d) d es := by
    decide +kernel
  have hcalm : Calm d.engine.consecutive_promote_polls (samples es) := by decide +kernel
  have hboth := capacity_restored_iff hreach hrun (by decide +kernel) (by decide +kernel) hon
    (by decide +kernel) (by decide +kernel) (by decide +kernel) (by decide +kernel)
  exact ⟨⟨os, hrun⟩, by decide +kernel, hcalm, hboth.1 (.inr hcalm)⟩

/-- The pressure goes up to `ELEVATED` and back. The client handles both commands and reports. -/
def elevatedCycle : List DaemonEvent :=
  [.psi { some_avg10 := 6 }, .psi { some_avg10 := 6 }, .psi { some_avg10 := 6 },
    .system (.client 0 .deliver), .system (.receive 5),
    .psi { some_avg10 := 1 }, .psi { some_avg10 := 1 }, .psi { some_avg10 := 1 },
    .system (.client 0 .deliver)]

/-- The SHRINK by 10% leaves one of the two entries, and the GROW by 10% none more: the capacity
before is not restored. -/
theorem capacity_not_restored :
    let configs : ClientId → ClientConfig := fun _ => ⟨77, 2, 256⟩
    let d := Machine.last (step fun _ => .above) (init defaultConfigs configs) registered
    let d' := Machine.last (step fun _ => .above) d elevatedCycle
    (∃ os, Machine.run (step fun _ => .above) (init defaultConfigs configs) registered =
        some (os, d)) ∧
      (∃ os, Machine.run (step fun _ => .above) d elevatedCycle = some (os, d')) ∧
      d.engine.current_tier = PressureTier.NORMAL ∧
      d'.engine.current_tier = PressureTier.NORMAL ∧
      Machine.Along (step fun _ => .above) (fun d _ => OnLine 0 0 5 d) d elevatedCycle ∧
      OnLine 0 0 5 d' ∧ (d.system.link 0).inFlight = [] ∧ (d'.system.link 0).inFlight = [] ∧
      Machine.Along (step fun _ => .above) (FullAndTold 0 5) d elevatedCycle ∧
      ¬ (d'.system.clients 0).cache.cache.capacity =
        (d.system.clients 0).cache.cache.capacity := by
  intro configs d d'
  exact ⟨Machine.exists_run_eq_last _ _ (by decide +kernel),
    Machine.exists_run_eq_last _ _ (by decide +kernel), by decide +kernel, by decide +kernel,
    by decide +kernel, by decide +kernel, by decide +kernel, by decide +kernel, by decide +kernel,
    by decide +kernel⟩

end GovernorDaemon

end MemoryGovernor
