import MemoryGovernor.Daemon.GovernorDaemon

/-!
# Growth

How far GROWs can raise a client's capacity. A capacity only becomes more than it was when the
client handles a GROW, and then it is the target, which the daemon computed from the size recorded
for the client: neither side compares it with the maximum that the cache was created with. So the
capacity stays within the maximum in a run whose GROWs find every client's recorded size low enough
(`capacity_le_max`), as a SHRINK of the client by the same fraction before would have made it. A
client that joins with a full cache while the pressure is high is grown without having been shrunk
(`capacity_gt_max_late_joiner`).
-/

namespace MemoryGovernor

namespace GovernorDaemon

/-- What bounds a client's capacity by `max`: it is no more, and no GROW sent on its socket asks for
more. -/
structure Within (max : ℕ) (l : Link) : Prop where
  capacity : l.client.cache.cache.capacity ≤ max
  sent : ∀ conn, l.conn = some conn → ∀ msg ∈ conn.down.sent, msg.type = .GROW →
    msg.target_bytes.toNat / l.client.cache.estimated_entry_bytes.toNat ≤ max

/-- A message leaves the capacity at most what it was or makes it the target of a GROW. -/
theorem processMessage_capacity {l l' : Link} {msg : Message}
    (h : l.processMessage msg = some l') :
    l'.client.cache.cache.capacity ≤ l.client.cache.cache.capacity ∨
      msg.type = .GROW ∧ l'.client.cache.cache.capacity =
        msg.target_bytes.toNat / l.client.cache.estimated_entry_bytes.toNat := by
  obtain rfl | ⟨n, l₁, hn, hl₁, rfl, hasks⟩ := Link.processMessage_cases h
  · exact .inl le_rfl
  have hcap : l₁.client.cache.cache.capacity = n := by
    rw [hl₁]
    exact SoundCache.resize_capacity _ n
  rw [Link.reportSize, Link.send_cache, hcap]
  obtain ⟨-, hlt⟩ | ⟨htype, -⟩ := hasks
  · exact .inl hlt.le
  · exact .inr ⟨htype, hn⟩

/-- A client by itself changes its capacity only as a message sent to it says. -/
theorem Within.step {A : LinkedHeap.Allocator} {l l' : Link} {e : ClientEvent} {o : Option Message}
    {max : ℕ} (h : Within max l) (hst : l.step A e = some (o, l')) :
    l'.client.cache.cache.capacity ≤ max := by
  obtain ⟨key, value, -, -, rfl⟩ | ⟨key, -, -, rfl⟩ | ⟨l₁, -, -, -, rfl, rfl⟩ |
    ⟨msg, conn, down, -, -, hconn, hrecv, hproc⟩ | ⟨-, -, rfl⟩ := Link.step_cases hst
  · exact (SoundCache.put_capacity _ A key value).trans_le h.capacity
  · exact (SoundCache.get_size_capacity _ key).2.trans_le h.capacity
  · exact (congrArg (fun g => g.cache.capacity) (Link.send_cache l _)).trans_le h.capacity
  · obtain hle | ⟨htype, heq⟩ := processMessage_capacity hproc
    · exact hle.trans h.capacity
    · rw [heq]
      exact h.sent conn hconn msg (Channel.mem_sent_of_receive? hrecv) htype
  · exact h.capacity

/-- A link step keeps the bound if no GROW that the daemon sends in it asks for more. -/
theorem Within.linkStep {A : LinkedHeap.Allocator} {k : ClientId} {P : Message → Prop} {l l' : Link}
    {max : ℕ} (h : Within max l) (hst : LinkStep A k P l l')
    (hP : ∀ msg, P msg → msg.type = .GROW →
      msg.target_bytes.toNat / l.client.cache.estimated_entry_bytes.toNat ≤ max) :
    Within max l' := by
  constructor
  · cases hst with
    | client hst => exact h.step hst
    | _ => exact h.capacity
  · intro conn' hconn' msg hmsg htype
    rw [hst.entry_bytes]
    -- What is on the connection was there before or is sent in this step.
    rcases hst.sent_down hconn' with hnil | ⟨-, conn, hconn, hdown⟩
    · rw [hnil] at hmsg
      exact nomatch hmsg
    · rcases hdown msg hmsg with hold | hnew
      · exact h.sent conn hconn msg hold htype
      · exact hP msg hnew htype

variable {A : ClientId → LinkedHeap.Allocator} {configs : ClientId → ClientConfig}

/-- A sample that makes the engine grow the caches finds, for every connection that is the socket of
the client that opened it, a recorded size that is, with the fraction added, below that of one entry
more than the client's maximum. -/
def GrowsWithin (configs : ClientId → ClientConfig) (d : GovernorDaemon) : DaemonEvent → Prop
  | .psi data => (d.engine.evaluate data).1.type = .grow →
      ∀ e ∈ d.system.registry.clients.entries, ∀ c ∈ d.system.fds e.1,
        let k := (d.system.conns c).peer
        (d.system.clients k).sock_fd = some c →
          (e.2.current_size_bytes.toNat : ℚ) * (1 + (d.engine.evaluate data).1.fraction) <
            ((configs k).max_capacity + 1) * (configs k).estimated_entry_bytes.toNat
  | .system _ => True

instance (d : GovernorDaemon) : (e : DaemonEvent) → Decidable (GrowsWithin configs d e)
  | .psi data =>
    inferInstanceAs (Decidable ((d.engine.evaluate data).1.type = .grow →
      ∀ e ∈ d.system.registry.clients.entries, ∀ c ∈ d.system.fds e.1,
        (d.system.clients (d.system.conns c).peer).sock_fd = some c →
          (e.2.current_size_bytes.toNat : ℚ) * (1 + (d.engine.evaluate data).1.fraction) <
            ((configs (d.system.conns c).peer).max_capacity + 1) *
              (configs (d.system.conns c).peer).estimated_entry_bytes.toNat))
  | .system _ => isTrue trivial

/-- The target of a GROW, in entries, is no more than `max` if the size that it is computed from is
low enough. -/
theorem grow_target_le {s fraction : ℚ} {max bytes : ℕ}
    (h : s * (1 + fraction) < (max + 1) * bytes) : ⌊s * (1 + fraction)⌋₊ / bytes ≤ max := by
  rcases Nat.eq_zero_or_pos bytes with rfl | hpos
  · simp
  · rw [← Nat.lt_succ_iff, Nat.div_lt_iff_lt_mul hpos]
    refine (Nat.floor_lt' (Nat.mul_pos (Nat.succ_pos max) hpos).ne').2 ?_
    push_cast
    exact h

/-- The state of a run: the system is sound and every client is within its maximum. -/
structure Bounded (configs : ClientId → ClientConfig) (d : GovernorDaemon) : Prop where
  sound : System.Sound configs d.system
  within : ∀ k, Within (configs k).max_capacity (d.system.link k)

theorem bounded_init (tier_configs : List TierConfig) (configs : ClientId → ClientConfig) :
    Bounded configs (init tier_configs configs) :=
  ⟨System.sound_init configs, fun _ => ⟨le_rfl, fun _ hconn => nomatch hconn⟩⟩

/-- Every step of the daemon that grows the caches as `GrowsWithin` asks keeps this. -/
theorem step_bounded {d d' : GovernorDaemon} {e : DaemonEvent} {o : Option Message}
    (h : Bounded configs d) (hgrow : GrowsWithin configs d e) (hst : step A d e = some (o, d')) :
    Bounded configs d' := by
  obtain hsame | ⟨e', o', hst', hevent⟩ := step_cases hst
  · exact ⟨hsame ▸ h.sound, hsame ▸ h.within⟩
  refine ⟨System.step_sound h.sound hst', fun k => ?_⟩
  refine (h.within k).linkStep (System.step_linkStep h.sound.wired hst' k) fun msg hmsg htype => ?_
  obtain ⟨cmd, fraction, c, fd, info, rfl, hs, hfd, hlook, hcmd⟩ := hmsg
  obtain ⟨t, ht, rfl⟩ := Option.map_eq_some_iff.1 hcmd
  obtain rfl : cmd = .grow := by
    cases cmd with
    | shrink => exact nomatch htype
    | grow => rfl
  obtain ⟨data, rfl, hgrows, rfl⟩ := hevent fraction rfl
  -- The sample's condition, at the entry that the GROW was computed from.
  have hlow := hgrow hgrows ⟨fd, info⟩ (AList.mem_lookup_iff.1 hlook) c hfd
  rw [h.sound.wired.sock_peer k c hs] at hlow
  rw [truncate_toNat ht]
  exact h.sound.entry_bytes k ▸ grow_target_le (hlow hs)

/-- In a run of the daemon, whatever the samples and the interleaving, whose GROWs find the recorded
sizes low enough, no client's capacity exceeds the maximum that its cache was created with. -/
theorem capacity_le_max {tier_configs : List TierConfig} {es : List DaemonEvent}
    {os : List (Option Message)} {d : GovernorDaemon}
    (hrun : Machine.run (step A) (init tier_configs configs) es = some (os, d))
    (hgrow : Machine.Along (step A) (GrowsWithin configs) (init tier_configs configs) es)
    (k : ClientId) : (d.system.clients k).cache.cache.capacity ≤ (configs k).max_capacity :=
  ((Machine.along_invariant (fun _ _ _ _ h hC hst => step_bounded h hC hst)
    (bounded_init tier_configs configs) hgrow hrun).within k).capacity

/-- A client that registers with two entries before the pressure comes is shrunk by 10% and then
grown by 10%. -/
theorem capacity_le_max_registered :
    let configs : ClientId → ClientConfig := fun _ => ⟨77, 2, 256⟩
    let elevated : DaemonEvent := .psi { some_avg10 := 6 }
    let normal : DaemonEvent := .psi { some_avg10 := 1 }
    let es : List DaemonEvent := [.system (.client 0 (.put "a" "1")),
      .system (.client 0 (.put "b" "2")), .system (.connect 0), .system (.client 0 .register),
      .system (.accept 5), .system (.receive 5), elevated, elevated, elevated,
      .system (.client 0 .deliver), .system (.receive 5), normal, normal, normal,
      .system (.client 0 .deliver)]
    let d₀ := init PolicyEngine.defaultConfigs configs
    let d := Machine.last (step fun _ => .above) d₀ es
    (∃ os, Machine.run (step fun _ => .above) d₀ es = some (os, d)) ∧
      Machine.Along (step fun _ => .above) (GrowsWithin configs) d₀ es ∧
      (d.system.clients 0).cache.cache.capacity ≤ 2 := by
  intro configs elevated normal es d₀ d
  obtain ⟨os, hrun⟩ : ∃ os, Machine.run (step fun _ => .above) d₀ es = some (os, d) :=
    Machine.exists_run_eq_last _ _ (by decide +kernel)
  have hgrow : Machine.Along (step fun _ => .above) (GrowsWithin configs) d₀ es := by
    decide +kernel
  exact ⟨⟨os, hrun⟩, hgrow, capacity_le_max hrun hgrow 0⟩

/-- A client with a full cache of two entries joins when the tier is `CRITICAL`. It is not shrunk,
but the demotion to `HIGH` grows it by half, to a capacity of three. -/
theorem capacity_gt_max_late_joiner :
    let configs : ClientId → ClientConfig := fun _ => ⟨77, 2, 256⟩
    let at10 (percent : ℚ) : DaemonEvent := .psi { some_avg10 := percent }
    let es : List DaemonEvent := [at10 6, at10 6, at10 6, at10 16, at10 16, at10 16, at10 31,
      at10 31, .system (.client 0 (.put "a" "1")), .system (.client 0 (.put "b" "2")),
      .system (.connect 0), .system (.client 0 .register), .system (.accept 5),
      .system (.receive 5), at10 10, at10 10, .system (.client 0 .deliver)]
    let d := Machine.last (step fun _ => .above) (init PolicyEngine.defaultConfigs configs) es
    (∃ os, Machine.run (step fun _ => .above) (init PolicyEngine.defaultConfigs configs) es =
        some (os, d)) ∧
      ¬ (d.system.clients 0).cache.cache.capacity ≤ (configs 0).max_capacity := by
  intro configs at10 es d
  exact ⟨Machine.exists_run_eq_last _ _ (by decide +kernel), by decide +kernel⟩

end GovernorDaemon

end MemoryGovernor
