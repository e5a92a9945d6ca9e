import MemoryGovernor.System.InFlight

/-!
# A client that registers empty

`put` reports nothing, so the daemon goes on with the size that `start` registered. A client that
calls `start` with an empty cache, as the workload driver `src/cache_app/main.cpp` does, has
registered 0, and every command is computed from that: its target is 0. A SHRINK then takes all of
the capacity, a GROW gives none back, and the report after the SHRINK is 0 again. `Starved` says so
of a client and its connection, whichever that is; every step keeps it but a registration of a cache
that has something in it (`step_starved`). At capacity 0 the cache is out of the daemon's reach, and
goes on growing (`run_starved`).
-/

namespace MemoryGovernor

open ClientRegistry (TellsSize toldSize replay commandMessage)

/-- The size recorded for the client is 0, so is what it is telling, and so is every target in
flight to it. -/
structure Connection.Starved (conn : Connection) : Prop where
  recorded : toldSize conn.up.received = 0
  told : ∀ msg ∈ conn.up.pending, TellsSize msg → msg.current_size_bytes = 0
  commanded : ∀ msg ∈ conn.down.pending, msg.target_bytes = 0

/-- What becomes of the cache of a starved client: the capacity stays or is gone, and where it was
gone nothing is evicted. -/
structure SoundCache.Starves (c c' : SoundCache String String) : Prop where
  capacity : c'.capacity = c.capacity ∨ c'.capacity = 0
  stuck : c.capacity = 0 → c'.capacity = 0 ∧ c.size ≤ c'.size

theorem SoundCache.starves_refl (c : SoundCache String String) : c.Starves c :=
  ⟨.inl rfl, fun hzero => ⟨hzero, le_rfl⟩⟩

/-- An empty cache has no bytes. -/
theorem GovernedCache.sizeBytes_eq_zero {g : GovernedCache} (h : g.cache.size = 0) :
    g.sizeBytes = 0 := by
  rw [sizeBytes, h]
  simp

/-! ## Connections -/

section Connections

variable {conn : Connection} {msg : Message}

theorem Connection.starved_new (k : ClientId) : ({ peer := k } : Connection).Starved :=
  ⟨rfl, fun _ hmsg => (nomatch hmsg), fun _ hmsg => (nomatch hmsg)⟩

/-- The client tells a size of 0. -/
theorem Connection.Starved.send (h : conn.Starved) (hzero : msg.current_size_bytes = 0) :
    Starved { conn with up := conn.up.send msg } := by
  refine ⟨h.recorded, fun m hm htells => ?_, h.commanded⟩
  rcases List.mem_append.1 hm with hm | hm
  · exact h.told m hm htells
  · rw [List.mem_singleton.1 hm]
    exact hzero

/-- The daemon records what the client has told. -/
theorem Connection.Starved.read {up : Channel Message} (h : conn.Starved)
    (hrecv : conn.up.receive? = some (msg, up)) : Starved { conn with up := up } := by
  obtain ⟨hpending, hreceived⟩ := Channel.receive?_eq_some.1 hrecv
  have htold := h.told
  rw [hpending, List.forall_mem_cons] at htold
  refine ⟨?_, htold.2, h.commanded⟩
  rw [hreceived, ClientRegistry.toldSize_concat]
  split_ifs with htells
  · exact htold.1 htells
  · exact h.recorded

/-- The daemon sends a target of 0. -/
theorem Connection.Starved.sendDown (h : conn.Starved) (hzero : msg.target_bytes = 0) :
    (conn.sendDown msg).Starved := by
  unfold Connection.sendDown
  split_ifs
  · refine ⟨h.recorded, h.told, fun m hm => ?_⟩
    rcases List.mem_append.1 hm with hm | hm
    · exact h.commanded m hm
    · rw [List.mem_singleton.1 hm]
      exact hzero
  · exact h

/-- A size of 0 makes a target of 0. -/
theorem target_eq_zero {cmd : Command} {fraction : ℚ} {info : ClientInfo}
    (hzero : info.current_size_bytes = 0) (hmsg : commandMessage cmd fraction info = some msg) :
    msg.target_bytes = 0 := by
  obtain ⟨t, ht, rfl⟩ := Option.map_eq_some_iff.1 hmsg
  apply UInt64.toNat_inj.1
  rw [truncate_toNat ht, hzero]
  simp

end Connections

/-! ## Clients -/

namespace Link

/-- The client's connection is starved, if it has one. -/
def Starved (l : Link) : Prop := ∀ conn, l.conn = some conn → conn.Starved

/-- What is in flight to a starved client has target 0. -/
theorem Starved.target {l : Link} (h : l.Starved) {msg : Message} (hmsg : msg ∈ l.inFlight) :
    msg.target_bytes = 0 := by
  unfold inFlight at hmsg
  cases hconn : l.conn with
  | none => simp [hconn] at hmsg
  | some conn =>
    rw [hconn] at hmsg
    exact (h conn hconn).commanded msg hmsg

/-- Telling a size of 0 leaves the client starved. -/
theorem Starved.send {l : Link} (h : l.Starved) {msg : Message}
    (hzero : msg.current_size_bytes = 0) : (l.send msg).Starved := by
  unfold Link.send
  split_ifs
  · split
    · next conn hconn =>
      split_ifs
      · rintro conn' ⟨⟩
        exact (h conn hconn).send hzero
      · exact h
    · exact h
  · exact h

/-- A target of 0 takes the capacity, or is ignored. -/
theorem Starved.processMessage {l l' : Link} {msg : Message} (h : l.Starved)
    (hzero : msg.target_bytes = 0) (hp : l.processMessage msg = some l') :
    l'.Starved ∧ l.client.cache.cache.Starves l'.client.cache.cache := by
  obtain rfl | ⟨n, l₁, hn, rfl, rfl, hkind⟩ := processMessage_cases hp
  · exact ⟨h, SoundCache.starves_refl _⟩
  · obtain rfl : n = 0 := by
      rw [hn, hzero]
      simp
    have hpos : 0 < l.client.cache.cache.capacity := by
      rcases hkind with ⟨-, hlt⟩ | ⟨-, hlt⟩
      · exact hlt
      · exact absurd hlt (Nat.not_lt_zero _)
    have hempty : (l.client.cache.cache.resize 0).size = 0 := by
      rw [SoundCache.resize_size, Nat.zero_min]
    have hsame : (l.withCache (l.client.cache.cache.resize 0)).Starved := h
    rw [reportSize, send_cache]
    exact ⟨hsame.send (GovernedCache.sizeBytes_eq_zero hempty),
      .inr (SoundCache.resize_capacity _ 0), fun hz => absurd hz hpos.ne'⟩

/-- A client by itself stays starved, if it does not register what it has. -/
theorem Starved.step {A : LinkedHeap.Allocator} {l l' : Link} {e : ClientEvent} {o : Option Message}
    (h : l.Starved) (hst : l.step A e = some (o, l'))
    (hreg : e = .register → l.client.cache.cache.size = 0) :
    l'.Starved ∧ l.client.cache.cache.Starves l'.client.cache.cache := by
  obtain ⟨key, value, -, -, rfl⟩ | ⟨key, -, -, rfl⟩ | ⟨l₁, he, -, -, rfl, rfl⟩ |
    ⟨msg, conn, down, -, -, hconn, hrecv, hproc⟩ | ⟨-, -, rfl⟩ := step_cases hst
  · have hcap := SoundCache.put_capacity l.client.cache.cache A key value
    exact ⟨h, .inl hcap, fun hz => ⟨hcap.trans hz, SoundCache.size_le_put _ A key value⟩⟩
  · obtain ⟨hsize, hcap⟩ := SoundCache.get_size_capacity l.client.cache.cache key
    exact ⟨h, .inl hcap, fun hz => ⟨hcap.trans hz, hsize.ge⟩⟩
  · have hsend : (l.registerCache l.client.cache.sizeBytes).Starved :=
      h.send (GovernedCache.sizeBytes_eq_zero (hreg he))
    have hcache : (l.registerCache l.client.cache.sizeBytes).client.cache = l.client.cache :=
      send_cache l _
    exact ⟨hsend, hcache.symm ▸ SoundCache.starves_refl _⟩
  · obtain ⟨hpending, -⟩ := Channel.receive?_eq_some.1 hrecv
    have hconn := h conn hconn
    have hall := hconn.commanded
    rw [hpending, List.forall_mem_cons] at hall
    have hread : Starved { l with conn := some { conn with down := down } } := by
      rintro conn' ⟨⟩
      exact ⟨hconn.recorded, hconn.told, hall.2⟩
    exact hread.processMessage hall.1 hproc
  · exact ⟨h, SoundCache.starves_refl _⟩

/-- A SHRINK with target 0 leaves no capacity, and any other message with that target leaves it. -/
theorem capacityAfter_of_target_zero {entry_bytes : UInt64} {capacity : ℕ} {msg : Message}
    (hzero : msg.target_bytes = 0) : capacityAfter entry_bytes capacity msg =
      if msg.type = .SHRINK then 0 else capacity := by
  have htarget : msg.target_bytes.toNat / entry_bytes.toNat = 0 := by
    rw [hzero]
    exact Nat.zero_div _
  simp only [capacityAfter, htarget]
  split_ifs with h hshrink hshrink
  · rfl
  · rcases h with ⟨htype, -⟩ | ⟨-, hlt⟩
    · exact absurd htype hshrink
    · exact absurd hlt (Nat.not_lt_zero _)
  · -- There was none before.
    exact Nat.eq_zero_of_not_pos fun hpos => h (.inl ⟨hshrink, hpos⟩)
  · rfl

/-- A message that is read was in flight, and is applied to the capacity. -/
theorem deliver_capacity {l l' : Link} {msg : Message} (hst : l.deliver = some (some msg, l')) :
    msg ∈ l.inFlight ∧
      l'.capacity = capacityAfter l.client.cache.estimated_entry_bytes l.capacity msg := by
  obtain ⟨msg', l₁, hin, hproc, heq⟩ := deliver_eq_some.1 hst
  obtain rfl := Option.some.inj heq
  obtain ⟨-, -, conn, down, hconn, hrecv, rfl⟩ := incoming_eq_some.1 hin
  obtain ⟨l₂, hl', -, -, hcap⟩ := processMessage_eq hproc
  refine ⟨?_, ?_⟩
  · rw [inFlight, hconn, Option.map_some, Option.getD_some, (Channel.receive?_eq_some.1 hrecv).1]
    exact List.mem_cons_self
  · obtain rfl | ⟨report, rfl⟩ := hl'
    · exact hcap
    · rw [capacity, send_cache]
      exact hcap

end Link

/-- A client stays starved whatever happens to its connection, where every command has target 0 and
the client does not come to the end of `start`. -/
theorem LinkStep.starved {A : LinkedHeap.Allocator} {k : ClientId} {P : Message → Prop}
    {l l' : Link} (hst : LinkStep A k P l l') (h : l.Starved)
    (hP : ∀ msg, P msg → msg.target_bytes = 0)
    (hstart : l.client.starting = true → l'.client.starting = true) :
    l'.Starved ∧ l.client.cache.cache.Starves l'.client.cache.cache := by
  cases hst with
  | same => exact ⟨h, SoundCache.starves_refl _⟩
  | client hst =>
    refine h.step hst fun he => ?_
    subst he
    obtain ⟨-, hreg⟩ := Machine.silent_eq_some.1 hst
    unfold Link.register at hreg
    split_ifs at hreg with hstarting
    obtain rfl := Option.some.inj hreg
    exact absurd (hstart hstarting) Bool.false_ne_true
  | starting => exact ⟨h, SoundCache.starves_refl _⟩
  | opened c starting =>
    refine ⟨?_, SoundCache.starves_refl _⟩
    rintro conn ⟨⟩
    exact Connection.starved_new k
  | stopped => exact ⟨fun conn hconn => (nomatch hconn), SoundCache.starves_refl _⟩
  | read hrecv =>
    refine ⟨?_, SoundCache.starves_refl _⟩
    rintro conn' ⟨⟩
    exact (h _ rfl).read hrecv
  | closed client conn =>
    refine ⟨?_, SoundCache.starves_refl _⟩
    rintro conn' ⟨⟩
    exact ⟨(h conn rfl).recorded, (h conn rfl).told, (h conn rfl).commanded⟩
  | commanded hmsg =>
    refine ⟨?_, SoundCache.starves_refl _⟩
    rintro conn' ⟨⟩
    exact (h _ rfl).sendDown (hP _ hmsg)

/-! ## The system -/

namespace System

variable {A : ClientId → LinkedHeap.Allocator} {configs : ClientId → ClientConfig}
  {st st' : System} {k : ClientId} {e : Event} {o : Option Message}

/-- Client `k` registers with an empty cache only. -/
def RegistersEmpty (k : ClientId) (st : System) (e : Event) : Prop :=
  e = .client k .register → (st.clients k).cache.cache.size = 0

instance (k : ClientId) (st : System) (e : Event) : Decidable (RegistersEmpty k st e) :=
  inferInstanceAs (Decidable (e = _ → _))

/-- Only the client itself comes to the end of its `start`. -/
theorem starting_step (hst : step A st e = some (o, st')) (he : ∀ e', e ≠ .client k e')
    (hstarting : (st.clients k).starting = true) : (st'.clients k).starting = true := by
  have hconnect : ∀ k', ((st.connect k').clients k).starting = true := by
    intro k'
    unfold connect
    split_ifs
    · exact hstarting
    · simp only [Function.update_apply]
      split_ifs with hk
      · exact hk ▸ hstarting
      · exact hstarting
  cases e with
  | client k' e' =>
    have hk : k ≠ k' := fun hk => he e' (by rw [hk])
    obtain ⟨⟨o', l'⟩, -, heq⟩ := Option.map_eq_some_iff.1 hst
    obtain ⟨-, rfl⟩ := Prod.mk.inj heq
    simpa only [setLink, Function.update_of_ne hk] using hstarting
  | connect k' =>
    obtain ⟨-, rfl⟩ := Prod.mk.inj (Option.some.inj hst)
    simp only [setClient, Function.update_apply]
    split_ifs
    · rfl
    · exact hconnect k'
  | reconnect k' =>
    simp only [step] at hst
    split_ifs at hst
    obtain ⟨-, rfl⟩ := Prod.mk.inj (Option.some.inj hst)
    exact hconnect k'
  | stop k' =>
    obtain ⟨-, rfl⟩ := Prod.mk.inj (Option.some.inj hst)
    simp only [stop, Function.update_apply]
    split_ifs with hk
    · exact hk ▸ hstarting
    · exact hstarting
  | accept client_fd =>
    obtain ⟨-, hst⟩ := Machine.silent_eq_some.1 hst
    unfold accept at hst
    split at hst
    · obtain rfl := Option.some.inj hst
      exact hstarting
    · cases hst
  | receive client_fd =>
    obtain ⟨-, hst⟩ := Machine.silent_eq_some.1 hst
    obtain ⟨c, -, hmap⟩ := Option.bind_eq_some_iff.1 hst
    obtain ⟨r, -, rfl⟩ := Option.map_eq_some_iff.1 hmap
    exact hstarting
  | remove client_fd =>
    obtain ⟨-, hst⟩ := Machine.silent_eq_some.1 hst
    obtain ⟨c, -, rfl⟩ := Option.map_eq_some_iff.1 hst
    exact hstarting
  | restart =>
    obtain ⟨-, rfl⟩ := Prod.mk.inj (Option.some.inj hst)
    exact hstarting
  | broadcast cmd fraction =>
    obtain ⟨-, hst⟩ := Machine.silent_eq_some.1 hst
    obtain ⟨ms, -, rfl⟩ := Option.map_eq_some_iff.1 hst
    rwa [foldl_sendToClient_clients]

/-- Every step keeps a client starved, if it registers with an empty cache only. -/
theorem step_starved (h : Sound configs st) (hs : (st.link k).Starved)
    (hempty : RegistersEmpty k st e) (hst : step A st e = some (o, st')) :
    (st'.link k).Starved ∧ (st.clients k).cache.cache.Starves (st'.clients k).cache.cache := by
  by_cases he : ∃ e', e = .client k e'
  · obtain ⟨e', rfl⟩ := he
    obtain ⟨⟨o', l'⟩, hl, heq⟩ := Option.map_eq_some_iff.1 hst
    obtain ⟨-, rfl⟩ := Prod.mk.inj heq
    have hlink : (st.setLink k l').link k = l' := link_setLink_self (Link.step_ends hl)
    have hstep := hs.step hl fun he' => hempty (by rw [he'])
    rw [← hlink] at hstep
    exact hstep
  · refine (step_linkStep h.wired hst k).starved hs ?_ (starting_step hst (not_exists.1 he))
    rintro msg ⟨cmd, fraction, c, fd, info, -, hsock, hfd, hlook, hmsg⟩
    obtain rfl := Option.some.inj ((h.wired.entry fd c hfd).symm.trans hlook)
    refine target_eq_zero ?_ hmsg
    rw [ClientRegistry.replay_current_size]
    exact (hs _ (by rw [link_of_sock hsock])).recorded

/-- What holds of client `k` throughout. -/
structure Starving (configs : ClientId → ClientConfig) (k : ClientId) (st : System) : Prop where
  sound : Sound configs st
  link : (st.link k).Starved
  capacity : (st.clients k).cache.cache.capacity = (configs k).max_capacity ∨
    (st.clients k).cache.cache.capacity = 0

theorem starving_step (h : Starving configs k st) (hempty : RegistersEmpty k st e)
    (hst : step A st e = some (o, st')) :
    Starving configs k st' ∧ (st.clients k).cache.cache.Starves (st'.clients k).cache.cache := by
  obtain ⟨hlink, hcache⟩ := step_starved h.sound h.link hempty hst
  refine ⟨⟨step_sound h.sound hst, hlink, ?_⟩, hcache⟩
  rcases hcache.capacity with hsame | hgone
  · rw [hsame]
    exact h.capacity
  · exact .inr hgone

/-- A client that registers with an empty cache only, in any run with any clients, commands,
reconnects and restarts of the daemon: the size recorded for it is always 0, and so is the target of
every message that it handles. Its capacity is the one it was made with until it handles a SHRINK,
which leaves it with none, and a GROW gives nothing back. Without capacity it stays, whatever is
broadcast, and the cache never loses an entry, as long as the client does not register with
something in it. -/
theorem run_starved {es : List Event} {os : List (Option Message)}
    (hrun : Machine.run (step A) (init configs) es = some (os, st))
    (hempty : Machine.Along (step A) (RegistersEmpty k) (init configs) es) :
    (∀ fd c info, (st.clients k).sock_fd = some c → st.fds fd = some c →
      st.registry.clients.lookup fd = some info → info.current_size_bytes = 0) ∧
    ((st.link k).capacity = (configs k).max_capacity ∨ (st.link k).capacity = 0) ∧
    (∀ msg st', step A st (.client k .deliver) = some (some msg, st') → msg.target_bytes = 0 ∧
      (msg.type = .SHRINK → (st'.link k).capacity = 0) ∧
      (msg.type = .GROW → (st'.link k).capacity = (st.link k).capacity)) ∧
    ∀ es' os' st', Machine.run (step A) st es' = some (os', st') →
      Machine.Along (step A) (RegistersEmpty k) st es' → (st.link k).capacity = 0 →
      (st'.link k).capacity = 0 ∧ (st.link k).size ≤ (st'.link k).size := by
  have hinit : Starving configs k (init configs) :=
    ⟨sound_init configs, fun _ hconn => (nomatch hconn), .inl rfl⟩
  have h : Starving configs k st := Machine.along_invariant
    (fun _ _ _ _ h hC hstep => (starving_step h hC hstep).1) hinit hempty hrun
  refine ⟨fun fd c info hsock hfd hlook => ?_, h.capacity, fun msg st' hst => ?_,
    fun es' os' st' hrun' hempty' hzero => ?_⟩
  · obtain rfl := Option.some.inj ((h.sound.wired.entry fd c hfd).symm.trans hlook)
    rw [ClientRegistry.replay_current_size]
    exact (h.link _ (by rw [link_of_sock hsock])).recorded
  · obtain ⟨⟨o', l'⟩, hl, heq⟩ := Option.map_eq_some_iff.1 hst
    obtain ⟨rfl, rfl⟩ := Prod.mk.inj heq
    rw [link_setLink_self (Link.step_ends hl)]
    obtain ⟨hmem, hcap⟩ := Link.deliver_capacity hl
    have htarget := h.link.target hmem
    rw [Link.capacityAfter_of_target_zero htarget] at hcap
    refine ⟨htarget, fun htype => ?_, fun htype => ?_⟩
    · rw [hcap, if_pos htype]
    · refine hcap.trans (if_neg fun heq => ?_)
      rw [htype] at heq
      cases heq
  · have hstuck : Starving configs k st' ∧ (st'.link k).capacity = 0 ∧
        (st.link k).size ≤ (st'.link k).size :=
      Machine.along_invariant
        (I := fun u => Starving configs k u ∧ (u.link k).capacity = 0 ∧
          (st.link k).size ≤ (u.link k).size)
        (fun u e o v hu hC hstep => by
          obtain ⟨hv, hcache⟩ := starving_step hu.1 hC hstep
          obtain ⟨hcap, hsize⟩ := hcache.stuck hu.2.1
          exact ⟨hv, hcap, hu.2.2.trans hsize⟩)
        ⟨h, hzero, le_rfl⟩ hempty' hrun'
    exact hstuck.2

/-- A client starts, is filled, and handles a SHRINK. -/
def shrunkEmpty : List Event :=
  [.connect 0, .client 0 .register, .accept 5, .receive 5, .client 0 (.put "a" "1"),
    .client 0 (.put "b" "2"), .broadcast .shrink (1/10), .client 0 .deliver]

/-- Afterwards it is filled again, reports, loses its connection and gets a new one, and handles a
GROW. -/
def growingOn : List Event :=
  [.client 0 (.put "c" "3"), .client 0 (.put "d" "4"), .receive 5, .client 0 .lost, .remove 5,
    .reconnect 0, .accept 5, .broadcast .grow (1/10), .client 0 .deliver, .client 0 (.put "e" "5")]

/-- It has no capacity any more, and three entries. -/
theorem run_starved_shrunkEmpty :
    let configs : ClientId → ClientConfig := fun _ => ⟨77, 4, 256⟩
    let st := Machine.last (step fun _ => .above) (init configs) shrunkEmpty
    let st' := Machine.last (step fun _ => .above) st growingOn
    (st'.link 0).capacity = 0 ∧ (st.link 0).size ≤ (st'.link 0).size ∧ (st'.link 0).size = 3 := by
  intro configs st st'
  obtain ⟨os, hrun⟩ : ∃ os, Machine.run (step fun _ => .above) (init configs) shrunkEmpty =
      some (os, st) := Machine.exists_run_eq_last _ _ (by decide +kernel)
  obtain ⟨os', hrun'⟩ : ∃ os, Machine.run (step fun _ => .above) st growingOn = some (os, st') :=
    Machine.exists_run_eq_last _ _ (by decide +kernel)
  obtain ⟨-, -, -, hstuck⟩ := run_starved (k := 0) hrun (by decide +kernel)
  obtain ⟨hcap, hsize⟩ := hstuck growingOn os' st' hrun' (by decide +kernel) (by decide +kernel)
  exact ⟨hcap, hsize, by decide +kernel⟩

end System

end MemoryGovernor
