import MemoryGovernor.System.LinkStep

/-!
# What a client has told

The invariant behind the effect of a command: on a connected socket, the size that the client told
last is the size of as many entries as it held at that time, and it has only grown since, because
whatever makes a cache smaller is followed by a report (`Link.Sound`). It comes with the bound of
the cache by its capacity, which holds as long as the capacity is not zero. Every link step keeps it
(`LinkStep.sound`), so it holds of every client in every run (`System.run_sound`).
-/

namespace MemoryGovernor

open ClientRegistry (TellsSize toldSize)

namespace Link

/-- The entries in the cache. -/
def size (l : Link) : ℕ := l.client.cache.cache.size

/-- A connected client has a socket, whose end it has not closed. -/
def HasSocket (l : Link) : Prop :=
  l.client.connected = true → ∃ conn, l.conn = some conn ∧ conn.client_open = true

/-- What a client has told bounds its cache from below. -/
structure Sound (l : Link) : Prop where
  bounded : l.client.cache.cache.Bounded
  socket : l.HasSocket
  /-- The size told last on the socket is that of some number of entries, now or earlier. -/
  told : l.client.connected = true → ∀ conn, l.conn = some conn →
    ∃ n ≤ l.size, toldSize conn.up.sent = UInt64.ofNat n * l.client.cache.estimated_entry_bytes

/-- A client that tells its size at this moment has told what it should. -/
theorem sound_send {l : Link} {msg : Message} (hbounded : l.client.cache.cache.Bounded)
    (hsocket : l.HasSocket) (htells : TellsSize msg)
    (hsize : msg.current_size_bytes = l.client.cache.sizeBytes) : (l.send msg).Sound := by
  unfold send
  split_ifs with hc
  · obtain ⟨conn, hconn, hopen⟩ := hsocket hc
    simp only [hconn]
    split_ifs
    · refine ⟨hbounded, fun _ => ⟨_, rfl, hopen⟩, ?_⟩
      rintro - conn' hconn'
      obtain rfl := Option.some.inj hconn'
      refine ⟨l.size, le_rfl, ?_⟩
      rw [Channel.sent_send, ClientRegistry.toldSize_concat, if_pos htells, hsize]
      rfl
    · exact ⟨hbounded, (fun h => nomatch h), (fun h => nomatch h)⟩
  · exact ⟨hbounded, hsocket, fun h => absurd h hc⟩

/-- Handling a message keeps the client sound: a smaller cache is reported. -/
theorem Sound.processMessage {l l' : Link} {msg : Message} (h : l.Sound)
    (hp : l.processMessage msg = some l') : l'.Sound := by
  obtain rfl | ⟨n, l₁, -, rfl, rfl, -⟩ := processMessage_cases hp
  · exact h
  · exact sound_send (SoundCache.bounded_resize _ n) h.socket (.inr rfl) rfl

/-- A larger cache keeps the client sound. -/
theorem Sound.grow {l : Link} {cache : SoundCache String String} (h : l.Sound)
    (hbounded : cache.Bounded) (hle : l.size ≤ cache.size) : (l.withCache cache).Sound := by
  refine ⟨hbounded, h.socket, fun hc conn hconn => ?_⟩
  obtain ⟨n, hn, htold⟩ := h.told hc conn hconn
  exact ⟨n, hn.trans hle, htold⟩

/-- A read of the listener keeps the client sound. -/
theorem Sound.read {l : Link} {conn : Connection} (down : Channel Message) (h : l.Sound)
    (hconn : l.conn = some conn) : Sound { l with conn := some { conn with down := down } } := by
  refine ⟨h.bounded, fun hc => ?_, ?_⟩
  · obtain ⟨conn', hconn', hopen⟩ := h.socket hc
    obtain rfl := Option.some.inj (hconn.symm.trans hconn')
    exact ⟨_, rfl, hopen⟩
  · rintro hc conn' hconn'
    obtain rfl := Option.some.inj hconn'
    exact h.told hc conn hconn

/-- A client by itself stays sound. -/
theorem Sound.step {A : LinkedHeap.Allocator} {l l' : Link} {e : ClientEvent} {o : Option Message}
    (h : l.Sound) (hst : l.step A e = some (o, l')) : l'.Sound := by
  obtain ⟨key, value, -, -, rfl⟩ | ⟨key, -, -, rfl⟩ | ⟨l₁, -, -, -, rfl, rfl⟩ |
    ⟨msg, conn, down, -, -, hconn, -, hproc⟩ | ⟨-, -, rfl⟩ := step_cases hst
  · exact h.grow (h.bounded.put A key value) (SoundCache.size_le_put _ A key value)
  · exact h.grow (h.bounded.get key) (SoundCache.get_size_capacity _ key).1.ge
  · -- A registration tells the size of this moment.
    have hsend : (l.registerCache l.client.cache.sizeBytes).Sound :=
      sound_send h.bounded h.socket (.inl rfl) rfl
    exact ⟨hsend.bounded, hsend.socket, hsend.told⟩
  · exact (h.read down hconn).processMessage hproc
  · -- A client that is not connected has nothing to answer for.
    exact ⟨h.bounded, (fun hc => nomatch hc), (fun hc => nomatch hc)⟩

end Link

/-- A change of the connection that keeps the client's end and what it sent keeps the client
sound. -/
theorem Link.Sound.conn {client : Client} {conn conn' : Connection} (h : Sound ⟨client, some conn⟩)
    (hopen : conn'.client_open = conn.client_open) (hsent : conn'.up.sent = conn.up.sent) :
    Sound ⟨client, some conn'⟩ := by
  refine ⟨h.bounded, fun hc => ?_, ?_⟩
  · obtain ⟨c, hconn, hc'⟩ := h.socket hc
    obtain rfl := Option.some.inj hconn
    exact ⟨conn', rfl, hopen.trans hc'⟩
  · rintro hc c hconn
    obtain rfl := Option.some.inj hconn
    rw [hsent]
    exact h.told hc conn rfl

/-- Every link step keeps a client sound. -/
theorem LinkStep.sound {A : LinkedHeap.Allocator} {k : ClientId} {P : Message → Prop} {l l' : Link}
    (hst : LinkStep A k P l l') (h : l.Sound) : l'.Sound := by
  cases hst with
  | same => exact h
  | client hst => exact h.step hst
  | starting => exact ⟨h.bounded, h.socket, h.told⟩
  | opened c starting =>
    refine ⟨h.bounded, fun _ => ⟨_, rfl, rfl⟩, ?_⟩
    rintro - conn hconn
    -- On a new connection nothing is told, which stands for no entries.
    obtain rfl := Option.some.inj hconn
    exact ⟨0, Nat.zero_le _, by simp⟩
  | stopped => exact ⟨h.bounded, (fun hc => nomatch hc), (fun hc => nomatch hc)⟩
  | read hrecv => exact h.conn rfl (Channel.sent_of_receive? hrecv)
  | closed client conn => exact h.conn rfl rfl
  | commanded hP =>
    unfold Connection.sendDown
    split_ifs
    · exact h.conn rfl rfl
    · exact h

/-- No link step changes the estimate of an entry's bytes. -/
theorem LinkStep.entry_bytes {A : LinkedHeap.Allocator} {k : ClientId} {P : Message → Prop}
    {l l' : Link} (hst : LinkStep A k P l l') :
    l'.client.cache.estimated_entry_bytes = l.client.cache.estimated_entry_bytes := by
  cases hst with
  | client hst => exact Link.step_entry_bytes hst
  | _ => rfl

namespace System

variable {A : ClientId → LinkedHeap.Allocator} {configs : ClientId → ClientConfig}

/-- The state of a run: the plumbing holds and every client is sound. -/
structure Sound (configs : ClientId → ClientConfig) (st : System) : Prop where
  wired : Wired st
  link : ∀ k, (st.link k).Sound
  entry_bytes : ∀ k,
    (st.clients k).cache.estimated_entry_bytes = (configs k).estimated_entry_bytes

theorem sound_init (configs : ClientId → ClientConfig) : Sound configs (init configs) :=
  ⟨wired_init configs, fun _ => ⟨SoundCache.bounded_new _, (fun hc => nomatch hc),
    (fun hc => nomatch hc)⟩, fun _ => rfl⟩

/-- Every step keeps this. -/
theorem step_sound {st st' : System} {e : Event} {o : Option Message} (h : Sound configs st)
    (hst : step A st e = some (o, st')) : Sound configs st' where
  wired := step_wired h.wired hst
  link k := (step_linkStep h.wired hst k).sound (h.link k)
  entry_bytes k := (step_linkStep h.wired hst k).entry_bytes.trans (h.entry_bytes k)

/-- Every run from the start ends in such a state. -/
theorem run_sound {es : List Event} {os : List (Option Message)} {st : System}
    (hrun : Machine.run (step A) (init configs) es = some (os, st)) : Sound configs st :=
  Machine.run_invariant (fun _ _ _ _ h hst => step_sound h hst) (sound_init configs) hrun

end System

end MemoryGovernor
