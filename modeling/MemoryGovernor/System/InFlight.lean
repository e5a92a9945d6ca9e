import MemoryGovernor.System.Sound

/-!
# Commands in flight

A client handles the commands on its socket in order, so what its capacity will be once it has
handled them is decided when they are sent (`Link.settledCapacity`). A step of the system that keeps
the client on its socket and broadcasts nothing either leaves capacity and commands alone or handles
the first command (`System.step_handles`), and a broadcast adds one command to those in flight
(`System.broadcast_inFlight`).
-/

namespace MemoryGovernor

open ClientRegistry (commandMessage)

namespace Link

/-- The commands that the daemon has sent and the client has not handled. -/
def inFlight (l : Link) : List Message := (l.conn.map fun conn => conn.down.pending).getD []

/-- The capacity of a cache after a message: the target, in entries, of a SHRINK below it or of a
GROW above it. -/
def capacityAfter (entry_bytes : UInt64) (capacity : ℕ) (msg : Message) : ℕ :=
  let target := msg.target_bytes.toNat / entry_bytes.toNat
  if msg.type = .SHRINK ∧ target < capacity ∨ msg.type = .GROW ∧ capacity < target then target
  else capacity

section Capacity

variable {entry_bytes : UInt64} {capacity : ℕ} {msg : Message}

theorem capacityAfter_applied
    (h : msg.type = .SHRINK ∧ msg.target_bytes.toNat / entry_bytes.toNat < capacity ∨
      msg.type = .GROW ∧ capacity < msg.target_bytes.toNat / entry_bytes.toNat) :
    capacityAfter entry_bytes capacity msg = msg.target_bytes.toNat / entry_bytes.toNat :=
  if_pos h

theorem capacityAfter_ignored
    (h : ¬ (msg.type = .SHRINK ∧ msg.target_bytes.toNat / entry_bytes.toNat < capacity ∨
      msg.type = .GROW ∧ capacity < msg.target_bytes.toNat / entry_bytes.toNat)) :
    capacityAfter entry_bytes capacity msg = capacity :=
  if_neg h

end Capacity

/-- The capacity of the client's cache. -/
def capacity (l : Link) : ℕ := l.client.cache.cache.capacity

/-- The capacity that the cache will have once the client has handled what is in flight. -/
def settledCapacity (l : Link) : ℕ :=
  l.inFlight.foldl (capacityAfter l.client.cache.estimated_entry_bytes) l.capacity

/-- Nothing is handled, or the first message in flight is. -/
def Handles (l l' : Link) : Prop :=
  l'.client.cache.estimated_entry_bytes = l.client.cache.estimated_entry_bytes ∧
    (l'.inFlight = l.inFlight ∧ l'.capacity = l.capacity ∨
      ∃ msg, l.inFlight = msg :: l'.inFlight ∧
        l'.capacity = capacityAfter l.client.cache.estimated_entry_bytes l.capacity msg)

theorem handles_refl (l : Link) : Handles l l := ⟨rfl, .inl ⟨rfl, rfl⟩⟩

/-- Handling what is in flight does not change what comes of it. -/
theorem Handles.settledCapacity {l l' : Link} (h : Handles l l') :
    l'.settledCapacity = l.settledCapacity := by
  obtain ⟨hbytes, ⟨hflight, hcap⟩ | ⟨msg, hflight, hcap⟩⟩ := h
  · rw [Link.settledCapacity, Link.settledCapacity, hflight, hbytes, hcap]
  · rw [Link.settledCapacity, Link.settledCapacity, hflight, hbytes, hcap, List.foldl_cons]

/-- A write leaves the cache and what comes the other way alone. -/
theorem handles_send {l l₁ : Link} (h : Handles l l₁) (msg : Message) :
    Handles l (l₁.send msg) := by
  have hflight : (l₁.send msg).inFlight = l₁.inFlight := by
    unfold send
    split_ifs
    · split
      · next conn hconn => split_ifs <;> simp [inFlight, hconn]
      · rfl
    · rfl
  have hcache : (l₁.send msg).client.cache = l₁.client.cache := send_cache l₁ msg
  unfold Handles capacity at *
  rw [hcache, hflight]
  exact h

/-- What a message does to the capacity of the client that handles it. -/
theorem processMessage_eq {l l' : Link} {msg : Message} (h : l.processMessage msg = some l') :
    ∃ l₁ : Link, (l' = l₁ ∨ ∃ report, l' = l₁.send report) ∧ l₁.conn = l.conn ∧
      l₁.client.cache.estimated_entry_bytes = l.client.cache.estimated_entry_bytes ∧
      l₁.capacity = capacityAfter l.client.cache.estimated_entry_bytes l.capacity msg := by
  unfold processMessage at h
  split at h
  · next htype =>
    obtain ⟨r, hr, rfl⟩ := Option.map_eq_some_iff.1 h
    obtain ⟨hge, hsame⟩ | ⟨hlt, heq⟩ := applied_cases hr
    · refine ⟨l, .inl hsame, rfl, rfl, (capacityAfter_ignored ?_).symm⟩
      rintro (⟨-, hlt⟩ | ⟨hgrow, -⟩)
      · exact of_decide_eq_false hge hlt
      · exact nomatch htype.symm.trans hgrow
    · exact ⟨_, .inr ⟨_, heq⟩, rfl, rfl, (SoundCache.resize_capacity _ _).trans
        (capacityAfter_applied (.inl ⟨htype, of_decide_eq_true hlt⟩)).symm⟩
  · next htype =>
    obtain ⟨r, hr, rfl⟩ := Option.map_eq_some_iff.1 h
    obtain ⟨hle, hsame⟩ | ⟨hlt, heq⟩ := applied_cases hr
    · refine ⟨l, .inl hsame, rfl, rfl, (capacityAfter_ignored ?_).symm⟩
      rintro (⟨hshrink, -⟩ | ⟨-, hlt⟩)
      · exact nomatch htype.symm.trans hshrink
      · exact of_decide_eq_false hle hlt
    · exact ⟨_, .inr ⟨_, heq⟩, rfl, rfl, (SoundCache.resize_capacity _ _).trans
        (capacityAfter_applied (.inr ⟨htype, of_decide_eq_true hlt⟩)).symm⟩
  · next hshrink hgrow =>
    refine ⟨l, .inl (Option.some.inj h).symm, rfl, rfl, (capacityAfter_ignored ?_).symm⟩
    rintro (⟨htype, -⟩ | ⟨htype, -⟩)
    · exact hshrink htype
    · exact hgrow htype

/-- A client by itself handles the first message in flight, or none. -/
theorem step_handles {A : LinkedHeap.Allocator} {l l' : Link} {e : ClientEvent} {o : Option Message}
    (h : l.step A e = some (o, l')) : Handles l l' := by
  obtain ⟨key, value, -, -, rfl⟩ | ⟨key, -, -, rfl⟩ | ⟨l₁, -, -, -, rfl, rfl⟩ |
    ⟨msg, conn, down, -, -, hconn, hrecv, hproc⟩ | ⟨-, -, rfl⟩ := step_cases h
  · exact ⟨rfl, .inl ⟨rfl, SoundCache.put_capacity _ A key value⟩⟩
  · exact ⟨rfl, .inl ⟨rfl, (SoundCache.get_size_capacity _ key).2⟩⟩
  · exact handles_send (handles_refl l) _
  · obtain ⟨l₁, hl', hconn₁, hbytes, hcap⟩ := processMessage_eq hproc
    have hpending : l.inFlight = msg :: l₁.inFlight := by
      simp only [inFlight, hconn₁, hconn, Option.map_some, Option.getD_some]
      exact (Channel.receive?_eq_some.1 hrecv).1
    have hhandles : Handles l l₁ := ⟨hbytes, .inr ⟨msg, hpending, hcap⟩⟩
    obtain rfl | ⟨report, rfl⟩ := hl'
    · exact hhandles
    · exact handles_send hhandles report
  · exact handles_refl l

end Link

namespace System

variable {A : ClientId → LinkedHeap.Allocator} {configs : ClientId → ClientConfig}
  {st st' : System} {k : ClientId} {c : ConnId}

/-- A change of a connection that leaves what comes to the client alone. -/
theorem handles_of_conns (hcl : st'.clients k = st.clients k)
    (hdown : ∀ d, (st'.conns d).down = (st.conns d).down) :
    Link.Handles (st.link k) (st'.link k) := by
  refine ⟨by rw [link, link, hcl], .inl ⟨?_, by rw [Link.capacity, Link.capacity, link, link, hcl]⟩⟩
  cases hs : (st.clients k).sock_fd with
  | none => rw [link_of_no_sock hs, link_of_no_sock (hcl ▸ hs)]; rfl
  | some d =>
    rw [link_of_sock hs, link_of_sock (hcl ▸ hs)]
    exact congrArg Channel.pending (hdown d)

/-- A step that keeps the client on its socket and is no broadcast handles the first message in
flight to it, or none. -/
theorem step_handles (hw : Wired st) {e : Event} {o : Option Message}
    (hst : step A st e = some (o, st')) (hb : ∀ cmd fraction, e ≠ .broadcast cmd fraction)
    (hs : (st.clients k).sock_fd = some c) (hs' : (st'.clients k).sock_fd = some c) :
    Link.Handles (st.link k) (st'.link k) := by
  -- A socket that is opened in this step is none that there was.
  have hold : c ≠ st.opened := (hw.sock_lt k c hs).ne
  cases e with
  | client k' e =>
    obtain ⟨⟨o', l⟩, hl, heq⟩ := Option.map_eq_some_iff.1 hst
    obtain ⟨-, rfl⟩ := Prod.mk.inj heq
    by_cases hk : k = k'
    · subst hk
      rw [link_setLink_self (Link.step_ends hl)]
      exact Link.step_handles hl
    · rw [link_setLink_ne hw hk]
      exact Link.handles_refl _
  | connect k' =>
    obtain ⟨-, rfl⟩ := Prod.mk.inj (Option.some.inj hst)
    by_cases hk : k = k'
    · subst hk
      by_cases hc : (st.clients k).connected = true
      · have hsame : st.connect k = st := by rw [connect, if_pos hc]
        rw [hsame]
        have hlink : (st.setClient k { st.clients k with starting := true }).link k =
            ⟨{ st.clients k with starting := true }, (st.link k).conn⟩ := by
          simp [link, setClient]
        rw [hlink]
        exact ⟨rfl, .inl ⟨rfl, rfl⟩⟩
      · have hnew : c = st.opened := by simpa [connect, setClient, hc] using hs'.symm
        exact absurd hnew hold
    · rw [link_setClient_ne _ hk, link_connect_ne hw hk]
      exact Link.handles_refl _
  | reconnect k' =>
    simp only [step] at hst
    split_ifs at hst with hl
    obtain ⟨-, rfl⟩ := Prod.mk.inj (Option.some.inj hst)
    by_cases hk : k = k'
    · subst hk
      have hnew : c = st.opened := by simpa [connect, hl.2] using hs'.symm
      exact absurd hnew hold
    · rw [link_connect_ne hw hk]
      exact Link.handles_refl _
  | stop k' =>
    obtain ⟨-, rfl⟩ := Prod.mk.inj (Option.some.inj hst)
    by_cases hk : k = k'
    · subst hk
      simp [stop] at hs'
    · rw [link_stop_ne hw hk]
      exact Link.handles_refl _
  | accept client_fd =>
    obtain ⟨-, hst⟩ := Machine.silent_eq_some.1 hst
    unfold accept at hst
    split at hst
    · obtain rfl := Option.some.inj hst
      exact Link.handles_refl _
    · cases hst
  | receive client_fd =>
    obtain ⟨-, hst⟩ := Machine.silent_eq_some.1 hst
    obtain ⟨d, -, hmap⟩ := Option.bind_eq_some_iff.1 hst
    obtain ⟨⟨msg, up⟩, -, rfl⟩ := Option.map_eq_some_iff.1 hmap
    refine handles_of_conns rfl fun d' => ?_
    by_cases hd : d' = d
    · subst hd
      simp
    · simp [hd]
  | remove client_fd =>
    obtain ⟨-, hst⟩ := Machine.silent_eq_some.1 hst
    obtain ⟨d, -, rfl⟩ := Option.map_eq_some_iff.1 hst
    refine handles_of_conns rfl fun d' => ?_
    by_cases hd : d' = d
    · subst hd
      simp
    · simp [hd]
  | restart =>
    obtain ⟨-, rfl⟩ := Prod.mk.inj (Option.some.inj hst)
    exact handles_of_conns rfl fun _ => rfl
  | broadcast cmd fraction => exact absurd rfl (hb cmd fraction)

/-- A broadcast adds the command computed from its entry to those in flight to a connected
client. -/
theorem broadcast_inFlight (h : Sound configs st) {cmd : Command} {fraction : ℚ} {fd : ℕ}
    (hst : st.broadcast cmd fraction = some st') (hconn : (st.clients k).connected = true)
    (hs : (st.clients k).sock_fd = some c) (hfd : st.fds fd = some c) :
    ∃ info msg, st.registry.clients.lookup fd = some info ∧
      commandMessage cmd fraction info = some msg ∧
      (st'.link k).client = (st.link k).client ∧
      (st'.link k).inFlight = (st.link k).inFlight ++ [msg] := by
  obtain ⟨msg, hmsg, hsent⟩ := broadcast_conns h.wired hst hfd
  have hcl : st'.clients = st.clients := by
    obtain ⟨ms, -, rfl⟩ := Option.map_eq_some_iff.1 hst
    exact foldl_sendToClient_clients st ms
  obtain ⟨conn, hc, hopen⟩ := (h.link k).socket hconn
  rw [link_of_sock hs] at hc
  obtain rfl := Option.some.inj hc
  refine ⟨_, msg, h.wired.entry fd c hfd, hmsg, ?_, ?_⟩
  · exact congrFun hcl k
  · rw [link_of_sock hs, link_of_sock (hcl ▸ hs), hsent]
    simp [Link.inFlight, Connection.sendDown, hopen]

end System

end MemoryGovernor
