import MemoryGovernor.Lib.Machine
import MemoryGovernor.System.Step

/-!
# How clients, connections and descriptors hang together

`Wired` is the invariant of the plumbing: every open descriptor has an entry, which is what the
messages read from its connection made of it; no two descriptors are one connection, and neither are
two clients' sockets. It depends only on what `SameWires` compares (`Wired.congr`), which a client
by itself and a broadcast leave alone, so only the steps that open, accept, read or close need a
proof (`step_wired`).
-/

namespace MemoryGovernor

open ClientRegistry (replay)

namespace System

/-- The invariant of the plumbing. -/
structure Wired (st : System) : Prop where
  /-- An open descriptor has the entry that its connection's messages made. -/
  entry : ∀ fd c, st.fds fd = some c →
    st.registry.clients.lookup fd = some (replay fd (st.conns c).up.received)
  /-- No other descriptor has an entry. -/
  no_entry : ∀ fd, st.fds fd = none → st.registry.clients.lookup fd = none
  /-- Two descriptors are two connections. -/
  fd_inj : ∀ fd fd' c, st.fds fd = some c → st.fds fd' = some c → fd = fd'
  fd_lt : ∀ fd c, st.fds fd = some c → c < st.opened
  backlog_lt : ∀ c ∈ st.backlog, c < st.opened
  backlog_nodup : st.backlog.Nodup
  /-- A connection that waits to be accepted is no descriptor yet, and nothing is read from it. -/
  backlog_fd : ∀ c ∈ st.backlog, ∀ fd, st.fds fd ≠ some c
  backlog_unread : ∀ c ∈ st.backlog, (st.conns c).up.received = []
  sock_lt : ∀ k c, (st.clients k).sock_fd = some c → c < st.opened
  /-- A client's socket is a connection that it opened. -/
  sock_peer : ∀ k c, (st.clients k).sock_fd = some c → (st.conns c).peer = k

/-- What the plumbing depends on. -/
structure SameWires (st st' : System) : Prop where
  registry : st'.registry = st.registry
  fds : st'.fds = st.fds
  backlog : st'.backlog = st.backlog
  opened : st'.opened = st.opened
  sock : ∀ k, (st'.clients k).sock_fd = (st.clients k).sock_fd
  peer : ∀ c, (st'.conns c).peer = (st.conns c).peer
  received : ∀ c, (st'.conns c).up.received = (st.conns c).up.received

variable {st st' : System}

/-- A step that keeps the wires keeps the invariant. -/
theorem Wired.congr (h : Wired st) (hs : SameWires st st') : Wired st' where
  entry fd c := by
    rw [hs.fds, hs.registry, hs.received]
    exact h.entry fd c
  no_entry fd := by
    rw [hs.fds, hs.registry]
    exact h.no_entry fd
  fd_inj fd fd' c := by
    rw [hs.fds]
    exact h.fd_inj fd fd' c
  fd_lt fd c := by
    rw [hs.fds, hs.opened]
    exact h.fd_lt fd c
  backlog_lt c := by
    rw [hs.backlog, hs.opened]
    exact h.backlog_lt c
  backlog_nodup := by
    rw [hs.backlog]
    exact h.backlog_nodup
  backlog_fd c := by
    rw [hs.backlog, hs.fds]
    exact h.backlog_fd c
  backlog_unread c := by
    rw [hs.backlog, hs.received]
    exact h.backlog_unread c
  sock_lt k c := by
    rw [hs.sock, hs.opened]
    exact h.sock_lt k c
  sock_peer k c := by
    rw [hs.sock, hs.peer]
    exact h.sock_peer k c

/-- Two clients' sockets are two connections. -/
theorem Wired.sock_inj (h : Wired st) {k k' : ClientId} {c : ConnId}
    (hk : (st.clients k).sock_fd = some c) (hk' : (st.clients k').sock_fd = some c) : k = k' :=
  (h.sock_peer k c hk).symm.trans (h.sock_peer k' c hk')

theorem wired_init (configs : ClientId → ClientConfig) : Wired (init configs) where
  entry _ _ hfd := nomatch hfd
  no_entry fd _ := AList.lookup_empty fd
  fd_inj _ _ _ hfd := nomatch hfd
  fd_lt _ _ hfd := nomatch hfd
  backlog_lt _ hc := nomatch hc
  backlog_nodup := List.nodup_nil
  backlog_fd _ hc := nomatch hc
  backlog_unread _ hc := nomatch hc
  sock_lt _ _ hc := nomatch hc
  sock_peer _ _ hc := nomatch hc

/-! ## The steps that keep the wires -/

/-- A client by itself keeps them. -/
theorem sameWires_setLink {k : ClientId} {l : Link} (h : l.ends = (st.link k).ends) :
    SameWires st (st.setLink k l) := by
  obtain ⟨hsock, hconn⟩ := Prod.mk.inj h
  refine ⟨rfl, rfl, rfl, rfl, fun k' => ?_, fun c => ?_, fun c => ?_⟩
  · by_cases hk : k' = k
    · subst hk
      simpa [setLink, link] using hsock
    · simp [setLink, hk]
  all_goals
    cases hs : (st.clients k).sock_fd with
    | none => simp [setLink, hs]
    | some d =>
      simp only [link, hs, Option.map_some] at hconn
      obtain ⟨conn, hl, hends⟩ := Option.map_eq_some_iff.1 hconn
      simp only [Prod.mk.injEq] at hends
      obtain ⟨hpeer, hrecv, -⟩ := hends
      by_cases hc : c = d
      · subst hc
        simpa [setLink, hs, hl]
      · simp [setLink, hs, hl, hc]

/-- Setting a client's flags keeps them. -/
theorem sameWires_setClient {k : ClientId} {cl : Client}
    (h : cl.sock_fd = (st.clients k).sock_fd) :
    SameWires st (st.setClient k cl) := by
  refine ⟨rfl, rfl, rfl, rfl, fun k' => ?_, fun c => rfl, fun c => rfl⟩
  by_cases hk : k' = k
  · subst hk
    simpa [setClient] using h
  · simp [setClient, hk]

/-- Writing to a client keeps them. -/
theorem sameWires_sendToClient (st : System) (m : ℕ × Message) :
    SameWires st (st.sendToClient m) := by
  unfold sendToClient
  split
  · next c hfd =>
    refine ⟨rfl, rfl, rfl, rfl, fun k => rfl, fun d => ?_, fun d => ?_⟩
    all_goals
      by_cases hd : d = c
      · subst hd
        simp only [Function.update_self, Connection.sendDown]
        split_ifs <;> rfl
      · simp [hd]
  · exact ⟨rfl, rfl, rfl, rfl, fun _ => rfl, fun _ => rfl, fun _ => rfl⟩

/-! ## The steps that change them -/

theorem Wired.connect (h : Wired st) (k : ClientId) : Wired (st.connect k) := by
  unfold System.connect
  split_ifs
  · exact h
  -- The connection opened is none of those there were.
  have hne : ∀ {c}, c < st.opened → c ≠ st.opened := fun hlt => hlt.ne
  constructor
  · intro fd c hfd
    simpa [hne (h.fd_lt fd c hfd)] using h.entry fd c hfd
  · exact h.no_entry
  · exact h.fd_inj
  · exact fun fd c hfd => Nat.lt_succ_of_lt (h.fd_lt fd c hfd)
  · intro c hc
    rcases List.mem_append.1 hc with hc | hc
    · exact Nat.lt_succ_of_lt (h.backlog_lt c hc)
    · rw [List.mem_singleton.1 hc]
      exact Nat.lt_succ_self _
  · refine List.nodup_append.2 ⟨h.backlog_nodup, List.nodup_singleton _, fun c hc d hd => ?_⟩
    rw [List.mem_singleton.1 hd]
    exact hne (h.backlog_lt c hc)
  · intro c hc fd hfd
    rcases List.mem_append.1 hc with hc | hc
    · exact h.backlog_fd c hc fd hfd
    · exact hne (h.fd_lt fd c hfd) (List.mem_singleton.1 hc)
  · intro c hc
    rcases List.mem_append.1 hc with hc | hc
    · simpa [hne (h.backlog_lt c hc)] using h.backlog_unread c hc
    · simp [List.mem_singleton.1 hc]
  · intro k' c hc
    by_cases hk : k' = k
    · subst hk
      obtain rfl : st.opened = c := by simpa using hc
      exact Nat.lt_succ_self _
    · exact Nat.lt_succ_of_lt (h.sock_lt k' c (by simpa [hk] using hc))
  · intro k' c hc
    by_cases hk : k' = k
    · subst hk
      obtain rfl : st.opened = c := by simpa using hc
      simp
    · have hc' : (st.clients k').sock_fd = some c := by simpa [hk] using hc
      simpa [hne (h.sock_lt k' c hc')] using h.sock_peer k' c hc'

theorem Wired.stop (h : Wired st) (k : ClientId) : Wired (st.stop k) := by
  -- What is read and who opened a connection stay; the client only lets go of its socket.
  have hconn : ∀ c, ((st.stop k).conns c).peer = (st.conns c).peer ∧
      ((st.stop k).conns c).up.received = (st.conns c).up.received := by
    intro c
    unfold System.stop
    cases (st.clients k).sock_fd with
    | none => exact ⟨rfl, rfl⟩
    | some d => by_cases hc : c = d <;> simp [hc]
  have hsock : ∀ k' c, ((st.stop k).clients k').sock_fd = some c →
      (st.clients k').sock_fd = some c := by
    intro k' c hc
    by_cases hk : k' = k
    · subst hk
      simp [System.stop] at hc
    · simpa [System.stop, hk] using hc
  exact {
    entry := fun fd c hfd => by
      rw [(hconn c).2]
      exact h.entry fd c hfd
    no_entry := h.no_entry
    fd_inj := h.fd_inj
    fd_lt := h.fd_lt
    backlog_lt := h.backlog_lt
    backlog_nodup := h.backlog_nodup
    backlog_fd := h.backlog_fd
    backlog_unread := fun c hc => by
      rw [(hconn c).2]
      exact h.backlog_unread c hc
    sock_lt := fun k' c hc => h.sock_lt k' c (hsock k' c hc)
    sock_peer := fun k' c hc => by
      rw [(hconn c).1]
      exact h.sock_peer k' c (hsock k' c hc) }

theorem Wired.accept (h : Wired st) {client_fd : ℕ} (hst : st.accept client_fd = some st') :
    Wired st' := by
  unfold System.accept at hst
  split at hst
  case h_2 => cases hst
  case h_1 c rest hbacklog hfree =>
  obtain rfl := Option.some.inj hst
  have hmem : c ∈ st.backlog := by simp [hbacklog]
  have hrest : ∀ d ∈ rest, d ∈ st.backlog := fun d hd => by simp [hbacklog, hd]
  have hnodup := h.backlog_nodup
  rw [hbacklog] at hnodup
  obtain ⟨hnotMem, hnodup⟩ := List.nodup_cons.1 hnodup
  -- Which connection a descriptor is afterwards.
  have hfd : ∀ fd d, Function.update st.fds client_fd (some c) fd = some d ↔
      (fd = client_fd ∧ d = c) ∨ (fd ≠ client_fd ∧ st.fds fd = some d) := by
    intro fd d
    by_cases hf : fd = client_fd <;> simp [hf, eq_comm]
  constructor
  · intro fd d hd
    rw [ClientRegistry.lookup_addClient]
    rcases (hfd fd d).1 hd with ⟨rfl, rfl⟩ | ⟨hne, hd⟩
    · simp [h.backlog_unread _ hmem]
    · rw [if_neg hne]
      exact h.entry fd d hd
  · intro fd hnone
    by_cases hf : fd = client_fd
    · simp [hf] at hnone
    · rw [ClientRegistry.lookup_addClient, if_neg hf]
      exact h.no_entry fd (by simpa [hf] using hnone)
  · intro fd fd' d hd hd'
    rcases (hfd fd d).1 hd with ⟨hf, hc⟩ | ⟨-, hold⟩ <;>
      rcases (hfd fd' d).1 hd' with ⟨hf', hc'⟩ | ⟨-, hold'⟩
    · exact hf.trans hf'.symm
    · exact absurd (hc ▸ hold') (h.backlog_fd c hmem fd')
    · exact absurd (hc' ▸ hold) (h.backlog_fd c hmem fd)
    · exact h.fd_inj fd fd' d hold hold'
  · intro fd d hd
    rcases (hfd fd d).1 hd with ⟨rfl, rfl⟩ | ⟨-, hd⟩
    · exact h.backlog_lt _ hmem
    · exact h.fd_lt fd d hd
  · exact fun d hd => h.backlog_lt d (hrest d hd)
  · exact hnodup
  · intro d hd fd hd'
    rcases (hfd fd d).1 hd' with ⟨rfl, rfl⟩ | ⟨-, hd'⟩
    · exact hnotMem hd
    · exact h.backlog_fd d (hrest d hd) fd hd'
  · exact fun d hd => h.backlog_unread d (hrest d hd)
  · exact h.sock_lt
  · exact h.sock_peer

theorem Wired.receive (h : Wired st) {client_fd : ℕ} (hst : st.receive client_fd = some st') :
    Wired st' := by
  obtain ⟨c, hc, hmap⟩ := Option.bind_eq_some_iff.1 hst
  obtain ⟨⟨msg, up⟩, hrecv, rfl⟩ := Option.map_eq_some_iff.1 hmap
  -- The message joins those read from the connection as the entry records it.
  have hreceived := (Channel.receive?_eq_some.1 hrecv).2
  have hne : ∀ d, d ∈ st.backlog → d ≠ c := fun d hd heq => h.backlog_fd d hd client_fd (heq ▸ hc)
  constructor
  · intro fd d hd
    rw [ClientRegistry.lookup_handleMessage]
    by_cases hf : fd = client_fd
    · subst hf
      obtain rfl : c = d := Option.some.inj (hc.symm.trans hd)
      simp [h.entry fd c hc, hreceived]
    · have hdc : d ≠ c := fun heq => hf (h.fd_inj fd client_fd c (heq ▸ hd) hc)
      simpa [hf, hdc] using h.entry fd d hd
  · intro fd hnone
    have hnone : st.fds fd = none := hnone
    have hf : fd ≠ client_fd := fun heq => by simp [← heq, hnone] at hc
    rw [ClientRegistry.lookup_handleMessage, if_neg hf]
    exact h.no_entry fd hnone
  · exact h.fd_inj
  · exact h.fd_lt
  · exact h.backlog_lt
  · exact h.backlog_nodup
  · exact h.backlog_fd
  · intro d hd
    simpa [hne d hd] using h.backlog_unread d hd
  · exact h.sock_lt
  · intro k d hd
    by_cases hdc : d = c
    · subst hdc
      simpa using h.sock_peer k d hd
    · simpa [hdc] using h.sock_peer k d hd

theorem Wired.remove (h : Wired st) {client_fd : ℕ} (hst : st.remove client_fd = some st') :
    Wired st' := by
  obtain ⟨c, -, rfl⟩ := Option.map_eq_some_iff.1 hst
  have hfd : ∀ fd d, Function.update st.fds client_fd none fd = some d ↔
      fd ≠ client_fd ∧ st.fds fd = some d := by
    intro fd d
    by_cases hf : fd = client_fd <;> simp [hf]
  -- Closing an end changes neither who opened the connection nor what was read from it.
  have hconn : ∀ d, (Function.update st.conns c { st.conns c with daemon_open := false } d).peer =
      (st.conns d).peer ∧
      (Function.update st.conns c { st.conns c with daemon_open := false } d).up.received =
      (st.conns d).up.received := by
    intro d
    by_cases hd : d = c <;> simp [hd]
  constructor
  · intro fd d hd
    obtain ⟨hne, hd⟩ := (hfd fd d).1 hd
    rw [ClientRegistry.lookup_removeClient, if_neg hne, (hconn d).2]
    exact h.entry fd d hd
  · intro fd hnone
    rw [ClientRegistry.lookup_removeClient]
    by_cases hf : fd = client_fd
    · rw [if_pos hf]
    · rw [if_neg hf]
      exact h.no_entry fd (by simpa [hf] using hnone)
  · exact fun fd fd' d hd hd' => h.fd_inj fd fd' d ((hfd fd d).1 hd).2 ((hfd fd' d).1 hd').2
  · exact fun fd d hd => h.fd_lt fd d ((hfd fd d).1 hd).2
  · exact h.backlog_lt
  · exact h.backlog_nodup
  · exact fun d hd fd hd' => h.backlog_fd d hd fd ((hfd fd d).1 hd').2
  · intro d hd
    rw [(hconn d).2]
    exact h.backlog_unread d hd
  · exact h.sock_lt
  · intro k d hd
    rw [(hconn d).1]
    exact h.sock_peer k d hd

theorem Wired.restart (h : Wired st) : Wired st.restart where
  entry _ _ hfd := nomatch hfd
  no_entry fd _ := AList.lookup_empty fd
  fd_inj _ _ _ hfd := nomatch hfd
  fd_lt _ _ hfd := nomatch hfd
  backlog_lt _ hc := nomatch hc
  backlog_nodup := List.nodup_nil
  backlog_fd _ hc := nomatch hc
  backlog_unread _ hc := nomatch hc
  sock_lt := h.sock_lt
  sock_peer := h.sock_peer

theorem Wired.foldl_sendToClient (h : Wired st) (ms : List (ℕ × Message)) :
    Wired (ms.foldl sendToClient st) := by
  induction ms generalizing st with
  | nil => exact h
  | cons m ms ih => exact ih (h.congr (sameWires_sendToClient st m))

theorem Wired.broadcast (h : Wired st) {cmd : Command} {fraction : ℚ}
    (hst : st.broadcast cmd fraction = some st') : Wired st' := by
  obtain ⟨ms, -, rfl⟩ := Option.map_eq_some_iff.1 hst
  exact h.foldl_sendToClient ms

/-- Every step keeps the invariant. -/
theorem step_wired {A : ClientId → LinkedHeap.Allocator} {e : Event} {o : Option Message}
    (h : Wired st) (hst : step A st e = some (o, st')) : Wired st' := by
  cases e with
  | client k e =>
    obtain ⟨⟨o', l⟩, hl, heq⟩ := Option.map_eq_some_iff.1 hst
    obtain ⟨-, rfl⟩ := Prod.mk.inj heq
    exact h.congr (sameWires_setLink (Link.step_ends hl))
  | connect k =>
    obtain ⟨-, rfl⟩ := Prod.mk.inj (Option.some.inj hst)
    exact (h.connect k).congr (sameWires_setClient rfl)
  | reconnect k =>
    simp only [step] at hst
    split_ifs at hst
    obtain ⟨-, rfl⟩ := Prod.mk.inj (Option.some.inj hst)
    exact h.connect k
  | stop k =>
    obtain ⟨-, rfl⟩ := Prod.mk.inj (Option.some.inj hst)
    exact h.stop k
  | accept client_fd =>
    obtain ⟨-, hst⟩ := Machine.silent_eq_some.1 hst
    exact h.accept hst
  | receive client_fd =>
    obtain ⟨-, hst⟩ := Machine.silent_eq_some.1 hst
    exact h.receive hst
  | remove client_fd =>
    obtain ⟨-, hst⟩ := Machine.silent_eq_some.1 hst
    exact h.remove hst
  | restart =>
    obtain ⟨-, rfl⟩ := Prod.mk.inj (Option.some.inj hst)
    exact h.restart
  | broadcast cmd fraction =>
    obtain ⟨-, hst⟩ := Machine.silent_eq_some.1 hst
    exact h.broadcast hst

end System

end MemoryGovernor
