import MemoryGovernor.System.Wiring

/-!
# What a step does to one client

The results about a client look at it together with the connection that its socket is. A step of the
whole system does one of a few things to these, whoever moves: `LinkStep` has a constructor for
each, and `step_linkStep` says that there are no others. A property of one client's link is then an
induction over link steps, without the other clients, the descriptors and the table.
-/

namespace MemoryGovernor

open ClientRegistry (replay commandMessage)

/-- One step, seen from client `k`. `Commanded` holds of the messages that the daemon may send. -/
inductive LinkStep (A : LinkedHeap.Allocator) (k : ClientId) (Commanded : Message → Prop) :
    Link → Link → Prop
  /-- Nothing changes. -/
  | same (l : Link) : LinkStep A k Commanded l l
  /-- The client moves by itself. -/
  | client {l l' : Link} {e : ClientEvent} {o : Option Message} :
      l.step A e = some (o, l') → LinkStep A k Commanded l l'
  /-- `start` finds the client connected. -/
  | starting (l : Link) :
      LinkStep A k Commanded l { l with client := { l.client with starting := true } }
  /-- `connect` opens a connection. -/
  | opened (l : Link) (c : ConnId) (starting : Bool) :
      LinkStep A k Commanded l
        ⟨{ l.client with sock_fd := some c, connected := true, starting := starting },
          some { peer := k }⟩
  /-- `stop` closes the socket. -/
  | stopped (l : Link) :
      LinkStep A k Commanded l
        ⟨{ l.client with sock_fd := none, connected := false, listening := false }, none⟩
  /-- The daemon reads a message. -/
  | read {client : Client} {conn : Connection} {msg : Message} {up : Channel Message} :
      conn.up.receive? = some (msg, up) →
      LinkStep A k Commanded ⟨client, some conn⟩ ⟨client, some { conn with up := up }⟩
  /-- The daemon closes its end. -/
  | closed (client : Client) (conn : Connection) :
      LinkStep A k Commanded ⟨client, some conn⟩
        ⟨client, some { conn with daemon_open := false }⟩
  /-- The daemon sends a command. -/
  | commanded {client : Client} {conn : Connection} {msg : Message} :
      Commanded msg →
      LinkStep A k Commanded ⟨client, some conn⟩ ⟨client, some (conn.sendDown msg)⟩

/-- What a link step does to the messages that the daemon has sent on the client's socket: the
socket is a connection that was just opened, or it is the same, and all there is besides is
commanded. -/
theorem LinkStep.sent_down {A : LinkedHeap.Allocator} {k : ClientId} {P : Message → Prop}
    {l l' : Link} (h : LinkStep A k P l l') {conn' : Connection} (hconn' : l'.conn = some conn') :
    conn'.down.sent = [] ∨ l'.client.sock_fd = l.client.sock_fd ∧
      ∃ conn, l.conn = some conn ∧ ∀ msg ∈ conn'.down.sent, msg ∈ conn.down.sent ∨ P msg := by
  cases h with
  | same => exact .inr ⟨rfl, conn', hconn', fun _ hm => .inl hm⟩
  | client hst =>
    obtain ⟨hsock, hconn⟩ := Prod.mk.inj (Link.step_ends hst)
    rw [hconn', Option.map_some] at hconn
    obtain ⟨conn, hl, hends⟩ := Option.map_eq_some_iff.1 hconn.symm
    simp only [Prod.mk.injEq] at hends
    exact .inr ⟨hsock, conn, hl, fun _ hm => .inl (hends.2.2 ▸ hm)⟩
  | starting => exact .inr ⟨rfl, conn', hconn', fun _ hm => .inl hm⟩
  | opened c starting =>
    obtain rfl := Option.some.inj hconn'
    exact .inl rfl
  | stopped => exact nomatch hconn'
  | read hrecv =>
    obtain rfl := Option.some.inj hconn'
    exact .inr ⟨rfl, _, rfl, fun _ hm => .inl hm⟩
  | closed client conn =>
    obtain rfl := Option.some.inj hconn'
    exact .inr ⟨rfl, _, rfl, fun _ hm => .inl hm⟩
  | commanded hP =>
    obtain rfl := Option.some.inj hconn'
    refine .inr ⟨rfl, _, rfl, fun msg hm => ?_⟩
    -- A write to a client that has closed its end is lost.
    unfold Connection.sendDown at hm
    split_ifs at hm
    · rw [Channel.sent_send] at hm
      rcases List.mem_append.1 hm with hm | hm
      · exact .inl hm
      · exact .inr (List.mem_singleton.1 hm ▸ hP)
    · exact .inl hm

namespace System

variable {st st' : System}

/-- The commands that event `e` sends to client `k`: what a broadcast computes from the entry of a
descriptor that is the client's socket. -/
def Commanded (st : System) (e : Event) (k : ClientId) (msg : Message) : Prop :=
  ∃ cmd fraction c fd info, e = .broadcast cmd fraction ∧ (st.clients k).sock_fd = some c ∧
    st.fds fd = some c ∧ st.registry.clients.lookup fd = some info ∧
    commandMessage cmd fraction info = some msg

/-! ## Broadcasts -/

@[simp]
theorem sendToClient_clients (st : System) (m : ℕ × Message) :
    (st.sendToClient m).clients = st.clients := by
  unfold sendToClient
  split <;> rfl

/-- A broadcast leaves the clients alone. -/
@[simp]
theorem foldl_sendToClient_clients (st : System) (ms : List (ℕ × Message)) :
    (ms.foldl sendToClient st).clients = st.clients := by
  induction ms generalizing st with
  | nil => rfl
  | cons m ms ih => rw [List.foldl_cons, ih, sendToClient_clients]

@[simp]
theorem foldl_sendToClient_fds (st : System) (ms : List (ℕ × Message)) :
    (ms.foldl sendToClient st).fds = st.fds := by
  induction ms generalizing st with
  | nil => rfl
  | cons m ms ih => rw [List.foldl_cons, ih, (sameWires_sendToClient st m).fds]

/-- Messages to other connections' descriptors leave a connection alone. -/
theorem foldl_sendToClient_conns {c : ConnId} {ms : List (ℕ × Message)}
    (h : ∀ m ∈ ms, st.fds m.1 ≠ some c) : (ms.foldl sendToClient st).conns c = st.conns c := by
  induction ms generalizing st with
  | nil => rfl
  | cons m ms ih =>
    have hfds : (st.sendToClient m).fds = st.fds := (sameWires_sendToClient st m).fds
    rw [List.foldl_cons, ih fun m' hm' => hfds ▸ h m' (List.mem_cons_of_mem _ hm')]
    have hm := h m List.mem_cons_self
    unfold sendToClient
    split
    · next d hd =>
      have hne : c ≠ d := fun heq => hm (heq ▸ hd)
      simp [hne]
    · rfl

/-- A broadcast sends a connection that is an open descriptor the command computed from its
entry. -/
theorem broadcast_conns (hw : Wired st) {cmd : Command} {fraction : ℚ}
    (h : st.broadcast cmd fraction = some st') {fd : ℕ} {c : ConnId} (hfd : st.fds fd = some c) :
    ∃ msg, commandMessage cmd fraction (replay fd (st.conns c).up.received) = some msg ∧
      st'.conns c = (st.conns c).sendDown msg := by
  obtain ⟨ms, hms, rfl⟩ := Option.map_eq_some_iff.1 h
  obtain ⟨hkeys, hmem⟩ := ClientRegistry.commands_spec hms
  have hentry := hw.entry fd c hfd
  have hkey : fd ∈ ms.map Prod.fst := by
    rw [hkeys]
    exact AList.lookup_isSome.1 (by rw [hentry]; rfl)
  obtain ⟨⟨fd', msg⟩, hm, hfst⟩ := List.mem_map.1 hkey
  obtain rfl : fd' = fd := hfst
  obtain ⟨info, hlook, hmsg⟩ := (hmem fd' msg).1 hm
  rw [hentry] at hlook
  obtain rfl := Option.some.inj hlook
  refine ⟨msg, hmsg, ?_⟩
  -- No other message of the broadcast goes to this connection.
  obtain ⟨l, l', rfl⟩ := List.append_of_mem hm
  have hnodup : ((l ++ (fd', msg) :: l').map Prod.fst).Nodup :=
    hkeys ▸ st.registry.clients.keys_nodup
  rw [List.map_append, List.map_cons] at hnodup
  have hother : ∀ m, m ∈ l ∨ m ∈ l' → st.fds m.1 ≠ some c := by
    intro m hm' hc
    have hsame : m.1 = fd' := hw.fd_inj m.1 fd' c hc hfd
    have hnot := List.nodup_middle.1 hnodup
    refine (List.nodup_cons.1 hnot).1 ?_
    rw [← List.map_append]
    exact List.mem_map.2 ⟨m, List.mem_append.2 hm', hsame⟩
  have hfds : (l.foldl sendToClient st).fds = st.fds := foldl_sendToClient_fds st l
  rw [List.foldl_append, List.foldl_cons, foldl_sendToClient_conns]
  · simp only [sendToClient, hfds, hfd, Function.update_self]
    rw [foldl_sendToClient_conns fun m hm' => hother m (.inl hm')]
  · intro m hm'
    rw [(sameWires_sendToClient _ _).fds, hfds]
    exact hother m (.inr hm')

/-- A broadcast leaves a connection alone that is no descriptor. -/
theorem broadcast_conns_of_not_open {cmd : Command} {fraction : ℚ}
    (h : st.broadcast cmd fraction = some st') {c : ConnId} (hc : ∀ fd, st.fds fd ≠ some c) :
    st'.conns c = st.conns c := by
  obtain ⟨ms, -, rfl⟩ := Option.map_eq_some_iff.1 h
  exact foldl_sendToClient_conns fun m _ => hc m.1

/-! ## Links -/

/-- A client whose socket is a connection. -/
theorem link_of_sock {k : ClientId} {c : ConnId} (h : (st.clients k).sock_fd = some c) :
    st.link k = ⟨st.clients k, some (st.conns c)⟩ := by
  rw [link, h, Option.map_some]

/-- A client without a socket. -/
theorem link_of_no_sock {k : ClientId} (h : (st.clients k).sock_fd = none) :
    st.link k = ⟨st.clients k, none⟩ := by
  rw [link, h, Option.map_none]

/-- A client keeps its link when neither it nor the connection of its socket changes. -/
theorem link_congr {k : ClientId} (hcl : st'.clients k = st.clients k)
    (hconn : ∀ c, (st.clients k).sock_fd = some c → st'.conns c = st.conns c) :
    st'.link k = st.link k := by
  cases hs : (st.clients k).sock_fd with
  | none => rw [link_of_no_sock hs, link_of_no_sock (hcl ▸ hs), hcl]
  | some c => rw [link_of_sock hs, link_of_sock (hcl ▸ hs), hcl, hconn c hs]

/-- The link of the client that moved by itself. -/
theorem link_setLink_self {k : ClientId} {l : Link} (h : l.ends = (st.link k).ends) :
    (st.setLink k l).link k = l := by
  obtain ⟨hsock, hconn⟩ := Prod.mk.inj h
  obtain ⟨client, conn⟩ := l
  cases hs : (st.clients k).sock_fd with
  | none =>
    simp only [link, hs, Option.map_none, Option.map_eq_none_iff] at hconn
    simp only [link, hs] at hsock
    simp [link, setLink, hs, hsock, hconn]
  | some c =>
    simp only [link, hs, Option.map_some] at hconn
    obtain ⟨conn, rfl, -⟩ := Option.map_eq_some_iff.1 hconn
    simp only [link, hs] at hsock
    simp [link, setLink, hs, hsock]

/-- Setting one client leaves the other clients' links alone. -/
theorem link_setClient_ne (st : System) {k k' : ClientId} {client : Client} (hk : k' ≠ k) :
    (st.setClient k client).link k' = st.link k' := by
  simp [link, setClient, hk]

/-- The other clients' links. -/
theorem link_setLink_ne (hw : Wired st) {k k' : ClientId} {l : Link} (hk : k' ≠ k) :
    (st.setLink k l).link k' = st.link k' := by
  refine link_congr (by simp [setLink, hk]) fun c hc => ?_
  have hne : (st.clients k).sock_fd ≠ some c := fun hc' => hk (hw.sock_inj hc hc')
  unfold setLink
  split
  · next d conn hd hl =>
    have hcd : c ≠ d := fun heq => hne (heq ▸ hd)
    simp [hcd]
  · rfl

/-- `connect` opens a connection for the client that calls it, unless it is connected. -/
theorem link_connect_self {k : ClientId} (h : (st.clients k).connected = false) :
    (st.connect k).link k =
      ⟨{ st.clients k with sock_fd := some st.opened, connected := true }, some { peer := k }⟩ := by
  simp [connect, h, link]

/-- It leaves the other clients' links alone. -/
theorem link_connect_ne (hw : Wired st) {k k' : ClientId} (hk : k' ≠ k) :
    (st.connect k).link k' = st.link k' := by
  unfold connect
  split_ifs
  · rfl
  · exact link_congr (by simp [hk]) fun c hc => by simp [(hw.sock_lt k' c hc).ne]

/-- `stop` closes the client's socket. -/
theorem link_stop_self (k : ClientId) :
    (st.stop k).link k =
      ⟨{ st.clients k with sock_fd := none, connected := false, listening := false }, none⟩ := by
  simp [stop, link]

/-- It leaves the other clients' links alone. -/
theorem link_stop_ne (hw : Wired st) {k k' : ClientId} (hk : k' ≠ k) :
    (st.stop k).link k' = st.link k' := by
  refine link_congr (by simp [stop, hk]) fun c hc => ?_
  have hne : (st.clients k).sock_fd ≠ some c := fun hc' => hk (hw.sock_inj hc hc')
  unfold stop
  split
  · next d hd =>
    have hcd : c ≠ d := fun heq => hne (heq ▸ hd)
    simp [hcd]
  · rfl

/-- A step that changes one connection and no client: what it does to that connection is a link step
of the client there, and the other clients see nothing. -/
theorem linkStep_of_conn {A : LinkedHeap.Allocator} {k : ClientId} {P : Message → Prop}
    {c : ConnId} {conn' : Connection} (hcl : st'.clients k = st.clients k)
    (hconns : ∀ d, (st.clients k).sock_fd = some d →
      st'.conns d = Function.update st.conns c conn' d)
    (h : LinkStep A k P ⟨st.clients k, some (st.conns c)⟩ ⟨st.clients k, some conn'⟩) :
    LinkStep A k P (st.link k) (st'.link k) := by
  -- The connection is the client's socket, or the client does not see the step.
  by_cases hs : (st.clients k).sock_fd = some c
  · have hc : st'.conns c = conn' := by rw [hconns c hs, Function.update_self]
    rw [link_of_sock hs, link_of_sock (hcl ▸ hs), hcl, hc]
    exact h
  · rw [link_congr hcl fun d hd => ?_]
    · exact .same _
    · have hdc : d ≠ c := fun heq => hs (heq ▸ hd)
      rw [hconns d hd, Function.update_of_ne hdc]

/-- A step of the whole system is a link step of every client. -/
theorem step_linkStep {A : ClientId → LinkedHeap.Allocator} {e : Event} {o : Option Message}
    (hw : Wired st) (hst : step A st e = some (o, st')) (k : ClientId) :
    LinkStep (A k) k (Commanded st e k) (st.link k) (st'.link k) := by
  cases e with
  | client k' e =>
    obtain ⟨⟨o', l⟩, hl, heq⟩ := Option.map_eq_some_iff.1 hst
    obtain ⟨-, rfl⟩ := Prod.mk.inj heq
    by_cases hk : k = k'
    · subst hk
      rw [link_setLink_self (Link.step_ends hl)]
      exact .client hl
    · rw [link_setLink_ne hw hk]
      exact .same _
  | connect k' =>
    obtain ⟨-, rfl⟩ := Prod.mk.inj (Option.some.inj hst)
    by_cases hk : k = k'
    · subst hk
      -- A connected client keeps its connection and registers again.
      by_cases hc : (st.clients k).connected = true
      · have hsame : st.connect k = st := by rw [connect, if_pos hc]
        rw [hsame]
        convert LinkStep.starting (st.link k) using 1
        simp [link, setClient]
      · convert LinkStep.opened (st.link k) st.opened true using 1
        simp [link, connect, setClient, hc]
    · rw [link_setClient_ne _ hk, link_connect_ne hw hk]
      exact .same _
  | reconnect k' =>
    simp only [step] at hst
    split_ifs at hst with hl
    obtain ⟨-, rfl⟩ := Prod.mk.inj (Option.some.inj hst)
    by_cases hk : k = k'
    · subst hk
      rw [link_connect_self (by simpa using hl.2)]
      exact .opened (st.link k) st.opened _
    · rw [link_connect_ne hw hk]
      exact .same _
  | stop k' =>
    obtain ⟨-, rfl⟩ := Prod.mk.inj (Option.some.inj hst)
    by_cases hk : k = k'
    · subst hk
      rw [link_stop_self]
      exact .stopped (st.link k)
    · rw [link_stop_ne hw hk]
      exact .same _
  | accept client_fd =>
    obtain ⟨-, hst⟩ := Machine.silent_eq_some.1 hst
    unfold accept at hst
    split at hst
    · obtain rfl := Option.some.inj hst
      exact .same _
    · cases hst
  | receive client_fd =>
    obtain ⟨-, hst⟩ := Machine.silent_eq_some.1 hst
    obtain ⟨c, -, hmap⟩ := Option.bind_eq_some_iff.1 hst
    obtain ⟨⟨msg, up⟩, hrecv, rfl⟩ := Option.map_eq_some_iff.1 hmap
    exact linkStep_of_conn rfl (fun _ _ => rfl) (.read hrecv)
  | remove client_fd =>
    obtain ⟨-, hst⟩ := Machine.silent_eq_some.1 hst
    obtain ⟨c, -, rfl⟩ := Option.map_eq_some_iff.1 hst
    exact linkStep_of_conn rfl (fun _ _ => rfl) (.closed _ _)
  | restart =>
    obtain ⟨-, rfl⟩ := Prod.mk.inj (Option.some.inj hst)
    cases hs : (st.clients k).sock_fd with
    | none =>
      have hs' : (st.restart.clients k).sock_fd = none := hs
      rw [link_of_no_sock hs', link_of_no_sock hs]
      exact .same _
    | some c =>
      have hs' : (st.restart.clients k).sock_fd = some c := hs
      rw [link_of_sock hs', link_of_sock hs]
      exact .closed _ _
  | broadcast cmd fraction =>
    obtain ⟨-, hst⟩ := Machine.silent_eq_some.1 hst
    have hcl : st'.clients = st.clients := by
      obtain ⟨ms, -, rfl⟩ := Option.map_eq_some_iff.1 hst
      exact foldl_sendToClient_clients st ms
    -- The client sees a message only if its socket is one of the daemon's descriptors.
    by_cases hopen : ∃ fd c, (st.clients k).sock_fd = some c ∧ st.fds fd = some c
    · obtain ⟨fd, c, hs, hfd⟩ := hopen
      obtain ⟨msg, hmsg, hconn⟩ := broadcast_conns hw hst hfd
      rw [link_of_sock hs, link_of_sock (hcl ▸ hs), hcl, hconn]
      exact .commanded ⟨cmd, fraction, c, fd, _, rfl, hs, hfd, hw.entry fd c hfd, hmsg⟩
    · rw [link_congr (congrFun hcl k) fun c hs => broadcast_conns_of_not_open hst fun fd hfd =>
        hopen ⟨fd, c, hs, hfd⟩]
      exact .same _

end System

end MemoryGovernor
