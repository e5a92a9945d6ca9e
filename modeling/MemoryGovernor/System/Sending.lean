import MemoryGovernor.System.Link
import MemoryGovernor.System.Sockets
import MemoryGovernor.Wire.Codec

/-!
# Threads that send

`send_message` of `src/client/governor_client.cpp`, with `register_cache` and `report_size`, which
any thread may call. A thread looks at `connected_`, takes `send_mutex_`, and writes the frame to
`sock_fd_` in as many pieces as the kernel likes. It reads `sock_fd_` again for each piece, and the
mutex keeps only other senders away: `connect`, `disconnect`, `stop_listening` and the listener's
loop (`ClientSocket`) change the socket without it.

So a frame may be cut off, and its rest go to the next connection. A run is `Undivided` where no
connection is made while a part of a frame is written and a frame in parts fails only with its
connection. Then what is written to a connection are the frames of the messages for which
`send_message` returned true on it, and at the end a part of one more (`run_streams`).
-/

namespace MemoryGovernor

/-- Where a thread is in `send_message`. -/
inductive SendControl
  /-- In none of its calls. -/
  | idle
  /-- It has seen `connected_`, and is about to take `send_mutex_`. -/
  | locking (msg : Message)
  /-- In the loop over the writes, with the mutex. -/
  | writing (msg : Message) (total_written : ℕ)
deriving DecidableEq, Repr

/-- A socket, as the kernel has it. -/
inductive SocketState
  | unconnected
  | connected
  /-- The daemon has closed its end. -/
  | closed
deriving DecidableEq, Repr

/-- What `write` returns. -/
inductive WriteResult
  | written (n : ℕ)
  /-- 0 or an error. -/
  | failed
deriving DecidableEq, Repr

/-- What a call of `send_message` returned: the connection that its last bytes went to for `true`,
none for `false`. -/
structure Returned where
  msg : Message
  conn : Option ConnId
deriving DecidableEq, Repr

/-- `GovernorClient`, its sending threads, and the kernel's side of its sockets. -/
structure SendingClient where
  client : ClientSocket := {}
  /-- The connection that a descriptor is. -/
  conns : ℕ → ConnId := fun _ => 0
  /-- The number of connections so far, one for each call of `socket`. -/
  opened : ℕ := 0
  /-- What the owner and the listener have called `::connect` with. -/
  owner_conn : ConnId := 0
  loop_conn : ConnId := 0
  state : ConnId → SocketState := fun _ => .unconnected
  /-- What has been written to a connection. -/
  stream : ConnId → Bytes := fun _ => []
  send_mutex : Option ℕ := none
  threads : ℕ → SendControl := fun _ => .idle

/-- What happens next. -/
inductive SendEvent
  /-- A step of the owner or of the listener. -/
  | socket (e : SocketEvent)
  /-- The daemon closes its end of a connection. -/
  | hangup (c : ConnId)
  /-- A thread calls `send_message`. -/
  | call (thread : ℕ) (msg : Message)
  /-- A thread gets the mutex. -/
  | lock (thread : ℕ)
  /-- The `write` of a thread returns. -/
  | write (thread : ℕ) (r : WriteResult)
deriving DecidableEq, Repr

namespace SendingClient

/-- The connection that `sock_fd_` is. -/
def current (s : SendingClient) : Option ConnId := s.client.sock_fd.map s.conns

/-- `socket` returns a descriptor of a new connection. -/
def addConn (s : SendingClient) (fd : ℕ) : SendingClient :=
  { s with conns := Function.update s.conns fd s.opened, opened := s.opened + 1 }

/-- What the kernel does at a step of the owner or of the listener. -/
def track (s : SendingClient) : SocketEvent → SendingClient
  | .connect (some fd) =>
    if s.client.connected then s else { s.addConn fd with owner_conn := s.opened }
  | .reconnect (some fd) =>
    if s.client.connected then s else { s.addConn fd with loop_conn := s.opened }
  | .connected true => { s with state := Function.update s.state s.owner_conn .connected }
  | .reconnected true => { s with state := Function.update s.state s.loop_conn .connected }
  | _ => s

/-- The end of `send_message`: the mutex is free again. -/
def leave (s : SendingClient) (thread : ℕ) : SendingClient :=
  { s with send_mutex := none, threads := Function.update s.threads thread .idle }

/-- A `write` of the rest of a frame returns. -/
def write (s : SendingClient) (thread : ℕ) (msg : Message) (total_written : ℕ) :
    WriteResult → Option (Option Returned × SendingClient)
  | .failed =>
    some (some ⟨msg, none⟩, { s.leave thread with client := { s.client with connected := false } })
  | .written n =>
    match s.current with
    | none => none
    | some c =>
      if s.state c = .connected ∧ 1 ≤ n ∧ total_written + n ≤ msg.frame.length then
        let t := { s with
          stream := Function.update s.stream c
            (s.stream c ++ (msg.frame.drop total_written).take n) }
        if total_written + n < msg.frame.length then
          some (none, { t with
            threads := Function.update s.threads thread (.writing msg (total_written + n)) })
        else some (some ⟨msg, some c⟩, t.leave thread)
      else none

/-- One step. -/
def step (s : SendingClient) : SendEvent → Option (Option Returned × SendingClient)
  | .socket e =>
    match e with
    | .send _ => none
    | _ => (s.client.step e).map fun r => (none, { s.track e with client := r.2 })
  | .hangup c =>
    if s.state c = .connected then
      some (none, { s with state := Function.update s.state c .closed })
    else none
  | .call thread msg =>
    if s.threads thread = .idle then
      if s.client.connected then
        some (none, { s with threads := Function.update s.threads thread (.locking msg) })
      else some (some ⟨msg, none⟩, s)
    else none
  | .lock thread =>
    match s.threads thread, s.send_mutex with
    | .locking msg, none =>
      some (none, { s with
        send_mutex := some thread
        threads := Function.update s.threads thread (.writing msg 0) })
    | _, _ => none
  | .write thread r =>
    match s.threads thread with
    | .writing msg total_written => s.write thread msg total_written r
    | _ => none

/-- What of a frame is written, if a thread is writing one. -/
def part (s : SendingClient) : Bytes :=
  match s.send_mutex with
  | none => []
  | some thread =>
    match s.threads thread with
    | .writing msg total_written => msg.frame.take total_written
    | _ => []

/-- The socket is this connection, and the daemon has it open. -/
def Live (s : SendingClient) (c : ConnId) : Prop := s.current = some c ∧ s.state c = .connected

instance (s : SendingClient) (c : ConnId) : Decidable (s.Live c) :=
  inferInstanceAs (Decidable (_ ∧ _))

/-- No connection is made while a part of a frame is written, and a frame in parts fails only with
its connection. -/
def Undivided (s : SendingClient) : SendEvent → Prop
  | .socket (.connected true) | .socket (.reconnected true) => s.part = []
  | .write _ .failed => s.part = [] ∨ ∀ c ∈ s.current, s.state c ≠ .connected
  | _ => True

instance (s : SendingClient) : ∀ e, Decidable (s.Undivided e)
  | .socket (.connected true) | .socket (.reconnected true) =>
    inferInstanceAs (Decidable (s.part = []))
  | .write _ .failed =>
    inferInstanceAs (Decidable (s.part = [] ∨ ∀ c ∈ s.current, s.state c ≠ .connected))
  | .socket (.connect _) | .socket (.connected false) | .socket .disconnect
  | .socket .start_listening | .socket .stop_listening | .socket .joined | .socket (.send _)
  | .socket .loop | .socket (.reconnect _) | .socket (.reconnected false) | .socket (.length _)
  | .socket (.payload _) | .socket .dispatch | .hangup _ | .call _ _ | .lock _
  | .write _ (.written _) => isTrue trivial

/-- The messages for which `send_message` has returned true on a connection. -/
def delivered (c : ConnId) (outs : List (Option Returned)) : List Message :=
  outs.filterMap fun o => o.bind fun r => if r.conn = some c then some r.msg else none

/-! ## What a step does -/

/-- The ways in which a step goes. -/
inductive Steps (s : SendingClient) : SendEvent → Option Returned → SendingClient → Prop
  | socket {e : SocketEvent} {t : ClientSocket} (hsend : ∀ ok, e ≠ .send ok)
      (hstep : s.client.step e = some ((), t)) :
      Steps s (.socket e) none { s.track e with client := t }
  | hangup {c : ConnId} (hc : s.state c = .connected) :
      Steps s (.hangup c) none { s with state := Function.update s.state c .closed }
  | refuse {thread : ℕ} {msg : Message} (hconn : s.client.connected = false) :
      Steps s (.call thread msg) (some ⟨msg, none⟩) s
  | call {thread : ℕ} {msg : Message} (hidle : s.threads thread = .idle) :
      Steps s (.call thread msg) none
        { s with threads := Function.update s.threads thread (.locking msg) }
  | lock {thread : ℕ} {msg : Message} (hthread : s.threads thread = .locking msg)
      (hmutex : s.send_mutex = none) :
      Steps s (.lock thread) none { s with
        send_mutex := some thread
        threads := Function.update s.threads thread (.writing msg 0) }
  | failed {thread total_written : ℕ} {msg : Message}
      (hthread : s.threads thread = .writing msg total_written) :
      Steps s (.write thread .failed) (some ⟨msg, none⟩)
        { s.leave thread with client := { s.client with connected := false } }
  | part {thread total_written n : ℕ} {msg : Message} {c : ConnId}
      (hthread : s.threads thread = .writing msg total_written) (hlive : s.Live c)
      (hlt : total_written + n < msg.frame.length) :
      Steps s (.write thread (.written n)) none { s with
        stream := Function.update s.stream c (s.stream c ++ (msg.frame.drop total_written).take n)
        threads := Function.update s.threads thread (.writing msg (total_written + n)) }
  | last {thread total_written n : ℕ} {msg : Message} {c : ConnId}
      (hthread : s.threads thread = .writing msg total_written) (hlive : s.Live c)
      (hall : total_written + n = msg.frame.length) :
      Steps s (.write thread (.written n)) (some ⟨msg, some c⟩) ({ s with
        stream := Function.update s.stream c
          (s.stream c ++ (msg.frame.drop total_written).take n) }.leave thread)

/-- So does a `write`. -/
theorem steps_of_write {s t : SendingClient} {thread total_written : ℕ} {msg : Message}
    {r : WriteResult} {o : Option Returned}
    (hthread : s.threads thread = .writing msg total_written)
    (h : s.write thread msg total_written r = some (o, t)) : Steps s (.write thread r) o t := by
  cases r with
  | failed =>
    obtain ⟨rfl, rfl⟩ := Prod.mk.inj (Option.some.inj h)
    exact .failed hthread
  | written n =>
    simp only [write] at h
    split at h
    next => cases h
    next c hcurrent =>
      rw [Option.ite_none_right_eq_some] at h
      obtain ⟨⟨hstate, -, hle⟩, h⟩ := h
      split_ifs at h with hlt
      · obtain ⟨rfl, rfl⟩ := Prod.mk.inj (Option.some.inj h)
        exact .part hthread ⟨hcurrent, hstate⟩ hlt
      · obtain ⟨rfl, rfl⟩ := Prod.mk.inj (Option.some.inj h)
        exact .last hthread ⟨hcurrent, hstate⟩ (le_antisymm hle (not_lt.1 hlt))

/-- A step that is defined goes in one of these ways. -/
theorem steps_of_step {s t : SendingClient} {e : SendEvent} {o : Option Returned}
    (hstep : s.step e = some (o, t)) : Steps s e o t := by
  cases e with
  | socket e =>
    simp only [step] at hstep
    split at hstep
    next => cases hstep
    next hsend =>
      obtain ⟨⟨_, u⟩, hu, heq⟩ := Option.map_eq_some_iff.1 hstep
      obtain ⟨rfl, rfl⟩ := Prod.mk.inj heq
      exact .socket hsend hu
  | hangup c =>
    simp only [step] at hstep
    split_ifs at hstep with hc
    obtain ⟨rfl, rfl⟩ := Prod.mk.inj (Option.some.inj hstep)
    exact .hangup hc
  | call thread msg =>
    simp only [step] at hstep
    split_ifs at hstep with hidle hconn
    · obtain ⟨rfl, rfl⟩ := Prod.mk.inj (Option.some.inj hstep)
      exact .call hidle
    · obtain ⟨rfl, rfl⟩ := Prod.mk.inj (Option.some.inj hstep)
      exact .refuse (Bool.eq_false_iff.2 hconn)
  | lock thread =>
    simp only [step] at hstep
    split at hstep
    next msg hthread hmutex =>
      obtain ⟨rfl, rfl⟩ := Prod.mk.inj (Option.some.inj hstep)
      exact .lock hthread hmutex
    next => cases hstep
  | write thread r =>
    simp only [step] at hstep
    split at hstep
    next msg total_written hthread => exact steps_of_write hthread hstep
    next => cases hstep

/-! ## The sockets -/

section Sockets

variable {s t : SendingClient} {c : ConnId} {outs : List (Option Returned)}

/-- The numbers of connections are new, and what `::connect` was called with is not connected
yet. -/
structure Numbered (s : SendingClient) : Prop where
  current_lt : ∀ c, s.current = some c → c < s.opened
  fresh : ∀ c, s.opened ≤ c → s.state c = .unconnected
  owner : s.client.owner = .connecting →
    s.owner_conn < s.opened ∧ s.state s.owner_conn = .unconnected
  loop : s.client.loop = .connecting →
    s.loop_conn < s.opened ∧ s.state s.loop_conn = .unconnected
  ne : s.client.owner = .connecting → s.client.loop = .connecting → s.owner_conn ≠ s.loop_conn

/-- Where no connection is new and no thread gets into `connect`, the numbers stay right. -/
theorem Numbered.of_eq (h : s.Numbered) (hopened : t.opened = s.opened) (hstate : t.state = s.state)
    (hcurrent : t.current = s.current ∨ t.current = none)
    (howner : t.client.owner = .connecting →
      s.client.owner = .connecting ∧ t.owner_conn = s.owner_conn)
    (hloop : t.client.loop = .connecting →
      s.client.loop = .connecting ∧ t.loop_conn = s.loop_conn) : t.Numbered := by
  refine ⟨fun c hc => ?_, ?_, fun ho => ?_, fun hl => ?_, fun ho hl => ?_⟩
  · rcases hcurrent with heq | hnone
    · rw [hopened]
      exact h.current_lt c (heq ▸ hc)
    · rw [hnone] at hc
      cases hc
  · rw [hopened, hstate]
    exact h.fresh
  · rw [hopened, hstate, (howner ho).2]
    exact h.owner (howner ho).1
  · rw [hopened, hstate, (hloop hl).2]
    exact h.loop (hloop hl).1
  · rw [(howner ho).2, (hloop hl).2]
    exact h.ne (howner ho).1 (hloop hl).1

/-- `connect` goes on to `socket` for one of the threads, and the new connection is neither that of
the other thread nor one that was there. -/
theorem Numbered.addConn (h : s.Numbered) (hopened : t.opened = s.opened + 1)
    (hstate : t.state = s.state) (hcurrent : t.current = some s.opened)
    (hthreads : (t.owner_conn = s.opened ∧
        (t.client.loop = .connecting → s.client.loop = .connecting ∧ t.loop_conn = s.loop_conn)) ∨
      (t.loop_conn = s.opened ∧
        (t.client.owner = .connecting →
          s.client.owner = .connecting ∧ t.owner_conn = s.owner_conn))) : t.Numbered := by
  have hnew : s.opened < t.opened ∧ t.state s.opened = .unconnected :=
    ⟨hopened ▸ Nat.lt_succ_self _, hstate ▸ h.fresh _ le_rfl⟩
  have hold : ∀ c, c < s.opened ∧ s.state c = .unconnected →
      c < t.opened ∧ t.state c = .unconnected := fun c hc =>
    ⟨hc.1.trans hnew.1, hstate ▸ hc.2⟩
  refine ⟨fun c hc => ?_, fun c hc => ?_, fun ho => ?_, fun hl => ?_, fun ho hl => ?_⟩
  · obtain rfl := Option.some.inj (hcurrent.symm.trans hc)
    exact hnew.1
  · rw [hstate]
    exact h.fresh c (by omega)
  · rcases hthreads with ⟨heq, -⟩ | ⟨-, hsame⟩
    · exact heq ▸ hnew
    · exact (hsame ho).2 ▸ hold _ (h.owner (hsame ho).1)
  · rcases hthreads with ⟨-, hsame⟩ | ⟨heq, -⟩
    · exact (hsame hl).2 ▸ hold _ (h.loop (hsame hl).1)
    · exact heq ▸ hnew
  · rcases hthreads with ⟨heq, hsame⟩ | ⟨heq, hsame⟩
    · rw [heq, (hsame hl).2]
      exact (h.loop (hsame hl).1).1.ne'
    · rw [heq, (hsame ho).2]
      exact (h.owner (hsame ho).1).1.ne

/-- `::connect` returns to one of the threads, which leaves `connect`. -/
theorem Numbered.establish (h : s.Numbered) (hopened : t.opened = s.opened)
    (hcurrent : t.current = s.current) (hc : c < s.opened)
    (hstate : t.state = Function.update s.state c .connected)
    (howner : t.client.owner = .connecting →
      s.client.owner = .connecting ∧ t.owner_conn = s.owner_conn ∧ s.owner_conn ≠ c)
    (hloop : t.client.loop = .connecting →
      s.client.loop = .connecting ∧ t.loop_conn = s.loop_conn ∧ s.loop_conn ≠ c) :
    t.Numbered := by
  refine ⟨fun d hd => ?_, fun d hd => ?_, fun ho => ?_, fun hl => ?_, fun ho hl => ?_⟩
  · rw [hopened]
    exact h.current_lt d (hcurrent ▸ hd)
  · rw [hopened] at hd
    rw [hstate, Function.update_of_ne (lt_of_lt_of_le hc hd).ne']
    exact h.fresh d hd
  · obtain ⟨ho, heq, hne⟩ := howner ho
    rw [hopened, heq, hstate, Function.update_of_ne hne]
    exact h.owner ho
  · obtain ⟨hl, heq, hne⟩ := hloop hl
    rw [hopened, heq, hstate, Function.update_of_ne hne]
    exact h.loop hl
  · rw [(howner ho).2.1, (hloop hl).2.1]
    exact h.ne (howner ho).1 (hloop hl).1

/-- What `socket` returns to a thread in `connect` is in `sock_fd_`. -/
theorem current_openSocket {u : ClientSocket} {fd : Option ℕ}
    (hopen : s.client.openSocket fd = some u) (hsock : t.client.sock_fd = u.sock_fd)
    (hconns : ∀ x, fd = some x → t.conns = Function.update s.conns x s.opened) :
    t.current = fd.map fun _ => s.opened := by
  rw [current, hsock, (ClientSocket.openSocket_spec hopen).1]
  cases fd with
  | none => rfl
  | some x => rw [Option.map_some, Option.map_some, hconns x rfl, Function.update_self]

/-- `socket` changes no control. -/
theorem controls_openSocket {s u : ClientSocket} {fd : Option ℕ}
    (hopen : s.openSocket fd = some u) : u.owner = s.owner ∧ u.loop = s.loop := by
  cases fd with
  | none => exact Option.some.inj hopen ▸ ⟨rfl, rfl⟩
  | some fd =>
    obtain ⟨table, -, rfl⟩ := Option.map_eq_some_iff.1 hopen
    exact ⟨rfl, rfl⟩

/-- What a step of the owner or the listener does to the connections: nothing to their states, and
`sock_fd_` is the same, none or new; or one is made. -/
theorem track_cases {e : SocketEvent} {u : ClientSocket} (h : s.Numbered)
    (hsend : ∀ ok, e ≠ .send ok) (hstep : s.client.step e = some ((), u))
    (ht : { s.track e with client := u } = t) :
    t.Numbered ∧ ((t.state = s.state ∧
        (t.current = s.current ∨ t.current = none ∨ t.current = some s.opened)) ∨
      (e = .connected true ∨ e = .reconnected true) ∧ t.current = s.current ∧
        ∃ c, s.state c = .unconnected ∧ t.state = Function.update s.state c .connected) := by
  cases e with
  | connect fd =>
    simp only [ClientSocket.step, Option.ite_none_right_eq_some] at hstep
    obtain ⟨-, hstep⟩ := hstep
    by_cases hconn : s.client.connected = true
    · rw [if_pos hconn] at hstep
      obtain ⟨-, rfl⟩ := Prod.mk.inj (Option.some.inj hstep)
      have hs : s = t := by cases fd <;> simpa [track, hconn] using ht
      exact hs ▸ ⟨h, .inl ⟨rfl, .inl rfl⟩⟩
    · rw [if_neg hconn] at hstep
      obtain ⟨v, hopen, heq⟩ := Option.map_eq_some_iff.1 hstep
      obtain ⟨-, rfl⟩ := Prod.mk.inj heq
      obtain ⟨-, hloop⟩ := controls_openSocket hopen
      cases fd with
      | none =>
        subst ht
        have hcurrent := current_openSocket (t := { s with client := _ }) hopen rfl
          fun x hx => absurd hx (Option.some_ne_none x).symm
        exact ⟨h.of_eq rfl rfl (.inr hcurrent) OwnerControl.noConfusion fun hl => ⟨hloop ▸ hl, rfl⟩,
          .inl ⟨rfl, .inr (.inl hcurrent)⟩⟩
      | some fd =>
        rw [show s.track (.connect (some fd)) = _ from if_neg hconn] at ht
        subst ht
        have hcurrent := current_openSocket
          (t := { s.addConn fd with owner_conn := s.opened, client := _ }) hopen rfl
          fun x hx => Option.some.inj hx ▸ rfl
        exact ⟨h.addConn rfl rfl hcurrent (.inl ⟨rfl, fun hl => ⟨hloop ▸ hl, rfl⟩⟩),
          .inl ⟨rfl, .inr (.inr hcurrent)⟩⟩
  | reconnect fd =>
    simp only [ClientSocket.step, Option.ite_none_right_eq_some] at hstep
    obtain ⟨-, hstep⟩ := hstep
    by_cases hconn : s.client.connected = true
    · rw [if_pos hconn] at hstep
      obtain ⟨-, rfl⟩ := Prod.mk.inj (Option.some.inj hstep)
      have hs : { s with client := { s.client with loop := .length } } = t := by
        cases fd <;> simpa [track, hconn] using ht
      subst hs
      exact ⟨h.of_eq rfl rfl (.inl rfl) (fun ho => ⟨ho, rfl⟩) LoopControl.noConfusion,
        .inl ⟨rfl, .inl rfl⟩⟩
    · rw [if_neg hconn] at hstep
      obtain ⟨v, hopen, heq⟩ := Option.map_eq_some_iff.1 hstep
      obtain ⟨-, rfl⟩ := Prod.mk.inj heq
      obtain ⟨howner, -⟩ := controls_openSocket hopen
      cases fd with
      | none =>
        subst ht
        have hcurrent := current_openSocket (t := { s with client := _ }) hopen rfl
          fun x hx => absurd hx (Option.some_ne_none x).symm
        exact ⟨h.of_eq rfl rfl (.inr hcurrent) (fun ho => ⟨howner ▸ ho, rfl⟩)
            LoopControl.noConfusion,
          .inl ⟨rfl, .inr (.inl hcurrent)⟩⟩
      | some fd =>
        rw [show s.track (.reconnect (some fd)) = _ from if_neg hconn] at ht
        subst ht
        have hcurrent := current_openSocket
          (t := { s.addConn fd with loop_conn := s.opened, client := _ }) hopen rfl
          fun x hx => Option.some.inj hx ▸ rfl
        exact ⟨h.addConn rfl rfl hcurrent (.inr ⟨rfl, fun ho => ⟨howner ▸ ho, rfl⟩⟩),
          .inl ⟨rfl, .inr (.inr hcurrent)⟩⟩
  | connected ok =>
    simp only [ClientSocket.step, Option.ite_none_right_eq_some] at hstep
    obtain ⟨howner, hstep⟩ := hstep
    cases ok with
    | true =>
      obtain ⟨-, rfl⟩ := Prod.mk.inj (Option.some.inj hstep)
      subst ht
      obtain ⟨hlt, hstate⟩ := h.owner howner
      exact ⟨h.establish rfl rfl hlt rfl OwnerControl.noConfusion
          fun hl => ⟨hl, rfl, (h.ne howner hl).symm⟩,
        .inr ⟨.inl rfl, rfl, s.owner_conn, hstate, rfl⟩⟩
    | false =>
      obtain ⟨-, rfl⟩ := Prod.mk.inj (Option.some.inj hstep)
      subst ht
      exact ⟨h.of_eq rfl rfl (.inr rfl) OwnerControl.noConfusion fun hl => ⟨hl, rfl⟩,
        .inl ⟨rfl, .inr (.inl rfl)⟩⟩
  | reconnected ok =>
    simp only [ClientSocket.step, Option.ite_none_right_eq_some] at hstep
    obtain ⟨hloop, hstep⟩ := hstep
    cases ok with
    | true =>
      obtain ⟨-, rfl⟩ := Prod.mk.inj (Option.some.inj hstep)
      subst ht
      obtain ⟨hlt, hstate⟩ := h.loop hloop
      exact ⟨h.establish rfl rfl hlt rfl (fun ho => ⟨ho, rfl, h.ne ho hloop⟩)
          LoopControl.noConfusion,
        .inr ⟨.inr rfl, rfl, s.loop_conn, hstate, rfl⟩⟩
    | false =>
      obtain ⟨-, rfl⟩ := Prod.mk.inj (Option.some.inj hstep)
      subst ht
      exact ⟨h.of_eq rfl rfl (.inr rfl) (fun ho => ⟨ho, rfl⟩) LoopControl.noConfusion,
        .inl ⟨rfl, .inr (.inl rfl)⟩⟩
  | disconnect =>
    simp only [ClientSocket.step] at hstep
    split_ifs at hstep
    obtain ⟨-, rfl⟩ := Prod.mk.inj (Option.some.inj hstep)
    subst ht
    exact ⟨h.of_eq rfl rfl (.inr rfl) (fun ho => ⟨ho, rfl⟩) fun hl => ⟨hl, rfl⟩,
      .inl ⟨rfl, .inr (.inl rfl)⟩⟩
  | stop_listening =>
    simp only [ClientSocket.step] at hstep
    split_ifs at hstep
    · obtain ⟨-, rfl⟩ := Prod.mk.inj (Option.some.inj hstep)
      subst ht
      exact ⟨h.of_eq rfl rfl (.inr rfl) OwnerControl.noConfusion fun hl => ⟨hl, rfl⟩,
        .inl ⟨rfl, .inr (.inl rfl)⟩⟩
    · obtain ⟨-, rfl⟩ := Prod.mk.inj (Option.some.inj hstep)
      subst ht
      exact ⟨h, .inl ⟨rfl, .inl rfl⟩⟩
  | start_listening =>
    simp only [ClientSocket.step] at hstep
    split_ifs at hstep
    · obtain ⟨-, rfl⟩ := Prod.mk.inj (Option.some.inj hstep)
      subst ht
      exact ⟨h, .inl ⟨rfl, .inl rfl⟩⟩
    · obtain ⟨-, rfl⟩ := Prod.mk.inj (Option.some.inj hstep)
      subst ht
      exact ⟨h.of_eq rfl rfl (.inl rfl) (fun ho => ⟨ho, rfl⟩) LoopControl.noConfusion,
        .inl ⟨rfl, .inl rfl⟩⟩
  | joined =>
    simp only [ClientSocket.step] at hstep
    split_ifs at hstep
    obtain ⟨-, rfl⟩ := Prod.mk.inj (Option.some.inj hstep)
    subst ht
    exact ⟨h.of_eq rfl rfl (.inl rfl) OwnerControl.noConfusion fun hl => ⟨hl, rfl⟩,
      .inl ⟨rfl, .inl rfl⟩⟩
  | send ok => exact absurd rfl (hsend ok)
  | loop =>
    simp only [ClientSocket.step] at hstep
    split_ifs at hstep
    all_goals
      obtain ⟨-, rfl⟩ := Prod.mk.inj (Option.some.inj hstep)
      subst ht
      exact ⟨h.of_eq rfl rfl (.inl rfl) (fun ho => ⟨ho, rfl⟩) LoopControl.noConfusion,
        .inl ⟨rfl, .inl rfl⟩⟩
  | dispatch =>
    simp only [ClientSocket.step] at hstep
    split_ifs at hstep
    obtain ⟨-, rfl⟩ := Prod.mk.inj (Option.some.inj hstep)
    subst ht
    exact ⟨h.of_eq rfl rfl (.inl rfl) (fun ho => ⟨ho, rfl⟩) LoopControl.noConfusion,
      .inl ⟨rfl, .inl rfl⟩⟩
  | length r | payload r =>
    simp only [ClientSocket.step] at hstep
    split_ifs at hstep with hloop
    cases r
    all_goals
      obtain ⟨-, rfl⟩ := Prod.mk.inj (Option.some.inj hstep)
      subst ht
      refine ⟨h.of_eq rfl rfl (.inl rfl) (fun ho => ⟨ho, rfl⟩) fun hl => ?_, .inl ⟨rfl, .inl rfl⟩⟩
      exact ⟨by simp_all, rfl⟩

end Sockets

/-! ## What is written -/

section Streams

variable {s t : SendingClient} {c : ConnId} {outs : List (Option Returned)}

/-- A part of a frame that is not the whole of it. -/
def Cut (part : Bytes) : Prop :=
  ∃ (msg : Message) (k : ℕ), k < msg.frame.length ∧ part = msg.frame.take k

/-- What is on the connections: whole frames of messages for which a call has returned true, and a
part of one more, that of the thread with the mutex where the connection still lasts. -/
structure Sound (outs : List (Option Returned)) (s : SendingClient) : Prop where
  numbered : s.Numbered
  silent : ∀ c, s.state c = .unconnected → s.stream c = []
  holder : ∀ thread msg k, s.threads thread = .writing msg k →
    s.send_mutex = some thread ∧ k < msg.frame.length
  streams : ∀ c, ∃ part, Cut part ∧
    s.stream c = (delivered c outs).flatMap Message.frame ++ part ∧ (s.Live c → part = s.part)

theorem frame_pos (msg : Message) : 0 < msg.frame.length := by
  rw [Message.frame_eq, Framing.Payload.frame, List.length_append, Framing.be32_length]
  omega

theorem cut_nil : Cut [] := ⟨{}, 0, frame_pos _, rfl⟩

theorem delivered_concat (c : ConnId) (outs : List (Option Returned)) (o : Option Returned) :
    delivered c (outs ++ [o]) = delivered c outs ++ delivered c [o] := List.filterMap_append

/-- With the mutex a thread is in the loop over the writes, and what it has written is `part`. -/
theorem part_eq {thread total_written : ℕ} {msg : Message} (hmutex : s.send_mutex = some thread)
    (hthread : s.threads thread = .writing msg total_written) :
    s.part = msg.frame.take total_written := by
  rw [part, hmutex]
  simp only [hthread]

/-- Where nothing is written and no call returns true, the streams are as sound as they were, if a
connection that is live now was so before or is new. -/
theorem Sound.streams_of_eq (h : Sound outs s) {o : Option Returned} (hstream : t.stream = s.stream)
    (ho : ∀ c, delivered c [o] = [])
    (hlive : ∀ c, t.Live c →
      t.part = s.part ∧ (s.Live c ∨ s.state c = .unconnected ∧ s.part = [])) :
    ∀ c, ∃ part, Cut part ∧
      t.stream c = (delivered c (outs ++ [o])).flatMap Message.frame ++ part ∧
      (t.Live c → part = t.part) := by
  intro c
  obtain ⟨part, hcut, hs, hpart⟩ := h.streams c
  refine ⟨part, hcut, ?_, fun ht => ?_⟩
  · rw [hstream, delivered_concat, ho, List.append_nil, hs]
  · obtain ⟨heq, hold | ⟨hnew, hnone⟩⟩ := hlive c ht
    · rw [heq, hpart hold]
    · rw [h.silent c hnew] at hs
      rw [heq, hnone, (List.append_eq_nil_iff.1 hs.symm).2]

/-- A step of the owner or of the listener touches no frame. -/
theorem track_frame (s : SendingClient) (e : SocketEvent) (u : ClientSocket) :
    let t : SendingClient := { s.track e with client := u }
    t.stream = s.stream ∧ t.send_mutex = s.send_mutex ∧ t.threads = s.threads := by
  unfold track
  split <;> [split_ifs; split_ifs; skip; skip; skip] <;> exact ⟨rfl, rfl, rfl⟩

/-- A step of the owner or of the listener. -/
theorem Sound.socket (h : Sound outs s) {e : SocketEvent} {u : ClientSocket}
    (hsend : ∀ ok, e ≠ .send ok) (hstep : s.client.step e = some ((), u))
    (hC : s.Undivided (.socket e)) : Sound (outs ++ [none]) { s.track e with client := u } := by
  obtain ⟨hnumbered, hchange⟩ := track_cases h.numbered hsend hstep rfl
  obtain ⟨hstream, hmutex, hthreads⟩ := track_frame s e u
  generalize ({ s.track e with client := u } : SendingClient) = t at *
  have hpart : t.part = s.part := by rw [part, part, hmutex, hthreads]
  refine ⟨hnumbered, fun c hc => ?_, ?_,
    h.streams_of_eq hstream (fun _ => rfl) fun c ht => ⟨hpart, ?_⟩⟩
  · rw [hstream]
    refine h.silent c ?_
    rcases hchange with ⟨hstate, -⟩ | ⟨-, -, d, hd, hstate⟩
    · rw [← hstate, hc]
    · rw [hstate, Function.update_apply] at hc
      split_ifs at hc
      exact hc
  · rw [hthreads, hmutex]
    exact h.holder
  · obtain ⟨hcur, hconn⟩ := ht
    rcases hchange with ⟨hstate, heq | hnone | hnew⟩ | ⟨he, heq, d, hd, hstate⟩
    · exact .inl ⟨heq ▸ hcur, hstate ▸ hconn⟩
    · rw [hnone] at hcur
      cases hcur
    · -- A new socket is not connected.
      obtain rfl := Option.some.inj (hnew.symm.trans hcur)
      rw [hstate, h.numbered.fresh _ le_rfl] at hconn
      cases hconn
    · rw [hstate, Function.update_apply] at hconn
      split_ifs at hconn with hcd
      · refine .inr ⟨hcd ▸ hd, ?_⟩
        rcases he with rfl | rfl
        · exact hC
        · exact hC
      · exact .inl ⟨heq ▸ hcur, hconn⟩

/-- The daemon closes its end. -/
theorem Sound.hangup (h : Sound outs s) (hc : s.state c = .connected) :
    Sound (outs ++ [none]) { s with state := Function.update s.state c .closed } := by
  have hstate : ∀ d, Function.update s.state c .closed d = .unconnected →
      s.state d = .unconnected := by
    intro d hd
    rw [Function.update_apply] at hd
    split_ifs at hd
    exact hd
  have hne : ∀ d, s.state d = .unconnected → d ≠ c := by
    rintro d hd rfl
    rw [hc] at hd
    cases hd
  have hnumbered := h.numbered
  refine ⟨⟨hnumbered.current_lt, fun d hd => ?_, fun ho => ?_, fun hl => ?_, hnumbered.ne⟩,
    fun d hd => h.silent d (hstate d hd), h.holder,
    h.streams_of_eq rfl (fun _ => rfl) fun d hd => ⟨rfl, .inl ⟨hd.1, ?_⟩⟩⟩
  · have hd := hnumbered.fresh d hd
    exact (Function.update_of_ne (hne d hd) _ _).trans hd
  · obtain ⟨hlt, hd⟩ := hnumbered.owner ho
    exact ⟨hlt, (Function.update_of_ne (hne _ hd) _ _).trans hd⟩
  · obtain ⟨hlt, hd⟩ := hnumbered.loop hl
    exact ⟨hlt, (Function.update_of_ne (hne _ hd) _ _).trans hd⟩
  · have hconn : Function.update s.state c .closed d = .connected := hd.2
    rw [Function.update_apply] at hconn
    split_ifs at hconn
    exact hconn

/-- A thread enters `send_message`, and finds `connected_` set. -/
theorem Sound.call (h : Sound outs s) {thread : ℕ} {msg : Message}
    (hidle : s.threads thread = .idle) :
    Sound (outs ++ [none])
      { s with threads := Function.update s.threads thread (.locking msg) } := by
  have hwriting : ∀ x m k, Function.update s.threads thread (.locking msg) x = .writing m k ↔
      s.threads x = .writing m k := by
    intro x m k
    rw [Function.update_apply]
    split_ifs with hx
    · rw [hx, hidle]
      exact ⟨nofun, nofun⟩
    · exact Iff.rfl
  have hpart : ({ s with threads := Function.update s.threads thread (.locking msg) } :
      SendingClient).part = s.part := by
    unfold part
    cases s.send_mutex with
    | none => rfl
    | some x =>
      simp only [Function.update_apply]
      split_ifs with hx
      · rw [hx, hidle]
      · rfl
  exact ⟨h.numbered.of_eq rfl rfl (.inl rfl) (fun ho => ⟨ho, rfl⟩) fun hl => ⟨hl, rfl⟩,
    h.silent, fun x m k hx => h.holder x m k ((hwriting x m k).1 hx),
    h.streams_of_eq rfl (fun _ => rfl) fun d hd => ⟨hpart, .inl hd⟩⟩

/-- A thread gets the mutex. -/
theorem Sound.lock (h : Sound outs s) {thread : ℕ} {msg : Message} (hmutex : s.send_mutex = none) :
    Sound (outs ++ [none]) { s with
      send_mutex := some thread
      threads := Function.update s.threads thread (.writing msg 0) } := by
  have hpart : s.part = [] := by rw [part, hmutex]
  have hpart' : ({ s with
      send_mutex := some thread
      threads := Function.update s.threads thread (.writing msg 0) } :
      SendingClient).part = [] := by
    simp [SendingClient.part]
  refine ⟨h.numbered.of_eq rfl rfl (.inl rfl) (fun ho => ⟨ho, rfl⟩) fun hl => ⟨hl, rfl⟩,
    h.silent, fun x m k hx => ?_,
    h.streams_of_eq rfl (fun _ => rfl) fun d hd => ⟨hpart'.trans hpart.symm, .inl hd⟩⟩
  dsimp only at hx ⊢
  rw [Function.update_apply] at hx
  split_ifs at hx with hxt
  · obtain ⟨rfl, rfl⟩ := SendControl.writing.inj hx
    exact ⟨congrArg some hxt.symm, frame_pos _⟩
  · -- Nobody else has it.
    have hheld := (h.holder x m k hx).1
    rw [hmutex] at hheld
    cases hheld

/-- Once a thread has left, none is in the loop over the writes. -/
theorem Sound.not_writing (h : Sound outs s) {thread k : ℕ} {msg : Message}
    (hthread : s.threads thread = .writing msg k) (x : ℕ) (m : Message) (j : ℕ) :
    Function.update s.threads thread .idle x ≠ .writing m j := by
  rw [Function.update_apply]
  split_ifs with hx
  · nofun
  · intro hwriting
    have hheld := (h.holder x m j hwriting).1
    rw [(h.holder thread msg k hthread).1] at hheld
    exact hx (Option.some.inj hheld).symm

/-- A write fails, and the call returns false. -/
theorem Sound.failed (h : Sound outs s) {thread total_written : ℕ} {msg : Message}
    (hthread : s.threads thread = .writing msg total_written)
    (hC : s.part = [] ∨ ∀ c ∈ s.current, s.state c ≠ .connected) :
    Sound (outs ++ [some ⟨msg, none⟩])
      { s.leave thread with client := { s.client with connected := false } } := by
  refine ⟨h.numbered.of_eq rfl rfl (.inl rfl) (fun ho => ⟨ho, rfl⟩) fun hl => ⟨hl, rfl⟩,
    h.silent, fun x m k hx => absurd hx (h.not_writing hthread x m k),
    h.streams_of_eq rfl (fun _ => rfl) fun d hd => ⟨?_, .inl hd⟩⟩
  rcases hC with hnone | hdead
  · exact hnone.symm
  · exact absurd hd.2 (hdead d hd.1)

/-- Only one connection is live. -/
theorem Live.eq {d : ConnId} (hc : s.Live c) (hd : s.Live d) : d = c :=
  Option.some.inj (hd.1.symm.trans hc.1)

/-- A live connection is not one that is silent. -/
theorem Sound.silent_update (h : Sound outs s) (hlive : s.Live c) (bytes : Bytes) (d : ConnId)
    (hd : s.state d = .unconnected) : Function.update s.stream c bytes d = [] := by
  have hne : d ≠ c := by
    rintro rfl
    rw [hlive.2] at hd
    cases hd
  rw [Function.update_of_ne hne, h.silent d hd]

/-- A write takes a part of what is left of the frame. -/
theorem Sound.part (h : Sound outs s) {thread total_written n : ℕ} {msg : Message}
    (hthread : s.threads thread = .writing msg total_written) (hlive : s.Live c)
    (hlt : total_written + n < msg.frame.length) :
    Sound (outs ++ [none]) { s with
      stream := Function.update s.stream c (s.stream c ++ (msg.frame.drop total_written).take n)
      threads := Function.update s.threads thread (.writing msg (total_written + n)) } := by
  obtain ⟨hmutex, -⟩ := h.holder thread msg total_written hthread
  refine ⟨h.numbered.of_eq rfl rfl (.inl rfl) (fun ho => ⟨ho, rfl⟩) fun hl => ⟨hl, rfl⟩,
    h.silent_update hlive _, fun x m k hx => ?_, fun d => ?_⟩
  · dsimp only at hx ⊢
    rw [Function.update_apply] at hx
    split_ifs at hx with hxt
    · obtain ⟨rfl, rfl⟩ := SendControl.writing.inj hx
      exact ⟨hxt ▸ hmutex, hlt⟩
    · exact h.holder x m k hx
  · obtain ⟨part, hcut, hs, hpart⟩ := h.streams d
    rw [delivered_concat, show delivered d [none] = [] from rfl, List.append_nil]
    by_cases hdc : d = c
    · subst hdc
      refine ⟨msg.frame.take (total_written + n), ⟨msg, _, hlt, rfl⟩, ?_, fun _ => ?_⟩
      · simp only [Function.update_self]
        rw [hs, hpart hlive, part_eq hmutex hthread, List.take_add, List.append_assoc]
      · simp [SendingClient.part, hmutex]
    · exact ⟨part, hcut, (Function.update_of_ne hdc _ _).trans hs,
        fun hd => absurd (Live.eq hlive hd) hdc⟩

/-- The last write of a frame, and the call returns true. -/
theorem Sound.last (h : Sound outs s) {thread total_written n : ℕ} {msg : Message}
    (hthread : s.threads thread = .writing msg total_written) (hlive : s.Live c)
    (hall : total_written + n = msg.frame.length) :
    Sound (outs ++ [some ⟨msg, some c⟩]) ({ s with
      stream := Function.update s.stream c
        (s.stream c ++ (msg.frame.drop total_written).take n) }.leave thread) := by
  obtain ⟨hmutex, -⟩ := h.holder thread msg total_written hthread
  refine ⟨h.numbered.of_eq rfl rfl (.inl rfl) (fun ho => ⟨ho, rfl⟩) fun hl => ⟨hl, rfl⟩,
    h.silent_update hlive _, fun x m k hx => absurd hx (h.not_writing hthread x m k), fun d => ?_⟩
  obtain ⟨part, hcut, hs, hpart⟩ := h.streams d
  rw [delivered_concat]
  by_cases hdc : d = c
  · subst hdc
    refine ⟨[], cut_nil, ?_, fun _ => rfl⟩
    have hone : delivered d [some ⟨msg, some d⟩] = [msg] := by simp [delivered]
    have hwhole : msg.frame.take total_written ++ (msg.frame.drop total_written).take n =
        msg.frame := by rw [← List.take_add, hall, List.take_length]
    simp only [leave, Function.update_self]
    rw [hs, hpart hlive, part_eq hmutex hthread, hone, List.append_assoc, hwhole, List.append_nil,
      List.flatMap_append, List.flatMap_singleton]
  · have hnone : delivered d [some ⟨msg, some c⟩] = [] := by simp [delivered, Ne.symm hdc]
    rw [hnone, List.append_nil]
    exact ⟨part, hcut, (Function.update_of_ne hdc _ _).trans hs,
      fun hd => absurd (Live.eq hlive hd) hdc⟩

/-- What one step keeps. -/
theorem sound_step {e : SendEvent} {o : Option Returned} (h : Sound outs s) (hC : s.Undivided e)
    (hstep : s.step e = some (o, t)) : Sound (outs ++ [o]) t := by
  cases steps_of_step hstep with
  | socket hsend hu => exact h.socket hsend hu hC
  | hangup hc => exact h.hangup hc
  | refuse hconn =>
    exact ⟨h.numbered, h.silent, h.holder,
      h.streams_of_eq rfl (fun _ => rfl) fun d hd => ⟨rfl, .inl hd⟩⟩
  | call hidle => exact h.call hidle
  | lock hthread hmutex => exact h.lock hmutex
  | failed hthread => exact h.failed hthread hC
  | part hthread hlive hlt => exact h.part hthread hlive hlt
  | last hthread hlive hall => exact h.last hthread hlive hall

/-- Before the first call nothing is written. -/
theorem sound_init : Sound [] {} where
  numbered := ⟨nofun, fun _ _ => rfl, nofun, nofun, nofun⟩
  silent _ _ := rfl
  holder := nofun
  streams _ := ⟨[], cut_nil, rfl, fun _ => rfl⟩

/-- Any threads send messages, in any interleaving with each other, with the owner and with the
listener, and the kernel takes their frames in any pieces. If no connection is made while a part of
a frame is written, and a frame in parts fails only with its connection, then on every connection
there are the frames of exactly the messages for which `send_message` has returned true on it, whole
and in the order of the mutex, and after them at most a part of one frame more. There is none on the
connection that `sock_fd_` is, if that still lasts and no thread has the mutex. -/
theorem run_frames {es : List SendEvent} (hrun : Machine.run step {} es = some (outs, s))
    (hundivided : Machine.Along step Undivided {} es) (c : ConnId) :
    ∃ part, Cut part ∧ s.stream c = (delivered c outs).flatMap Message.frame ++ part ∧
      (s.Live c → s.send_mutex = none → part = []) := by
  have h : Sound outs s := Machine.along_outputs (I := Sound)
    (fun _ _ _ _ _ h hC hstep => sound_step h hC hstep) sound_init hundivided hrun
  obtain ⟨part, hcut, hs, hpart⟩ := h.streams c
  refine ⟨part, hcut, hs, fun hlive hmutex => ?_⟩
  rw [hpart hlive, SendingClient.part, hmutex]

/-- A registration and a report. -/
def registering : Message := { type := .REGISTER, pid := 7, current_size_bytes := 2560 }

def reporting : Message := { type := .REPORT_SIZE, pid := 7, current_size_bytes := 1024 }

/-- Two threads send at once; the daemon closes the connection in the second frame, and the client
makes another one. -/
def twoSenders : List SendEvent :=
  [.socket (.connect (some 3)), .socket (.connected true), .socket .start_listening, .socket .loop,
    .call 1 registering, .call 2 reporting, .lock 1, .write 1 (.written 30), .write 1 (.written 54),
    .lock 2, .write 2 (.written 4), .hangup 0, .write 2 .failed, .call 1 reporting,
    .socket (.length .eof), .socket .loop, .socket (.reconnect (some 4)),
    .socket (.reconnected true), .call 2 reporting, .lock 2, .write 2 (.written 87)]

/-- The first connection has the registration and a part of the report, the second one the report
that was sent again. -/
theorem run_frames_twoSenders :
    let s := Machine.last step {} twoSenders
    (∃ part, Cut part ∧ s.stream 0 = registering.frame ++ part) ∧ s.stream 1 = reporting.frame := by
  intro s
  obtain ⟨outs, hrun⟩ : ∃ outs, Machine.run step {} twoSenders = some (outs, s) :=
    Machine.exists_run_eq_last _ _ (by decide +kernel)
  have houts : ((Machine.run step {} twoSenders).map Prod.fst) = some outs := by rw [hrun]; rfl
  have hundivided : Machine.Along step Undivided {} twoSenders := by decide +kernel
  have hzero : ((Machine.run step {} twoSenders).map Prod.fst).map (delivered 0) =
      some [registering] := by decide +kernel
  have hone : ((Machine.run step {} twoSenders).map Prod.fst).map (delivered 1) =
      some [reporting] := by decide +kernel
  rw [houts] at hzero hone
  obtain ⟨part, hcut, hstream, -⟩ := run_frames hrun hundivided 0
  obtain ⟨part', -, hstream', hnone⟩ := run_frames hrun hundivided 1
  refine ⟨⟨part, hcut, ?_⟩, ?_⟩
  · rw [hstream, Option.some.inj hzero, List.flatMap_singleton]
  · rw [hstream', hnone (by decide +kernel) (by decide +kernel), Option.some.inj hone,
      List.flatMap_singleton, List.append_nil]

/-- The listener makes a new connection while a thread is in the middle of a frame. -/
def tearing : List SendEvent :=
  [.socket (.connect (some 3)), .socket (.connected true), .socket .start_listening, .socket .loop,
    .call 1 registering, .lock 1, .write 1 (.written 30), .socket (.length .eof), .socket .loop,
    .socket (.reconnect (some 4)), .socket (.reconnected true), .write 1 (.written 54)]

/-- The call returns true, and either connection has a piece of its frame. -/
theorem frame_torn :
    ∃ outs s, Machine.run step {} tearing = some (outs, s) ∧ delivered 1 outs = [registering] ∧
      s.stream 0 = registering.frame.take 30 ∧ s.stream 1 = registering.frame.drop 30 := by
  obtain ⟨outs, hrun⟩ : ∃ outs, Machine.run step {} tearing =
      some (outs, Machine.last step {} tearing) :=
    Machine.exists_run_eq_last _ _ (by decide +kernel)
  have hone : (Machine.run step {} tearing).map (delivered 1 ·.1) = some [registering] := by
    decide +kernel
  rw [hrun] at hone
  exact ⟨outs, _, hrun, Option.some.inj hone, by decide +kernel, by decide +kernel⟩

end Streams

/-! ## The client without its frames -/

/-- What a step is for `ClientSocket`, if anything: a write that fails is a message not sent. -/
def socketEvent : SendEvent → Option SocketEvent
  | .socket e => some e
  | .write _ .failed => some (.send false)
  | _ => none

/-- The client with its sending threads does to its socket what `ClientSocket` does. -/
theorem run_client {s t : SendingClient} {es : List SendEvent} {outs : List (Option Returned)}
    (hrun : Machine.run step s es = some (outs, t)) :
    ∃ outs', Machine.run ClientSocket.step s.client (es.filterMap socketEvent) =
      some (outs', t.client) := by
  induction es generalizing s outs with
  | nil =>
    simp only [Machine.run_nil, Option.some.injEq, Prod.mk.injEq] at hrun
    exact ⟨[], hrun.2 ▸ rfl⟩
  | cons e es ih =>
    obtain ⟨o, u, os', hstep, hrun', -⟩ := Machine.run_cons_eq_some.1 hrun
    obtain ⟨outs', hclient⟩ := ih hrun'
    cases steps_of_step hstep with
    | socket hsend hu => exact ⟨_, Machine.run_cons_eq_some.2 ⟨(), _, outs', hu, hclient, rfl⟩⟩
    | failed hthread =>
      have hsend : s.client.step (.send false) =
          some ((), { s.client with connected := false }) := by
        cases hconn : s.client.connected with
        | true => simp [ClientSocket.step, hconn]
        | false =>
          have hsame : { s.client with connected := false } = s.client := by rw [← hconn]
          simp [ClientSocket.step, hconn, hsame]
      exact ⟨_, Machine.run_cons_eq_some.2 ⟨(), _, outs', hsend, hclient, rfl⟩⟩
    | hangup hc => exact ⟨outs', hclient⟩
    | refuse hconn => exact ⟨outs', hclient⟩
    | call hidle => exact ⟨outs', hclient⟩
    | lock hthread hmutex => exact ⟨outs', hclient⟩
    | part hthread hlive hlt => exact ⟨outs', hclient⟩
    | last hthread hlive hall => exact ⟨outs', hclient⟩

end SendingClient

end MemoryGovernor
