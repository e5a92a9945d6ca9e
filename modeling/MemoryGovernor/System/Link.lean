import MemoryGovernor.Cache.Governed
import MemoryGovernor.Lib.Channel
import MemoryGovernor.Lib.Machine

/-!
# A client and its connection

`GovernorClient` (`src/client/governor_client.cpp`) inside its `GovernedCache`: the state of the
client's process and the connection that its socket is at the moment. A connection carries whole
messages, in order and both ways; the bytes below are a matter of the readers on either side.

`Link.step` is what the client does by itself. `start` is two steps, `connect` (in
`System/Step.lean`) and `register`, since the daemon may accept the connection and broadcast between
them; so is the listener's loop, which reconnects in one round and reads a message in another.
`handle_shrink` and `handle_grow` hold the mutex of the cache while they resize it and report, so a
delivery is one step.
-/

namespace MemoryGovernor

/-- The clients are numbered. -/
abbrev ClientId := ℕ

/-- So are the connections, in the order in which they are opened. -/
abbrev ConnId := ℕ

/-- A connection of a client to the daemon's socket. -/
structure Connection where
  /-- The client that opened it. -/
  peer : ClientId
  /-- From the client to the daemon. -/
  up : Channel Message := {}
  /-- From the daemon to the client. -/
  down : Channel Message := {}
  /-- The client has not closed its end. -/
  client_open : Bool := true
  /-- The daemon has not closed its end. -/
  daemon_open : Bool := true

/-- A write of the daemon. It fails if the client has closed its end. -/
def Connection.sendDown (conn : Connection) (msg : Message) : Connection :=
  if conn.client_open then { conn with down := conn.down.send msg } else conn

/-- A client's process: its cache, and the fields of its `GovernorClient`. -/
structure Client where
  pid : Int32
  cache : GovernedCache
  /-- `sock_fd_`: the connection that the descriptor is, or none for `-1`. -/
  sock_fd : Option ConnId := none
  connected : Bool := false
  listening : Bool := false
  /-- `start` has connected and is about to register. -/
  starting : Bool := false

/-- A client together with the connection that its socket is. -/
structure Link where
  client : Client
  conn : Option Connection

/-- What a client does by itself. -/
inductive ClientEvent
  /-- The application calls `put`. -/
  | put (key value : String)
  /-- The application calls `get`. -/
  | get (key : String)
  /-- The rest of `start`, after `connect`. -/
  | register
  /-- The listener reads a message and handles it. -/
  | deliver
  /-- The listener's read ends in end-of-file or an error. -/
  | lost
deriving DecidableEq, Repr

namespace Link

/-- `send_message`. A write to a connection that the daemon has closed fails. -/
def send (l : Link) (msg : Message) : Link :=
  if l.client.connected then
    match l.conn with
    | some conn =>
      if conn.daemon_open then { l with conn := some { conn with up := conn.up.send msg } }
      -- The descriptor stays, but nothing is sent on it any more.
      else { l with client := { l.client with connected := false } }
    | none => { l with client := { l.client with connected := false } }
  else l

/-- `register_cache`. -/
def registerCache (l : Link) (current_size_bytes : UInt64) : Link :=
  l.send { type := .REGISTER, pid := l.client.pid, current_size_bytes := current_size_bytes }

/-- `report_size`. -/
def reportSize (l : Link) (current_size_bytes : UInt64) : Link :=
  l.send { type := .REPORT_SIZE, pid := l.client.pid, current_size_bytes := current_size_bytes }

/-- The rest of `GovernedCache::start` after `connect`. `start_listening` only sets the flag again
when the listener is already there. -/
def register (l : Link) : Option Link :=
  if l.client.starting then
    let l := l.registerCache l.client.cache.sizeBytes
    some { l with client := { l.client with listening := true, starting := false } }
  else none

/-- The end of `handle_shrink` and `handle_grow`: the cache after the target, and the report if
there is one. -/
def applied (l : Link) (r : Option UInt64 × GovernedCache) : Link :=
  let l := { l with client := { l.client with cache := r.2 } }
  match r.1 with
  | some size => l.reportSize size
  | none => l

/-- `process_message`. -/
def processMessage (l : Link) (msg : Message) : Option Link :=
  match msg.type with
  | .SHRINK => (l.client.cache.handleShrink msg.target_bytes).map l.applied
  | .GROW => (l.client.cache.handleGrow msg.target_bytes).map l.applied
  -- `ACK`, `HEARTBEAT` and `UNKNOWN` are ignored, and so is what only the daemon should get.
  | _ => some l

/-- The message that the listener reads next. -/
def incoming (l : Link) : Option (Message × Link) :=
  if l.client.listening ∧ l.client.connected then
    l.conn.bind fun conn => conn.down.receive?.map fun r =>
      (r.1, { l with conn := some { conn with down := r.2 } })
  else none

/-- A round of `listener_loop` that reads a message. -/
def deliver (l : Link) : Option (Option Message × Link) :=
  l.incoming.bind fun r => (r.2.processMessage r.1).map fun l => (some r.1, l)

/-- The client with another state of its cache. -/
def withCache (l : Link) (cache : SoundCache String String) : Link :=
  { l with client := { l.client with cache := { l.client.cache with cache := cache } } }

/-- One step of a client by itself, with the message handed to `process_message` if there is one. -/
def step (A : LinkedHeap.Allocator) (l : Link) : ClientEvent → Option (Option Message × Link)
  | .put key value => some (none, l.withCache (l.client.cache.cache.put A key value))
  | .get key => some (none, l.withCache (l.client.cache.cache.get key).2)
  | .register => l.register.map fun l => (none, l)
  | .deliver => l.deliver
  | .lost =>
    -- The listener reconnects in a later round.
    if l.client.listening ∧ l.client.connected then
      some (none, { l with client := { l.client with connected := false } })
    else none

/-! ## What a client leaves alone -/

/-- Which connection the socket is, who opened it, what the daemon has read from it and what it has
sent. A client by itself changes none of these. -/
def ends (l : Link) : Option ConnId × Option (ClientId × List Message × List Message) :=
  (l.client.sock_fd, l.conn.map fun conn => (conn.peer, conn.up.received, conn.down.sent))

/-- A write leaves the ends alone. -/
@[simp]
theorem send_ends (l : Link) (msg : Message) : (l.send msg).ends = l.ends := by
  unfold send
  split_ifs
  · split
    · next conn hconn => split_ifs <;> simp [ends, hconn]
    · rfl
  · rfl

/-- The client with another cache has the same ends. -/
@[simp]
theorem withCache_ends (l : Link) (cache : SoundCache String String) :
    (l.withCache cache).ends = l.ends := rfl

/-- A write touches nothing of the cache. -/
@[simp]
theorem send_cache (l : Link) (msg : Message) : (l.send msg).client.cache = l.client.cache := by
  unfold send
  split_ifs
  · split
    · split_ifs <;> rfl
    · rfl
  · rfl

/-! ## What a step does -/

/-- The listener reads the first message in flight on its socket. -/
theorem incoming_eq_some {l l' : Link} {msg : Message} :
    l.incoming = some (msg, l') ↔ l.client.listening = true ∧ l.client.connected = true ∧
      ∃ conn down, l.conn = some conn ∧ conn.down.receive? = some (msg, down) ∧
        l' = { l with conn := some { conn with down := down } } := by
  unfold incoming
  split_ifs with h
  · simp only [Option.bind_eq_some_iff, Option.map_eq_some_iff, Prod.mk.injEq, Prod.exists, h,
      true_and]
    constructor
    · rintro ⟨conn, hconn, m, down, hrecv, rfl, rfl⟩
      exact ⟨conn, down, hconn, hrecv, rfl⟩
    · rintro ⟨conn, down, hconn, hrecv, rfl⟩
      exact ⟨conn, hconn, msg, down, hrecv, rfl, rfl⟩
  · simp only [false_iff]
    exact fun h' => h ⟨h'.1, h'.2.1⟩

/-- A delivery reads a message and then handles it. -/
theorem deliver_eq_some {l l' : Link} {o : Option Message} : l.deliver = some (o, l') ↔
    ∃ msg l₁, l.incoming = some (msg, l₁) ∧ l₁.processMessage msg = some l' ∧ o = some msg := by
  simp only [deliver, Option.bind_eq_some_iff, Option.map_eq_some_iff, Prod.mk.injEq, Prod.exists]
  constructor
  · rintro ⟨msg, l₁, hin, l₂, hproc, rfl, rfl⟩
    exact ⟨msg, l₁, hin, hproc, rfl⟩
  · rintro ⟨msg, l₁, hin, hproc, rfl⟩
    exact ⟨msg, l₁, hin, l', hproc, rfl, rfl⟩

/-- What a target does to the client: nothing, or a new capacity and a report of the size. -/
theorem applied_cases {applies : ℕ → ℕ → Bool} {l : Link} {target_bytes : UInt64}
    {r : Option UInt64 × GovernedCache}
    (h : l.client.cache.applyTarget applies target_bytes = some r) :
    let n := target_bytes.toNat / l.client.cache.estimated_entry_bytes.toNat
    let l₁ := l.withCache (l.client.cache.cache.resize n)
    (applies n l.client.cache.cache.capacity = false ∧ l.applied r = l) ∨
      (applies n l.client.cache.cache.capacity = true ∧
        l.applied r = l₁.reportSize l₁.client.cache.sizeBytes) := by
  obtain ⟨report, g⟩ := r
  intro n l₁
  have hn : (target_bytes / l.client.cache.estimated_entry_bytes).toNat = n := UInt64.toNat_div _ _
  obtain ⟨hap, rfl, rfl⟩ | ⟨hap, rfl, rfl⟩ := GovernedCache.applyTarget_cases h
  · rw [hn] at hap
    exact .inl ⟨hap, rfl⟩
  · rw [hn] at hap ⊢
    exact .inr ⟨hap, rfl⟩

/-- What a message does to the client: nothing, or the capacity that it asks for, lower for a SHRINK
and higher for a GROW, and a report of the size. -/
theorem processMessage_cases {l l' : Link} {msg : Message} (h : l.processMessage msg = some l') :
    l' = l ∨ ∃ n l₁, n = msg.target_bytes.toNat / l.client.cache.estimated_entry_bytes.toNat ∧
      l₁ = l.withCache (l.client.cache.cache.resize n) ∧
      l' = l₁.reportSize l₁.client.cache.sizeBytes ∧
      (msg.type = .SHRINK ∧ n < l.client.cache.cache.capacity ∨
        msg.type = .GROW ∧ l.client.cache.cache.capacity < n) := by
  unfold processMessage at h
  split at h
  · next htype =>
    obtain ⟨r, hr, rfl⟩ := Option.map_eq_some_iff.1 h
    obtain ⟨-, hsame⟩ | ⟨hlt, heq⟩ := applied_cases hr
    · exact .inl hsame
    · exact .inr ⟨_, _, rfl, rfl, heq, .inl ⟨htype, of_decide_eq_true hlt⟩⟩
  · next htype =>
    obtain ⟨r, hr, rfl⟩ := Option.map_eq_some_iff.1 h
    obtain ⟨-, hsame⟩ | ⟨hlt, heq⟩ := applied_cases hr
    · exact .inl hsame
    · exact .inr ⟨_, _, rfl, rfl, heq, .inr ⟨htype, of_decide_eq_true hlt⟩⟩
  · exact .inl (Option.some.inj h).symm

/-- What a client can do by itself, one case for each event. -/
theorem step_cases {A : LinkedHeap.Allocator} {l l' : Link} {e : ClientEvent} {o : Option Message}
    (h : l.step A e = some (o, l')) :
    (∃ key value, e = .put key value ∧ o = none ∧
      l' = l.withCache (l.client.cache.cache.put A key value)) ∨
    (∃ key, e = .get key ∧ o = none ∧ l' = l.withCache (l.client.cache.cache.get key).2) ∨
    (∃ l₁, e = .register ∧ o = none ∧ l.client.starting = true ∧
      l₁ = l.registerCache l.client.cache.sizeBytes ∧
      l' = { l₁ with client := { l₁.client with listening := true, starting := false } }) ∨
    (∃ msg conn down, e = .deliver ∧ o = some msg ∧ l.conn = some conn ∧
      conn.down.receive? = some (msg, down) ∧
      processMessage { l with conn := some { conn with down := down } } msg = some l') ∨
    (e = .lost ∧ o = none ∧ l' = { l with client := { l.client with connected := false } }) := by
  cases e with
  | put key value =>
    obtain ⟨rfl, rfl⟩ := Prod.mk.inj (Option.some.inj h)
    exact .inl ⟨key, value, rfl, rfl, rfl⟩
  | get key =>
    obtain ⟨rfl, rfl⟩ := Prod.mk.inj (Option.some.inj h)
    exact .inr (.inl ⟨key, rfl, rfl, rfl⟩)
  | register =>
    obtain ⟨rfl, hreg⟩ := Machine.silent_eq_some.1 h
    unfold register at hreg
    split_ifs at hreg with hstarting
    exact .inr (.inr (.inl ⟨_, rfl, rfl, hstarting, rfl, (Option.some.inj hreg).symm⟩))
  | deliver =>
    obtain ⟨msg, l₁, hin, hproc, rfl⟩ := deliver_eq_some.1 h
    obtain ⟨-, -, conn, down, hconn, hrecv, rfl⟩ := incoming_eq_some.1 hin
    exact .inr (.inr (.inr (.inl ⟨msg, conn, down, rfl, rfl, hconn, hrecv, hproc⟩)))
  | lost =>
    unfold step at h
    split_ifs at h
    obtain ⟨rfl, rfl⟩ := Prod.mk.inj (Option.some.inj h)
    exact .inr (.inr (.inr (.inr ⟨rfl, rfl, rfl⟩)))

/-- A message handled leaves the ends alone. -/
theorem processMessage_ends {l l' : Link} {msg : Message} (h : l.processMessage msg = some l') :
    l'.ends = l.ends := by
  obtain rfl | ⟨n, l₁, -, rfl, rfl, -⟩ := processMessage_cases h
  · rfl
  · rw [reportSize, send_ends, withCache_ends]

/-- A client by itself leaves its ends alone. -/
theorem step_ends {A : LinkedHeap.Allocator} {l l' : Link} {e : ClientEvent} {o : Option Message}
    (h : l.step A e = some (o, l')) : l'.ends = l.ends := by
  obtain ⟨key, value, -, -, rfl⟩ | ⟨key, -, -, rfl⟩ | ⟨l₁, -, -, -, rfl, rfl⟩ |
    ⟨msg, conn, down, -, -, hconn, hrecv, hproc⟩ | ⟨-, -, rfl⟩ := step_cases h
  · exact withCache_ends l _
  · exact withCache_ends l _
  · exact send_ends l _
  · rw [processMessage_ends hproc]
    simp [ends, hconn, Channel.sent_of_receive? hrecv]
  · rfl

/-- A client by itself does not change the estimate of an entry's bytes. -/
theorem step_entry_bytes {A : LinkedHeap.Allocator} {l l' : Link} {e : ClientEvent}
    {o : Option Message} (h : l.step A e = some (o, l')) :
    l'.client.cache.estimated_entry_bytes = l.client.cache.estimated_entry_bytes := by
  obtain ⟨key, value, -, -, rfl⟩ | ⟨key, -, -, rfl⟩ | ⟨l₁, -, -, -, rfl, rfl⟩ |
    ⟨msg, conn, down, -, -, -, -, hproc⟩ | ⟨-, -, rfl⟩ := step_cases h
  · rfl
  · rfl
  · exact congrArg GovernedCache.estimated_entry_bytes (send_cache l _)
  · obtain rfl | ⟨n, l₁, -, rfl, rfl, -⟩ := processMessage_cases hproc
    · rfl
    · rw [reportSize, send_cache]
      rfl
  · rfl

end Link

end MemoryGovernor
