import MemoryGovernor.Registry.ClientRegistry
import MemoryGovernor.System.Link

/-!
# The daemon and its clients

Any number of clients and the daemon's registry, as a machine whose labels say who moves: a client
by itself, a client opening or closing its socket, the daemon accepting a connection, reading a
message or removing a client, and the daemon broadcasting a command. Every interleaving is a list of
labels.

The registry is keyed by descriptors, which are reused; `fds` says which connection a descriptor is
at the moment. A step is undefined where its label cannot happen and where the source's behaviour is
undefined.
-/

namespace MemoryGovernor

/-- The parameters of a client's process. -/
structure ClientConfig where
  pid : Int32
  max_capacity : ℕ
  estimated_entry_bytes : UInt64

/-- The state of daemon and clients. -/
structure System where
  clients : ClientId → Client
  registry : ClientRegistry
  /-- The daemon's descriptors of accepted connections. -/
  fds : ℕ → Option ConnId
  /-- The connections waiting to be accepted. -/
  backlog : List ConnId
  conns : ConnId → Connection
  /-- The number of connections opened so far. -/
  opened : ConnId

/-- Who moves. -/
inductive Event
  | client (k : ClientId) (e : ClientEvent)
  /-- `start` calls `connect`. -/
  | connect (k : ClientId)
  /-- The listener's loop calls `connect`. -/
  | reconnect (k : ClientId)
  /-- `stop`. -/
  | stop (k : ClientId)
  /-- `handle_new_connection` accepts a connection as descriptor `client_fd`. -/
  | accept (client_fd : ℕ)
  /-- `handle_client_message` reads a message. -/
  | receive (client_fd : ℕ)
  /-- `remove_client`, after end-of-file or an error. -/
  | remove (client_fd : ℕ)
  /-- The registry's `stop`, and `start` of the next one. -/
  | restart
  /-- `broadcast_shrink` or `broadcast_grow`. -/
  | broadcast (cmd : Command) (fraction : ℚ)
deriving DecidableEq, Repr

namespace System

/-- Before anything has happened. -/
def init (configs : ClientId → ClientConfig) : System where
  clients k := {
    pid := (configs k).pid
    cache := GovernedCache.new (configs k).max_capacity (configs k).estimated_entry_bytes }
  registry := {}
  fds _ := none
  backlog := []
  conns k := { peer := k }
  opened := 0

/-- Client `k` and its connection. -/
def link (st : System) (k : ClientId) : Link :=
  ⟨st.clients k, (st.clients k).sock_fd.map st.conns⟩

/-- Client `k` and its connection replaced. -/
def setLink (st : System) (k : ClientId) (l : Link) : System :=
  { st with
    clients := Function.update st.clients k l.client
    conns := match (st.clients k).sock_fd, l.conn with
      | some c, some conn => Function.update st.conns c conn
      | _, _ => st.conns }

/-- Client `k` replaced. -/
def setClient (st : System) (k : ClientId) (client : Client) : System :=
  { st with clients := Function.update st.clients k client }

/-- `connect`: a new connection, unless the client is connected. The socket that it had before, if
any, stays open. -/
def connect (st : System) (k : ClientId) : System :=
  if (st.clients k).connected then st
  else
    -- The old descriptor is overwritten, so its connection is never closed.
    { st with
      clients := Function.update st.clients k
        { st.clients k with sock_fd := some st.opened, connected := true }
      backlog := st.backlog ++ [st.opened]
      conns := Function.update st.conns st.opened { peer := k }
      opened := st.opened + 1 }

/-- `stop_listening` and `disconnect`: the socket is closed and forgotten. -/
def stop (st : System) (k : ClientId) : System :=
  { st with
    clients := Function.update st.clients k
      { st.clients k with sock_fd := none, connected := false, listening := false }
    -- Without a socket there is nothing to close.
    conns := match (st.clients k).sock_fd with
      | some c => Function.update st.conns c { st.conns c with client_open := false }
      | none => st.conns }

/-- `handle_new_connection`, once around its loop: the first connection waiting is accepted, as a
descriptor that is not open. -/
def accept (st : System) (client_fd : ℕ) : Option System :=
  -- The kernel gives the new connection a descriptor that is free.
  match st.backlog, st.fds client_fd with
  | c :: rest, none => some { st with
      registry := st.registry.addClient client_fd
      fds := Function.update st.fds client_fd (some c)
      backlog := rest }
  | _, _ => none

/-- `handle_client_message`, once around its loop. -/
def receive (st : System) (client_fd : ℕ) : Option System :=
  (st.fds client_fd).bind fun c => (st.conns c).up.receive?.map fun r =>
    { st with
      registry := st.registry.handleMessage client_fd r.1
      conns := Function.update st.conns c { st.conns c with up := r.2 } }

/-- `remove_client`: the entry is erased and the descriptor closed. -/
def remove (st : System) (client_fd : ℕ) : Option System :=
  (st.fds client_fd).map fun c =>
    { st with
      registry := st.registry.removeClient client_fd
      fds := Function.update st.fds client_fd none
      conns := Function.update st.conns c { st.conns c with daemon_open := false } }

/-- The registry's `stop`, which closes the listening socket and every descriptor and forgets the
clients, and `start`. -/
def restart (st : System) : System :=
  { st with
    registry := {}
    fds := fun _ => none
    backlog := []
    conns := fun c => { st.conns c with daemon_open := false } }

/-- `send_to_client`. -/
def sendToClient (st : System) (m : ℕ × Message) : System :=
  match st.fds m.1 with
  | some c => { st with conns := Function.update st.conns c ((st.conns c).sendDown m.2) }
  | none => st

/-- What `broadcast_shrink` and `broadcast_grow` share. The registry's mutex is held throughout. -/
def broadcast (st : System) (cmd : Command) (fraction : ℚ) : Option System :=
  (st.registry.commands cmd fraction).map fun ms => ms.foldl sendToClient st

/-- `broadcast_shrink`. -/
def broadcastShrink (st : System) (fraction : ℚ) : Option System := st.broadcast .shrink fraction

/-- `broadcast_grow`. -/
def broadcastGrow (st : System) (fraction : ℚ) : Option System := st.broadcast .grow fraction

/-- One step, with the message handed to a client's `process_message` if there is one. -/
def step (A : ClientId → LinkedHeap.Allocator) (st : System) :
    Event → Option (Option Message × System)
  | .client k e => ((st.link k).step (A k) e).map fun r => (r.1, st.setLink k r.2)
  | .connect k =>
    -- `start` goes on to register, also if the client was connected before.
    let st := st.connect k
    some (none, st.setClient k { st.clients k with starting := true })
  | .reconnect k =>
    -- The listener goes on to read: nothing here registers.
    if (st.clients k).listening ∧ ¬ (st.clients k).connected then some (none, st.connect k)
    else none
  | .stop k => some (none, st.stop k)
  | .accept client_fd => (st.accept client_fd).map fun st => (none, st)
  | .receive client_fd => (st.receive client_fd).map fun st => (none, st)
  | .remove client_fd => (st.remove client_fd).map fun st => (none, st)
  | .restart => some (none, st.restart)
  | .broadcast cmd fraction => (st.broadcast cmd fraction).map fun st => (none, st)

end System

end MemoryGovernor
