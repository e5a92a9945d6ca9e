import MemoryGovernor.Registry.Broadcast
import MemoryGovernor.Registry.Reader
import MemoryGovernor.System.Listener

/-!
# Daemon and clients over sockets of bounded size

The threads that wait for each other, and what they wait for. The daemon's poll thread broadcasts
under the registry's mutex, and `send_to_client` tries again as long as a client's socket is full.
The event loop reads what the clients send and takes the same mutex for every message. A client's
listener reads commands; while it handles one it holds the mutex of the cache, and it does not read
on before its report is written, for which its `write` blocks as long as the socket is full.

A socket holds no more bytes than `Room` says, in either direction. A write takes as many as fit, a
payload is read in any pieces, and a length in one piece. The clients are connected from the start,
at the beginning of their registration, and no connection ends; `put` and `get` come at any time at
which the mutex of the cache is free.
-/

namespace MemoryGovernor

open Framing (Position Outcome)

/-- What the kernel holds of what is sent to a client and from it, at most. -/
structure Room where
  down : ℕ → ℕ
  up : ℕ → ℕ

/-- Where the event loop's thread is. -/
inductive ServeControl
  /-- In `epoll_wait`. -/
  | waiting
  /-- In `handle_client_message`, at a `read`. -/
  | reading (client_fd : ℕ) (position : Position)
  /-- There, with a message, at the registry's mutex. -/
  | locking (client_fd : ℕ) (msg : Message)
deriving DecidableEq, Repr

/-- Where a client's thread is that reads commands and reports. -/
inductive PeerControl
  /-- At a `read` of the listener. -/
  | reading (position : Position)
  /-- In `send_message`, with this part of a frame still to write. The mutex of the cache is
  held. -/
  | writing (rest : Bytes)
deriving DecidableEq, Repr

/-- A client and its connection. -/
structure Peer where
  pid : Int32
  cache : GovernedCache
  control : PeerControl
  /-- In the kernel, on its way to the client. -/
  down : Bytes := []
  /-- In the kernel, on its way to the daemon. -/
  up : Bytes := []

namespace Peer

/-- `register_cache`, as `start` calls it. -/
def registering (pid : Int32) (cache : GovernedCache) : Peer where
  pid := pid
  cache := cache
  control := .writing (Message.frame
    { type := .REGISTER, pid := pid, current_size_bytes := cache.sizeBytes })

/-- The end of `handle_shrink` and `handle_grow`: the cache after the target, and the report if
there is one. -/
def applied (p : Peer) (r : Option UInt64 × GovernedCache) : Peer :=
  { p with
    cache := r.2
    control := match r.1 with
      | some size => .writing (Message.frame
          { type := .REPORT_SIZE, pid := p.pid, current_size_bytes := size })
      | none => .reading .header }

/-- `process_message`. -/
def processMessage (p : Peer) (msg : Message) : Option Peer :=
  match msg.type with
  | .SHRINK => (p.cache.handleShrink msg.target_bytes).map p.applied
  | .GROW => (p.cache.handleGrow msg.target_bytes).map p.applied
  | _ => some { p with control := .reading .header }

/-- The rest of the listener's round after a `read`. -/
def heard (p : Peer) : Outcome → Option Peer
  | .more .header => some { p with control := .reading .header }
  | .more (.payload len got) =>
    -- Too large a length, and one of 0 below, ends the connection.
    if len ≤ 65536 then some { p with control := .reading (.payload len got) } else none
  | .whole payload =>
    match Message.deserialize payload with
    | .ok msg => if payload = [] then none else p.processMessage msg
    | .error _ => none

/-- A `read` of the listener returns `n` bytes. -/
def hear (p : Peer) (n : ℕ) : Option Peer :=
  match p.control with
  | .reading position =>
    (position.read p.down n).bind fun out => { p with down := p.down.drop n }.heard out
  | .writing _ => none

/-- A `write` of `send_message` takes `n` bytes. After the last of them the client listens. -/
def send (p : Peer) (room n : ℕ) : Option Peer :=
  match p.control with
  | .writing rest =>
    if 1 ≤ n ∧ n ≤ rest.length ∧ p.up.length + n ≤ room then
      some { p with
        up := p.up ++ rest.take n
        control := if n < rest.length then .writing (rest.drop n) else .reading .header }
    else none
  | .reading _ => none

/-- The application's `put` or `get` gets the mutex of the cache, and leaves this cache. -/
def use (p : Peer) (cache : SoundCache String String) : Option Peer :=
  match p.control with
  | .reading _ => some { p with cache := { p.cache with cache := cache } }
  | .writing _ => none

end Peer

/-- The daemon with its two threads, and the clients by their descriptors. -/
structure Exchange where
  registry : ClientRegistry
  /-- The poll thread's broadcast, which holds the registry's mutex, or an earlier one. -/
  poll : Broadcast
  serve : ServeControl
  peers : ℕ → Peer

/-- What happens next. -/
inductive ExchangeEvent
  /-- `broadcast_shrink` or `broadcast_grow` gets the mutex and has these messages to send. -/
  | broadcast (cmd : Command) (fraction : ℚ) (order : List (ℕ × Message))
  /-- A `write` of `send_to_client` takes this many bytes. -/
  | write (n : ℕ)
  /-- The loop of `send_to_client` is at its end, or that of the broadcast. -/
  | leave
  /-- `epoll_wait` returns an event of this client. -/
  | wake (client_fd : ℕ)
  /-- A `read` of the event loop returns this many bytes. -/
  | read (n : ℕ)
  /-- It fails with `EAGAIN`, before a length. -/
  | again
  /-- The event loop gets the mutex and records its message. -/
  | record
  | hear (k : ℕ) (n : ℕ)
  | send (k : ℕ) (n : ℕ)
  | put (k : ℕ) (key value : String)
  | get (k : ℕ) (key : String)
deriving DecidableEq, Repr

namespace Exchange

/-- The clients `fds` are connected, and about to register. -/
def init (fds : List ℕ) (clients : ℕ → Int32 × GovernedCache) : Exchange where
  registry := fds.foldl ClientRegistry.addClient {}
  poll := { Broadcast.start [] with locked := false }
  serve := .waiting
  peers k :=
    if k ∈ fds then .registering (clients k).1 (clients k).2
    else { pid := (clients k).1, cache := (clients k).2, control := .reading .header }

/-- Client `k` replaced. -/
def setPeer (s : Exchange) (k : ℕ) (p : Peer) : Exchange :=
  { s with peers := Function.update s.peers k p }

@[simp]
theorem setPeer_self (s : Exchange) (k : ℕ) (p : Peer) : (s.setPeer k p).peers k = p := by
  simp [setPeer]

theorem setPeer_of_ne {s : Exchange} {j k : ℕ} {p : Peer} (h : j ≠ k) :
    (s.setPeer k p).peers j = s.peers j := by
  simp [setPeer, h]

/-- `handle_client_message` after a `read`. -/
def received (s : Exchange) (client_fd : ℕ) : Outcome → Exchange
  | .more position => { s with serve := .reading client_fd position }
  | .whole json =>
    match Message.deserialize json with
    | .ok msg => { s with serve := .locking client_fd msg }
    | .error _ => { s with serve := .reading client_fd .header }

/-- The threads, from one call that can wait to the next. A call that has to wait is no step. -/
def step (R : Room) (A : LinkedHeap.Allocator) (s : Exchange) :
    ExchangeEvent → Option (Unit × Exchange)
  | .broadcast cmd fraction order =>
    if s.poll.locked = false ∧ ∃ cmds ∈ s.registry.commands cmd fraction, order.Perm cmds then
      some ((), { s with poll := Broadcast.start order })
    else none
  | .write n =>
    match s.poll.todo with
    | (fd, frame) :: _ =>
      let p := s.peers fd
      if 1 ≤ n ∧ n ≤ frame.length - s.poll.total_written ∧ p.down.length + n ≤ R.down fd then
        (Broadcast.step signals s.poll (.write (.room n))).map fun r =>
          ((), { s with poll := r.2 }.setPeer fd
            { p with down := p.down ++ (frame.drop s.poll.total_written).take n })
      else none
    | [] => none
  | .leave => (Broadcast.step signals s.poll .leave).map fun r => ((), { s with poll := r.2 })
  | .wake fd =>
    if s.serve = .waiting ∧ (s.peers fd).up ≠ [] then
      some ((), { s with serve := .reading fd .header })
    else none
  | .read n =>
    match s.serve with
    | .reading fd position =>
      let p := s.peers fd
      (position.read p.up n).map fun out =>
        ((), (s.setPeer fd { p with up := p.up.drop n }).received fd out)
    | _ => none
  | .again =>
    match s.serve with
    | .reading fd .header =>
      if (s.peers fd).up = [] then some ((), { s with serve := .waiting }) else none
    | _ => none
  | .record =>
    match s.serve with
    | .locking fd msg =>
      if s.poll.locked = false then
        some ((), { s with
          registry := s.registry.handleMessage fd msg
          serve := .reading fd .header })
      else none
    | _ => none
  | .hear k n => ((s.peers k).hear n).map fun p => ((), s.setPeer k p)
  | .send k n => ((s.peers k).send (R.up k) n).map fun p => ((), s.setPeer k p)
  | .put k key value =>
    ((s.peers k).use ((s.peers k).cache.cache.put A key value)).map fun p => ((), s.setPeer k p)
  | .get k key =>
    ((s.peers k).use ((s.peers k).cache.cache.get key).2).map fun p => ((), s.setPeer k p)

/-! ## The readers of either side -/

section Readers

variable {position : Position} {s : Bytes} {n : ℕ} {out : Outcome}

/-- What the event loop reads is what `Reader` does with the same bytes; there a message is recorded
with the last `read` of it. -/
theorem reader_read (client_fd : ℕ) (r : ClientRegistry) : position.read s n = some out →
    Reader.step client_fd ⟨r, some position, s⟩ (.data n) = some ((), match out with
      | .more position' => ⟨r, some position', s.drop n⟩
      | .whole json => Reader.handlePayload client_fd ⟨r, some position, s.drop n⟩ json) := by
  intro h
  cases position with
  | header =>
    obtain ⟨⟨rfl, h4⟩, hout⟩ := Option.ite_none_right_eq_some.1 h
    obtain rfl := Option.some.inj hout
    rw [Reader.step_length client_fd rfl h4]
    rcases Nat.eq_zero_or_pos (Framing.readBe32 (s.take 4)) with hzero | hpos
    · simp [Reader.readPayload, hzero]
    · simp [Reader.readPayload, hpos, hpos.ne']
  | payload len got =>
    obtain ⟨⟨h1, hle, hn⟩, hout⟩ := Option.ite_none_right_eq_some.1 h
    obtain rfl := Option.some.inj hout
    rw [Reader.step_part client_fd rfl h1 hle hn, Reader.readPayload]
    split_ifs <;> rfl

/-- What a client's listener reads is what `Listener` does with the same bytes, where the length is
one that a message has. -/
theorem listener_read (c : Callbacks) : position.read s n = some out → out ≠ .whole [] →
    (∀ len got, out = .more (.payload len got) → len ≤ 65536) →
    Listener.step c ⟨true, true, .reading position, s⟩ (.data n) = some (match out with
      | .more position' => (none, ⟨true, true, .reading position', s.drop n⟩)
      | .whole payload =>
        Listener.handlePayload c ⟨true, true, .reading position, s.drop n⟩ payload) := by
  intro h hzero hle
  cases position with
  | header =>
    obtain ⟨⟨rfl, h4⟩, hout⟩ := Option.ite_none_right_eq_some.1 h
    have hne : Framing.readBe32 (s.take 4) ≠ 0 := by
      intro heq
      rw [if_pos heq] at hout
      exact hzero (Option.some.inj hout).symm
    rw [if_neg hne] at hout
    obtain rfl := Option.some.inj hout
    have hlen := hle _ _ rfl
    simp [Listener.step, h4, hne, hlen.not_gt]
  | payload len got =>
    obtain ⟨⟨h1, hgot, hn⟩, hout⟩ := Option.ite_none_right_eq_some.1 h
    obtain rfl := Option.some.inj hout
    simp only [Listener.step, h1, hgot, hn, and_self, if_true]
    split_ifs <;> rfl

/-- What it does with a message is what the two callbacks do. -/
theorem processMessage_callback (p : Peer) (msg : Message) : p.processMessage msg =
    match Callbacks.processMessage ⟨true, true⟩ msg with
    | some (.shrink target_bytes) => (p.cache.handleShrink target_bytes).map p.applied
    | some (.grow target_bytes) => (p.cache.handleGrow target_bytes).map p.applied
    | none => some { p with control := .reading .header } := by
  unfold Peer.processMessage Callbacks.processMessage
  cases msg.type <;> rfl

end Readers

/-! ## Steps -/

/-- The ways in which a step goes. -/
inductive Steps (R : Room) (A : LinkedHeap.Allocator) (s : Exchange) :
    ExchangeEvent → Exchange → Prop
  | broadcast {cmd : Command} {fraction : ℚ} {order cmds : List (ℕ × Message)}
      (hfree : s.poll.locked = false) (hcmds : s.registry.commands cmd fraction = some cmds)
      (horder : order.Perm cmds) :
      Steps R A s (.broadcast cmd fraction order) { s with poll := Broadcast.start order }
  | write {fd n : ℕ} {frame : Bytes} {rest : List (ℕ × Bytes)}
      (htodo : s.poll.todo = (fd, frame) :: rest) (h1 : 1 ≤ n)
      (hle : n ≤ frame.length - s.poll.total_written)
      (hroom : (s.peers fd).down.length + n ≤ R.down fd) :
      Steps R A s (.write n) ({ s with poll := s.poll.wrote fd frame n }.setPeer fd
        { s.peers fd with
          down := (s.peers fd).down ++ (frame.drop s.poll.total_written).take n })
  | nextClient {fd : ℕ} {frame : Bytes} {rest : List (ℕ × Bytes)}
      (htodo : s.poll.todo = (fd, frame) :: rest) (hle : frame.length ≤ s.poll.total_written) :
      Steps R A s .leave { s with poll := s.poll.nextClient }
  | unlock (htodo : s.poll.todo = []) (hlocked : s.poll.locked = true) :
      Steps R A s .leave { s with poll := { s.poll with locked := false } }
  | wake {fd : ℕ} (hserve : s.serve = .waiting) (hup : (s.peers fd).up ≠ []) :
      Steps R A s (.wake fd) { s with serve := .reading fd .header }
  | read {fd n : ℕ} {position : Position} {out : Outcome}
      (hserve : s.serve = .reading fd position)
      (hread : position.read (s.peers fd).up n = some out) :
      Steps R A s (.read n)
        ((s.setPeer fd { s.peers fd with up := (s.peers fd).up.drop n }).received fd out)
  | again {fd : ℕ} (hserve : s.serve = .reading fd .header) (hup : (s.peers fd).up = []) :
      Steps R A s .again { s with serve := .waiting }
  | record {fd : ℕ} {msg : Message} (hserve : s.serve = .locking fd msg)
      (hfree : s.poll.locked = false) :
      Steps R A s .record { s with
        registry := s.registry.handleMessage fd msg
        serve := .reading fd .header }
  | hear {k n : ℕ} {p : Peer} (h : (s.peers k).hear n = some p) :
      Steps R A s (.hear k n) (s.setPeer k p)
  | send {k n : ℕ} {p : Peer} (h : (s.peers k).send (R.up k) n = some p) :
      Steps R A s (.send k n) (s.setPeer k p)
  | use {e : ExchangeEvent} {k : ℕ} {cache : SoundCache String String} {p : Peer}
      (he : (∃ key value, e = .put k key value) ∨ ∃ key, e = .get k key)
      (h : (s.peers k).use cache = some p) : Steps R A s e (s.setPeer k p)

/-- A step that is defined goes in one of these ways. -/
theorem steps_of_step {R : Room} {A : LinkedHeap.Allocator} {s t : Exchange} {e : ExchangeEvent}
    {o : Unit} (hstep : step R A s e = some (o, t)) : Steps R A s e t := by
  cases e with
  | broadcast cmd fraction order =>
    obtain ⟨⟨hfree, cmds, hcmds, horder⟩, heq⟩ := Option.ite_none_right_eq_some.1 hstep
    obtain rfl := (Prod.mk.inj (Option.some.inj heq)).2
    exact .broadcast hfree hcmds horder
  | write n =>
    simp only [step] at hstep
    split at hstep
    next fd frame rest htodo =>
      obtain ⟨⟨h1, hle, hroom⟩, hmap⟩ := Option.ite_none_right_eq_some.1 hstep
      obtain ⟨⟨u, poll⟩, hpoll, heq⟩ := Option.map_eq_some_iff.1 hmap
      obtain rfl := (Prod.mk.inj heq).2
      simp only [Broadcast.step, htodo] at hpoll
      obtain ⟨-, hpoll⟩ := Option.ite_none_right_eq_some.1 hpoll
      obtain rfl := (Prod.mk.inj (Option.some.inj hpoll)).2
      exact .write htodo h1 hle hroom
    next => cases hstep
  | leave =>
    obtain ⟨⟨u, poll⟩, hpoll, heq⟩ := Option.map_eq_some_iff.1 hstep
    obtain rfl := (Prod.mk.inj heq).2
    simp only [Broadcast.step] at hpoll
    split at hpoll
    next fd frame rest htodo =>
      obtain ⟨⟨-, hle⟩, hpoll⟩ := Option.ite_none_right_eq_some.1 hpoll
      obtain rfl := (Prod.mk.inj (Option.some.inj hpoll)).2
      exact .nextClient htodo hle
    next htodo =>
      obtain ⟨⟨-, hlocked⟩, hpoll⟩ := Option.ite_none_right_eq_some.1 hpoll
      obtain rfl := (Prod.mk.inj (Option.some.inj hpoll)).2
      exact .unlock htodo hlocked
  | wake fd =>
    obtain ⟨⟨hserve, hup⟩, heq⟩ := Option.ite_none_right_eq_some.1 hstep
    obtain rfl := (Prod.mk.inj (Option.some.inj heq)).2
    exact .wake hserve hup
  | read n =>
    simp only [step] at hstep
    split at hstep
    next fd position hserve =>
      obtain ⟨out, hread, heq⟩ := Option.map_eq_some_iff.1 hstep
      obtain rfl := (Prod.mk.inj heq).2
      exact .read hserve hread
    next => cases hstep
  | again =>
    simp only [step] at hstep
    split at hstep
    next fd hserve =>
      obtain ⟨hup, heq⟩ := Option.ite_none_right_eq_some.1 hstep
      obtain rfl := (Prod.mk.inj (Option.some.inj heq)).2
      exact .again hserve hup
    next => cases hstep
  | record =>
    simp only [step] at hstep
    split at hstep
    next fd msg hserve =>
      obtain ⟨hfree, heq⟩ := Option.ite_none_right_eq_some.1 hstep
      obtain rfl := (Prod.mk.inj (Option.some.inj heq)).2
      exact .record hserve hfree
    next => cases hstep
  | hear k n =>
    obtain ⟨p, hp, heq⟩ := Option.map_eq_some_iff.1 hstep
    obtain rfl := (Prod.mk.inj heq).2
    exact .hear hp
  | send k n =>
    obtain ⟨p, hp, heq⟩ := Option.map_eq_some_iff.1 hstep
    obtain rfl := (Prod.mk.inj heq).2
    exact .send hp
  | put k key value =>
    obtain ⟨p, hp, heq⟩ := Option.map_eq_some_iff.1 hstep
    obtain rfl := (Prod.mk.inj heq).2
    exact .use (.inl ⟨key, value, rfl⟩) hp
  | get k key =>
    obtain ⟨p, hp, heq⟩ := Option.map_eq_some_iff.1 hstep
    obtain rfl := (Prod.mk.inj heq).2
    exact .use (.inr ⟨key, rfl⟩) hp

end Exchange

end MemoryGovernor
